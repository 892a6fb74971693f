/-
What a step of the runtime comes to (`Change`).

Messages of pallets and of accounts are logged and nothing else: no handler
takes them. A message of an off-chain sender has been verified, and is handled
by at most one pallet (`Routed`).
-/
import Khala.Runtime

namespace Khala.Runtime

open Messaging

variable {A : Type} [DecidableEq A] {cfg : Config A} {n n' : Node A} {w : World A} {message : Mq.Message}

/-! ## Topics -/

theorem registry_ne_update : RegistryEvent.topic ≠ MiningInfoUpdateEvent.topic := by decide

theorem registry_ne_report : RegistryEvent.topic ≠ MiningReportEvent.topic := by decide

theorem update_ne_report : MiningInfoUpdateEvent.topic ≠ MiningReportEvent.topic := by decide

/-- Everybody may subscribe to what the registry pushes. -/
theorem registryMessage_isOffchain (event : PhalaRegistry.Event) :
    (registryMessage event).destination.isOffchain = true := by
  cases event with
  | system event => exact (by decide : (⟨SystemEvent.topic⟩ : Mq.Topic).isOffchain = true)
  | launch event => exact (by decide : (⟨GatekeeperLaunch.topic⟩ : Mq.Topic).isOffchain = true)
  | change event => exact (by decide : (⟨GatekeeperChange.topic⟩ : Mq.Topic).isOffchain = true)

theorem registryMessage_sender (event : PhalaRegistry.Event) :
    (registryMessage event).sender = .pallet phalaRegistry := by
  cases event with
  | system => rfl
  | launch => rfl
  | change => rfl

/-! ## Routing -/

/-- What handling a message does. -/
inductive Routed (cfg : Config A) (w : World A) (message : Mq.Message) : World A × List Mq.Message → Prop
  | nothing : Routed cfg w message (w, [])
  | panic : message.sender.isOffchain = true → Routed cfg w message ({ w with panicked := true }, [])
  | registry {key : Key} {payload registry} {events : List PhalaRegistry.Event} : message.sender = .worker key.1 →
      w.registry.onMessageReceived cfg.registry w.pallets.now message.sender payload = .ok (registry, events) →
      Routed cfg w message ({ w with registry }, events.map registryMessage)
  | update {payload pallets} {events : List SystemEvent} : message.sender = .gatekeeper →
      w.state.gkMessage cfg.pallets (settling payload) = .ok pallets →
      Routed cfg w message ({ w with pallets }, events.map (systemMessage phalaMining))
  | report {key : Key} {iterations challengeTime pallets} : message.sender = .worker key.1 →
      w.state.heartbeat cfg.pallets key iterations challengeTime = .ok pallets →
      Routed cfg w message ({ w with pallets }, [])

omit [DecidableEq A] in
theorem tryDispatch_other {M : Type} {topic : Bytes} {format : Format UInt8 M}
    {func : Mq.MessageOrigin → M → Handler A Unit}
    (h : message.destination.path ≠ topic) : tryDispatch topic format func message = pure () := by
  rw [tryDispatch, if_neg h]

/-- How a handler ends: it has done nothing but what the message is good for. -/
def Handled (cfg : Config A) (w : World A) (message : Mq.Message) (x : Handler A Unit) : Prop :=
  x.Ends (w, []) (fun _ s => Routed cfg w message s)
    fun e s => s = (w, []) ∧ (e = .panic → message.sender.isOffchain = true)

theorem Handled.tryDispatch {M : Type} {topic : Bytes} {format : Format UInt8 M}
    {func : Mq.MessageOrigin → M → Handler A Unit}
    (h : ∀ payload, Handled cfg w message (func message.sender payload)) :
    Handled cfg w message (tryDispatch topic format func message) := by
  unfold Runtime.tryDispatch
  split
  · split
    · next payload _ => exact h payload
    · exact Call.Ends.throw ⟨rfl, nofun⟩
  · exact Call.Ends.pure .nothing

theorem workerPubkey_ok {sender : Mq.MessageOrigin} {key : Key}
    (h : PhalaRegistry.Storage.workerPubkey sender = .ok key) : sender = .worker key.1 := by
  unfold PhalaRegistry.Storage.workerPubkey at h
  split at h
  · split at h
    · cases h
      rfl
    · cases h
  · cases h

theorem workerPubkey_error {sender : Mq.MessageOrigin} {e : PhalaRegistry.Fault}
    (h : PhalaRegistry.Storage.workerPubkey sender = .error e) : e = .dispatch .invalidSender := by
  unfold PhalaRegistry.Storage.workerPubkey at h
  split at h
  · split at h
    · cases h
    · cases h
      rfl
  · cases h
    rfl

theorem registryReceived_handled (payload : RegistryEvent) :
    Handled cfg w message (registryReceived cfg message.sender payload) := by
  refine Call.ends_of (fun _ s h => ?_) fun e s h => ?_
  · unfold registryReceived at h
    split at h
    · next registry events hreceived =>
      cases h
      obtain ⟨key, hkey, -⟩ := Outcome.bind_ok.mp hreceived
      exact .registry (workerPubkey_ok hkey) hreceived
    · cases h
    · cases h
  · unfold registryReceived at h
    split at h
    · cases h
    · cases h
      exact ⟨rfl, nofun⟩
    · next hreceived =>
      cases h
      refine ⟨rfl, fun _ => ?_⟩
      rcases Outcome.bind_error.mp hreceived with hkey | ⟨key, hkey, -⟩
      · cases workerPubkey_error hkey
      · rw [workerPubkey_ok hkey]
        rfl

theorem onGkMessageReceived_handled (payload : Messaging.MiningInfoUpdateEvent) :
    Handled cfg w message (onGkMessageReceived cfg message.sender payload) := by
  refine Call.ends_of (fun _ s h => ?_) fun e s h => ?_
  · unfold onGkMessageReceived at h
    split at h
    · cases h
    · next hsender =>
      split at h
      · next pallets hpallets =>
        cases h
        exact .update (not_not.mp hsender) hpallets
      · cases h
      · cases h
  · unfold onGkMessageReceived at h
    split at h
    · cases h
      exact ⟨rfl, nofun⟩
    · next hsender =>
      split at h
      · cases h
      · cases h
        exact ⟨rfl, nofun⟩
      · cases h
        refine ⟨rfl, fun _ => ?_⟩
        rw [not_not.mp hsender]
        rfl

theorem onMiningMessageReceived_handled (payload : MiningReportEvent) :
    Handled cfg w message (onMiningMessageReceived cfg message.sender payload) := by
  unfold onMiningMessageReceived
  cases hsender : message.sender with
  | worker bytes =>
    dsimp only
    split
    · next hlength =>
      refine Call.ends_of (fun _ s h => ?_) fun e s h => ?_
      · split at h
        · next pallets hpallets =>
          cases h
          have hkey : message.sender = .worker (⟨bytes, hlength⟩ : Key).1 := hsender
          exact .report hkey hpallets
        · cases h
        · cases h
      · split at h
        · cases h
        · cases h
          exact ⟨rfl, nofun⟩
        · cases h
          refine ⟨rfl, fun _ => ?_⟩
          rw [hsender]
          rfl
    · exact Call.Ends.pure .nothing
  | _ => exact Call.Ends.pure .nothing

omit [DecidableEq A] in
theorem pure_then (x : Handler A Unit) : ((pure () : Handler A Unit) >>= fun _ => x) = x := rfl

/-- A message has one topic, so at most one pallet takes it. -/
theorem onMessageReceived_handled : Handled cfg w message (onMessageReceived cfg message) := by
  unfold onMessageReceived
  by_cases hregistry : message.destination.path = RegistryEvent.topic
  · have hupdate : message.destination.path ≠ MiningInfoUpdateEvent.topic := by
      rw [hregistry]; exact registry_ne_update
    have hreport : message.destination.path ≠ MiningReportEvent.topic := by
      rw [hregistry]; exact registry_ne_report
    rw [tryDispatch_other hupdate, tryDispatch_other hreport]
    exact Call.Ends.bind (Handled.tryDispatch registryReceived_handled) fun _ _ h => h
  · rw [tryDispatch_other hregistry, pure_then]
    by_cases hupdate : message.destination.path = MiningInfoUpdateEvent.topic
    · have hreport : message.destination.path ≠ MiningReportEvent.topic := by rw [hupdate]; exact update_ne_report
      rw [tryDispatch_other hreport]
      exact Call.Ends.bind (Handled.tryDispatch onGkMessageReceived_handled) fun _ _ h => h
    · rw [tryDispatch_other hupdate, pure_then]
      exact Handled.tryDispatch onMiningMessageReceived_handled

theorem routed : Routed cfg w message (route cfg w message) := by
  unfold route
  cases hr : onMessageReceived cfg message (w, []) with
  | mk r s =>
    cases r with
    | ok => exact onMessageReceived_handled.ok hr
    | error e =>
      obtain ⟨rfl, hpanic⟩ := onMessageReceived_handled.error hr
      cases e with
      | panic => exact .panic (hpanic rfl)
      | _ => exact .nothing

/-- Nobody handles what does not come from off chain. -/
theorem route_onchain (h : message.sender.isOffchain = false) : route cfg w message = (w, []) := by
  have hworker {key : Bytes} : message.sender ≠ .worker key := fun hsender => by rw [hsender] at h; cases h
  generalize hs : route cfg w message = s
  have hrouted : Routed cfg w message s := hs ▸ routed
  cases hrouted with
  | nothing => rfl
  | panic hoff => rw [h] at hoff; cases hoff
  | registry hsender => exact absurd hsender hworker
  | update hsender => rw [hsender] at h; cases h
  | report hsender => exact absurd hsender hworker

/-! ## Dispatching -/

/-- The messages are dispatched and nothing else: off-chain components get to see theirs. -/
def Node.log (n : Node A) (messages : List Mq.Message) : Node A :=
  { n with mq := { n.mq with
    outboundMessages := n.mq.outboundMessages ++ messages.filter fun message => message.destination.isOffchain
    dispatched := n.mq.dispatched ++ messages } }

theorem dispatch_onchain (h : message.sender.isOffchain = false) : n.dispatch cfg message = n.log [message] := by
  unfold Node.dispatch Mq.Chain.dispatchMessage
  have hroute : (mqConfig cfg).onMessageReceived n.mq.rest message = (n.mq.rest, []) := route_onchain h
  rw [hroute]
  unfold Node.log
  cases hdest : message.destination.isOffchain with
  | true => simp [hdest]
  | false => simp [hdest]

theorem dispatchAll_onchain {messages : List Mq.Message}
    (h : ∀ message ∈ messages, message.sender.isOffchain = false) :
    messages.foldl (Node.dispatch cfg) n = n.log messages := by
  induction messages generalizing n with
  | nil => simp [Node.log]
  | cons message messages ih =>
    rw [List.forall_mem_cons] at h
    rw [List.foldl_cons, dispatch_onchain h.1, ih h.2]
    simp [Node.log, List.filter_cons]
    split <;> simp

/-! ## Changes -/

/-- A message of an account, or of another pallet than the registry. -/
structure Foreign (message : Mq.Message) : Prop where
  onchain : message.sender.isOffchain = false
  notRegistry : message.sender ≠ .pallet phalaRegistry

/-- The message is accepted, and handled so. -/
def Node.accept (n : Node A) (message : Mq.Message) (w : World A) (pushed : List Mq.Message) : Node A :=
  { n with mq := {
    offchainIngress := n.mq.offchainIngress.insert message.sender (n.mq.expectedSeq message.sender + 1)
    outboundMessages :=
      n.mq.outboundMessages ++ pushed ++ if message.destination.isOffchain = true then [message] else []
    rest := w
    dispatched := n.mq.dispatched ++ [message] } }

/-- The next block starts. What was pushed is over, what was queued is pushed. -/
def Node.nextBlock (n : Node A) : Node A :=
  Node.log
    { mq := { n.mq with outboundMessages := [] }, queuedOutboundMessage := [],
      archive := n.archive ++ n.mq.outboundMessages }
    n.queuedOutboundMessage

/-- What a step does. -/
inductive Change (cfg : Config A) (n : Node A) : Node A → Prop
  | call {origin call registry} {events : List PhalaRegistry.Event} :
      PhalaRegistry.exec cfg.registry n.world.registry n.world.pallets.now origin call = .ok (registry, events) →
      Change cfg n ((n.setRegistry registry).log (events.map registryMessage))
  | log {m : Mq.Message} : Foreign m → Change cfg n (n.log [m])
  | received {msg : Mq.SignedMessage} {w pushed} : msg.sequence = n.mq.expectedSeq msg.message.sender →
      n.mq.checkMessage (mqConfig cfg) msg = .ok () → Routed cfg n.world msg.message
      (w, pushed) → w.panicked = false →
      Change cfg n (n.accept msg.message w pushed)
  | pallets {fuel op pallets} : Direct op → Khala.exec cfg.pallets fuel n.world.state op = .ok pallets →
      Change cfg n (n.setPallets pallets)
  | queue {m : Mq.Message} : Foreign m →
      Change cfg n { n with queuedOutboundMessage := n.queuedOutboundMessage ++ [m] }
  | nextBlock : Change cfg n n.nextBlock

/-- Whoever has signed is off chain. -/
theorem isOffchain_of_checkMessage {msg : Mq.SignedMessage} (h : n.mq.checkMessage (mqConfig cfg) msg = .ok ()) :
    msg.message.sender.isOffchain = true := by
  unfold Mq.Chain.checkMessage at h
  split at h
  · next hs => rw [hs]; rfl
  · next hs => rw [hs]; rfl
  · next hs => rw [hs]; rfl
  · cases h

/-- Nothing has panicked, and no message of the registry is queued. -/
structure Running (n : Node A) : Prop where
  running : n.world.panicked = false
  queued : ∀ message ∈ n.queuedOutboundMessage, Foreign message

omit [DecidableEq A] in
theorem checked_ok (h : n.checked = .ok n') : n' = n ∧ n.world.panicked = false := by
  unfold Node.checked at h
  split at h
  · cases h
  · next hp =>
    cases h
    exact ⟨rfl, Bool.eq_false_iff.mpr hp⟩

theorem foreign_account {who destination payload : Bytes} : Foreign ⟨.accountId who, ⟨destination⟩, payload⟩ :=
  ⟨rfl, nofun⟩

theorem foreign_pallet {name destination payload : Bytes} (h : name ≠ phalaRegistry) :
    Foreign ⟨.pallet name, ⟨destination⟩, payload⟩ :=
  ⟨rfl, fun hname => h (Mq.MessageOrigin.pallet.inj hname)⟩

theorem log_checked (hm : Foreign message) (h : (n.dispatch cfg message).checked = .ok n') :
    Change cfg n n' ∧ n'.world.panicked = false := by
  rw [dispatch_onchain hm.onchain] at h
  obtain ⟨rfl, hp⟩ := checked_ok h
  exact ⟨.log hm, hp⟩

theorem step_change {op : Op A} (h : Step cfg n op n') (hop : op.Proper) (hn : Running n) :
    Change cfg n n' ∧ n'.world.panicked = false := by
  obtain ⟨fuel, h⟩ := h
  cases op with
  | registry origin call =>
    obtain ⟨n₁, hcall, hcheck⟩ := Outcome.bind_ok.mp h
    obtain ⟨rfl, hp⟩ := checked_ok hcheck
    refine ⟨?_, hp⟩
    unfold Node.registryCall at hcall
    split at hcall
    · next registry events hexec =>
      cases hcall
      rw [dispatchAll_onchain]
      · exact .call hexec
      · intro message hmem
        obtain ⟨event, -, rfl⟩ := List.mem_map.mp hmem
        rw [registryMessage_sender]
        rfl
    · cases hcall
    · cases hcall
  | pushMessage who destination payload => exact log_checked foreign_account h
  | forcePushPalletMessage destination payload =>
    exact log_checked (foreign_pallet (by decide)) h
  | syncOffchainMessage who msg =>
    obtain ⟨n₁, hsync, hcheck⟩ := Outcome.bind_ok.mp h
    obtain ⟨rfl, hp⟩ := checked_ok hcheck
    refine ⟨?_, hp⟩
    unfold Node.syncOffchainMessage at hsync
    split at hsync
    · next mq hmq =>
      cases hsync
      have haccepted := Mq.syncOffchainMessage_ends.ok hmq
      have hresult := haccepted.result
      have hrouted : Routed cfg n.world msg.message (route cfg n.world msg.message) := routed
      have hmq' : mq =
          (n.accept msg.message (route cfg n.world msg.message).1 (route cfg n.world msg.message).2).mq := hresult
      rw [hmq'] at hp ⊢
      exact .received haccepted.sequence haccepted.checked hrouted hp
    · cases hsync
  | pallets op =>
    obtain ⟨n₁, hcall, hcheck⟩ := Outcome.bind_ok.mp h
    obtain ⟨rfl, hp⟩ := checked_ok hcheck
    refine ⟨?_, hp⟩
    unfold Node.palletsCall at hcall
    split at hcall
    · next pallets hexec =>
      cases hcall
      exact .pallets hop hexec
    · cases hcall
    · cases hcall
  | push name destination payload => exact log_checked (foreign_pallet hop) h
  | queue name destination payload =>
    cases h
    exact ⟨.queue (foreign_pallet hop), hn.running⟩
  | onInitialize =>
    obtain ⟨rfl, hp⟩ := checked_ok h
    refine ⟨?_, hp⟩
    unfold Node.onInitialize
    rw [dispatchAll_onchain fun message hmem => (hn.queued message hmem).onchain]
    exact .nextBlock

theorem Change.queued (h : Change cfg n n') (hn : Running n) :
    ∀ message ∈ n'.queuedOutboundMessage, Foreign message := by
  cases h with
  | queue hm =>
    intro message hmem
    rcases List.mem_append.mp hmem with hmem | hmem
    · exact hn.queued message hmem
    · rw [List.mem_singleton.mp hmem]
      exact hm
  | nextBlock => exact fun _ hmem => absurd hmem List.not_mem_nil
  | call | log | received | pallets => exact hn.queued

variable {config : PhalaRegistry.GenesisConfig A}

theorem Built.onInitialize_eq (h : Built config n) : n.onInitialize cfg = n.nextBlock := by
  refine dispatchAll_onchain fun message hmem => ?_
  obtain ⟨before, after, hqueued, hforeign⟩ := h.queued
  have hother (hmem : message ∈ before ++ after) : message.sender.isOffchain = false := by
    obtain ⟨name, -, hname⟩ := hforeign message hmem
    rw [hname]
    rfl
  rw [hqueued, List.mem_append, List.mem_append] at hmem
  rcases hmem with (hmem | hmem) | hmem
  · exact hother (List.mem_append_left _ hmem)
  · obtain ⟨event, -, rfl⟩ := List.mem_map.mp hmem
    rw [registryMessage_sender]
    rfl
  · exact hother (List.mem_append_right _ hmem)

/-- What holds in the first block and is kept by every change holds of every node reached. -/
theorem Reachable.invariant (I : Node A → Prop) (base : ∀ n, Built config n → I n.nextBlock)
    (keep : ∀ n n', Running n → I n → Change cfg n n' → I n') (h : Reachable cfg config n) : I n := by
  refine (ReachWhere.invariant (fun n => Running n ∧ I n) ?_ ?_ h).2
  · rintro n ⟨built, hbuilt, rfl⟩
    rw [hbuilt.onInitialize_eq]
    exact ⟨⟨hbuilt.running, fun _ hmem => absurd hmem List.not_mem_nil⟩, base built hbuilt⟩
  · intro n op n' hn hop hstep
    obtain ⟨hchange, hp⟩ := step_change hstep hop hn.1
    exact ⟨⟨hp, hchange.queued hn.1⟩, keep n n' hn.1 hn.2 hchange⟩

end Khala.Runtime
