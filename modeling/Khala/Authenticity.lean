/-
Whose word the runtime takes: every message that it has ever dispatched for an
off-chain sender was signed with its number, by the worker's own key or by the
gatekeepers' master key as it is now. No contract has a key here, so none speaks.

What is decided stays decided: along any run from a node that is reached, the
master key, the order of the gatekeepers and what was pushed only grow.
-/
import Khala.Gatekeepers

namespace Khala.Runtime

open Messaging

variable {A : Type} [DecidableEq A] {cfg : Config A} {n n' : Node A} {config : PhalaRegistry.GenesisConfig A}

/-! ## What stays in the registry -/

/-- The registry only grows: the master key and the order of the gatekeepers stay, no
worker is deregistered, and no contract gets a key. -/
structure Grows (s s' : PhalaRegistry.Storage A) : Prop where
  master : ∀ key, s.gatekeeperMasterPubkey = some key → s'.gatekeeperMasterPubkey = some key
  gatekeeper : s.gatekeeper <+: s'.gatekeeper
  workers : ∀ key, s.workers.lookup key ≠ none → s'.workers.lookup key ≠ none
  contractKeys : s'.contractKeys = s.contractKeys

namespace Grows

variable {s s' s'' : PhalaRegistry.Storage A} {events : List PhalaRegistry.Event} {now : ℕ} {key : Key}
  {payload : RegistryEvent}

omit [DecidableEq A] in
theorem refl (s : PhalaRegistry.Storage A) : Grows s s := ⟨fun _ => id, List.prefix_refl _, fun _ => id, rfl⟩

omit [DecidableEq A] in
theorem trans (h : Grows s s') (h' : Grows s' s'') : Grows s s'' where
  master key hkey := h'.master key (h.master key hkey)
  gatekeeper := h.gatekeeper.trans h'.gatekeeper
  workers key hkey := h'.workers key (h.workers key hkey)
  contractKeys := h'.contractKeys.trans h.contractKeys

omit [DecidableEq A] in
theorem putWorker (pubkey : Key) (info : PhalaRegistry.WorkerInfo A) : Grows s (s.putWorker pubkey info) :=
  ⟨fun _ => id, List.prefix_refl _, fun _ => lookup_putWorker, rfl⟩

omit [DecidableEq A] in
theorem recordRegistration (h : Grows s s') (registration : PhalaRegistry.Registration A) :
    Grows s (s'.recordRegistration registration) := ⟨h.master, h.gatekeeper, h.workers, h.contractKeys⟩

omit [DecidableEq A] in
theorem written {cfg : PhalaRegistry.Config A} (h : PhalaRegistry.Written cfg s now s' events) : Grows s s' := by
  cases h with
  | lists hsame =>
    exact ⟨fun _ hkey => hsame.master ▸ hkey, hsame.gatekeeper ▸ List.prefix_refl _,
      fun _ hkey => hsame.workers ▸ hkey,
      hsame.contractKeys⟩
  | force => exact (putWorker _ _).recordRegistration _
  | attest => exact (putWorker _ _).recordRegistration _
  | gatekeeper => exact ⟨fun _ => id, List.prefix_append _ _, fun _ => id, rfl⟩

omit [DecidableEq A] in
theorem reported {cfg : PhalaRegistry.Config A} (h : PhalaRegistry.Reported cfg s now key payload s' events) :
    Grows s s' := by
  cases h with
  | score =>
    unfold PhalaRegistry.Storage.score
    split
    · exact putWorker _ _
    · exact refl s
  | sameMaster => exact refl s
  | master _ hnone =>
    refine ⟨fun key hkey => ?_, List.prefix_refl _, fun _ => id, rfl⟩
    rw [hnone] at hkey
    cases hkey

end Grows

theorem Routed.grows {w w' : World A} {message : Mq.Message} {pushed : List Mq.Message}
    (h : Routed cfg w message (w', pushed)) : Grows w.registry w'.registry := by
  cases h with
  | registry _ hreceived =>
    obtain ⟨key, -, hreported⟩ := PhalaRegistry.onMessageReceived_reported hreceived
    exact .reported hreported
  | nothing | panic | update | report => exact .refl _

theorem Change.grows (h : Change cfg n n') : Grows n.world.registry n'.world.registry := by
  cases h with
  | call hexec => exact .written (PhalaRegistry.exec_written hexec)
  | received _ _ hrouted => exact hrouted.grows
  | log | pallets | queue | nextBlock => exact .refl _

/-! ## Signatures -/

/-- The key that speaks for a sender. -/
def Speaks (s : PhalaRegistry.Storage A) : Mq.MessageOrigin → Bytes → Prop
  | .worker pubkey, key => key = pubkey
  | .gatekeeper, key => s.gatekeeperMasterPubkey.map Subtype.val = some key
  | _, _ => False

omit [DecidableEq A] in
theorem Speaks.grows {s s' : PhalaRegistry.Storage A} {sender : Mq.MessageOrigin} {key : Bytes}
    (h : Speaks s sender key) (hs : Grows s s') : Speaks s' sender key := by
  cases sender with
  | gatekeeper =>
    obtain ⟨master, hmaster, rfl⟩ := Option.map_eq_some_iff.mp h
    exact Option.map_eq_some_iff.mpr ⟨master, hs.master master hmaster, rfl⟩
  | worker => exact h
  | pallet | contract | accountId | multiLocation => exact h.elim

/-- The sender has signed the message with this number. -/
def Signed (cfg : Config A) (s : PhalaRegistry.Storage A) (message : Mq.Message) (number : ℕ) : Prop :=
  ∃ key signature, Speaks s message.sender key ∧ signature.length = 64 ∧
    cfg.verify signature (message, number) key = true

omit [DecidableEq A] in
theorem Signed.grows {s s' : PhalaRegistry.Storage A} {message : Mq.Message} {number : ℕ}
    (h : Signed cfg s message number) (hs : Grows s s') : Signed cfg s' message number := by
  obtain ⟨key, signature, hspeaks, hsigned⟩ := h
  exact ⟨key, signature, hspeaks.grows hs, hsigned⟩

theorem verifySignature_ok {pubkey : Bytes} {msg : Mq.SignedMessage}
    (h : Mq.Chain.verifySignature (mqConfig cfg) pubkey msg = .ok ()) :
    msg.signature.length = 64 ∧ cfg.verify msg.signature (msg.message, msg.sequence) pubkey = true := by
  unfold Mq.Chain.verifySignature at h
  split at h
  · cases h
  · next hlength =>
    split at h
    · next hverify => exact ⟨not_not.mp hlength, hverify⟩
    · cases h

theorem signed_of_checkMessage {msg : Mq.SignedMessage} (hkeys : n.world.registry.contractKeys = ∅)
    (h : n.mq.checkMessage (mqConfig cfg) msg = .ok ()) :
    Signed cfg n.world.registry msg.message msg.sequence := by
  unfold Mq.Chain.checkMessage at h
  split at h
  · next pubkey hsender =>
    refine ⟨pubkey, msg.signature, ?_, verifySignature_ok h⟩
    rw [hsender]
    rfl
  · next id hsender =>
    have hnone : (mqConfig cfg).contractKeys n.mq.rest id = none := by
      change (n.world.registry.contractKeys.lookup id).map Subtype.val = none
      rw [hkeys]
      rfl
    rw [hnone] at h
    cases h
  · next hsender =>
    split at h
    · next pubkey hmaster =>
      refine ⟨pubkey, msg.signature, ?_, verifySignature_ok h⟩
      rw [hsender]
      exact hmaster
    · cases h
  · cases h

/-! ## Every run -/

/-- A sender's messages are numbered from 0 on, each signed with its number. -/
structure Spoken (cfg : Config A) (n : Node A) (sender : Mq.MessageOrigin) : Prop where
  counted : n.mq.expectedSeq sender = (n.mq.dispatchedFrom sender).length
  signed : ∀ i message, (n.mq.dispatchedFrom sender)[i]? = some message → Signed cfg n.world.registry message i

omit [DecidableEq A] in
/-- Messages of others change nothing for a sender. -/
theorem Spoken.other {sender : Mq.MessageOrigin} (messages : List Mq.Message) (h : Spoken cfg n sender)
    (hgrows : Grows n.world.registry n'.world.registry) (hseq : n'.mq.expectedSeq sender = n.mq.expectedSeq sender)
    (hlog : n'.mq.dispatched = n.mq.dispatched ++ messages)
    (hother : ∀ message ∈ messages, message.sender ≠ sender) :
    Spoken cfg n' sender := by
  have hsame : n'.mq.dispatchedFrom sender = n.mq.dispatchedFrom sender := by
    have hnone : messages.filter (fun message => message.sender = sender) = [] :=
      List.filter_eq_nil_iff.mpr fun message hmem => by simpa using hother message hmem
    unfold Mq.Chain.dispatchedFrom
    rw [hlog, List.filter_append, hnone, List.append_nil]
  refine ⟨?_, fun i message hi => ?_⟩
  · rw [hseq, hsame]
    exact h.counted
  · rw [hsame] at hi
    exact (h.signed i message hi).grows hgrows

theorem ne_of_onchain {message : Mq.Message} {sender : Mq.MessageOrigin} (hs : sender.isOffchain = true)
    (h : message.sender.isOffchain = false) : message.sender ≠ sender := by
  rintro rfl
  rw [hs] at h
  cases h

omit [DecidableEq A] in
theorem Spoken.received {msg : Mq.SignedMessage} {w : World A} {pushed : List Mq.Message}
    {sender : Mq.MessageOrigin}
    (h : Spoken cfg n sender) (hseq : msg.sequence = n.mq.expectedSeq msg.message.sender)
    (hsigned : Signed cfg n.world.registry msg.message msg.sequence) (hgrows : Grows n.world.registry w.registry) :
    Spoken cfg (n.accept msg.message w pushed) sender := by
  have hexpected : (n.accept msg.message w pushed).mq.expectedSeq sender =
      if sender = msg.message.sender then n.mq.expectedSeq sender + 1 else n.mq.expectedSeq sender := by
    change ((n.mq.offchainIngress.insert msg.message.sender (n.mq.expectedSeq msg.message.sender + 1)).lookup
      sender).getD 0 = _
    rw [StorageMap.lookup_insert_ite]
    split
    · next heq =>
      subst heq
      rfl
    · rfl
  by_cases hsender : sender = msg.message.sender
  · subst hsender
    have hlog : (n.accept msg.message w pushed).mq.dispatchedFrom msg.message.sender =
        n.mq.dispatchedFrom msg.message.sender ++ [msg.message] := by
      unfold Mq.Chain.dispatchedFrom Node.accept
      simp [List.filter_append]
    refine ⟨?_, fun i message hi => ?_⟩
    · rw [hexpected, if_pos rfl, hlog, h.counted, List.length_append, List.length_singleton]
    · rw [hlog, List.getElem?_append] at hi
      split at hi
      · exact (h.signed i message hi).grows hgrows
      · next hlast =>
        have hlt := (List.getElem?_eq_some_iff.mp hi).1
        rw [List.length_singleton] at hlt
        have hnumber : i = msg.sequence := by
          rw [hseq, h.counted]
          omega
        rw [show i - (n.mq.dispatchedFrom msg.message.sender).length = 0 by omega] at hi
        cases hi
        rw [hnumber]
        exact hsigned.grows hgrows
  · refine h.other [msg.message] hgrows (hexpected.trans (if_neg hsender)) rfl fun message hmem => ?_
    rw [List.mem_singleton.mp hmem]
    exact Ne.symm hsender

/-- What is known of the messages dispatched. -/
structure Authentic (cfg : Config A) (n : Node A) : Prop where
  contractKeys : n.world.registry.contractKeys = ∅
  spoken : ∀ sender, sender.isOffchain = true → Spoken cfg n sender

theorem Authentic.change (h : Authentic cfg n) (hn : Running n) (hc : Change cfg n n') : Authentic cfg n' := by
  refine ⟨hc.grows.contractKeys.trans h.contractKeys, fun sender hsender => ?_⟩
  have hs := h.spoken sender hsender
  have hgrows := hc.grows
  cases hc with
  | call =>
    refine hs.other _ hgrows rfl rfl fun message hmem => ?_
    obtain ⟨event, -, rfl⟩ := List.mem_map.mp hmem
    exact ne_of_onchain hsender (by rw [registryMessage_sender]; rfl)
  | log hm =>
    refine hs.other _ hgrows rfl rfl fun message hmem => ?_
    rw [List.mem_singleton.mp hmem]
    exact ne_of_onchain hsender hm.onchain
  | received hseq hcheck => exact hs.received hseq (signed_of_checkMessage h.contractKeys hcheck) hgrows
  | pallets => exact hs.other _ hgrows rfl (List.append_nil _).symm fun _ hmem => absurd hmem List.not_mem_nil
  | queue => exact hs.other _ hgrows rfl (List.append_nil _).symm fun _ hmem => absurd hmem List.not_mem_nil
  | nextBlock =>
    exact hs.other _ hgrows rfl rfl fun message hmem => ne_of_onchain hsender (hn.queued message hmem).onchain

omit [DecidableEq A] in
theorem build_contractKeys : config.build.1.contractKeys = ∅ := by
  have hworkers : (config.workers.foldl (PhalaRegistry.GenesisConfig.addWorker config.benchmarkDuration)
      (.empty, [])).1.contractKeys = ∅ :=
    List.foldlRecOn (motive := fun b : PhalaRegistry.Storage A × List PhalaRegistry.Event => b.1.contractKeys = ∅)
      _ _ rfl fun _ h _ _ => h
  refine List.foldlRecOn
    (motive := fun b : PhalaRegistry.Storage A × List PhalaRegistry.Event => b.1.contractKeys = ∅)
    _ _ hworkers fun built h gatekeeper _ => ?_
  rcases addGatekeeper_cases built gatekeeper with ⟨-, heq⟩ | ⟨info, -, heq⟩
  · rw [heq]
    exact h
  · rw [heq]
    exact h

omit [DecidableEq A] in
theorem Built.authentic (h : Built config n) : Authentic cfg n.nextBlock := by
  refine ⟨(congrArg PhalaRegistry.Storage.contractKeys h.registry).trans build_contractKeys,
    fun sender hsender => ?_⟩
  obtain ⟨hingress, -, hdispatched⟩ := h.mq
  have hempty : Spoken cfg n sender := by
    refine ⟨?_, fun i message hi => ?_⟩
    · unfold Mq.Chain.expectedSeq Mq.Chain.dispatchedFrom
      rw [hingress, hdispatched]
      rfl
    · unfold Mq.Chain.dispatchedFrom at hi
      rw [hdispatched] at hi
      cases hi
  refine hempty.other _ (.refl _) rfl rfl fun message hmem => ne_of_onchain hsender ?_
  obtain ⟨before, after, hqueued, hforeign⟩ := h.queued
  have hother (hmem : message ∈ before ++ after) : message.sender.isOffchain = false := by
    obtain ⟨name, -, hname⟩ := hforeign message hmem
    rw [hname]
    rfl
  rw [hqueued, List.mem_append, List.mem_append] at hmem
  rcases hmem with (hmem | hmem) | hmem
  · exact hother (List.mem_append_left _ hmem)
  · obtain ⟨event, -, rfl⟩ := List.mem_map.mp hmem
    rw [registryMessage_sender]
    rfl
  · exact hother (List.mem_append_right _ hmem)

/-- **Nobody is spoken for.** In every run, the messages that the chain has dispatched
for a worker were signed by that worker's key, and those for the gatekeepers by the
master key that the registry still has, each with its place among its sender's
messages as its number; and none was dispatched for a contract. -/
theorem dispatched_signed (h : Reachable cfg config n) :
    (∀ sender, sender.isOffchain = true → ∀ i message, (n.mq.dispatchedFrom sender)[i]? = some message →
      Signed cfg n.world.registry message i) ∧
    ∀ id, n.mq.dispatchedFrom (.contract id) = [] := by
  have hn : Authentic cfg n :=
    h.invariant (Authentic cfg) (fun n hn => hn.authentic) fun n n' hrunning hn hchange =>
      hn.change hrunning hchange
  refine ⟨fun sender hsender => (hn.spoken sender hsender).signed, fun id => ?_⟩
  have hspoken := (hn.spoken (.contract id) rfl).signed 0
  cases hlist : n.mq.dispatchedFrom (.contract id) with
  | nil => rfl
  | cons message messages =>
    obtain ⟨key, signature, hspeaks, -⟩ := hspoken message (by rw [hlist]; rfl)
    have hsender : message.sender = .contract id := by
      have hmem : message ∈ n.mq.dispatchedFrom (.contract id) := by rw [hlist]; exact List.mem_cons_self
      simpa using (List.mem_filter.mp hmem).2
    rw [hsender] at hspeaks
    exact hspeaks.elim

theorem dispatched_signed_demo : Signed Demo.config Demo.node.world.registry
    ⟨.gatekeeper, ⟨MiningInfoUpdateEvent.topic⟩,
      MiningInfoUpdateEvent.format.encode ⟨1, 2, [Demo.key 7], [], []⟩⟩ 0 :=
  (dispatched_signed Demo.node_reachable).1 .gatekeeper rfl 0 _ (by decide +kernel)

/-! ## What is decided -/

/-- What is reached from a node. -/
abbrev Continues (cfg : Config A) (n : Node A) : Node A → Prop :=
  ReachWhere (· = n) (Step cfg) fun _ op => op.Proper

/-- The node has all that the other had, and maybe more. -/
structure Extends (n n' : Node A) : Prop where
  registry : Grows n.world.registry n'.world.registry
  stream : n.stream <+: n'.stream
  dispatched : n.mq.dispatched <+: n'.mq.dispatched

theorem Change.extends (h : Change cfg n n') : Extends n n' := by
  refine ⟨h.grows, ?_, ?_⟩
  · cases h with
    | call | log => exact ⟨_, List.append_assoc _ _ _⟩
    | @received msg w pushed =>
      refine ⟨pushed ++ if msg.message.destination.isOffchain = true then [msg.message] else [], ?_⟩
      simp only [Node.stream, Node.accept, List.append_assoc]
    | pallets | queue => exact List.prefix_refl _
    | nextBlock => exact List.prefix_append _ _
  · cases h with
    | pallets | queue => exact List.prefix_refl _
    | _ => exact List.prefix_append _ _

theorem Reachable.running (h : Reachable cfg config n) : Running n := by
  refine ReachWhere.invariant Running ?_ (fun n op n' hn hop hstep => ?_) h
  · rintro n ⟨built, hbuilt, rfl⟩
    rw [hbuilt.onInitialize_eq]
    exact ⟨hbuilt.running, fun _ hmem => absurd hmem List.not_mem_nil⟩
  · obtain ⟨hchange, hp⟩ := step_change hstep hop hn
    exact ⟨hp, hchange.queued hn⟩

/-- **What is decided stays decided.** From any node that is reached, however the
chain goes on: the master key stays what it is, the gatekeepers keep their order, no
worker is deregistered, and what was pushed and what was dispatched stay at the
front of all that is pushed and dispatched later. -/
theorem decided_for_good (h : Reachable cfg config n) (hc : Continues cfg n n') :
    (∀ key, n.world.registry.gatekeeperMasterPubkey = some key →
    n'.world.registry.gatekeeperMasterPubkey = some key) ∧
    n.world.registry.gatekeeper <+: n'.world.registry.gatekeeper ∧
    (∀ key, n.world.registry.workers.lookup key ≠ none → n'.world.registry.workers.lookup key ≠ none) ∧
    n.stream <+: n'.stream ∧ n.mq.dispatched <+: n'.mq.dispatched := by
  have hextends : Running n' ∧ Extends n n' := by
    refine ReachWhere.invariant (fun n' => Running n' ∧ Extends n n') ?_ (fun n₁ op n₂ hn hop hstep => ?_) hc
    · rintro _ rfl
      exact ⟨h.running, .refl _, List.prefix_refl _, List.prefix_refl _⟩
    · obtain ⟨hchange, hp⟩ := step_change hstep hop hn.1
      have hmore := hchange.extends
      exact ⟨⟨hp, hchange.queued hn.1⟩, hn.2.registry.trans hmore.registry, hn.2.stream.trans hmore.stream,
        hn.2.dispatched.trans hmore.dispatched⟩
  obtain ⟨-, hregistry, hstream, hdispatched⟩ := hextends
  exact ⟨hregistry.master, hregistry.gatekeeper, hregistry.workers, hstream, hdispatched⟩

/-- The chain goes on to another block. -/
def Demo.next : Node ℕ := Demo.after Demo.node [.pushMessage 9 [97] [2], .onInitialize]

theorem Demo.next_continues : Continues Demo.config Demo.node Demo.next :=
  run_reachWhere (.init rfl) (by simp [Op.Proper]) (Demo.after_ok (by decide +kernel))

theorem decided_for_good_demo : Demo.next.world.registry.gatekeeperMasterPubkey = some (Demo.key 2) ∧
    Demo.node.stream <+: Demo.next.stream :=
  ⟨(decided_for_good Demo.node_reachable Demo.next_continues).1 (Demo.key 2) (by decide +kernel),
    (decided_for_good Demo.node_reachable Demo.next_continues).2.2.2.1⟩

end Khala.Runtime
