/-
The launch of the gatekeepers, as the off-chain components follow it.

They see the messages that the registry pushes, block after block, and keep
their own list of gatekeepers and the master key (`Follower`). Nobody else can
speak in the registry's name, so what they have after any run is what the chain
has.
-/
import Khala.RuntimeRefines

namespace Khala.Runtime

open Messaging

variable {A : Type} [DecidableEq A] {cfg : Config A} {n n' : Node A} {config : PhalaRegistry.GenesisConfig A}

/-! ## The follower -/

/-- What is said about the gatekeepers. -/
inductive Report
  | launch (event : GatekeeperLaunch)
  | change (event : GatekeeperChange)
deriving DecidableEq, Repr

/-- What an off-chain component takes of a message: the registry's word only. -/
def observe (message : Mq.Message) : Option Report :=
  if message.sender ≠ .pallet phalaRegistry then none
  else if message.destination.path = GatekeeperLaunch.topic then
    (message.decodePayload GatekeeperLaunch.format).map .launch
  else if message.destination.path = GatekeeperChange.topic then
    (message.decodePayload GatekeeperChange.format).map .change
  else none

/-- What it knows. -/
structure Follower where
  gatekeepers : List NewGatekeeperEvent
  master : Option Key
deriving DecidableEq, Repr

namespace Follower

def new : Follower := ⟨[], none⟩

/-- A report out of turn is refused: there is one first gatekeeper, then one
master key, and whoever joins joins somebody. -/
def step (f : Follower) : Report → Option Follower
  | .launch (.firstGatekeeper event) => if f.gatekeepers = [] then some { f with gatekeepers := [event] } else none
  | .launch (.masterPubkeyOnChain masterPubkey) =>
    if f.gatekeepers ≠ [] ∧ f.master = none then some { f with master := some masterPubkey } else none
  | .change event =>
    if f.gatekeepers ≠ [] then some { f with gatekeepers := f.gatekeepers ++ [event.registered] } else none

def replay (f : Follower) (reports : List Report) : Option Follower := reports.foldlM step f

theorem replay_append {f g : Follower} {reports reports' : List Report} (h : f.replay reports = some g) :
    f.replay (reports ++ reports') = g.replay reports' := by
  unfold replay at h ⊢
  rw [List.foldlM_append, h]
  rfl

end Follower

/-- The messages of all blocks so far. -/
def Node.stream (n : Node A) : List Mq.Message := n.archive ++ n.mq.outboundMessages

def reports (messages : List Mq.Message) : List Report := messages.filterMap observe

/-! ## Who speaks for the registry -/

theorem observe_other {message : Mq.Message} (h : message.sender ≠ .pallet phalaRegistry) :
    observe message = none :=
  if_pos h

theorem reports_other {messages : List Mq.Message}
    (h : ∀ message ∈ messages, message.sender ≠ .pallet phalaRegistry) :
    reports messages = [] :=
  List.filterMap_eq_nil_iff.mpr fun message hmem => observe_other (h message hmem)

/-- The registry's own reports. -/
def report : PhalaRegistry.Event → Option Report
  | .system _ => none
  | .launch event => some (.launch event)
  | .change event => some (.change event)

theorem observe_registryMessage (event : PhalaRegistry.Event) :
    observe (registryMessage event) = report event := by
  have hsystem : SystemEvent.topic ≠ GatekeeperLaunch.topic ∧
      SystemEvent.topic ≠ GatekeeperChange.topic := by decide
  have hchange : GatekeeperChange.topic ≠ GatekeeperLaunch.topic := by decide
  unfold observe
  rw [if_neg (not_not.mpr (registryMessage_sender event))]
  cases event with
  | system event => exact (if_neg hsystem.1).trans (if_neg hsystem.2)
  | launch event =>
    refine (if_pos rfl).trans (Option.map_eq_some_iff.mpr ⟨event, ?_, rfl⟩)
    refine GatekeeperLaunch.format.decodeFirst_encode ?_
    cases event with
    | firstGatekeeper => exact ⟨trivial, trivial⟩
    | masterPubkeyOnChain => trivial
  | change event =>
    refine (if_neg hchange).trans ((if_pos rfl).trans (Option.map_eq_some_iff.mpr ⟨event, ?_, rfl⟩))
    exact GatekeeperChange.format.decodeFirst_encode ⟨trivial, trivial⟩

theorem reports_registry (events : List PhalaRegistry.Event) :
    reports (events.map registryMessage) = events.filterMap report := by
  unfold reports
  rw [List.filterMap_map]
  exact List.filterMap_congr fun event _ => observe_registryMessage event

theorem reports_append (messages messages' : List Mq.Message) :
    reports (messages ++ messages') = reports messages ++ reports messages' := List.filterMap_append

/-- The registry's messages are for everybody. -/
theorem filter_registry (events : List PhalaRegistry.Event) :
    (events.map registryMessage).filter (fun message => message.destination.isOffchain) =
    events.map registryMessage := by
  refine List.filter_eq_self.mpr fun message hmem => ?_
  obtain ⟨event, -, rfl⟩ := List.mem_map.mp hmem
  exact registryMessage_isOffchain event

/-! ## Following the registry -/

/-- The follower is up to date with the registry. -/
structure Follows (s : PhalaRegistry.Storage A) (f : Follower) : Prop where
  gatekeepers : f.gatekeepers.map NewGatekeeperEvent.pubkey = s.gatekeeper
  master : f.master = s.gatekeeperMasterPubkey

omit [DecidableEq A] in
theorem Follows.nil_iff {s : PhalaRegistry.Storage A} {f : Follower} (h : Follows s f) :
    f.gatekeepers = [] ↔ s.gatekeeper = [] := by
  rw [← h.gatekeepers, List.map_eq_nil_iff]

omit [DecidableEq A] in
/-- A gatekeeper is added to both. -/
theorem Follows.gatekeeper {s : PhalaRegistry.Storage A} {f : Follower} (h : Follows s f)
    (event : NewGatekeeperEvent) :
    ∃ f', f.replay ([PhalaRegistry.gatekeeperEvent s.gatekeeper event].filterMap report) = some f' ∧
      Follows { s with gatekeeper := s.gatekeeper ++ [event.pubkey] } f' := by
  refine ⟨{ f with gatekeepers := f.gatekeepers ++ [event] }, ?_, ?_, h.master⟩
  · unfold PhalaRegistry.gatekeeperEvent
    by_cases hnil : f.gatekeepers = []
    · rw [if_pos (h.nil_iff.mp hnil)]
      change (if f.gatekeepers = [] then _ else _ : Option Follower).bind _ = _
      rw [if_pos hnil, hnil]
      rfl
    · rw [if_neg fun hs => hnil (h.nil_iff.mpr hs)]
      change (if f.gatekeepers ≠ [] then _ else _ : Option Follower).bind _ = _
      rw [if_pos hnil]
      rfl
  · rw [List.map_append, h.gatekeepers]
    rfl

omit [DecidableEq A] in
theorem Follows.written {s s' : PhalaRegistry.Storage A} {events : List PhalaRegistry.Event} {now : ℕ}
    {f : Follower} (h : Follows s f) (hw : PhalaRegistry.Written cfg.registry s now s' events) :
    ∃ f', f.replay (events.filterMap report) = some f' ∧ Follows s' f' := by
  cases hw with
  | lists hsame => exact ⟨f, rfl, hsame.gatekeeper ▸ h.gatekeepers, hsame.master ▸ h.master⟩
  | force => exact ⟨f, rfl, h.gatekeepers, h.master⟩
  | attest => exact ⟨f, rfl, h.gatekeepers, h.master⟩
  | @gatekeeper pubkey info => exact h.gatekeeper ⟨pubkey, info.ecdhPubkey⟩

omit [DecidableEq A] in
theorem Follows.reported {s s' : PhalaRegistry.Storage A} {events : List PhalaRegistry.Event} {now : ℕ} {key : Key}
    {payload : RegistryEvent} {f : Follower} (h : Follows s f)
    (hr : PhalaRegistry.Reported cfg.registry s now key payload s' events) :
    ∃ f', f.replay (events.filterMap report) = some f' ∧ Follows s' f' := by
  cases hr with
  | score =>
    refine ⟨f, rfl, ?_, ?_⟩
    · unfold PhalaRegistry.Storage.score
      split <;> exact h.gatekeepers
    · unfold PhalaRegistry.Storage.score
      split <;> exact h.master
  | sameMaster => exact ⟨f, rfl, h.gatekeepers, h.master⟩
  | @master masterPubkey hmem hnone =>
    refine ⟨{ f with master := some masterPubkey }, ?_, h.gatekeepers, rfl⟩
    have hready : f.gatekeepers ≠ [] ∧ f.master = none :=
      ⟨fun hnil => by rw [h.nil_iff.mp hnil] at hmem; exact absurd hmem List.not_mem_nil, h.master.trans hnone⟩
    change (if f.gatekeepers ≠ [] ∧ f.master = none then _ else _ : Option Follower).bind _ = _
    rw [if_pos hready]
    rfl

/-! ## The genesis -/

/-- What the genesis has built so far can be followed. -/
def Followed (built : PhalaRegistry.Storage A × List PhalaRegistry.Event) : Prop :=
  ∃ f, Follower.new.replay (built.2.filterMap report) = some f ∧ Follows built.1 f

omit [DecidableEq A] in
theorem Followed.addWorker {built : PhalaRegistry.Storage A × List PhalaRegistry.Event}
    (h : Followed built) (duration : ℕ)
    (worker : Key × Key × Option A) : Followed (PhalaRegistry.GenesisConfig.addWorker duration built worker) := by
  obtain ⟨f, hreplay, hf⟩ := h
  refine ⟨f, ?_, hf.gatekeepers, hf.master⟩
  unfold PhalaRegistry.GenesisConfig.addWorker
  rw [List.filterMap_append, Follower.replay_append hreplay]
  rfl

omit [DecidableEq A] in
theorem addGatekeeper_cases (built : PhalaRegistry.Storage A × List PhalaRegistry.Event) (gatekeeper : Key) :
    built.1.workers.lookup gatekeeper = none ∧ PhalaRegistry.GenesisConfig.addGatekeeper built gatekeeper = built ∨
      ∃ info, built.1.workers.lookup gatekeeper = some info ∧
        PhalaRegistry.GenesisConfig.addGatekeeper built gatekeeper =
          ({ built.1 with gatekeeper := built.1.gatekeeper ++ [gatekeeper] },
            built.2 ++ [PhalaRegistry.gatekeeperEvent built.1.gatekeeper ⟨gatekeeper, info.ecdhPubkey⟩]) := by
  unfold PhalaRegistry.GenesisConfig.addGatekeeper
  cases hinfo : built.1.workers.lookup gatekeeper with
  | none => exact .inl ⟨rfl, rfl⟩
  | some info =>
    refine .inr ⟨info, rfl, ?_⟩
    dsimp only
    rw [PhalaRegistry.events_gatekeeper]

omit [DecidableEq A] in
theorem Followed.addGatekeeper {built : PhalaRegistry.Storage A × List PhalaRegistry.Event} (h : Followed built)
    (gatekeeper : Key) : Followed (PhalaRegistry.GenesisConfig.addGatekeeper built gatekeeper) := by
  rcases addGatekeeper_cases built gatekeeper with ⟨-, heq⟩ | ⟨info, -, heq⟩
  · rw [heq]
    exact h
  · obtain ⟨f, hreplay, hf⟩ := h
    obtain ⟨f', hreplay', hf'⟩ := hf.gatekeeper ⟨gatekeeper, info.ecdhPubkey⟩
    rw [heq]
    refine ⟨f', ?_, hf'⟩
    rw [List.filterMap_append, Follower.replay_append hreplay]
    exact hreplay'

omit [DecidableEq A] in
/-- The gatekeepers of the genesis are those of the list that are workers, in its order. -/
theorem foldl_addGatekeeper (built : PhalaRegistry.Storage A × List PhalaRegistry.Event) (gatekeepers : List Key) :
    (gatekeepers.foldl PhalaRegistry.GenesisConfig.addGatekeeper built).1.workers = built.1.workers ∧
      (gatekeepers.foldl PhalaRegistry.GenesisConfig.addGatekeeper built).1.gatekeeper = built.1.gatekeeper ++
        gatekeepers.filter fun gatekeeper => (built.1.workers.lookup gatekeeper).isSome := by
  induction gatekeepers generalizing built with
  | nil => exact ⟨rfl, (List.append_nil _).symm⟩
  | cons gatekeeper gatekeepers ih =>
    rw [List.foldl_cons]
    obtain ⟨hworkers, hgatekeeper⟩ := ih (PhalaRegistry.GenesisConfig.addGatekeeper built gatekeeper)
    rcases addGatekeeper_cases built gatekeeper with ⟨hnone, heq⟩ | ⟨info, hsome, heq⟩
    · rw [heq] at hworkers hgatekeeper ⊢
      refine ⟨hworkers, hgatekeeper.trans ?_⟩
      rw [List.filter_cons_of_neg (by simp [hnone])]
    · rw [heq] at hworkers hgatekeeper ⊢
      refine ⟨hworkers, hgatekeeper.trans ?_⟩
      rw [List.filter_cons_of_pos (by simp [hsome]), List.append_assoc]
      rfl

omit [DecidableEq A] in
theorem foldl_addWorker_gatekeeper {duration : ℕ} {built : PhalaRegistry.Storage A × List PhalaRegistry.Event}
    {workers : List (Key × Key × Option A)} :
    (workers.foldl (PhalaRegistry.GenesisConfig.addWorker duration) built).1.gatekeeper = built.1.gatekeeper := by
  induction workers generalizing built with
  | nil => rfl
  | cons worker workers ih => exact ih

omit [DecidableEq A] in
theorem build_followed : Followed config.build := by
  have hempty : Followed ((.empty, []) : PhalaRegistry.Storage A × List PhalaRegistry.Event) :=
    ⟨.new, rfl, rfl, rfl⟩
  have hworkers : Followed (config.workers.foldl (PhalaRegistry.GenesisConfig.addWorker config.benchmarkDuration)
      (.empty, [])) :=
    List.foldlRecOn _ _ hempty fun built h worker _ => h.addWorker _ worker
  exact List.foldlRecOn _ _ hworkers fun built h gatekeeper _ => h.addGatekeeper gatekeeper

/-! ## Every run -/

/-- Nobody is removed or entered twice, every gatekeeper is a registered worker, and
until the master key is known there is at most one beside those of the genesis. -/
structure Orderly (config : PhalaRegistry.GenesisConfig A) (s : PhalaRegistry.Storage A) : Prop where
  genesis : config.build.1.gatekeeper <+: s.gatekeeper
  registered : ∀ key ∈ s.gatekeeper, s.workers.lookup key ≠ none
  nodup : config.gatekeepers.Nodup → s.gatekeeper.Nodup
  waiting : s.gatekeeperMasterPubkey = none →
    s.gatekeeper = config.build.1.gatekeeper ∨ config.build.1.gatekeeper = [] ∧ s.gatekeeper.length = 1

omit [DecidableEq A] in
theorem lookup_putWorker {s : PhalaRegistry.Storage A} {pubkey key : Key} {info : PhalaRegistry.WorkerInfo A}
    (h : s.workers.lookup key ≠ none) : (s.putWorker pubkey info).workers.lookup key ≠ none := by
  change (s.workers.insert pubkey info).lookup key ≠ none
  rw [StorageMap.lookup_insert_ite]
  split
  · nofun
  · exact h

namespace Orderly

variable {s s' : PhalaRegistry.Storage A} {events : List PhalaRegistry.Event} {now : ℕ}

omit [DecidableEq A] in
theorem build : Orderly config config.build.1 := by
  have hfold := foldl_addGatekeeper
    (config.workers.foldl (PhalaRegistry.GenesisConfig.addWorker config.benchmarkDuration) (.empty, []))
    config.gatekeepers
  obtain ⟨hworkers, hgatekeeper⟩ := hfold
  rw [foldl_addWorker_gatekeeper] at hgatekeeper
  have hbuild : config.build.1.gatekeeper = config.gatekeepers.filter fun gatekeeper =>
      (config.build.1.workers.lookup gatekeeper).isSome := by
    unfold PhalaRegistry.GenesisConfig.build
    rw [hgatekeeper, hworkers]
    rfl
  refine ⟨List.prefix_refl _, fun key hkey => ?_, fun hn => ?_, fun _ => .inl rfl⟩
  · rw [hbuild] at hkey
    exact Option.isSome_iff_ne_none.mp (List.mem_filter.mp hkey).2
  · rw [hbuild]
    exact hn.filter _

omit [DecidableEq A] in
/-- The gatekeepers and the master key stay, and so does every worker. -/
theorem keep (h : Orderly config s) (hg : s'.gatekeeper = s.gatekeeper)
    (hm : s'.gatekeeperMasterPubkey = s.gatekeeperMasterPubkey)
    (hw : ∀ key, s.workers.lookup key ≠ none → s'.workers.lookup key ≠ none) : Orderly config s' where
  genesis := hg ▸ h.genesis
  registered key hkey := hw key (h.registered key (hg ▸ hkey))
  nodup hn := hg ▸ h.nodup hn
  waiting hnone := hg ▸ h.waiting (hm ▸ hnone)

omit [DecidableEq A] in
theorem written (h : Orderly config s) (hw : PhalaRegistry.Written cfg.registry s now s' events) :
    Orderly config s' := by
  cases hw with
  | lists hsame => exact h.keep hsame.gatekeeper hsame.master fun key hkey => hsame.workers ▸ hkey
  | force => exact h.keep rfl rfl fun key hkey => lookup_putWorker hkey
  | attest => exact h.keep rfl rfl fun key hkey => lookup_putWorker hkey
  | @gatekeeper pubkey info hnew hready hinfo =>
    refine ⟨h.genesis.trans (List.prefix_append _ _), fun key hkey => ?_,
      fun hn => PhalaRegistry.nodup_concat (h.nodup hn) hnew, fun hnone => ?_⟩
    · rcases List.mem_append.mp hkey with hkey | hkey
      · exact h.registered key hkey
      · rw [List.mem_singleton.mp hkey]
        exact fun hnone => by rw [hinfo] at hnone; cases hnone
    · have hnil : s.gatekeeper = [] := by
        refine hready.resolve_right fun hsome => ?_
        rw [show s.gatekeeperMasterPubkey = none from hnone] at hsome
        cases hsome
      refine .inr ⟨List.prefix_nil.mp (hnil ▸ h.genesis), ?_⟩
      rw [hnil]
      rfl

omit [DecidableEq A] in
theorem reported {key : Key} {payload : RegistryEvent} (h : Orderly config s)
    (hr : PhalaRegistry.Reported cfg.registry s now key payload s' events) : Orderly config s' := by
  cases hr with
  | score =>
    unfold PhalaRegistry.Storage.score
    split
    · exact h.keep rfl rfl fun key hkey => lookup_putWorker hkey
    · exact h
  | sameMaster => exact h
  | master => exact ⟨h.genesis, h.registered, h.nodup, nofun⟩

end Orderly

/-- What the off-chain components have been told and what the chain has agree. -/
structure Launched (config : PhalaRegistry.GenesisConfig A) (n : Node A) : Prop where
  orderly : Orderly config n.world.registry
  follower : ∃ f, Follower.new.replay (reports n.stream) = some f ∧ Follows n.world.registry f

namespace Launched

omit [DecidableEq A] in
/-- A step that says nothing in the registry's name and leaves the registry. -/
theorem silent {messages : List Mq.Message} (h : Launched config n) (hr : n'.world.registry = n.world.registry)
    (hs : n'.stream = n.stream ++ messages) (hm : reports messages = []) : Launched config n' := by
  refine ⟨hr ▸ h.orderly, ?_⟩
  rw [hs, hr, reports_append, hm, List.append_nil]
  exact h.follower

omit [DecidableEq A] in
/-- A step that says what the registry has done. -/
theorem told {registry : PhalaRegistry.Storage A} {messages : List Mq.Message} {reported : List Report}
    (h : Launched config n) (ho : Orderly config registry)
    (hf : ∀ f, Follows n.world.registry f → ∃ f', f.replay reported = some f' ∧ Follows registry f')
    (hr : n'.world.registry = registry) (hs : n'.stream = n.stream ++ messages)
    (hm : reports messages = reported) :
    Launched config n' := by
  obtain ⟨f, hreplay, hfollows⟩ := h.follower
  obtain ⟨f', hreplay', hfollows'⟩ := hf f hfollows
  refine ⟨hr ▸ ho, f', ?_, hr ▸ hfollows'⟩
  rw [hs, reports_append, Follower.replay_append hreplay, hm]
  exact hreplay'

end Launched

/-- Of the messages of other senders nothing is taken. -/
theorem reports_filter {messages : List Mq.Message}
    (h : ∀ message ∈ messages, message.sender ≠ .pallet phalaRegistry) :
    reports (messages.filter fun message => message.destination.isOffchain) = [] :=
  reports_other fun message hmem => h message (List.mem_of_mem_filter hmem)

omit [DecidableEq A] in
theorem Built.launched (h : Built config n) : Launched config n.nextBlock := by
  obtain ⟨before, after, hqueued, hforeign⟩ := h.queued
  have hother {messages : List Mq.Message} (hsub : messages ⊆ before ++ after) :
      reports (messages.filter fun message => message.destination.isOffchain) = [] := by
    refine reports_filter fun message hmem => ?_
    obtain ⟨name, hname, hsender⟩ := hforeign message (hsub hmem)
    rw [hsender]
    exact fun heq => hname (Mq.MessageOrigin.pallet.inj heq)
  have hstream : reports n.nextBlock.stream = config.build.2.filterMap report := by
    change reports (n.archive ++ n.mq.outboundMessages ++
      ([] ++ n.queuedOutboundMessage.filter fun message => message.destination.isOffchain)) = _
    rw [h.archive, h.mq.2.1, hqueued]
    simp only [List.nil_append, List.filter_append, reports_append, filter_registry, reports_registry,
      hother (List.subset_append_left _ _), hother (List.subset_append_right _ _), List.append_nil]
  refine ⟨h.registry ▸ Orderly.build, ?_⟩
  rw [hstream]
  exact h.registry ▸ build_followed

theorem Launched.change (h : Launched config n) (hn : Running n) (hc : Change cfg n n') : Launched config n' := by
  cases hc with
  | call hexec =>
    have hw := PhalaRegistry.exec_written hexec
    refine h.told (h.orderly.written hw) (fun f hf => hf.written hw) rfl (List.append_assoc _ _ _).symm ?_
    rw [filter_registry, reports_registry]
  | log hm =>
    refine h.silent rfl (List.append_assoc _ _ _).symm (reports_filter fun message hmem => ?_)
    rw [List.mem_singleton.mp hmem]
    exact hm.notRegistry
  | @received msg w pushed _ hcheck hrouted hp =>
    have hsender := isOffchain_of_checkMessage hcheck
    have hself : reports (if msg.message.destination.isOffchain = true then [msg.message] else []) = [] := by
      refine reports_other fun message hmem => ?_
      split at hmem
      · rw [List.mem_singleton.mp hmem]
        exact fun heq => by rw [heq] at hsender; cases hsender
      · exact absurd hmem List.not_mem_nil
    have hstream : (n.accept msg.message w pushed).stream =
        n.stream ++ (pushed ++ if msg.message.destination.isOffchain = true then [msg.message] else []) := by
      unfold Node.stream Node.accept
      simp only [List.append_assoc]
    have hmessages : reports (pushed ++ if msg.message.destination.isOffchain = true then [msg.message] else []) =
        reports pushed := by rw [reports_append, hself, List.append_nil]
    cases hrouted with
    | nothing => exact h.silent rfl hstream hmessages
    | panic => cases hp
    | registry _ hreceived =>
      obtain ⟨key, -, hreported⟩ := PhalaRegistry.onMessageReceived_reported hreceived
      refine h.told (h.orderly.reported hreported) (fun f hf => hf.reported hreported) rfl hstream
        (hmessages.trans ?_)
      exact reports_registry _
    | update =>
      refine h.silent rfl hstream (hmessages.trans (reports_other fun message hmem => ?_))
      obtain ⟨event, -, rfl⟩ := List.mem_map.mp hmem
      exact fun heq => absurd (Mq.MessageOrigin.pallet.inj heq) (by decide)
    | report => exact h.silent rfl hstream hmessages
  | pallets => exact h.silent rfl (List.append_nil _).symm rfl
  | queue => exact h.silent rfl (List.append_nil _).symm rfl
  | nextBlock => exact h.silent rfl rfl (reports_filter fun message hmem => (hn.queued message hmem).notRegistry)

/-- **The launch can be followed from outside.** In every run, a component that sees
only what is pushed, whoever else pushes what, takes every report of the registry in
turn: one first gatekeeper, then one master key, and others who join. What it comes
to is what the chain has: the same gatekeepers in the same order, all of them
registered workers, and the same master key. Nobody is removed or entered twice, and
until the master key is known there is at most one beside those of the genesis. -/
theorem gatekeepers_followed (h : Reachable cfg config n) :
    (∃ f, Follower.new.replay (reports n.stream) = some f ∧
      f.gatekeepers.map NewGatekeeperEvent.pubkey = n.world.registry.gatekeeper ∧
      f.master = n.world.registry.gatekeeperMasterPubkey) ∧ Orderly config n.world.registry := by
  have hn : Launched config n :=
    h.invariant (Launched config) (fun n hn => hn.launched) fun n n' hrunning hn hchange =>
      hn.change hrunning hchange
  obtain ⟨f, hreplay, hf⟩ := hn.follower
  exact ⟨⟨f, hreplay, hf.gatekeepers, hf.master⟩, hn.orderly⟩

theorem gatekeepers_followed_demo :
    (∃ f, Follower.new.replay (reports Demo.node.stream) = some f ∧
      f.gatekeepers.map NewGatekeeperEvent.pubkey = Demo.node.world.registry.gatekeeper ∧
      f.master = Demo.node.world.registry.gatekeeperMasterPubkey) ∧
    Demo.node.world.registry.gatekeeper = [Demo.key 1, Demo.key 7] :=
  ⟨(gatekeepers_followed Demo.node_reachable).1, by decide +kernel⟩

end Khala.Runtime
