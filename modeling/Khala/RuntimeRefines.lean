/-
The runtime, as the mining and the stake pool pallet see it, is their machine:
every step is one of its operations, or none that they can see.

Calls of the registry are its registrations, verified messages are its reports
and its updates; the queue's numbers, signatures and formats are out of sight.
-/
import Khala.RegistryFrame
import Khala.RegistryWrites
import Khala.RuntimeSteps

namespace Khala.Runtime

open Messaging Outcome

variable {A : Type} [DecidableEq A] {cfg : Config A} {n n' : Node A} {w : World A}

/-! ## Writes to the registry -/

/-- What may be registered: an attested worker has a level from 1 to 5. -/
def Warranted : Khala.Op A Key → Prop
  | .registerWorker _ _ confidenceLevel => 1 ≤ confidenceLevel ∧ confidenceLevel ≤ 5
  | _ => True

/-- Seen from the pallets, nothing has happened or a warranted operation. -/
def Seen (cfg : Config A) (s s' : State A Key) : Prop :=
  s' = s ∨ ∃ op, Warranted op ∧ Khala.Step cfg.pallets s op s'

/-- The state over another registry. -/
def World.over (w : World A) (workers : StorageMap Key (PhalaRegistry.WorkerInfo A)) : State A Key :=
  { w.pallets with registry := StorageMap.mapVal record workers }

omit [DecidableEq A] in
theorem over_putWorker (registry : PhalaRegistry.Storage A) (pubkey : Key) (info : PhalaRegistry.WorkerInfo A) :
    w.over (registry.putWorker pubkey info).workers =
      { w.over registry.workers with
        registry := (w.over registry.workers).registry.insert pubkey (record info) } := by
  unfold World.over PhalaRegistry.Storage.putWorker
  rw [StorageMap.mapVal_insert]

theorem force_seen (pubkey ecdhPubkey : Key) (operator : Option A) :
    Seen cfg w.state (w.over (w.registry.force pubkey ecdhPubkey operator).workers) :=
  .inr ⟨.forceRegisterWorker pubkey operator, trivial, 0, congrArg Except.ok
    (over_putWorker (w := w) w.registry pubkey (PhalaRegistry.Storage.forcedInfo pubkey ecdhPubkey operator)).symm⟩

omit [DecidableEq A] in
theorem record_attestedInfo (nowSec : ℕ) (info : PhalaRegistry.WorkerRegistrationInfo A) (confidenceLevel : ℕ) :
    record (w.registry.attestedInfo nowSec info confidenceLevel) =
      match w.state.registry.lookup info.pubkey with
      | some old => { old with lastUpdated := nowSec, operator := info.operator }
      | none => ⟨nowSec, info.operator, confidenceLevel, none⟩ := by
  have hlookup : w.state.registry.lookup info.pubkey = (w.registry.workers.lookup info.pubkey).map record :=
    StorageMap.lookup_mapVal _ _ _
  rw [hlookup]
  unfold PhalaRegistry.Storage.attestedInfo
  cases w.registry.workers.lookup info.pubkey with
  | none => rfl
  | some => rfl

theorem attest_seen {info : PhalaRegistry.WorkerRegistrationInfo A} {attestation : Sgx.Attestation}
    {fields : Sgx.IasFields} (h : 1 ≤ fields.confidenceLevel ∧ fields.confidenceLevel ≤ 5) :
    Seen cfg w.state (w.over (w.registry.attest (w.pallets.now / 1000) info attestation fields).workers) := by
  refine .inr ⟨.registerWorker info.pubkey info.operator fields.confidenceLevel, h, 0, congrArg Except.ok ?_⟩
  refine Eq.trans ?_ (over_putWorker (w := w) w.registry info.pubkey _).symm
  rw [record_attestedInfo]
  rfl

omit [DecidableEq A] in
/-- The score is computed alike. -/
theorem benchReport_of_benchScore {key : Key} {startTime iterations score : ℕ}
    (h : PhalaRegistry.Storage.benchScore cfg.registry w.pallets.now startTime iterations = .ok score) :
    w.state.benchReport cfg.pallets key startTime iterations = .ok
      { w.state with registry := match w.state.registry.lookup key with
        | some val =>
          w.state.registry.insert key { val with initialScore := some score, lastUpdated := w.pallets.now }
        | none => w.state.registry } := by
  unfold PhalaRegistry.Storage.benchScore at h
  simp only [bind_ok, require_ok] at h
  obtain ⟨_, hstart, _, hdivisor, _, hfits, h⟩ := h
  have hfit : cfg.pallets.fit .benchScore 64 (iterations / ((w.pallets.now - startTime) / 1000) * 6) =
      .ok (iterations / ((w.pallets.now - startTime) / 1000) * 6 % 2 ^ 64) := by
    by_cases hlt : iterations / ((w.pallets.now - startTime) / 1000) * 6 < 2 ^ 64
    · rw [Config.fit_of_lt _ hlt, Nat.mod_eq_of_lt hlt]
    · have hunchecked : cfg.pallets.checks .benchScore = false := hfits.resolve_left hlt
      rw [Config.fit_of_le _ (Nat.le_of_not_lt hlt), hunchecked]
      rfl
  change startTime < w.state.now at hstart
  change (w.state.now - startTime) / 1000 ≠ 0 at hdivisor
  change cfg.pallets.fit .benchScore 64 (iterations / ((w.state.now - startTime) / 1000) * 6) = _ at hfit
  unfold State.benchReport
  rw [bind_require hstart, bind_require hdivisor, hfit]
  cases h
  rfl

theorem score_seen {key : Key} {startTime iterations score : ℕ}
    (h : PhalaRegistry.Storage.benchScore cfg.registry w.pallets.now startTime iterations = .ok score) :
    Seen cfg w.state (w.over (w.registry.score w.pallets.now key score).workers) := by
  refine .inr ⟨.benchReport key startTime iterations, trivial, 0,
    (benchReport_of_benchScore h).trans (congrArg Except.ok ?_)⟩
  have hlookup : w.state.registry.lookup key = (w.registry.workers.lookup key).map record :=
    StorageMap.lookup_mapVal _ _ _
  rw [hlookup]
  unfold PhalaRegistry.Storage.score
  cases w.registry.workers.lookup key with
  | none => rfl
  | some val =>
    exact (over_putWorker (w := w) w.registry key
      { val with initialScore := some score, lastUpdated := w.pallets.now }).symm

theorem written_seen {registry : PhalaRegistry.Storage A} {events : List PhalaRegistry.Event}
    (h : PhalaRegistry.Written cfg.registry w.registry w.pallets.now registry events) :
    Seen cfg w.state (w.over registry.workers) := by
  cases h with
  | lists hsame =>
    rw [hsame.workers]
    exact .inl rfl
  | force => exact force_seen _ _ _
  | attest hvalid => exact attest_seen (Sgx.validate_vouches hvalid).level_le
  | gatekeeper => exact .inl rfl

theorem reported_seen {registry : PhalaRegistry.Storage A} {events : List PhalaRegistry.Event} {key : Key}
    {payload : RegistryEvent}
    (h : PhalaRegistry.Reported cfg.registry w.registry w.pallets.now key payload registry events) :
    Seen cfg w.state (w.over registry.workers) := by
  cases h with
  | score hscore => exact score_seen hscore
  | sameMaster => exact .inl rfl
  | master => exact .inl rfl

/-! ## Steps -/

/-- An operation that leaves the registry is seen as it is. -/
theorem frame_seen (fuel : ℕ) (op : Khala.Op A Key) {pallets : State A Key} (hop : Warranted op)
    (hkeeps : KeepsRegistry w.state.registry (Khala.exec cfg.pallets fuel w.state op))
    (h : Khala.exec cfg.pallets fuel w.state op = .ok pallets) :
    Seen cfg w.state ({ w with pallets } : World A).state := by
  have hregistry : pallets.registry = StorageMap.mapVal record w.registry.workers := hkeeps.ok h
  have hstate : ({ w with pallets } : World A).state = pallets := by
    unfold World.state
    rw [← hregistry]
  rw [hstate]
  exact .inr ⟨op, hop, fuel, h⟩

omit [DecidableEq A] in
theorem direct_warranted {op : Khala.Op A Key} (h : Direct op) : Warranted op := by
  cases op with
  | registerWorker => exact h.elim
  | _ => trivial

theorem routed_seen {message : Mq.Message} {w' : World A} {pushed : List Mq.Message}
    (h : Routed cfg w message (w', pushed)) : Seen cfg w.state w'.state := by
  cases h with
  | nothing => exact .inl rfl
  | panic => exact .inl rfl
  | registry hsender hreceived =>
    obtain ⟨key, -, hreported⟩ := PhalaRegistry.onMessageReceived_reported hreceived
    exact reported_seen hreported
  | @update payload _ _ _ hpallets =>
    exact frame_seen 0 (.gkMessage (settling payload)) trivial State.gkMessage_settings.registry hpallets
  | @report key iterations challengeTime _ _ hpallets =>
    exact frame_seen 0 (.heartbeat key iterations challengeTime) trivial State.heartbeat_settings.registry hpallets

theorem Change.seen (h : Change cfg n n') : Seen cfg n.world.state n'.world.state := by
  cases h with
  | call hexec => exact written_seen (PhalaRegistry.exec_written hexec)
  | received _ _ hrouted => exact routed_seen hrouted
  | pallets hop hexec => exact frame_seen _ _ (direct_warranted hop) (exec_registry hop) hexec
  | log | queue | nextBlock => exact .inl rfl

/-- **The runtime refines the pallets' machine.** In every run of the runtime, with
its queue, its routing and the registry's own calls, the mining and the stake pool
pallet are in a state that their machine reaches by itself, where no worker is ever
registered by an attestation with a level outside of 1 to 5. -/
theorem pallets_reachable {config : PhalaRegistry.GenesisConfig A} (h : Reachable cfg config n) :
    RunWhere cfg.pallets (fun _ op => Warranted op) n.world.state := by
  refine h.invariant (fun n => RunWhere cfg.pallets (fun _ op => Warranted op) n.world.state) (fun n hn => ?_)
    fun n n' _ hn hchange => ?_
  · exact .init ⟨hn.pallets.mining, hn.pallets.pools, hn.pallets.books, hn.pallets.timetable, hn.pallets.notices⟩
  · rcases hchange.seen with hsame | ⟨op, hop, hstep⟩
    · rw [hsame]
      exact hn
    · exact .step hn hop hstep

/-! ## A run -/

/-- The operations one after the other, as long as they end well. -/
def run (cfg : Config A) (fuel : ℕ) (n : Node A) (ops : List (Op A)) : Except Fault (Node A) :=
  ops.foldlM (exec cfg fuel) n

theorem run_reachWhere {init : Node A → Prop} {fuel : ℕ} {n₀ : Node A} {ops : List (Op A)}
    (h₀ : ReachWhere init (Step cfg) (fun _ op => op.Proper) n₀) (hops : ∀ op ∈ ops, op.Proper)
    (h : run cfg fuel n₀ ops = .ok n) : ReachWhere init (Step cfg) (fun _ op => op.Proper) n := by
  induction ops generalizing n₀ with
  | nil =>
    cases h
    exact h₀
  | cons op ops ih =>
    rw [List.forall_mem_cons] at hops
    obtain ⟨n₁, h₁, h⟩ := bind_ok.mp h
    exact ih (.step h₀ hops.1 ⟨fuel, h₁⟩) hops.2 h

namespace Demo

def key (b : UInt8) : Key := ⟨List.replicate 32 b, List.length_replicate⟩

/-- A worker is attested by a report that commits to its key, and signs with its key and the message's number. -/
def config : Config ℕ where
  pallets :=
    { minContribution := 1, gracePeriod := 604800, maxPoolWorkers := 200, minInitP := 1
      poolSubAccount := fun pid worker => 1000 + 1000 * pid + (worker.1.headD 0).toNat
      subsidyPool := 0, treasury := 1, slashable := fun b who value => min value (b.free who)
      transferable := fun b source _ value => value ≤ b.free source
      withdrawable := fun b who value => value ≤ b.free who
      sqrt := id, checks := fun _ => false }
  ias :=
    { Cert := Unit, endEntityCert := fun _ => some (), verifySignature := fun _ _ signature => signature = [1]
      verifyIsValidTlsServerCert := fun _ _ => true
      fromSlice :=
        fun _ => some (.object [("isvEnclaveQuoteBody", .string "quote"), ("isvEnclaveQuoteStatus", .string "OK")])
      base64Decode := fun _ => some (List.replicate 368 0 ++ List.replicate 64 7), parseFromRfc3339 :=
        fun _ => some 9000 }
  verifyPRuntime := true
  verifyRelaychainGenesisBlockHash := true
  governanceOrigin origin := match origin with
    | .root => true
    | _ => false
  runtimeInfoHash info := info.pubkey.1
  verify signature data pubkey := signature = pubkey ++ List.replicate 31 0 ++ [UInt8.ofNat data.2]
  intoH256 _ := List.replicate 32 0

/-- A worker, which is the first gatekeeper too. -/
def genesisConfig : PhalaRegistry.GenesisConfig ℕ := ⟨[(key 1, key 11, some 5)], [key 1], 8⟩

def built : Node ℕ where
  mq := ⟨∅, [], ⟨genesisConfig.build.1,
    ⟨∅, ⟨none, none, 0, ∅, ∅, ∅, 0, 0, ∅⟩, ∅, ⟨∅, ∅, ⟨fun _ => 0, fun _ => none⟩, []⟩, 0, ∅, ∅, [],
    true, 0, []⟩, false⟩, []⟩
  queuedOutboundMessage := genesisConfig.build.2.map registryMessage
  archive := []

theorem genesis : Genesis config genesisConfig (built.onInitialize config) :=
  ⟨built, ⟨rfl, ⟨⟨rfl, rfl, rfl, rfl, rfl, rfl, rfl⟩, ⟨rfl, rfl, rfl⟩, ⟨rfl, rfl, rfl, rfl⟩, ⟨rfl, rfl⟩, rfl⟩, rfl,
    ⟨rfl, rfl, rfl⟩, ⟨[], [], by simp [built], fun _ h => absurd h List.not_mem_nil⟩, rfl⟩, rfl⟩

def signed (origin : Mq.MessageOrigin) (pubkey : Key) (sequence : ℕ) (topic payload : Bytes) : Op ℕ :=
  .syncOffchainMessage 9
    ⟨⟨origin, ⟨topic⟩, payload⟩, sequence, pubkey.1 ++ List.replicate 31 0 ++ [UInt8.ofNat sequence]⟩

/-- A second worker is attested and benchmarked, the gatekeeper uploads the master
key, the worker becomes a gatekeeper too, the gatekeepers report on a block, and
somebody says something. -/
def ops : List (Op ℕ) :=
  [.pallets (.time 10000000), .registry .root (.addRelaychainGenesisBlockHash (key 3)),
    .registry .root (.addPruntime (List.replicate 68 0)),
    .registry (.signed 6) (.registerWorker ⟨1, [], key 7, key 17, key 3, [], some 6⟩ ⟨[], [1], []⟩),
    signed (.worker (key 7).1) (key 7) 0 RegistryEvent.topic
      (RegistryEvent.format.encode (.benchReport 9000000 100000)),
    signed (.worker (key 1).1) (key 1) 0 RegistryEvent.topic (RegistryEvent.format.encode (.masterPubkey (key 2))),
    .registry .root (.registerGatekeeper (key 7)),
    signed .gatekeeper (key 2) 0 MiningInfoUpdateEvent.topic
      (MiningInfoUpdateEvent.format.encode ⟨1, 2, [key 7], [], []⟩),
    .pushMessage 9 [97] [1], .onInitialize]

theorem ops_proper : ∀ op ∈ ops, op.Proper := by
  simp [ops, signed, Op.Proper, Direct]

/-- What a run comes to. -/
def after (n : Node ℕ) (ops : List (Op ℕ)) : Node ℕ := ((run config 0 n ops).toOption).getD n

theorem after_ok {n : Node ℕ} {ops : List (Op ℕ)} (h : (run config 0 n ops).toOption.isSome = true) :
    run config 0 n ops = .ok (after n ops) := by
  unfold after
  cases hrun : run config 0 n ops with
  | ok => rfl
  | error e =>
    rw [hrun] at h
    cases h

def node : Node ℕ := after (built.onInitialize config) ops

theorem node_ok : run config 0 (built.onInitialize config) ops = .ok node := after_ok (by decide +kernel)

theorem node_reachable : Reachable config genesisConfig node := run_reachWhere (.init genesis) ops_proper node_ok

end Demo

theorem pallets_reachable_demo : RunWhere Demo.config.pallets (fun _ op => Warranted op) Demo.node.world.state ∧
    Demo.node.world.state.registry.lookup (Demo.key 7) = some ⟨10000000, some 6, 1, some 600⟩ :=
  ⟨pallets_reachable Demo.node_reachable, by decide +kernel⟩

end Khala.Runtime
