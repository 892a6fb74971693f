/-
What the end of a block does to the parameters, and what that comes to over any
number of blocks.

`parameters_announced`: whoever is told of the changes has the chain's parameters.
`budget_scheduled`: the budget is cut once an interval, and by nothing else but an
update. `emission_bounded`: all that is emitted is four intervals' worth at most.
-/
import Khala.Decay
import Khala.Lifecycle
import Khala.Tokenomics

namespace Khala.Tokenomics

open Outcome

variable {A W : Type} [DecidableEq A] [DecidableEq W] {cfg : Config A W} {c c' : Chain A W}

/-! ## The end of a block -/

namespace Chain

/-- The block is the last one of its interval. -/
def due (c : Chain A W) : Bool :=
  c.miningHalvingInterval.any fun interval => decide (0 < interval ∧ c.elapsed % interval = interval - 1)

/-- The parameters once the update is applied. -/
def updated (c : Chain A W) : Option TokenomicParameters := c.scheduledTokenomicUpdate.or c.tokenomicParameters

/-- The parameters at the end of the block. -/
def closing (c : Chain A W) : Option TokenomicParameters :=
  if c.due = true then c.updated.map .halved else c.updated

/-- What they change to, one after the other. -/
def changes (c : Chain A W) : List TokenomicParameters :=
  c.scheduledTokenomicUpdate.toList ++ if c.due = true then (c.updated.map .halved).toList else []

/-- The chain after `applySubsidy`. -/
def subsidized (c : Chain A W) : Chain A W :=
  if c.due = true then c.triggerSubsidyHalving.getD (c.depositEvent .internalErrorWrongHalvingConfigured) else c

def halvings (c : Chain A W) : ℕ := c.events.count .subsidyBudgetHalved

omit [DecidableEq A] [DecidableEq W] in
theorem applySubsidy_ok (h : c.applySubsidy cfg = .ok c') : c' = c.subsidized := by
  unfold applySubsidy at h
  unfold subsidized due
  split at h
  · next hnone =>
    cases h
    rw [hnone]
    rfl
  · next interval hinterval =>
    rw [hinterval]
    split at h
    · cases h
    · split at h
      · next hdue =>
        rw [Option.any_some, decide_eq_true hdue]
        split at h
        · next hc =>
          cases h
          rw [hc]
          rfl
        · next hnone =>
          cases h
          rw [hnone]
          rfl
      · next hdue =>
        cases h
        rw [Option.any_some, decide_eq_false hdue]
        rfl

end Chain

/-- A change of the parameters is told to the gatekeepers. -/
def change (params : TokenomicParameters) : Announcement := .gatekeeper (.tokenomicParametersChanged params)

/-- What neither the update nor the subsidy writes. -/
structure SameOutside (c c' : Chain A W) : Prop where
  scheduled : c'.scheduledTokenomicUpdate = none
  pallets : c'.pallets = c.pallets
  start : c'.miningStartBlock = c.miningStartBlock
  interval : c'.miningHalvingInterval = c.miningHalvingInterval
  version : c'.storageVersion = c.storageVersion
  queued : c'.queuedOutboundMessage = c.queuedOutboundMessage

/-- What `on_finalize` makes of the chain. -/
structure Finalized (cfg : Config A W) (c c' : Chain A W) : Prop extends SameOutside c c' where
  parameters : c'.tokenomicParameters = c.closing
  pushed : ∃ seedInfo, powTarget cfg.overflowChecks (c.expectedHeartbeatCount.getD 20).toNat
      c.pallets.mining.onlineMiners cfg.expectedBlockTimeSec = .ok seedInfo.onlineTarget ∧
    c'.pushed = c.pushed ++ .heartbeatChallenge seedInfo :: c.changes.map change
  halvings : c'.halvings = c.halvings + if c.due = true ∧ c.updated.isSome = true then 1 else 0

namespace Chain

omit [DecidableEq A] [DecidableEq W] in
theorem applyUpdate_eq (c : Chain A W) : c.applyUpdate = { c with
    tokenomicParameters := c.updated
    scheduledTokenomicUpdate := none
    pushed := c.pushed ++ c.scheduledTokenomicUpdate.toList.map change
    events := c.events ++ c.scheduledTokenomicUpdate.toList.map fun _ => .tokenomicParametersChanged } := by
  unfold applyUpdate updated
  split
  · next hnone =>
    obtain ⟨⟩ := c
    simp_all
  · next tokenomic hsome =>
    rw [hsome]
    rfl

omit [DecidableEq A] [DecidableEq W] in
theorem subsidized_eq (h : c.due = true) : c.subsidized = { c with
    tokenomicParameters := c.tokenomicParameters.map .halved
    pushed := c.pushed ++ (c.tokenomicParameters.map TokenomicParameters.halved).toList.map change
    events := c.events ++ c.tokenomicParameters.elim [.internalErrorWrongHalvingConfigured]
      fun _ => [.subsidyBudgetHalved, .tokenomicParametersChanged] } := by
  unfold subsidized triggerSubsidyHalving
  rw [if_pos h]
  cases hparams : c.tokenomicParameters with
  | none =>
    obtain ⟨⟩ := c
    simp_all [depositEvent]
  | some params => simp [depositEvent, updateTokenomicParameters, pushMessage, change]

omit [DecidableEq A] [DecidableEq W] in
theorem onFinalize_ok (h : c.onFinalize cfg = .ok c') : Finalized cfg c c' := by
  obtain ⟨c₁, hchallenge, hsubsidy⟩ := bind_ok.mp h
  unfold heartbeatChallenge at hchallenge
  split at hchallenge
  · next onlineTarget htarget =>
    cases hchallenge
    rw [applyUpdate_eq] at hsubsidy
    have hresult := applySubsidy_ok hsubsidy
    have htold (l : List TokenomicParameters) : ∃ seedInfo, powTarget cfg.overflowChecks
        (c.expectedHeartbeatCount.getD 20).toNat c.pallets.mining.onlineMiners cfg.expectedBlockTimeSec =
          .ok seedInfo.onlineTarget ∧
        (c.pushed ++ [.heartbeatChallenge ⟨cfg.random c.block, onlineTarget⟩]) ++ l.map change =
          c.pushed ++ .heartbeatChallenge seedInfo :: l.map change :=
      ⟨⟨cfg.random c.block, onlineTarget⟩, htarget, by simp⟩
    have hcount : (c.events ++ c.scheduledTokenomicUpdate.toList.map fun _ =>
        Event.tokenomicParametersChanged).count .subsidyBudgetHalved = c.halvings := by
      simp [halvings, List.count_eq_zero]
    by_cases hdue : c.due = true
    · rw [hresult.trans (subsidized_eq hdue)]
      refine ⟨⟨rfl, rfl, rfl, rfl, rfl, rfl⟩, ?_, ?_, ?_⟩
      · rw [closing, if_pos hdue]
        rfl
      · rw [changes, if_pos hdue]
        obtain ⟨seedInfo, htarget, hpushed⟩ :=
          htold (c.scheduledTokenomicUpdate.toList ++ (c.updated.map TokenomicParameters.halved).toList)
        refine ⟨seedInfo, htarget, hpushed ▸ ?_⟩
        rw [List.map_append]
        exact List.append_assoc ..
      · refine List.count_append.trans (congrArg₂ _ hcount ?_)
        change List.count _ (c.updated.elim _ _) = _
        cases c.updated with
        | none => rw [if_neg fun h => absurd h.2 (by simp)]; rfl
        | some params => rw [if_pos ⟨hdue, rfl⟩]; rfl
    · rw [hresult.trans (if_neg hdue)]
      refine ⟨⟨rfl, rfl, rfl, rfl, rfl, rfl⟩, ?_, ?_, ?_⟩
      · rw [closing, if_neg hdue]
        rfl
      · rw [changes, if_neg hdue, List.append_nil]
        exact htold _
      · rw [if_neg fun h => hdue h.1]
        exact hcount
  · cases hchallenge

end Chain

/-! ## The steps -/

/-- What a block makes of the chain, up to where the next one begins. -/
structure Advanced (cfg : Config A W) (c c' : Chain A W) : Prop where
  block : c'.block = c.block + 1
  scheduled : c'.scheduledTokenomicUpdate = none
  ended : c'.ended = c.ended ++ [c.closing]
  applied : c'.applied = c.applied ++ c.scheduledTokenomicUpdate.toList
  halvings : c'.halvings = c.halvings + if c.due = true ∧ c.updated.isSome = true then 1 else 0
  pushed : ∃ seedInfo queued, powTarget cfg.overflowChecks (c.expectedHeartbeatCount.getD 20).toNat
      c.pallets.mining.onlineMiners cfg.expectedBlockTimeSec = .ok seedInfo.onlineTarget ∧
    (∀ event ∈ queued, event = .repairV) ∧ c'.pushed = c.pushed ++ (.heartbeatChallenge seedInfo ::
      c.changes.map change ++ (c.queuedOutboundMessage ++ queued).map .gatekeeper)
  queued : c'.queuedOutboundMessage = []
  /-- The first migration writes the parameters and tells nobody. -/
  parameters : c.storageVersion ≠ 0 → c'.tokenomicParameters = c.closing ∧ c'.storageVersion ≠ 0
  settled : c.storageVersion = 3 → c'.storageVersion = 3 ∧ c'.miningStartBlock = c.miningStartBlock ∧
    c'.miningHalvingInterval = c.miningHalvingInterval

omit [DecidableEq A] [DecidableEq W] in
theorem Chain.nextBlock_ok {upgraded : Bool} (h : c.nextBlock cfg upgraded = .ok c') : Advanced cfg c c' := by
  obtain ⟨c₁, hfinalize, h⟩ := bind_ok.mp h
  have hc := onFinalize_ok hfinalize
  obtain ⟨seedInfo, htarget, hpushed⟩ := hc.pushed
  have hsent (queued : List GatekeeperEvent) : c₁.pushed ++ (c₁.queuedOutboundMessage ++ queued).map .gatekeeper =
      c.pushed ++ (.heartbeatChallenge seedInfo :: c.changes.map change ++
        (c.queuedOutboundMessage ++ queued).map .gatekeeper) := by
    rw [hpushed, hc.queued, List.append_assoc]
  have hnone := hsent []
  rw [List.append_nil] at hnone
  have hended : c.ended ++ [c₁.tokenomicParameters] = c.ended ++ [c.closing] := by rw [hc.parameters]
  have hversion (hne : c.storageVersion ≠ 0) : c₁.storageVersion ≠ 0 := by rwa [hc.version]
  cases upgraded with
  | false =>
    cases h
    exact ⟨rfl, hc.scheduled, hended, rfl, hc.halvings, ⟨seedInfo, [], htarget, nofun, hnone⟩, rfl,
      fun hne => ⟨hc.parameters, hversion hne⟩, fun hthree => ⟨hc.version.trans hthree, hc.start, hc.interval⟩⟩
  | true =>
    cases h
    rw [if_pos rfl]
    unfold onRuntimeUpgrade
    split
    · next hzero =>
      replace hzero : c.storageVersion = 0 := hc.version.symm.trans hzero
      exact ⟨rfl, hc.scheduled, hended, rfl, hc.halvings, ⟨seedInfo, [], htarget, nofun, hnone⟩, rfl,
        fun hne => absurd hzero hne, fun hthree => by omega⟩
    · split
      · next htwo =>
        replace htwo : c.storageVersion = 2 := hc.version.symm.trans htwo
        exact ⟨rfl, hc.scheduled, hended, rfl, hc.halvings, ⟨seedInfo, [.repairV], htarget, by simp, hsent _⟩, rfl,
          fun _ => ⟨hc.parameters, by simp [onInitialize]⟩, fun hthree => by omega⟩
      · exact ⟨rfl, hc.scheduled, hended, rfl, hc.halvings, ⟨seedInfo, [], htarget, nofun, hnone⟩, rfl,
          fun hne => ⟨hc.parameters, hversion hne⟩, fun hthree => ⟨hc.version.trans hthree, hc.start, hc.interval⟩⟩

theorem Chain.call_ok {fuel : ℕ} {op : Khala.Op A W} (h : c.call cfg fuel op = .ok c') :
    ∃ s, Khala.exec cfg.pallets fuel c.state op = .ok s ∧ c' = { c with pallets := s } := by
  unfold Chain.call at h
  split at h
  · next s hs =>
    cases h
    exact ⟨s, hs, rfl⟩
  · cases h

/-- What an operation does to the tokenomics. -/
inductive Change (cfg : Config A W) (c : Chain A W) : Op A W → Chain A W → Prop
  | pallets {op s} : Change cfg c (.pallets op) { c with pallets := s }
  | update {newParams} : Change cfg c (.updateTokenomic newParams) (c.updateTokenomic newParams)
  | block {upgraded c'} : Advanced cfg c c' → Change cfg c (.nextBlock upgraded) c'

theorem step_change {op : Op A W} (h : Step cfg c op c') : Change cfg c op c' := by
  obtain ⟨-, fuel, h⟩ := h
  cases op with
  | pallets op =>
    obtain ⟨s, -, rfl⟩ := Chain.call_ok h
    exact .pallets
  | updateTokenomic newParams =>
    cases h
    exact .update
  | nextBlock upgraded => exact .block (Chain.nextBlock_ok h)

/-! ## A run -/

namespace Demo

def config : Config Khala.Demo.Account ℕ := ⟨Khala.Demo.release, 12, BitVec.toNat, true⟩

/-- A stake is a hundredth of the score's root. -/
def params : TokenomicParameters := { TokenomicParameters.phala with k := U64F64.ofBits (2 ^ 64 / 100) }

def genesis : Chain Khala.Demo.Account ℕ := (GenesisConfig.build ⟨604800, params⟩ Khala.Demo.genesis).onInitialize

/-- An interval has two blocks. -/
def start : Chain Khala.Demo.Account ℕ :=
  { genesis with miningStartBlock := some 1, miningHalvingInterval := some 2 }

def after (ops : List (Op Khala.Demo.Account ℕ)) : Chain Khala.Demo.Account ℕ :=
  ((run config 9 start ops).toOption).getD start

theorem after_ok {ops : List (Op Khala.Demo.Account ℕ)} (h : (run config 9 start ops).toOption.isSome = true) :
    run config 9 start ops = .ok (after ops) := by
  unfold after
  cases hrun : run config 9 start ops with
  | ok => rfl
  | error e =>
    rw [hrun] at h
    cases h

/-- Five blocks, one of them with a new runtime. -/
def blocks : List (Op Khala.Demo.Account ℕ) :=
  [.nextBlock false, .nextBlock false, .nextBlock true, .nextBlock false, .nextBlock false]

theorem blocks_continue : Continues config (fun op => ∀ newParams, op ≠ .updateTokenomic newParams) start
    (after blocks) :=
  run_continues (.init rfl) (by simp [blocks, Op.Proper]) (after_ok (by decide +kernel))

/-- The parameters are updated in a block that is the last one of its interval. -/
def updating : List (Op Khala.Demo.Account ℕ) :=
  [.nextBlock false, .updateTokenomic { params with budgetPerBlock := U64F64.fromNum 8 }, .nextBlock false,
    .nextBlock false]

theorem updating_continues : Continues config (fun _ => True) start (after updating) :=
  run_continues (.init rfl) (by simp [updating, Op.Proper]) (after_ok (by decide +kernel))

/-- A miner starts. -/
def mining : List (Op Khala.Demo.Account ℕ) :=
  [.nextBlock false, .pallets (.create (.user 0)), .pallets (.addWorker (.user 0) 0 0),
    .pallets (.contribute (.user 1) 0 1000000000000), .pallets (.startMining (.user 0) 0 0 1000000000000)]

theorem mining_continues : Continues config (fun _ => True) start (after mining) :=
  run_continues (.init rfl) (by simp [mining, Op.Proper]) (after_ok (by decide +kernel))

end Demo

/-! ## What is announced -/

/-- The changes among what is pushed. -/
def changesOf (pushed : List Announcement) : List TokenomicParameters :=
  pushed.filterMap fun
    | .gatekeeper (.tokenomicParametersChanged params) => some params
    | _ => none

/-- From `p`, the updates and the halvings that a list of changes consists of, and what they come to. -/
inductive Lawful (p : Option TokenomicParameters) :
    List TokenomicParameters → List TokenomicParameters → Option TokenomicParameters → Prop
  | none : Lawful p [] [] p
  | update {us cs q} (u : TokenomicParameters) : Lawful p us cs q → Lawful p (us ++ [u]) (cs ++ [u]) (some u)
  | halve {us cs q} : Lawful p us cs (some q) → Lawful p us (cs ++ [q.halved]) (some q.halved)

theorem Lawful.last {p q : Option TokenomicParameters} {us cs : List TokenomicParameters} (h : Lawful p us cs q) :
    q = cs.getLast?.or p := by
  cases h with
  | none => rfl
  | update u h => rw [List.getLast?_concat]; rfl
  | halve h => rw [List.getLast?_concat]; rfl

omit [DecidableEq A] [DecidableEq W] in
/-- A block's changes are lawful ones. -/
theorem Lawful.block {p : Option TokenomicParameters} {us cs : List TokenomicParameters}
    (h : Lawful p us cs c.tokenomicParameters) :
    Lawful p (us ++ c.scheduledTokenomicUpdate.toList) (cs ++ c.changes) c.closing := by
  have hupdated : Lawful p (us ++ c.scheduledTokenomicUpdate.toList)
      (cs ++ c.scheduledTokenomicUpdate.toList) c.updated := by
    unfold Chain.updated
    cases c.scheduledTokenomicUpdate with
    | none =>
      rw [Option.toList_none, List.append_nil, List.append_nil]
      exact h
    | some u => exact .update u h
  unfold Chain.changes Chain.closing
  rw [← List.append_assoc]
  split
  · cases hparams : c.updated with
    | none =>
      rw [hparams] at hupdated
      rw [Option.map_none, Option.toList_none, List.append_nil]
      exact hupdated
    | some params =>
      rw [hparams] at hupdated
      exact .halve hupdated
  · rw [List.append_nil]
    exact hupdated

@[simp] theorem changesOf_append (l l' : List Announcement) : changesOf (l ++ l') = changesOf l ++ changesOf l' :=
  List.filterMap_append

theorem changesOf_change (l : List TokenomicParameters) : changesOf (l.map change) = l := by
  induction l with
  | nil => rfl
  | cons p l ih => exact congrArg (p :: ·) ih

theorem changesOf_repairs {l : List GatekeeperEvent} (h : ∀ event ∈ l, event = .repairV) :
    changesOf (l.map .gatekeeper) = [] := by
  rw [changesOf, List.filterMap_eq_nil_iff]
  intro message hmem
  obtain ⟨event, hevent, rfl⟩ := List.mem_map.mp hmem
  rw [h event hevent]

/-- **Who is told has the parameters.** Once the pallet is set up, whatever is called
and whichever blocks and upgrades follow, what is announced from then on is the updates
that came into force, in turn, and between them three quarters of the budget before; and
the chain has what was announced last. -/
theorem parameters_announced (h : Continues cfg (fun _ => True) c c') (hversion : c.storageVersion ≠ 0)
    (hqueue : ∀ event ∈ c.queuedOutboundMessage, event = .repairV) : ∃ told us,
      c'.pushed = c.pushed ++ told ∧ c'.applied = c.applied ++ us ∧
      Lawful c.tokenomicParameters us (changesOf told) c'.tokenomicParameters ∧
      c'.tokenomicParameters = (changesOf told).getLast?.or c.tokenomicParameters := by
  have hrun : (c'.storageVersion ≠ 0 ∧ ∀ event ∈ c'.queuedOutboundMessage, event = .repairV) ∧ ∃ told us,
      c'.pushed = c.pushed ++ told ∧ c'.applied = c.applied ++ us ∧
      Lawful c.tokenomicParameters us (changesOf told) c'.tokenomicParameters := by
    refine h.invariant (fun c' => (c'.storageVersion ≠ 0 ∧ ∀ event ∈ c'.queuedOutboundMessage, event = .repairV) ∧
      ∃ told us, c'.pushed = c.pushed ++ told ∧ c'.applied = c.applied ++ us ∧
        Lawful c.tokenomicParameters us (changesOf told) c'.tokenomicParameters) ?_ fun c₁ op c₂ hc _ hstep => ?_
    · rintro _ rfl
      exact ⟨⟨hversion, hqueue⟩, [], [], (List.append_nil _).symm, (List.append_nil _).symm, .none⟩
    · obtain ⟨⟨hv, hq⟩, told, us, htold, hus, hlawful⟩ := hc
      cases step_change hstep with
      | pallets => exact ⟨⟨hv, hq⟩, told, us, htold, hus, hlawful⟩
      | update => exact ⟨⟨hv, hq⟩, told, us, htold, hus, hlawful⟩
      | block hnext =>
        obtain ⟨seedInfo, queued, -, hrepairs, hpushed⟩ := hnext.pushed
        obtain ⟨hparams, hv'⟩ := hnext.parameters hv
        refine ⟨⟨hv', by simp [hnext.queued]⟩, told ++ (.heartbeatChallenge seedInfo :: c₁.changes.map change ++
          (c₁.queuedOutboundMessage ++ queued).map .gatekeeper),
          us ++ c₁.scheduledTokenomicUpdate.toList, ?_, ?_, ?_⟩
        · rw [hpushed, htold, List.append_assoc]
        · rw [hnext.applied, hus, List.append_assoc]
        · have hsent : changesOf ((c₁.queuedOutboundMessage ++ queued).map .gatekeeper) = [] :=
            changesOf_repairs fun event hmem => (List.mem_append.mp hmem).elim (hq event) (hrepairs event)
          have hchanges : changesOf (told ++ (.heartbeatChallenge seedInfo :: c₁.changes.map change ++
              (c₁.queuedOutboundMessage ++ queued).map .gatekeeper)) = changesOf told ++ c₁.changes := by
            rw [changesOf_append, changesOf_append, hsent, List.append_nil]
            exact congrArg _ (changesOf_change _)
          rw [hchanges, hparams]
          exact hlawful.block
  obtain ⟨-, told, us, htold, hus, hlawful⟩ := hrun
  exact ⟨told, us, htold, hus, hlawful, hlawful.last⟩

theorem parameters_announced_demo : (∃ told us, (Demo.after Demo.updating).pushed = Demo.start.pushed ++ told ∧
      (Demo.after Demo.updating).applied = Demo.start.applied ++ us ∧
      Lawful Demo.start.tokenomicParameters us (changesOf told) (Demo.after Demo.updating).tokenomicParameters ∧
      (Demo.after Demo.updating).tokenomicParameters =
      (changesOf told).getLast?.or Demo.start.tokenomicParameters) ∧
    (Demo.after Demo.updating).tokenomicParameters =
      some { Demo.params with budgetPerBlock := U64F64.fromNum 6 } :=
  ⟨parameters_announced Demo.updating_continues (by decide)
    (by simp [Demo.start, Demo.genesis, Chain.onInitialize]),
    by decide +kernel⟩

/-! ## The budget, block by block -/

omit [DecidableEq A] [DecidableEq W] in
theorem Chain.due_iff {interval : BlockNumber} (hi : c.miningHalvingInterval = some interval)
    (hpos : 0 < interval) :
    c.due = true ↔ Decay.Last interval.toNat c.elapsed.toNat := by
  have hone : (interval - 1).toNat = interval.toNat - 1 := by bv_omega
  rw [due, hi, Option.any_some, decide_eq_true_eq, Decay.Last, ← hone, ← BitVec.toNat_umod, BitVec.toNat_inj]
  exact and_iff_right hpos

/-- `c'` comes after `c` by the blocks that ended with the parameters `es`, and the intervals are the same. -/
structure Paced (c : Chain A W) (es : List (Option TokenomicParameters)) (c' : Chain A W) : Prop where
  version : c'.storageVersion = 3
  start : c'.miningStartBlock = c.miningStartBlock
  interval : c'.miningHalvingInterval = c.miningHalvingInterval
  ended : c'.ended = c.ended ++ es
  elapsed : c'.elapsed = c.elapsed + BitVec.ofNat 32 es.length

namespace Paced

variable {c₁ c₂ : Chain A W} {es : List (Option TokenomicParameters)}

omit [DecidableEq A] [DecidableEq W] in
theorem refl (h : c.storageVersion = 3) : Paced c [] c :=
  ⟨h, rfl, rfl, (List.append_nil _).symm, by simp⟩

omit [DecidableEq A] [DecidableEq W] in
theorem block (h : Paced c es c₁) (hnext : Advanced cfg c₁ c₂) : Paced c (es ++ [c₁.closing]) c₂ := by
  obtain ⟨hversion, hstart, hinterval⟩ := hnext.settled h.version
  refine ⟨hversion, hstart.trans h.start, hinterval.trans h.interval, ?_, ?_⟩
  · rw [hnext.ended, h.ended, List.append_assoc]
  · have hone : c₂.elapsed = c₁.elapsed + 1 := by
      unfold Chain.elapsed
      rw [hnext.block, hstart]
      bv_omega
    rw [hone, h.elapsed, List.length_append, List.length_singleton, BitVec.ofNat_add, BitVec.add_assoc]
    rfl

omit [DecidableEq A] [DecidableEq W] in
/-- As long as the block numbers do not wrap, the blocks are counted. -/
theorem toNat_elapsed (h : Paced c es c') (hlt : c.elapsed.toNat + es.length < 2 ^ 32) :
    c'.elapsed.toNat = c.elapsed.toNat + es.length := by
  rw [h.elapsed, BitVec.toNat_add, BitVec.toNat_ofNat]
  omega

omit [DecidableEq A] [DecidableEq W] in
theorem length_eq (h : Paced c es c') : es.length = c'.ended.length - c.ended.length := by
  rw [h.ended, List.length_append]
  omega

end Paced

theorem iterate_halved (p : TokenomicParameters) (k : ℕ) : ∃ b : FixedPoint,
    TokenomicParameters.halved^[k] p = { p with budgetPerBlock := b } ∧
      b.bits = (fun b => 3 * b / 4)^[k] p.budgetPerBlock.bits := by
  induction k with
  | zero => exact ⟨p.budgetPerBlock, rfl, rfl⟩
  | succ k ih =>
    obtain ⟨b, hb, hbits⟩ := ih
    refine ⟨TokenomicParameters.threeQuarters * b, ?_, ?_⟩
    · rw [Function.iterate_succ_apply', hb]
      rfl
    · rw [Function.iterate_succ_apply', ← hbits]
      exact TokenomicParameters.bits_halved { p with budgetPerBlock := b }

omit [DecidableEq A] [DecidableEq W] in
/-- At the end of a block, the update has been applied and the period's tick is over. -/
theorem Chain.closing_eq {interval : BlockNumber} (hi : c.miningHalvingInterval = some interval)
    (hpos : 0 < interval) {p : TokenomicParameters} (hp : c.updated = some p) :
    c.closing = some (Decay.tick .halved interval.toNat c.elapsed.toNat p) := by
  unfold closing Decay.tick
  simp only [due_iff hi hpos, hp]
  split <;> rfl

/-- **The budget follows the calendar.** Where nothing is updated, or once an update has
come into force, the parameters at the end of each block are the same but for the budget,
and that is three quarters, rounded down, for each interval that has ended so far. -/
theorem budget_scheduled {interval : BlockNumber} {p : TokenomicParameters}
    (h : Continues cfg (fun op => ∀ newParams, op ≠ .updateTokenomic newParams) c c')
    (hversion : c.storageVersion = 3)
    (hi : c.miningHalvingInterval = some interval) (hpos : 0 < interval) (hp : c.updated = some p)
    (hwrap : c.elapsed.toNat + (c'.ended.length - c.ended.length) ≤ 2 ^ 32) : ∃ es, c'.ended = c.ended ++ es ∧
      c'.halvings = c.halvings + Decay.ended interval.toNat c.elapsed.toNat es.length ∧
      ∀ j q, es[j]? = some q → ∃ b : FixedPoint, q = some { p with budgetPerBlock := b } ∧
        b.bits = (fun b => 3 * b / 4)^[Decay.ended interval.toNat c.elapsed.toNat (j + 1)]
        p.budgetPerBlock.bits := by
  have hipos : 0 < interval.toNat := by bv_omega
  have hrun : ∃ es, Paced c es c' ∧ (c.elapsed.toNat + es.length ≤ 2 ^ 32 →
      c'.updated = some (TokenomicParameters.halved^[Decay.ended interval.toNat c.elapsed.toNat es.length] p) ∧
      c'.halvings = c.halvings + Decay.ended interval.toNat c.elapsed.toNat es.length ∧
      ∀ j q, es[j]? = some q →
        q = some (TokenomicParameters.halved^[Decay.ended interval.toNat c.elapsed.toNat (j + 1)] p)) := by
    refine h.invariant (fun c' => ∃ es, Paced c es c' ∧ (c.elapsed.toNat + es.length ≤ 2 ^ 32 →
      c'.updated = some (TokenomicParameters.halved^[Decay.ended interval.toNat c.elapsed.toNat es.length] p) ∧
      c'.halvings = c.halvings + Decay.ended interval.toNat c.elapsed.toNat es.length ∧
      ∀ j q, es[j]? = some q →
        q = some (TokenomicParameters.halved^[Decay.ended interval.toNat c.elapsed.toNat (j + 1)] p)))
      ?_ fun c₁ op c₂ hc hop hstep => ?_
    · rintro _ rfl
      exact ⟨[], .refl hversion, fun _ => ⟨by rw [List.length_nil, Decay.ended_zero]; exact hp, by simp, by simp⟩⟩
    · obtain ⟨es, hpaced, hspec⟩ := hc
      cases step_change hstep with
      | pallets => exact ⟨es, ⟨hpaced.version, hpaced.start, hpaced.interval, hpaced.ended, hpaced.elapsed⟩, hspec⟩
      | update => exact absurd rfl (hop _)
      | block hnext =>
        refine ⟨es ++ [c₁.closing], hpaced.block hnext, fun hle => ?_⟩
        rw [List.length_append, List.length_singleton] at hle
        obtain ⟨hupdated, hhalvings, hes⟩ := hspec (by omega)
        have hi₁ := hpaced.interval.trans hi
        have helapsed := hpaced.toNat_elapsed (by omega)
        have hclosing : c₁.closing =
            some (TokenomicParameters.halved^[Decay.ended interval.toNat c.elapsed.toNat (es.length + 1)] p) := by
          rw [Chain.closing_eq hi₁ hpos hupdated, helapsed, Decay.tick_iterate hipos]
        refine ⟨?_, ?_, ?_⟩
        · rw [Chain.updated, hnext.scheduled, (hnext.parameters (by rw [hpaced.version]; decide)).1, hclosing,
            List.length_append]
          rfl
        · rw [hnext.halvings, hhalvings, hupdated, List.length_append,
            List.length_singleton, Decay.ended_succ hipos]
          simp only [Chain.due_iff hi₁ hpos, helapsed, Option.isSome_some, and_true]
          split <;> omega
        · intro j q hq
          rw [List.getElem?_append] at hq
          split at hq
          · exact hes j q hq
          · next hge =>
            have hj : j - es.length < 1 := (List.getElem?_eq_some_iff.mp hq).1
            rw [show j = es.length by omega, Nat.sub_self] at hq
            rw [show j = es.length by omega, ← hclosing]
            exact (Option.some.inj hq).symm
  obtain ⟨es, hpaced, hspec⟩ := hrun
  rw [← hpaced.length_eq] at hwrap
  obtain ⟨-, hhalvings, hes⟩ := hspec hwrap
  refine ⟨es, hpaced.ended, hhalvings, fun j q hq => ?_⟩
  obtain ⟨b, hb, hbits⟩ := iterate_halved p (Decay.ended interval.toNat c.elapsed.toNat (j + 1))
  exact ⟨b, (hes j q hq).trans (congrArg some hb), hbits⟩

theorem budget_scheduled_demo : (∃ es, (Demo.after Demo.blocks).ended = Demo.start.ended ++ es ∧
      (Demo.after Demo.blocks).halvings = Demo.start.halvings +
        Decay.ended (2 : BlockNumber).toNat Demo.start.elapsed.toNat es.length ∧
      ∀ j q, es[j]? = some q → ∃ b : FixedPoint, q = some { Demo.params with budgetPerBlock := b } ∧
        b.bits = (fun b => 3 * b / 4)^[Decay.ended (2 : BlockNumber).toNat Demo.start.elapsed.toNat (j + 1)]
          Demo.params.budgetPerBlock.bits) ∧
    (Demo.after Demo.blocks).halvings = 2 :=
  ⟨budget_scheduled Demo.blocks_continue rfl rfl (by decide) rfl (by decide +kernel), by decide +kernel⟩

/-! ## What is emitted -/

/-- The budget of a block, in parts of 2 ^ 64. -/
def budget (params : Option TokenomicParameters) : ℕ := params.elim 0 fun p => p.budgetPerBlock.bits

def budgets (updates : List TokenomicParameters) : ℕ := (updates.map fun u => u.budgetPerBlock.bits).sum

omit [DecidableEq A] [DecidableEq W] in
theorem Chain.budget_closing {interval : BlockNumber} (hi : c.miningHalvingInterval = some interval)
    (hpos : 0 < interval) :
    budget c.closing = Decay.tick (fun b => 3 * b / 4) interval.toNat c.elapsed.toNat (budget c.updated) := by
  unfold closing Decay.tick
  simp only [due_iff hi hpos]
  split
  · cases c.updated with
    | none => rfl
    | some p => exact TokenomicParameters.bits_halved p
  · rfl

omit [DecidableEq A] [DecidableEq W] in
/-- An update is paid for when it comes into force. -/
theorem Chain.rest_updated (c : Chain A W) {i : ℕ} (e : ℕ) (hi : 0 < i) : Decay.rest 3 i e (budget c.updated) ≤
    Decay.rest 3 i e (budget c.tokenomicParameters) + 4 * i * budgets c.scheduledTokenomicUpdate.toList := by
  unfold updated
  cases c.scheduledTokenomicUpdate with
  | none => exact Nat.le_add_right _ _
  | some u =>
    have hle : Decay.rest 3 i e u.budgetPerBlock.bits ≤ 4 * i * u.budgetPerBlock.bits := Decay.rest_le hi
    simpa [budget, budgets] using hle.trans (Nat.le_add_left _ _)

/-- **All that is emitted is four intervals' worth.** Over any number of blocks, as long as
their count does not wrap, the budgets of all of them together come to at most four
intervals of the first budget and of each that an update has brought since. -/
theorem emission_bounded {interval : BlockNumber} (h : Continues cfg (fun _ => True) c c')
    (hversion : c.storageVersion = 3) (hi : c.miningHalvingInterval = some interval) (hpos : 0 < interval)
    (hwrap : c.elapsed.toNat + (c'.ended.length - c.ended.length) ≤ 2 ^ 32) : ∃ es us,
      c'.ended = c.ended ++ es ∧ c'.applied = c.applied ++ us ∧
      (es.map budget).sum ≤ 4 * interval.toNat * (budget c.tokenomicParameters + budgets us) := by
  have hipos : 0 < interval.toNat := by bv_omega
  have hrun : ∃ es us, Paced c es c' ∧ c'.applied = c.applied ++ us ∧ (c.elapsed.toNat + es.length ≤ 2 ^ 32 →
      (es.map budget).sum + Decay.rest 3 interval.toNat (c.elapsed.toNat + es.length)
      (budget c'.tokenomicParameters) ≤
        Decay.rest 3 interval.toNat c.elapsed.toNat (budget c.tokenomicParameters) +
          4 * interval.toNat * budgets us) := by
    refine h.invariant (fun c' => ∃ es us, Paced c es c' ∧ c'.applied = c.applied ++ us ∧
      (c.elapsed.toNat + es.length ≤ 2 ^ 32 → (es.map budget).sum +
          Decay.rest 3 interval.toNat (c.elapsed.toNat + es.length) (budget c'.tokenomicParameters) ≤
        Decay.rest 3 interval.toNat c.elapsed.toNat (budget c.tokenomicParameters) +
          4 * interval.toNat * budgets us)) ?_ fun c₁ op c₂ hc _ hstep => ?_
    · rintro _ rfl
      exact ⟨[], [], .refl hversion, (List.append_nil _).symm, fun _ => by simp⟩
    · obtain ⟨es, us, hpaced, hus, hspent⟩ := hc
      cases step_change hstep with
      | pallets =>
        exact ⟨es, us, ⟨hpaced.version, hpaced.start, hpaced.interval, hpaced.ended, hpaced.elapsed⟩, hus, hspent⟩
      | update =>
        exact ⟨es, us, ⟨hpaced.version, hpaced.start, hpaced.interval, hpaced.ended, hpaced.elapsed⟩, hus, hspent⟩
      | block hnext =>
        refine ⟨es ++ [c₁.closing], us ++ c₁.scheduledTokenomicUpdate.toList,
          hpaced.block hnext, ?_, fun hle => ?_⟩
        · rw [hnext.applied, hus, List.append_assoc]
        · rw [List.length_append, List.length_singleton] at hle
          have helapsed := hpaced.toNat_elapsed (by omega)
          have hparams := (hnext.parameters (by rw [hpaced.version]; decide)).1
          have hupdate := c₁.rest_updated (c.elapsed.toNat + es.length) hipos
          have htick : budget c₁.closing +
              Decay.rest 3 interval.toNat (c.elapsed.toNat + es.length + 1) (budget c₁.closing) ≤
                Decay.rest 3 interval.toNat (c.elapsed.toNat + es.length) (budget c₁.updated) := by
            rw [Chain.budget_closing (hpaced.interval.trans hi) hpos, helapsed]
            exact Decay.tick_add_rest hipos (by omega)
          have hbefore := hspent (by omega)
          have hsum : budgets (us ++ c₁.scheduledTokenomicUpdate.toList) =
              budgets us + budgets c₁.scheduledTokenomicUpdate.toList := by
            simp [budgets]
          rw [hparams, hsum, Nat.mul_add, List.map_append, List.sum_append, List.length_append]
          simp only [List.map_cons, List.map_nil, List.sum_cons, List.sum_nil, List.length_singleton, Nat.add_zero,
            ← Nat.add_assoc]
          omega
  obtain ⟨es, us, hpaced, hus, hspent⟩ := hrun
  rw [← hpaced.length_eq] at hwrap
  have hrest : Decay.rest 3 interval.toNat c.elapsed.toNat (budget c.tokenomicParameters) ≤
      4 * interval.toNat * budget c.tokenomicParameters := Decay.rest_le hipos
  refine ⟨es, us, hpaced.ended, hus, ?_⟩
  have hle := hspent hwrap
  rw [Nat.mul_add]
  omega

theorem emission_bounded_demo : (∃ es us, (Demo.after Demo.updating).ended = Demo.start.ended ++ es ∧
      (Demo.after Demo.updating).applied = Demo.start.applied ++ us ∧
      (es.map budget).sum ≤ 4 * (2 : BlockNumber).toNat * (budget Demo.start.tokenomicParameters + budgets us)) ∧
    (Demo.after Demo.updating).ended.length = 3 :=
  ⟨emission_bounded Demo.updating_continues rfl rfl (by decide) (by decide +kernel), by decide +kernel⟩

/-! ## What the pallets see -/

/-- The parameters are neither updated nor put into force by any other operation. -/
theorem exec_parameters {pallets : Khala.Config A W} {s s' : State A W} {fuel : ℕ} {op : Khala.Op A W}
    (hop : Op.Proper (.pallets op)) (h : Khala.exec pallets fuel s op = .ok s') :
    s'.mining.tokenomicParameters = s.mining.tokenomicParameters ∧
      s'.mining.scheduledTokenomicUpdate = s.mining.scheduledTokenomicUpdate := by
  have hsettled (hop : op.Settled) : s'.mining.tokenomicParameters = s.mining.tokenomicParameters ∧
      s'.mining.scheduledTokenomicUpdate = s.mining.scheduledTokenomicUpdate := by
    have hkept : s'.settings = s.settings := (exec_settings hop).ok h
    exact Prod.mk.inj (congrArg Prod.snd hkept)
  cases op with
  | updateTokenomic params => exact hop.elim
  | finalizeMining => exact hop.elim
  | forceRegisterWorker pubkey operator =>
    cases h
    exact ⟨rfl, rfl⟩
  | registerWorker pubkey operator confidenceLevel =>
    cases h
    exact ⟨rfl, rfl⟩
  | benchReport worker startTime iterations =>
    simp only [Khala.exec, State.benchReport, bind_ok] at h
    obtain ⟨_, -, _, -, _, -, h⟩ := h
    cases h
    exact ⟨rfl, rfl⟩
  | _ =>
    refine hsettled ?_
    trivial

namespace Chain

omit [DecidableEq A] [DecidableEq W] in
theorem state_pallets {s : State A W} (hparams : s.mining.tokenomicParameters = c.state.mining.tokenomicParameters)
    (hscheduled : s.mining.scheduledTokenomicUpdate = c.state.mining.scheduledTokenomicUpdate) :
    ({ c with pallets := s } : Chain A W).state = s := by
  change { s with mining := { s.mining with
    tokenomicParameters := c.state.mining.tokenomicParameters
    scheduledTokenomicUpdate := c.state.mining.scheduledTokenomicUpdate } } = s
  rw [← hparams, ← hscheduled]

omit [DecidableEq A] [DecidableEq W] in
theorem closing_onChain (c : Chain A W) :
    c.closing.map TokenomicParameters.onChain = c.updated.map TokenomicParameters.onChain := by
  unfold closing
  split
  · rw [Option.map_map]
    rfl
  · rfl

omit [DecidableEq A] [DecidableEq W] in
/-- Seen from the pallets, the end of a block is that of their own machine: they do not see a halving. -/
theorem state_finalized {c₁ : Chain A W} (h : Finalized cfg c c₁) : c₁.state = c.state.finalizeMining := by
  unfold state State.finalizeMining
  rw [h.parameters, h.scheduled, h.pallets, closing_onChain, updated]
  cases c.scheduledTokenomicUpdate <;> rfl

omit [DecidableEq A] [DecidableEq W] in
theorem nextBlock_state {upgraded : Bool} (h : c.nextBlock cfg upgraded = .ok c') :
    c'.state = c.state.finalizeMining ∨ c'.state =
      ((c.state.finalizeMining.setCoolDownExpiration 604800).updateTokenomic
      TokenomicParameters.khala.onChain).finalizeMining := by
  obtain ⟨c₁, hfinalize, h⟩ := bind_ok.mp h
  have hc := onFinalize_ok hfinalize
  rw [← state_finalized hc]
  cases upgraded with
  | false =>
    cases h
    exact .inl rfl
  | true =>
    cases h
    rw [if_pos rfl]
    unfold onRuntimeUpgrade
    split
    · refine .inr ?_
      unfold state
      rw [show c₁.scheduledTokenomicUpdate = none from hc.scheduled]
      rfl
    · split <;> exact .inl rfl

end Chain

/-- **The tokenomics refine the pallets' machine.** Whatever is updated, halved or
migrated, the pallets are in a state that their machine reaches by itself. -/
theorem pallets_refined (hc : Khala.Reachable cfg.pallets c.state) (h : Continues cfg (fun _ => True) c c') :
    Khala.Reachable cfg.pallets c'.state := by
  refine h.invariant (fun c' => Khala.Reachable cfg.pallets c'.state) (fun _ heq => heq ▸ hc)
    fun c₁ op c₂ hc _ hstep => ?_
  have hfinalized : Khala.Reachable cfg.pallets c₁.state.finalizeMining :=
    .step hc trivial ⟨0, (rfl : Khala.exec cfg.pallets 0 c₁.state .finalizeMining = _)⟩
  obtain ⟨hop, fuel, hexec⟩ := hstep
  cases op with
  | pallets op =>
    obtain ⟨s, hs, rfl⟩ := Chain.call_ok hexec
    have hstate : ({ c₁ with pallets := s } : Chain A W).state = s := by
      obtain ⟨hparams, hscheduled⟩ := exec_parameters hop hs
      exact Chain.state_pallets hparams hscheduled
    rw [hstate]
    exact .step hc trivial ⟨fuel, hs⟩
  | updateTokenomic newParams =>
    cases hexec
    exact .step hc trivial ⟨0, (rfl : Khala.exec cfg.pallets 0 c₁.state (.updateTokenomic newParams.onChain) = _)⟩
  | nextBlock upgraded =>
    rcases Chain.nextBlock_state hexec with hstate | hstate
    · rw [hstate]
      exact hfinalized
    · rw [hstate]
      have hcool : Khala.Reachable cfg.pallets (c₁.state.finalizeMining.setCoolDownExpiration 604800) :=
        .step hfinalized trivial ⟨0, (rfl : Khala.exec cfg.pallets 0 _ (.setCoolDownExpiration 604800) = _)⟩
      have hupdate : Khala.Reachable cfg.pallets
          ((c₁.state.finalizeMining.setCoolDownExpiration 604800).updateTokenomic
          TokenomicParameters.khala.onChain) :=
        .step hcool trivial
          ⟨0, (rfl : Khala.exec cfg.pallets 0 _ (.updateTokenomic TokenomicParameters.khala.onChain) = _)⟩
      exact .step hupdate trivial ⟨0, (rfl : Khala.exec cfg.pallets 0 _ .finalizeMining = _)⟩

/-- **A challenge asks for no more than it should.** In every block of every run, with as
many miners as mine then, the challenge is such that no more of them are expected to reply
than was set, and each of them at most twice an hour. -/
theorem heartbeats_bounded {c₁ c₂ : Chain A W} {upgraded : Bool} (hc : Khala.Reachable cfg.pallets c.state)
    (h : Continues cfg (fun _ => True) c c₁) (hnext : c₁.nextBlock cfg upgraded = .ok c₂)
    (honline : c₁.state.onlineCount < 2 ^ 31) (hs : 1 ≤ cfg.expectedBlockTimeSec)
    (hs' : cfg.expectedBlockTimeSec ≤ 1800) :
    ∃ seedInfo, .heartbeatChallenge seedInfo ∈ c₂.pushed.drop c₁.pushed.length ∧ seedInfo.onlineTarget < 2 ^ 256 ∧
      c₁.state.onlineCount * seedInfo.onlineTarget ≤ 2 ^ 256 * (c₁.expectedHeartbeatCount.getD 20).toNat ∧
      3600 / cfg.expectedBlockTimeSec * seedInfo.onlineTarget ≤ 2 * 2 ^ 256 := by
  obtain ⟨seedInfo, queued, htarget, -, hpushed⟩ := (Chain.nextBlock_ok hnext).pushed
  refine ⟨seedInfo, ?_, ?_⟩
  · rw [hpushed, List.drop_left]
    exact List.mem_append_left _ List.mem_cons_self
  · have hcount : c₁.pallets.mining.onlineMiners = c₁.state.onlineCount := by
      have hcycling := (pallets_refined hc h).cycling
      exact hcycling.online.trans (Nat.mod_eq_of_lt (by omega))
    rw [hcount] at htarget
    generalize c₁.state.onlineCount = n at *
    generalize (c₁.expectedHeartbeatCount.getD 20) = count at *
    generalize seedInfo.onlineTarget = target at *
    rcases Nat.eq_zero_or_pos n with rfl | hn
    · cases htarget
      simp
    · obtain ⟨quotient, shifted, -, -, -, hfrac, hok⟩ :=
        powTarget_ok cfg.overflowChecks count.isLt hn honline hs hs'
      rw [hfrac, htarget] at hok
      cases hok
      have hd := (blocksPerHour_bounds hs hs').1
      have hone : powFrac count.toNat n cfg.expectedBlockTimeSec ≤ 2 ^ 24 := powFrac_le hs hs'
      have hall : n * powFrac count.toNat n cfg.expectedBlockTimeSec ≤ 2 ^ 24 * count.toNat :=
        (Nat.mul_le_mul_left n (Nat.min_le_left _ _)).trans (Nat.mul_div_le _ _)
      have heach : 3600 / cfg.expectedBlockTimeSec * powFrac count.toNat n cfg.expectedBlockTimeSec ≤ 2 ^ 25 :=
        (Nat.mul_le_mul_left _ (Nat.min_le_right _ _)).trans (Nat.mul_div_le _ _)
      generalize powFrac count.toNat n cfg.expectedBlockTimeSec = f at *
      refine ⟨by omega, ?_, ?_⟩
      · calc n * ((2 ^ 256 - 1) / 2 ^ 24 * f) = (2 ^ 256 - 1) / 2 ^ 24 * (n * f) := Nat.mul_left_comm ..
          _ ≤ (2 ^ 256 - 1) / 2 ^ 24 * (2 ^ 24 * count.toNat) := Nat.mul_le_mul_left _ hall
          _ ≤ 2 ^ 256 * count.toNat := by omega
      · calc 3600 / cfg.expectedBlockTimeSec * ((2 ^ 256 - 1) / 2 ^ 24 * f)
            = (2 ^ 256 - 1) / 2 ^ 24 * (3600 / cfg.expectedBlockTimeSec * f) := Nat.mul_left_comm ..
          _ ≤ (2 ^ 256 - 1) / 2 ^ 24 * 2 ^ 25 := Nat.mul_le_mul_left _ heach
          _ ≤ 2 * 2 ^ 256 := by norm_num

theorem Demo.start_reachable : Khala.Reachable config.pallets start.state :=
  .init ⟨⟨rfl, rfl, rfl, rfl, rfl, rfl, rfl⟩, ⟨rfl, rfl, rfl⟩, ⟨rfl, rfl, rfl, rfl⟩, ⟨rfl, rfl⟩, rfl⟩

theorem heartbeats_bounded_demo : ∃ c₂, (Demo.after Demo.mining).nextBlock Demo.config false = .ok c₂ ∧
    ∃ seedInfo, .heartbeatChallenge seedInfo ∈ c₂.pushed.drop (Demo.after Demo.mining).pushed.length ∧
      1 * seedInfo.onlineTarget ≤ 2 ^ 256 * 20 ∧ 300 * seedInfo.onlineTarget ≤ 2 * 2 ^ 256 := by
  have honline : (Demo.after Demo.mining).state.onlineCount = 1 := by decide +kernel
  have hcount : ((Demo.after Demo.mining).expectedHeartbeatCount.getD 20).toNat = 20 := by decide +kernel
  have hhour : 3600 / Demo.config.expectedBlockTimeSec = 300 := rfl
  have hsome : ((Demo.after Demo.mining).nextBlock Demo.config false).toOption.isSome = true := by decide +kernel
  cases hnext : (Demo.after Demo.mining).nextBlock Demo.config false with
  | ok c₂ =>
    obtain ⟨seedInfo, hmem, -, hall, heach⟩ := heartbeats_bounded Demo.start_reachable Demo.mining_continues hnext
      (by omega) (by decide) (by decide)
    rw [honline, hcount] at hall
    rw [hhour] at heach
    exact ⟨c₂, rfl, seedInfo, hmem, hall, heach⟩
  | error stop =>
    rw [hnext] at hsome
    cases hsome

end Khala.Tokenomics
