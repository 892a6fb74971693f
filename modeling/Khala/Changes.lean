/-
The small changes that an operation is made of: writes that move no stake,
each with what the call checked before it. Invariants are kept change by
change; what a whole operation does is in `Khala.Effects` and `Khala.Cases`.
-/
import Khala.Moves
import Khala.StakePool

namespace Khala

open Outcome Relation

variable {A W : Type} [DecidableEq A] [DecidableEq W] {cfg : Config A W} {s s' : State A W}

/-! ## Small changes -/

/-- What small changes may do only in some operations. -/
structure Permit where
  /-- A miner that cools down is settled. -/
  settlesLate : Prop
  /-- The timetable of withdrawals changes. -/
  reschedules : Prop
  /-- A heartbeat records this challenge time. -/
  records : ℕ → Prop

/-- Nothing of these. -/
def Permit.none : Permit := ⟨False, False, fun _ => False⟩

/-- The pool's records of stake and of workers are the same. -/
structure PoolInfo.SameRecords (pool pool' : PoolInfo A W) : Prop where
  pid : pool'.pid = pool.pid
  totalShares : pool'.totalShares = pool.totalShares
  totalStake : pool'.totalStake = pool.totalStake
  freeStake : pool'.freeStake = pool.freeStake
  releasingStake : pool'.releasingStake = pool.releasingStake
  withdrawQueue : pool'.withdrawQueue = pool.withdrawQueue
  workers : pool'.workers = pool.workers

omit [DecidableEq A] [DecidableEq W] in
theorem PoolInfo.SameRecords.refl (pool : PoolInfo A W) : pool.SameRecords pool :=
  ⟨rfl, rfl, rfl, rfl, rfl, rfl, rfl⟩

/-- A message's effect on a miner's record. Only a settlement changes `v`, and
one of a miner that cools down only where `P` permits; only a heartbeat records a challenge. -/
structure MinerInfo.Updated (P : Permit) (info info' : MinerInfo) : Prop where
  ve : info'.ve = info.ve
  coolDownStart : info'.coolDownStart = info.coolDownStart
  state : info'.state = info.state ∨ info.state.isMining = true ∧ info'.state.isMining = true
  v : info'.v = info.v ∨ info'.state = info.state ∧ (info.state = .miningCoolingDown → P.settlesLate)
  challenge : info'.benchmark.challengeTimeLast = info.benchmark.challengeTimeLast ∨
    P.records info'.benchmark.challengeTimeLast

/-- The subsidy pool paid out. -/
def Balances.Subsidized (cfg : Config A W) (b b' : Balances A) : Prop :=
  (∃ target value, b.transfer cfg cfg.subsidyPool target value = some b') ∨
    ∃ value, b.withdraw cfg cfg.subsidyPool value = some b'

/-- What the stake side does not see: parameters, the registry, the timetable of withdrawals. -/
structure State.SameStore (s s' : State A W) : Prop where
  stakePools : s'.stakePools = s.stakePools
  books : s'.books = s.books
  miners : s'.mining.miners = s.mining.miners
  stakes : s'.mining.stakes = s.mining.stakes
  minerBindings : s'.mining.minerBindings = s.mining.minerBindings
  workerBindings : s'.mining.workerBindings = s.mining.workerBindings
  workerAssignments : s'.workerAssignments = s.workerAssignments
  notices : s'.notices = s.notices
  poolCount : s'.poolCount = s.poolCount
  onlineMiners : s'.mining.onlineMiners = s.mining.onlineMiners
  /-- No worker is deregistered. -/
  registry : ∀ w, s.registry.lookup w ≠ none → s'.registry.lookup w ≠ none
  now : s'.now = s.now

/-- The timetable of withdrawals is the same. -/
structure State.SameTimetable (s s' : State A W) : Prop where
  pools : s'.withdrawalQueuedPools = s.withdrawalQueuedPools
  timestamps : s'.withdrawalTimestamps = s.withdrawalTimestamps

/-- The state with the worker `w` added to the pool and bound to `m`. -/
def State.added (s : State A W) (m : A) (w : W) (info : MinerInfo) (pid : ℕ) (pool : PoolInfo A W) : State A W :=
  (((s.putBinding m w).putMiner m info).putPool pid
    { pool with workers := pool.workers ++ [w] }).putAssignment w pid

/-- The state with the worker `w` unbound from `m` and removed from the pool. -/
def State.released (s : State A W) (m : A) (w : W) (pid : ℕ) (pool : PoolInfo A W) : State A W :=
  ((s.removeBinding m w).removeAssignment w).putPool pid (pool.removeWorker w)

/-- The state with the miner `m` stopped. -/
def State.stopped (s : State A W) (m : A) (info : MinerInfo) (onlineMiners pid : ℕ) (pool : PoolInfo A W)
    (slashed : ℕ) : State A W :=
  (((s.putMiner m (info.coolDown s.nowSec)).setOnlineMiners onlineMiners).putPool pid
    { pool with releasingStake := pool.releasingStake + (s.stakeOf m - slashed) }).notice
    (.stopped m (s.stakeOf m) slashed)

/-- A change that moves no stake. -/
inductive Aside (cfg : Config A W) (P : Permit) (s : State A W) : State A W → Prop
  | other {t} : s.SameStore t → P.reschedules ∨ s.SameTimetable t → Aside cfg P s t
  | pool {pid pool pool'} : s.stakePools.lookup pid = some pool → pool.SameRecords pool' →
      Aside cfg P s (s.putPool pid pool')
  | staker {pid user user'} {u : A} : s.books.poolStakers.lookup (pid, u) = some user →
      PoolInfo.SameStake user user' → Aside cfg P s (s.putStaker pid u user')
  | funds {balances} : s.books.balances.Subsidized cfg balances → Aside cfg P s (s.setBalances balances)
  | miner {m info info'} : s.mining.miners.lookup m = some info → info.Updated P info' →
      Aside cfg P s (s.putMiner m info')
  | bind {m w pid pool info} : m = cfg.poolSubAccount pid w → s.stakePools.lookup pid = some pool →
      s.registry.lookup w ≠ none → s.mining.minerBindings.lookup m = none →
      s.mining.workerBindings.lookup w = none → (∀ old ∈ s.mining.miners.lookup m, old.state = .ready) →
      info.state = .ready → info.benchmark.challengeTimeLast = 0 → Aside cfg P s (s.added m w info pid pool)
  | release {m w pid pool} : s.mining.minerBindings.lookup m = some w → s.workerAssignments.lookup w = some pid →
      s.stakePools.lookup pid = some pool → Aside cfg P s (s.released m w pid pool)
  | stop {m w info onlineMiners pid pool returned slashed} : s.mining.minerBindings.lookup m = some w →
      s.mining.miners.lookup m = some info → info.state ≠ .ready → info.state ≠ .miningCoolingDown →
      State.lessOnline cfg s.mining.onlineMiners = .ok onlineMiners →
      s.workerAssignments.lookup w = some pid → s.stakePools.lookup pid = some pool →
      info.calcFinalStake cfg (s.stakeOf m) = .ok (returned, slashed) →
      Aside cfg P s (s.stopped m info onlineMiners pid pool slashed)

abbrev Asides (cfg : Config A W) (P : Permit) : State A W → State A W → Prop := ReflTransGen (Aside cfg P)

/-- What needs no permission may be done with any. -/
theorem Aside.of_none {P : Permit} (h : Aside cfg .none s s') : Aside cfg P s s' := by
  cases h with
  | other hs ht => exact .other hs (.inr (ht.resolve_left id))
  | pool hpool hs => exact .pool hpool hs
  | staker hu hs => exact .staker hu hs
  | funds h => exact .funds h
  | miner hm hu =>
    exact .miner hm ⟨hu.ve, hu.coolDownStart, hu.state, hu.v.imp_right fun h => ⟨h.1, fun hc => (h.2 hc).elim⟩,
      hu.challenge.imp_right False.elim⟩
  | bind hm hpool hr hmn hwn hold hready hnew => exact .bind hm hpool hr hmn hwn hold hready hnew
  | release hb ha hpool => exact .release hb ha hpool
  | stop hb hm hr hc ho ha hpool hf => exact .stop hb hm hr hc ho ha hpool hf

theorem Asides.of_none {P : Permit} (h : Asides cfg .none s s') : Asides cfg P s s' := by
  induction h with
  | refl => exact .refl
  | tail _ h ih => exact ih.tail h.of_none

/-- Only a change of parameters, the registry or the timetable writes the timetable. -/
theorem Aside.sameTimetable {P : Permit} (h : Aside cfg P s s') (hP : ¬P.reschedules) : s.SameTimetable s' := by
  cases h with
  | other _ ht => exact ht.resolve_left hP
  | _ => exact ⟨rfl, rfl⟩

theorem Asides.sameTimetable {P : Permit} (h : Asides cfg P s s') (hP : ¬P.reschedules) : s.SameTimetable s' := by
  induction h with
  | refl => exact ⟨rfl, rfl⟩
  | tail _ h ih =>
    have ht := h.sameTimetable hP
    exact ⟨ht.pools.trans ih.pools, ht.timestamps.trans ih.timestamps⟩

/-- No time passes. -/
theorem Aside.now_eq {P : Permit} (h : Aside cfg P s s') : s'.now = s.now := by
  cases h with
  | other hs => exact hs.now
  | _ => rfl

theorem Asides.now_eq {P : Permit} (h : Asides cfg P s s') : s'.now = s.now := by
  induction h with
  | refl => rfl
  | tail _ h ih => rw [h.now_eq, ih]

/-! ## The final stake -/

omit [DecidableEq A] [DecidableEq W] in
/-- The final stake depends on `v` and `ve` only. -/
theorem calcFinalStake_congr {info info' : MinerInfo} (hv : info'.v = info.v) (hve : info'.ve = info.ve)
    (origStake : ℕ) : info'.calcFinalStake cfg origStake = info.calcFinalStake cfg origStake := by
  simp only [MinerInfo.calcFinalStake, hv, hve]

/-- No more than the stake is returned. -/
theorem MinerInfo.returned_le (info : MinerInfo) (origStake : ℕ) :
    fromFixed (min (info.v / info.ve) 1 * toFixed origStake) ≤ origStake := by
  have hrate : (min (info.v / info.ve) 1).bits ≤ 2 ^ 64 := by
    rw [U64F64.bits_min]; exact min_le_right _ _
  exact fromFixed_part_le hrate origStake

omit [DecidableEq A] [DecidableEq W] in
theorem calcFinalStake_withChecks (info : MinerInfo) (checks : Check → Bool) (origStake : ℕ) :
    info.calcFinalStake (cfg.withChecks checks) origStake = info.calcFinalStake cfg origStake := by
  unfold MinerInfo.calcFinalStake
  dsimp only
  rw [Config.sub_of_le _ (info.returned_le origStake), Config.sub_of_le _ (info.returned_le origStake)]

omit [DecidableEq A] [DecidableEq W] in
/-- Neither subtraction of the final stake is ever short. -/
theorem calcFinalStake_ends {info : MinerInfo} {origStake : ℕ} {E : Fault → Prop}
    (hE : info.ve = 0 → E (.panic .zeroDivisor)) :
    Ends (info.calcFinalStake cfg origStake)
      (fun (returned, slashed) => returned ≤ origStake ∧ slashed = origStake - returned) E := by
  have hle := info.returned_le origStake
  refine (Ends.require fun hve => hE (not_not.mp hve)).bind fun _ _ => ?_
  dsimp only
  rw [Config.sub_of_le cfg hle]
  exact ⟨hle, rfl⟩

omit [DecidableEq A] [DecidableEq W] in
theorem calcFinalStake_ok {info : MinerInfo} {origStake returned slashed : ℕ}
    (h : info.calcFinalStake cfg origStake = .ok (returned, slashed)) :
    returned ≤ origStake ∧ slashed = origStake - returned :=
  (calcFinalStake_ends (E := fun _ => True) fun _ => trivial).ok h

/-! ## Lookups after a write -/

namespace State

omit [DecidableEq A] [DecidableEq W] in
theorem lookup_putPool (pid pid' : ℕ) (pool : PoolInfo A W) :
    (s.putPool pid pool).stakePools.lookup pid' = if pid' = pid then some pool else s.stakePools.lookup pid' :=
  StorageMap.lookup_insert_ite _ _ _ _

omit [DecidableEq A] [DecidableEq W] in
theorem lookup_putDesk (pid pid' : ℕ) (d : Desk A W) :
    (s.putDesk pid d).stakePools.lookup pid' = if pid' = pid then some d.pool else s.stakePools.lookup pid' :=
  StorageMap.lookup_insert_ite _ _ _ _

end State

/-! ## What small changes leave -/

/-- The pool's stake, shares and requests are the same. -/
structure PoolInfo.SameAmounts (pool pool' : PoolInfo A W) : Prop where
  pid : pool'.pid = pool.pid
  totalShares : pool'.totalShares = pool.totalShares
  totalStake : pool'.totalStake = pool.totalStake
  freeStake : pool'.freeStake = pool.freeStake
  withdrawQueue : pool'.withdrawQueue = pool.withdrawQueue

namespace PoolInfo.SameAmounts

variable {pool pool' pool'' : PoolInfo A W}

omit [DecidableEq A] [DecidableEq W] in
theorem refl (pool : PoolInfo A W) : pool.SameAmounts pool := ⟨rfl, rfl, rfl, rfl, rfl⟩

omit [DecidableEq A] [DecidableEq W] in
theorem trans (h : pool.SameAmounts pool') (h' : pool'.SameAmounts pool'') : pool.SameAmounts pool'' :=
  ⟨h'.pid.trans h.pid, h'.totalShares.trans h.totalShares, h'.totalStake.trans h.totalStake,
    h'.freeStake.trans h.freeStake, h'.withdrawQueue.trans h.withdrawQueue⟩

omit [DecidableEq A] [DecidableEq W] in
/-- One pool is replaced by another with the same amounts. -/
theorem of_put {pid pid' : ℕ} {p' : PoolInfo A W} (h : pool.SameAmounts pool')
    (hpool : s.stakePools.lookup pid = some pool) (hs : s'.stakePools = s.stakePools.insert pid pool')
    (hp : s'.stakePools.lookup pid' = some p') :
    ∃ p, s.stakePools.lookup pid' = some p ∧ p.SameAmounts p' := by
  rw [hs, StorageMap.lookup_insert_ite] at hp
  split at hp
  · next he =>
    cases hp
    exact ⟨pool, he ▸ hpool, h⟩
  · exact ⟨p', hp, refl p'⟩

end PoolInfo.SameAmounts

theorem Aside.pool_of_lookup {P : Permit} (h : Aside cfg P s s') {pid : ℕ} {pool' : PoolInfo A W}
    (hp : s'.stakePools.lookup pid = some pool') :
    ∃ pool, s.stakePools.lookup pid = some pool ∧ pool.SameAmounts pool' := by
  cases h with
  | other hs => exact ⟨pool', hs.stakePools ▸ hp, .refl pool'⟩
  | pool hpool hs =>
    have ha : PoolInfo.SameAmounts _ _ := ⟨hs.pid, hs.totalShares, hs.totalStake, hs.freeStake, hs.withdrawQueue⟩
    exact ha.of_put hpool rfl hp
  | @bind m w pid pool info _ hpool =>
    have ha : pool.SameAmounts { pool with workers := pool.workers ++ [w] } := ⟨rfl, rfl, rfl, rfl, rfl⟩
    exact ha.of_put hpool rfl hp
  | @release m w pid pool _ _ hpool =>
    have ha : pool.SameAmounts (pool.removeWorker w) := ⟨rfl, rfl, rfl, rfl, rfl⟩
    exact ha.of_put hpool rfl hp
  | @stop m w info onlineMiners pid pool returned slashed _ _ _ _ _ _ hpool =>
    have ha : pool.SameAmounts { pool with releasingStake := pool.releasingStake + (s.stakeOf m - slashed) } :=
      ⟨rfl, rfl, rfl, rfl, rfl⟩
    exact ha.of_put hpool rfl hp
  | _ => exact ⟨pool', hp, .refl pool'⟩

/-- Small changes move no stake in any pool, and make no pool. -/
theorem Asides.pool_of_lookup {P : Permit} (h : Asides cfg P s s') {pid : ℕ} {pool' : PoolInfo A W}
    (hp : s'.stakePools.lookup pid = some pool') :
    ∃ pool, s.stakePools.lookup pid = some pool ∧ pool.SameAmounts pool' := by
  induction h generalizing pool' with
  | refl => exact ⟨pool', hp, .refl pool'⟩
  | tail _ h ih =>
    obtain ⟨pool₁, hp₁, hs₁⟩ := h.pool_of_lookup hp
    obtain ⟨pool, hpool, hs⟩ := ih hp₁
    exact ⟨pool, hpool, hs.trans hs₁⟩

omit [DecidableEq A] in
theorem PoolInfo.SameStake.trans {user user' user'' : UserStakeInfo A} (h : SameStake user user')
    (h' : SameStake user' user'') : SameStake user user'' := by
  obtain ⟨_, _, rfl⟩ := h
  obtain ⟨a, d, rfl⟩ := h'
  exact ⟨a, d, rfl⟩

/-- Small changes leave every staker in place. -/
theorem Asides.staker_of_lookup {P : Permit} (h : Asides cfg P s s') {k : ℕ × A} {user : UserStakeInfo A}
    (hu : s.books.poolStakers.lookup k = some user) :
    ∃ user', s'.books.poolStakers.lookup k = some user' ∧ PoolInfo.SameStake user user' := by
  induction h with
  | refl => exact ⟨user, hu, .refl user⟩
  | tail _ h ih =>
    obtain ⟨user₁, hu₁, hs₁⟩ := ih
    cases h with
    | other hs => exact ⟨user₁, hs.books ▸ hu₁, hs₁⟩
    | @staker pid old new u hold hs =>
      by_cases he : k = (pid, u)
      · subst he
        rw [hold] at hu₁
        cases hu₁
        exact ⟨new, Books.lookup_putStaker_self _ _ _ _, hs₁.trans hs⟩
      · refine ⟨user₁, ?_, hs₁⟩
        exact (Books.lookup_putStaker _ _ _ _ _).trans ((if_neg he).trans hu₁)
    | _ => exact ⟨user₁, hu₁, hs₁⟩

end Khala
