/-
What each operation does and how it can fail (`exec_ends`): the calls that
move stake one by one, everything else as small changes. Each invariant of
the pallet is proved from these cases.
-/
import Khala.Effects

namespace Khala

open Outcome Relation

variable {A W : Type} [DecidableEq A] [DecidableEq W] {cfg : Config A W} {s s' : State A W}

/-! ## Records under their keys -/

/-- Every record is stored under the key that it names, and stakers only under pools that exist. -/
structure State.WellFiled (s : State A W) : Prop where
  pool : ∀ pid pool, s.stakePools.lookup pid = some pool → pool.pid = pid ∧ pid < s.poolCount
  staker : ∀ pid u user, s.books.poolStakers.lookup (pid, u) = some user → user.user = u ∧ pid < s.poolCount

/-- The state as every operation finds it: records under their keys, bindings that agree, a timetable in order. -/
structure State.Sound (cfg : Config A W) (s : State A W) : Prop where
  filed : s.WellFiled
  bound : s.Bound cfg
  timed : s.Timed s.nowSec s.withdrawalTimestamps

/-! ## Contributing -/

/-- The contributor's record is a new one, or the stored one settled. -/
inductive Prepared (cfg : Config A W) (d : Desk A W) (who : A) : Books A W → UserStakeInfo A → Prop
  | join : d.books.poolStakers.lookup (d.pool.pid, who) = none → Prepared cfg d who d.books ⟨who, 0, 0, 0, 0⟩
  | settle {user user₁} : d.books.poolStakers.lookup (d.pool.pid, who) = some user →
      PoolInfo.SameStake user user₁ →
      Prepared cfg d who (d.books.settled cfg d.pool user₁) { user₁ with locked := d.pool.settledLocked user₁ }

omit [DecidableEq W] in
theorem Prepared.moves {d : Desk A W} {who : A} {books : Books A W} {user : UserStakeInfo A}
    (h : Prepared cfg d who books user) : Moves cfg d ⟨d.pool, books.putStaker d.pool.pid who user⟩ := by
  cases h with
  | join hn => exact .single (.join hn)
  | settle hu hs => exact Desk.settle_moves hu hs

/-- The desk once the stake is added and locked. -/
def Desk.contributed (pool : PoolInfo A W) (books : Books A W) (who : A) (user : UserStakeInfo A)
    (amount : ℕ) : Desk A W :=
  ⟨pool.added amount, ((books.touch (.add amount) pool user).putStaker pool.pid who
    (pool.addedStaker user amount)).ledgerAccrue who amount⟩

/-- What the contributor was checked for. -/
structure Contributable (cfg : Config A W) (s : State A W) (who : A) (pool : PoolInfo A W) (amount : ℕ) :
    Prop where
  min : cfg.minContribution ≤ amount
  free : s.books.ledgerQuery who ≤ s.books.balances.free who →
    s.books.ledgerQuery who + amount ≤ s.books.balances.free who
  solvent : pool.totalShares = 0 ∨ pool.totalStake > 0

/-! ## Starting and reclaiming -/

/-- The state with the miner `m` started. -/
def State.started (s : State A W) (m : A) (stake : ℕ) (info : MinerInfo) (onlineMiners nextSessionId : ℕ) :
    State A W :=
  (((s.putStake m stake).putMiner m info).setOnlineMiners onlineMiners).setNextSessionId nextSessionId

/-- What `Mining::start_mining` did. -/
structure Started (cfg : Config A W) (s : State A W) (m : A) (stake : ℕ) (s' : State A W) : Prop where
  intro ::
  result : ∃ w info info' onlineMiners nextSessionId, s.mining.minerBindings.lookup m = some w ∧
    s.mining.miners.lookup m = some info ∧ info.state = .ready ∧ s.mining.stakes.lookup m = none ∧
    info'.state = .miningIdle ∧ info'.v = info'.ve ∧
    cfg.fit .onlineMiners 32 (s.mining.onlineMiners + 1) = .ok onlineMiners ∧
    s' = s.started m stake info' onlineMiners nextSessionId
  challenges : ∀ m' info', s'.mining.miners.lookup m' = some info' →
    ∃ info, s.mining.miners.lookup m' = some info ∧ info'.benchmark.challengeTimeLast =
    info.benchmark.challengeTimeLast

omit [DecidableEq W] in
/-- Starting a miner writes to the mining pallet's storage only. -/
theorem Started.mining_only {m : A} {stake : ℕ} (h : Started cfg s m stake s') :
    ∃ mining, s' = { s with mining := mining } := by
  obtain ⟨_, _, _, _, _, _, _, _, _, _, _, _, rfl⟩ := h.result
  exact ⟨_, rfl⟩

omit [DecidableEq W] in
/-- Starting a miner touches neither pools nor books. -/
theorem Started.unchanged {m : A} {stake : ℕ} (h : Started cfg s m stake s') :
    s'.stakePools = s.stakePools ∧ s'.books = s.books ∧ s'.poolCount = s.poolCount := by
  obtain ⟨mining, rfl⟩ := h.mining_only
  exact ⟨rfl, rfl, rfl⟩

/-- The state with the miner `m` reclaimed, its pool still untouched. -/
def State.reclaimedMiner (s : State A W) (m : A) (info : MinerInfo) (slashed : ℕ) : State A W :=
  ((s.putMiner m { info with state := .ready, coolDownStart := 0 }).removeStake m).notice
    (.reclaimed m (s.stakeOf m) slashed)

/-- The pool that gets `returned` back of a stake, and loses `slashed`. -/
def PoolInfo.givenBack (pool : PoolInfo A W) (returned slashed : ℕ) : PoolInfo A W :=
  { pool with
    totalStake := if slashed ≠ 0 then (extractDust (pool.totalStake - slashed)).1 else pool.totalStake
    freeStake := pool.freeStake + returned
    releasingStake := pool.releasingStake - returned }

namespace PoolInfo

variable {pool : PoolInfo A W} {returned slashed : ℕ}

omit [DecidableEq A] [DecidableEq W] in
@[simp] theorem givenBack_pid : (pool.givenBack returned slashed).pid = pool.pid := rfl

omit [DecidableEq A] [DecidableEq W] in
@[simp] theorem givenBack_totalShares : (pool.givenBack returned slashed).totalShares = pool.totalShares := rfl

omit [DecidableEq A] [DecidableEq W] in
@[simp] theorem givenBack_freeStake : (pool.givenBack returned slashed).freeStake =
    pool.freeStake + returned := rfl

omit [DecidableEq A] [DecidableEq W] in
@[simp] theorem givenBack_withdrawQueue :
    (pool.givenBack returned slashed).withdrawQueue = pool.withdrawQueue := rfl

omit [DecidableEq A] [DecidableEq W] in
/-- The stake after the slash, also where there is none to take. -/
theorem givenBack_totalStake (h : slashed ≠ 0) :
    (pool.givenBack returned slashed).totalStake = (extractDust (pool.totalStake - slashed)).1 := if_pos h

omit [DecidableEq A] [DecidableEq W] in
theorem givenBack_totalStake_zero : (pool.givenBack returned 0).totalStake = pool.totalStake := rfl

end PoolInfo

/-- The miner can be reclaimed, with this final stake. -/
structure Reclaimable (cfg : Config A W) (s : State A W) (m : A) (info : MinerInfo) (returned slashed : ℕ) :
    Prop where
  miner : s.mining.miners.lookup m = some info
  state : info.state = .miningCoolingDown
  elapsed : ∃ elapsed, cfg.sub64 .coolDown s.nowSec info.coolDownStart = .ok elapsed ∧
    s.mining.coolDownPeriod ≤ elapsed
  final : info.calcFinalStake cfg (s.stakeOf m) = .ok (returned, slashed)

/-! ## The queue's reconciliation -/

/-- The queue with the first request above the available shares cut to them. -/
def reconciledQueue (available idx : ℕ) (queue : List (WithdrawInfo A)) : List (WithdrawInfo A) :=
  if available = 0 then queue.eraseIdx idx else queue.modify idx fun req => { req with shares := available }

/-- The state with a withdrawal's expiry scheduled, if some of its shares have to wait. -/
@[irreducible] def State.scheduled (s : State A W) (pool : PoolInfo A W) (shares : ℕ) : State A W :=
  if Desk.sharesLater pool shares > 0 then s.maybeAddWithdrawQueue s.nowSec pool.pid else s

/-! ## The cases -/

/-- A settlement in the operation meets a miner that is cooling down. -/
def State.SettlesLate (s : State A W) (op : Op A W) : Prop :=
  ∃ event, op = .gkMessage event ∧ s.SettlesCooling event

/-- The challenge time that the operation records, if it is a heartbeat. -/
def Op.Records : Op A W → ℕ → Prop
  | .heartbeat _ _ challengeTime, t => t = challengeTime / 1000
  | _, _ => False

/-- What small changes the operation may make. -/
def State.permit (s : State A W) (op : Op A W) : Permit := ⟨s.SettlesLate op, False, op.Records⟩

/-- What an operation that ends well did. -/
inductive Did (cfg : Config A W) (s : State A W) : Op A W → State A W → Prop
  | create {owner} : Did cfg s (.create owner) (s.create owner)
  | contribute {who pid amount pool books user fuel d} : s.stakePools.lookup pid = some pool →
      Contributable cfg s who pool amount → Prepared cfg ⟨pool, s.books⟩ who books user →
      Desk.tryProcessWithdrawQueue cfg fuel (Desk.contributed pool books who user amount) = .ok d →
      Did cfg s (.contribute who pid amount) (s.putDesk pid d)
  | withdraw {who pid shares pool user d user'} : s.stakePools.lookup pid = some pool →
      s.books.poolStakers.lookup (pid, who) = some user → 1000 < shares → shares ≤ user.shares →
      Desk.Withdrew cfg ⟨pool, s.books⟩ user shares s.nowSec d user' →
      Did cfg s (.withdraw who pid shares) (((s.scheduled pool shares).putDesk pid d).putStaker pid who user')
  | reconcile {pid account pool user idx} : s.stakePools.lookup pid = some pool →
      s.books.poolStakers.lookup (pid, account) = some user →
      (pool.withdrawQueue.findIdx? fun req =>
        req.user = account ∧ req.shares > (extractDust user.shares).1) = some idx →
      Did cfg s (.reconcileWithdrawQueue pid account) (s.putPool pid { pool with
        withdrawQueue := reconciledQueue (extractDust user.shares).1 idx pool.withdrawQueue })
  | start {owner pid w stake pool s₁} : s.stakePools.lookup pid = some pool → stake ≤ pool.freeStake →
      w ∈ pool.workers → Started cfg s (cfg.poolSubAccount pid w) stake s₁ →
      Did cfg s (.startMining owner pid w stake)
        (s₁.putPool pid { pool with freeStake := pool.freeStake - stake })
  | forceStart {m stake s₁} : Started cfg s m stake s₁ → Did cfg s (.forceStartMining m stake) s₁
  | reclaim {pid w pool info returned slashed fuel d} : s.stakePools.lookup pid = some pool →
      Reclaimable cfg s (cfg.poolSubAccount pid w) info returned slashed →
      Desk.tryProcessWithdrawQueue cfg fuel ⟨pool.givenBack returned slashed, s.books⟩ = .ok d →
      Did cfg s (.reclaimPoolWorker pid w)
        ((s.reclaimedMiner (cfg.poolSubAccount pid w) info slashed).putDesk pid d)
  | balances {free} : Did cfg s (.balances free) (s.setBalances { s.books.balances with free })
  | time {now} : s.now ≤ now → Did cfg s (.time now) { s with now }
  | finalize {s' processed} : Asides cfg ⟨False, True, fun _ => False⟩ s s' →
      State.Finalized cfg s.nowSec s.withdrawalTimestamps s s' processed → Did cfg s .onFinalize s'
  | aside {op s'} : Asides cfg (s.permit op) s s' → Did cfg s op s'

/-- How an operation can fail. -/
inductive Botched (cfg : Config A W) (fuel : ℕ) (s : State A W) : Op A W → Fault → Prop
  | mild {op e} : e ∉ graveFaults → Botched cfg fuel s op e
  | free {who pid amount} : s.books.balances.free who < s.books.ledgerQuery who →
      Botched cfg fuel s (.contribute who pid amount) (.panic (.check .contributeFree))
  | prepare {who pid amount pool e} : s.stakePools.lookup pid = some pool → Fails cfg ⟨pool, s.books⟩ e →
      Botched cfg fuel s (.contribute who pid amount) e
  | contribute {who pid amount pool books user e} : s.stakePools.lookup pid = some pool →
      Contributable cfg s who pool amount → Prepared cfg ⟨pool, s.books⟩ who books user →
      s.contributor cfg pool pid who = .ok (books, user) →
      Desk.tryProcessWithdrawQueue cfg fuel (Desk.contributed pool books who user amount) = .error e →
      Botched cfg fuel s (.contribute who pid amount) e
  | withdraw {who pid shares pool user e} : s.stakePools.lookup pid = some pool →
      s.books.poolStakers.lookup (pid, who) = some user → shares ≤ user.shares →
      Fails cfg ⟨pool, s.books⟩ e → Botched cfg fuel s (.withdraw who pid shares) e
  | slash {pid w pool info returned slashed} : s.stakePools.lookup pid = some pool →
      Reclaimable cfg s (cfg.poolSubAccount pid w) info returned slashed → pool.totalStake < slashed →
      Botched cfg fuel s (.reclaimPoolWorker pid w) (.panic (.check .slashStake))
  | release {pid w pool info returned slashed} : s.stakePools.lookup pid = some pool →
      Reclaimable cfg s (cfg.poolSubAccount pid w) info returned slashed → pool.releasingStake < returned →
      Botched cfg fuel s (.reclaimPoolWorker pid w) (.panic (.check .releasing))
  | reclaim {pid w pool info returned slashed e} : s.stakePools.lookup pid = some pool →
      Reclaimable cfg s (cfg.poolSubAccount pid w) info returned slashed →
      Desk.tryProcessWithdrawQueue cfg fuel ⟨pool.givenBack returned slashed, s.books⟩ = .error e →
      Botched cfg fuel s (.reclaimPoolWorker pid w) e

namespace State

omit [DecidableEq W] in
theorem contributor_ends {pool : PoolInfo A W} {who : A} :
    Ends (s.contributor cfg pool pool.pid who) (fun (books, user) => Prepared cfg ⟨pool, s.books⟩ who books user)
      (Fails cfg ⟨pool, s.books⟩) := by
  unfold contributor
  split
  · next user hu =>
    refine Ends.bind (PoolInfo.settleUserPendingReward_ends ?_) fun user₁ h => ?_
    · exact Stuck.fails (.plain (by simp [Check.Plain]))
    obtain ⟨hs, -⟩ := h
    refine (Books.maybeSettleSlash_ends fun hd hlt => ?_).mono ?_ fun _ h => h
    · -- the desk with the rewards stored
      let d₁ : Desk A W := ⟨pool, s.books.putStaker pool.pid who user₁⟩
      have hm : Moves cfg ⟨pool, s.books⟩ d₁ := .single (.reward hu hs)
      have hst : Stuck cfg d₁ (.panic (.check .ledgerReduce)) :=
        .settle (Books.lookup_putStaker_self _ _ _ _) hd hlt
      exact hst.fails.of_moves hm
    · rintro _ rfl
      exact .settle (d := ⟨pool, s.books⟩) hu hs
  · next hn => exact Prepared.join (d := ⟨pool, s.books⟩) hn

theorem contribute_ends {fuel : ℕ} {who : A} {pid amount : ℕ} (hf : s.WellFiled) :
    Ends (s.contribute cfg fuel who pid amount) (Did cfg s (.contribute who pid amount))
      (Botched cfg fuel s (.contribute who pid amount)) := by
  refine Ends.bind (Ends.require fun _ => .mild (by decide)) fun _ hmin => ?_
  refine Ends.bind (cfg.sub_ends fun h => .free h) fun available havail => ?_
  refine Ends.bind (Ends.require fun _ => .mild (by decide)) fun _ hfree => ?_
  refine Ends.bind (Ends.get fun _ => .mild (by decide)) fun pool hpool => ?_
  refine Ends.bind (Ends.require fun _ => .mild (by decide)) fun _ _ => ?_
  refine Ends.bind (Ends.require fun _ => .mild (by decide)) fun _ hsolvent => ?_
  obtain ⟨rfl, -⟩ := hf.pool _ _ hpool
  have hc : Contributable cfg s who pool amount := ⟨hmin, fun hle => by omega, hsolvent⟩
  refine Ends.bind (contributor_ends.result.mono (fun _ h => h) fun _ h => .prepare hpool h) ?_
  rintro ⟨books, user⟩ ⟨hcon, hprep⟩
  refine Ends.bind (PoolInfo.addStake_ends ⟨.mild (by decide), .mild (by decide), .mild (by decide)⟩) ?_
  rintro _ rfl
  refine Ends.bind (x := Desk.tryProcessWithdrawQueue cfg fuel (Desk.contributed pool books who user amount))
    (Q := fun d => Desk.tryProcessWithdrawQueue cfg fuel (Desk.contributed pool books who user amount) = .ok d)
    (ends_iff.mpr ⟨fun _ h => h, fun e he => .contribute hpool hc hprep hcon he⟩) fun d hd => ?_
  exact .contribute hpool hc hprep hd

omit [DecidableEq A] in
theorem scheduled_sameStore (s : State A W) (pool : PoolInfo A W) (shares : ℕ) :
    s.SameStore (s.scheduled pool shares) := by
  unfold scheduled
  split <;> exact ⟨rfl, rfl, rfl, rfl, rfl, rfl, rfl, rfl, rfl, rfl, fun _ h => h, rfl⟩

theorem withdraw_ends {fuel : ℕ} {who : A} {pid shares : ℕ} (hf : s.WellFiled) :
    Ends (s.withdraw cfg who pid shares) (Did cfg s (.withdraw who pid shares))
      (Botched cfg fuel s (.withdraw who pid shares)) := by
  refine Ends.bind (Ends.get fun _ => .mild (by decide)) fun user hu => ?_
  refine Ends.bind (Ends.require fun _ => .mild (by decide)) fun _ ⟨hnd, hle⟩ => ?_
  refine Ends.bind (Ends.get fun _ => .mild (by decide)) fun pool hpool => ?_
  obtain ⟨rfl, -⟩ := hf.pool _ _ hpool
  have hu' : (⟨pool, s.books⟩ : Desk A W).books.poolStakers.lookup (pool.pid, who) = some user := hu
  refine Ends.bind ((Desk.tryWithdraw_ends hu').mono (fun _ h => h) fun e he => ?_) ?_
  · exact .withdraw hpool hu hle he
  rintro ⟨d, user'⟩ hd
  have hdid : Did cfg s (.withdraw who pool.pid shares) _ :=
    .withdraw hpool hu (isNondustBalance_iff.mp hnd) hle hd
  unfold scheduled at hdid
  exact hdid

theorem reconcileWithdrawQueue_ends {fuel pid : ℕ} {account : A} :
    Ends (s.reconcileWithdrawQueue pid account) (Did cfg s (.reconcileWithdrawQueue pid account))
      (Botched cfg fuel s (.reconcileWithdrawQueue pid account)) := by
  refine Ends.bind (Ends.get fun _ => .mild (by decide)) fun pool hpool => ?_
  refine Ends.bind (Ends.get fun _ => .mild (by decide)) fun user hu => ?_
  dsimp only
  split
  · exact Did.aside .refl
  · next idx hidx => exact Did.reconcile hpool hu hidx

theorem startMining_ends {m : A} {stake : ℕ} (hb : s.Bound cfg) :
    Ends (s.startMining cfg m stake) (Started cfg s m stake) fun e => e ∉ graveFaults := by
  refine Ends.bind (Ends.get fun _ => by decide) fun w hw => ?_
  refine Ends.bind (Ends.get fun hn => absurd hn (hb.miner m (by rw [hw]; nofun))) fun info hinfo => ?_
  refine Ends.bind (Ends.require fun _ => by decide) fun _ hready => ?_
  refine Ends.bind (Ends.require fun _ => by decide) fun _ hnone => ?_
  refine Ends.bind (Ends.get fun hn => absurd hn (hb.worker_of_binding hw)) fun _ _ => ?_
  refine Ends.bind (Ends.get fun _ => by decide) fun _ _ => ?_
  refine Ends.bind (Ends.require fun _ => by decide) fun _ _ => ?_
  refine Ends.bind (Ends.get fun _ => by decide) fun _ _ => ?_
  refine Ends.bind (Ends.require fun _ => by decide) fun _ _ => ?_
  refine Ends.bind (Ends.require fun _ => by decide) fun _ _ => ?_
  refine Ends.bind (cfg.fit_ends (by decide)).result fun _ ⟨honline, _⟩ => ?_
  refine Ends.bind (cfg.fit_ends (by decide)) fun _ _ => ?_
  refine ⟨⟨w, info, _, _, _, hw, hinfo, hready, hnone, rfl, rfl, honline, rfl⟩, fun m' info' hm' => ?_⟩
  change (s.mining.miners.insert m _).lookup m' = some info' at hm'
  rw [StorageMap.lookup_insert_ite] at hm'
  split at hm'
  · next he =>
    cases hm'
    exact ⟨info, he ▸ hinfo, rfl⟩
  · exact ⟨info', hm', rfl⟩

theorem startPoolMining_ends {fuel : ℕ} {owner : A} {pid : ℕ} {w : W} {stake : ℕ} (hb : s.Bound cfg) :
    Ends (s.startPoolMining cfg owner pid w stake) (Did cfg s (.startMining owner pid w stake))
      (Botched cfg fuel s (.startMining owner pid w stake)) := by
  refine Ends.bind (Ends.require fun _ => .mild (by decide)) fun _ _ => ?_
  refine Ends.bind (Ends.get fun _ => .mild (by decide)) fun pool hpool => ?_
  refine Ends.bind (Ends.require fun _ => .mild (by decide)) fun _ _ => ?_
  refine Ends.bind (Ends.require fun _ => .mild (by decide)) fun _ hle => ?_
  refine Ends.bind (Ends.require fun _ => .mild (by decide)) fun _ hw => ?_
  refine Ends.bind ((startMining_ends hb).mono (fun _ h => h) fun e he => .mild he) fun s₁ h₁ => ?_
  rw [Config.sub_of_le cfg hle]
  exact Did.start hpool hle hw h₁

omit [DecidableEq W] in
theorem reclaim_ends {m : A} {E : Fault → Prop}
    (hE : E (.dispatch .minerNotFound) ∧ E (.panic (.check .coolDown)) ∧
    E (.dispatch .coolDownNotReady) ∧ E (.panic .zeroDivisor)) :
    Ends (s.reclaim cfg m)
      (fun (s₁, origStake, slashed) => ∃ info returned, Reclaimable cfg s m info returned slashed ∧
        origStake = s.stakeOf m ∧ s₁ = s.reclaimedMiner m info slashed) E := by
  refine Ends.bind (Ends.get fun _ => hE.1) fun info hinfo => ?_
  refine Ends.bind (Q := fun b => b = true → info.state = .miningCoolingDown ∧ ∃ elapsed,
    cfg.sub64 .coolDown s.nowSec info.coolDownStart = .ok elapsed ∧ s.mining.coolDownPeriod ≤ elapsed)
    ?_ fun b hb => ?_
  · unfold canReclaim
    split
    · next h =>
      refine Ends.bind (cfg.sub64_ends fun _ => hE.2.1).result fun elapsed he hle => ⟨h, elapsed, he.1, ?_⟩
      exact of_decide_eq_true hle
    · exact fun h => by cases h
  refine Ends.bind (Ends.require fun _ => hE.2.2.1) fun _ htrue => ?_
  refine Ends.bind (calcFinalStake_ends fun _ => hE.2.2.2).result ?_
  rintro ⟨returned, slashed⟩ ⟨hr, -⟩
  obtain ⟨hstate, helapsed⟩ := hb htrue
  exact ⟨info, returned, ⟨hinfo, hstate, helapsed, (calcFinalStake_congr rfl rfl _).symm.trans hr⟩, rfl, rfl⟩

omit [DecidableEq A] [DecidableEq W] in
theorem reclaimed_ends {pool : PoolInfo A W} {origStake returned slashed : ℕ} {E : Fault → Prop}
    (h : returned ≤ origStake ∧ slashed = origStake - returned)
    (hE : ¬isNondustBalance pool.totalShares = true → E (.panic (.check .slashShares)))
    (hslash : pool.totalStake < slashed → E (.panic (.check .slashStake)))
    (hrelease : pool.releasingStake < returned → E (.panic (.check .releasing))) :
    Ends (reclaimed cfg pool origStake slashed) (fun pool' => pool' = pool.givenBack returned slashed) E := by
  have hle : slashed ≤ origStake := by omega
  have he : origStake - slashed = returned := by omega
  unfold reclaimed
  rw [Config.sub_of_le cfg hle, he]
  refine Ends.bind (Q := fun r => r = returned) rfl ?_
  rintro _ rfl
  refine Ends.bind (Q := fun (pool₁ : PoolInfo A W) => pool₁ = { pool with totalStake :=
    if slashed ≠ 0 then (extractDust (pool.totalStake - slashed)).1 else pool.totalStake }) ?_ ?_
  · split
    · exact PoolInfo.slash_ends hE hslash
    · rfl
  rintro _ rfl
  refine (cfg.debugAssert_ends fun hlt => hrelease (Nat.lt_of_not_le hlt)).bind fun _ _ => ?_
  rfl

theorem reclaimPoolWorker_ends {fuel pid : ℕ} {w : W} :
    Ends (s.reclaimPoolWorker cfg fuel pid w) (Did cfg s (.reclaimPoolWorker pid w))
      (Botched cfg fuel s (.reclaimPoolWorker pid w)) := by
  refine Ends.bind (Ends.get fun _ => .mild (by decide)) fun pool hpool => ?_
  refine Ends.bind (reclaim_ends ⟨.mild (by decide), .mild (by decide), .mild (by decide), .mild (by decide)⟩) ?_
  rintro ⟨s₁, origStake, slashed⟩ ⟨info, returned, hr, rfl, rfl⟩
  refine Ends.bind (Ends.get_of (a := pool) hpool) ?_
  rintro pool rfl
  refine Ends.bind
    (reclaimed_ends (calcFinalStake_ok hr.final) (fun _ => .mild (by decide)) (fun h => .slash hpool hr h)
    fun h => .release hpool hr h) ?_
  rintro _ rfl
  refine Ends.bind
    (x := Desk.tryProcessWithdrawQueue cfg fuel ⟨pool.givenBack returned slashed, s.books⟩)
    (Q := fun d => Desk.tryProcessWithdrawQueue cfg fuel ⟨pool.givenBack returned slashed, s.books⟩ = .ok d)
    (ends_iff.mpr ⟨fun _ h => h, fun e he => .reclaim hpool hr he⟩) fun d hd => ?_
  exact .reclaim hpool hr hd

end State

theorem EndsAside.did {fuel : ℕ} {op : Op A W} {x : Except Fault (State A W)}
    (h : EndsAside cfg (s.permit op) s x) : Ends x (Did cfg s op) (Botched cfg fuel s op) :=
  h.mono (fun _ h => .aside h) fun _ h => .mild h

/-- What no stake, miner, binding or timetable sees. -/
theorem Did.same {op : Op A W} (h : s.SameStore s') (ht : s.SameTimetable s') : Did cfg s op s' :=
  .aside (.single (.other h (.inr ht)))

/-- **What an operation does.** It ends as one of the cases of `Did`, or fails as one of `Botched`. -/
theorem exec_ends {fuel : ℕ} {op : Op A W} (hs : s.Sound cfg) :
    Ends (exec cfg fuel s op) (Did cfg s op) (Botched cfg fuel s op) := by
  have hf := hs.filed
  have hb := hs.bound
  have known : ∀ w (info : WorkerInfo A) w', s.registry.lookup w' ≠ none →
      (s.registry.insert w info).lookup w' ≠ none := by
    intro w info w' hw
    rw [StorageMap.lookup_insert_ite]
    split
    · nofun
    · exact hw
  cases op with
  | create owner => exact Did.create
  | addWorker owner pid w => exact State.addWorker_ends.did
  | removeWorker who pid w => exact (State.removeWorker_ends hb).did
  | setCap owner pid cap => exact State.setCap_ends.did
  | setPayoutPref owner pid commission => exact State.setPayoutPref_ends.did
  | setMiningEnable enable =>
    exact Did.same ⟨rfl, rfl, rfl, rfl, rfl, rfl, rfl, rfl, rfl, rfl, fun _ h => h, rfl⟩ ⟨rfl, rfl⟩
  | claimRewards who pid target => exact State.claimRewards_ends.did
  | contribute who pid amount => exact State.contribute_ends hf
  | withdraw who pid shares => exact State.withdraw_ends hf
  | reconcileWithdrawQueue pid account => exact State.reconcileWithdrawQueue_ends
  | startMining owner pid w stake => exact State.startPoolMining_ends hb
  | stopMining owner pid w =>
    refine Ends.bind (Ends.require fun _ => .mild (by decide)) fun _ _ => ?_
    refine Ends.bind (Ends.get fun _ => .mild (by decide)) fun _ _ => ?_
    refine Ends.bind (Ends.require fun _ => .mild (by decide)) fun _ _ => ?_
    refine Ends.bind (Ends.require fun _ => .mild (by decide)) fun _ _ => ?_
    exact (State.stopMining_ends hb).mono (fun _ h => .aside (.single h.1)) fun _ h => .mild h
  | reclaimPoolWorker pid w => exact State.reclaimPoolWorker_ends
  | onFinalize =>
    refine (State.onFinalize_ends trivial hb hs.timed).mono
      (fun _ ⟨ha, processed, h⟩ => .finalize ha h) fun _ h => ?_
    exact .mild h
  | unbind who m => exact (State.unbind_ends hb).did
  | forceStartMining m stake =>
    exact (State.startMining_ends hb).mono (fun _ h => .forceStart h) fun _ h => .mild h
  | forceStopMining m =>
    exact (State.stopMining_ends hb).mono (fun _ h => .aside (.single h.1)) fun _ h => .mild h
  | heartbeat w iterations challengeTime => exact (State.heartbeat_ends rfl hb).did
  | gkMessage event => exact EndsAside.did (State.gkMessage_ends hb fun hc => ⟨event, rfl, hc⟩)
  | setCoolDownExpiration period =>
    exact Did.same ⟨rfl, rfl, rfl, rfl, rfl, rfl, rfl, rfl, rfl, rfl, fun _ h => h, rfl⟩ ⟨rfl, rfl⟩
  | updateTokenomic params =>
    exact Did.same ⟨rfl, rfl, rfl, rfl, rfl, rfl, rfl, rfl, rfl, rfl, fun _ h => h, rfl⟩ ⟨rfl, rfl⟩
  | finalizeMining =>
    refine Did.same ?_ ?_
    · unfold State.finalizeMining
      split <;> exact ⟨rfl, rfl, rfl, rfl, rfl, rfl, rfl, rfl, rfl, rfl, fun _ h => h, rfl⟩
    · unfold State.finalizeMining
      split <;> exact ⟨rfl, rfl⟩
  | forceRegisterWorker w operator =>
    exact Did.same ⟨rfl, rfl, rfl, rfl, rfl, rfl, rfl, rfl, rfl, rfl, known w _, rfl⟩ ⟨rfl, rfl⟩
  | registerWorker w operator confidenceLevel =>
    exact Did.same ⟨rfl, rfl, rfl, rfl, rfl, rfl, rfl, rfl, rfl, rfl, known w _, rfl⟩ ⟨rfl, rfl⟩
  | benchReport w startTime iterations =>
    refine Ends.bind (Ends.require fun _ => .mild (by decide)) fun _ _ => ?_
    refine Ends.bind (Ends.require fun _ => .mild (by decide)) fun _ _ => ?_
    refine Ends.bind (cfg.fit_ends (.mild (by decide))) fun _ _ => ?_
    refine Did.same ⟨rfl, rfl, rfl, rfl, rfl, rfl, rfl, rfl, rfl, rfl, fun w' hw => ?_, rfl⟩ ⟨rfl, rfl⟩
    dsimp only
    split
    · exact known w _ w' hw
    · exact hw
  | time now =>
    change Did cfg s (.time now) (if s.now < now then { s with now } else s)
    split
    · next h => exact .time h.le
    · exact Did.same ⟨rfl, rfl, rfl, rfl, rfl, rfl, rfl, rfl, rfl, rfl, fun _ h => h, rfl⟩ ⟨rfl, rfl⟩
  | balances free => exact Did.balances

end Khala
