/-
Expired withdrawals stop the pool, as long as a pool that the block hook has
spared goes on covering its requests.

The hook checks a request once. What may take the cover from it later is the
dust that payments leave in the price; of what the pool pays, what comes back
and what is slashed no request behind it sees anything.
-/
import Khala.Shutdown
import Khala.Budget
import Khala.Releasing

namespace Khala

open Outcome Relation

variable {A W : Type} [DecidableEq A] [DecidableEq W] {cfg : Config A W} {s s' : State A W} {P : Permit} {pid : ℕ}
  {pool pool' : PoolInfo A W}

/-! ## The answer of the test -/

omit [DecidableEq A] [DecidableEq W] in
/-- The test answers yes where the budget does not cover the requests that are overdue. -/
theorem PoolInfo.hasExpiredWithdrawal_eq_true {now gracePeriod : ℕ} (hq : QueueInOrder pool.withdrawQueue)
    (hpast : ∀ w ∈ pool.withdrawQueue, w.startTime ≤ now) :
    pool.hasExpiredWithdrawal cfg now gracePeriod = .ok true ↔
      (cfg.checks .expiredFree = true → pool.freeStake = 0) ∧ ∃ price, pool.sharePrice = some price ∧ price ≠ 0 ∧
        pool.freeStake + pool.releasingStake <
          requestsWorth price (overdueRequests now gracePeriod pool.withdrawQueue) := by
  have hordered := List.pairwise_map.mp hq.ordered
  unfold hasExpiredWithdrawal
  rw [bind_ok]
  refine ⟨fun ⟨_, hassert, hanswer⟩ => ⟨cfg.debugAssert_ok.mp hassert, ?_⟩,
      fun ⟨hassert, price, hprice, hne, hlt⟩ =>
    ⟨(), cfg.debugAssert_ok.mpr hassert, ?_⟩⟩
  · split at hanswer
    · next price hprice =>
      split at hanswer
      · next hne =>
        obtain ⟨answer, hrun, hiff⟩ := expiredRequest_ok cfg gracePeriod price
          (pool.freeStake + pool.releasingStake)
          hordered hpast
        cases hrun.symm.trans hanswer
        exact ⟨price, hprice, hne, (expired_iff_worth hordered).mp (hiff.mp rfl)⟩
      · cases hanswer
    · cases hanswer
  · obtain ⟨answer, hrun, hiff⟩ := expiredRequest_ok cfg gracePeriod price (pool.freeStake + pool.releasingStake)
      hordered hpast
    rw [hprice]
    dsimp only
    rw [if_pos hne, hrun, hiff.mpr ((expired_iff_worth hordered).mpr hlt)]

namespace State

/-- The pool's requests that are older than the grace period now. -/
def overdue (cfg : Config A W) (s : State A W) (pool : PoolInfo A W) : List (WithdrawInfo A) :=
  overdueRequests s.nowSec cfg.gracePeriod pool.withdrawQueue

/-- The state as the block hooks find it: records, bindings, timetable and queues in order. -/
structure Orderly (cfg : Config A W) (s : State A W) : Prop where
  sound : s.Sound cfg
  queues : s.QueuesInOrder

theorem Orderly.expired_iff (h : s.Orderly cfg) (hpool : s.stakePools.lookup pid = some pool) :
    s.Expired cfg pid ↔ (cfg.checks .expiredFree = true → pool.freeStake = 0) ∧
      ∃ price, pool.sharePrice = some price ∧ price ≠ 0 ∧
        pool.freeStake + pool.releasingStake < requestsWorth price (s.overdue cfg pool) := by
  refine Iff.trans ?_
    (PoolInfo.hasExpiredWithdrawal_eq_true (h.queues _ _ hpool) (h.sound.timed.requests _ _ hpool))
  refine ⟨fun ⟨_, hpool', hyes⟩ => ?_, fun hyes => ⟨pool, hpool, hyes⟩⟩
  cases hpool.symm.trans hpool'
  exact hyes

/-- A pool with the same price, no smaller budget and no more requests past the grace period has none that had
not expired. -/
theorem Expired.before (h : s'.Expired cfg pid) (hs : s.Orderly cfg) (hs' : s'.Orderly cfg)
    (hpool : s.stakePools.lookup pid = some pool) (hpool' : s'.stakePools.lookup pid = some pool')
    (hshares : pool'.totalShares = pool.totalShares) (hstake : pool'.totalStake = pool.totalStake)
    (hfree : pool'.freeStake = pool.freeStake) (hreleasing : pool.releasingStake ≤ pool'.releasingStake)
    (hworth : ∀ price, pool.sharePrice = some price →
      requestsWorth price (s'.overdue cfg pool') ≤ requestsWorth price (s.overdue cfg pool)) :
      s.Expired cfg pid := by
  obtain ⟨hassert, price, hprice, hne, hlt⟩ := (hs'.expired_iff hpool').mp h
  rw [PoolInfo.sharePrice_congr hstake hshares] at hprice
  refine (hs.expired_iff hpool).mpr ⟨fun hc => hfree ▸ hassert hc, price, hprice, hne, ?_⟩
  have := hworth price hprice
  omega

end State

/-! ## What leaves a pool at rest -/

namespace State

omit [DecidableEq W] in
theorem Mines.before (h : s'.Mines cfg pid) (hwork : ∀ m, s'.AtWork m → s.AtWork m)
    (hpools : ∀ pool', s'.stakePools.lookup pid = some pool' → ∃ pool, s.stakePools.lookup pid = some pool ∧
      ∀ w ∈ pool'.workers, s'.AtWork (cfg.poolSubAccount pid w) → w ∈ pool.workers) : s.Mines cfg pid := by
  obtain ⟨pool', hpool', w, hw, hm⟩ := h
  obtain ⟨pool, hpool, hmem⟩ := hpools pool' hpool'
  exact ⟨pool, hpool, w, hmem w hw hm, hwork _ hm⟩

omit [DecidableEq W] in
theorem AtWork.of_eq {m : A} (h : s'.AtWork m) (hm : s'.mining.miners = s.mining.miners) : s.AtWork m := by
  obtain ⟨info, hinfo, hsettle⟩ := h
  exact ⟨info, hm ▸ hinfo, hsettle⟩

omit [DecidableEq W] in
/-- A record that is written for a miner not at work. -/
theorem AtWork.of_put {m m' : A} {info : MinerInfo} (h : s'.AtWork m')
    (hm : s'.mining.miners = s.mining.miners.insert m info) (hidle : info.state.canSettle = true → s.AtWork m) :
    s.AtWork m' := by
  obtain ⟨info', hinfo', hsettle⟩ := h
  rw [hm, StorageMap.lookup_insert_ite] at hinfo'
  split at hinfo'
  · next he =>
    cases hinfo'
    exact he ▸ hidle hsettle
  · exact ⟨info', hinfo', hsettle⟩

omit [DecidableEq W] in
/-- One pool is stored anew, with workers that it had. -/
theorem Mines.of_put {pid' : ℕ} (h : s'.Mines cfg pid) (hwork : ∀ m, s'.AtWork m → s.AtWork m)
    (hpool : s.stakePools.lookup pid' = some pool) (hp : s'.stakePools = s.stakePools.insert pid' pool')
    (hw : ∀ w ∈ pool'.workers, s'.AtWork (cfg.poolSubAccount pid' w) → w ∈ pool.workers) : s.Mines cfg pid := by
  refine h.before hwork fun p hp' => ?_
  rw [hp, StorageMap.lookup_insert_ite] at hp'
  split at hp'
  · next he =>
    cases hp'
    subst he
    exact ⟨pool, hpool, hw⟩
  · exact ⟨p, hp', fun _ hw _ => hw⟩

omit [DecidableEq W] in
theorem Mines.of_eq (h : s'.Mines cfg pid) (hp : s'.stakePools = s.stakePools)
    (hm : s'.mining.miners = s.mining.miners) : s.Mines cfg pid :=
  h.before (fun _ hm' => hm'.of_eq hm) fun pool' hpool' => ⟨pool', hp ▸ hpool', fun _ hw _ => hw⟩

end State

theorem MinerState.canSettle_of_isMining {state : MinerState} (h : state.isMining = true) :
    state.canSettle = true := by
  revert h
  cases state <;> decide

/-- A small change puts no miner to work. -/
theorem Aside.mines (h : Aside cfg P s s') (hm : s'.Mines cfg pid) : s.Mines cfg pid := by
  cases h with
  | other hs => exact hm.of_eq hs.stakePools hs.miners
  | pool hpool hs => exact hm.of_put (fun _ h => h) hpool rfl fun w hw _ => hs.workers ▸ hw
  | @miner m info info' hi hu =>
    refine hm.before (fun m' h => h.of_put rfl fun hsettle => ?_) fun pool' hpool' =>
      ⟨pool', hpool', fun _ hw _ => hw⟩
    rcases hu.state with he | ⟨hmining, -⟩
    · exact ⟨info, hi, he ▸ hsettle⟩
    · exact ⟨info, hi, MinerState.canSettle_of_isMining hmining⟩
  | @bind m w pid' pool info hm' hpool _ _ _ _ hready =>
    have hwork : ∀ m', (s.added m w info pid' pool).AtWork m' → s.AtWork m' := fun m' h =>
      h.of_put rfl fun hsettle => by rw [hready] at hsettle; cases hsettle
    refine hm.of_put hwork hpool rfl fun w' hw' hwork' => ?_
    rcases List.mem_append.mp hw' with hw' | hw'
    · exact hw'
    · -- the new worker's miner is ready
      cases List.mem_singleton.mp hw'
      obtain ⟨info', hinfo', hsettle⟩ := hwork'
      have hnew : (s.mining.miners.insert m info).lookup (cfg.poolSubAccount pid' w) = some info' := hinfo'
      rw [← hm', StorageMap.lookup_insert_ite, if_pos rfl] at hnew
      cases hnew
      rw [hready] at hsettle
      cases hsettle
  | release _ _ hpool => exact hm.of_put (fun _ h => h) hpool rfl fun w hw _ => List.mem_of_mem_filter hw
  | stop _ _ _ _ _ _ hpool =>
    exact hm.of_put (fun m h => (State.atWork_stopped h).2) hpool rfl fun w hw _ => hw
  | _ => exact hm.of_eq rfl rfl

/-- A small change takes nothing from a releasing stake. -/
theorem Aside.releasing_le (h : Aside cfg P s s') (hp : s.stakePools.lookup pid = some pool)
    (hp' : s'.stakePools.lookup pid = some pool') : pool.releasingStake ≤ pool'.releasingStake := by
  have same : s'.stakePools = s.stakePools → pool.releasingStake ≤ pool'.releasingStake := by
    intro he
    rw [he, hp] at hp'
    cases hp'
    exact le_rfl
  have put : ∀ {pid' : ℕ} {old new : PoolInfo A W}, s.stakePools.lookup pid' = some old →
      s'.stakePools = s.stakePools.insert pid' new → old.releasingStake ≤ new.releasingStake →
      pool.releasingStake ≤ pool'.releasingStake := by
    intro pid' old new hold he hle
    rw [he, StorageMap.lookup_insert_ite] at hp'
    split at hp'
    · next hpid =>
      cases hp'
      rw [hpid, hold] at hp
      cases hp
      exact hle
    · rw [hp] at hp'
      cases hp'
      exact le_rfl
  cases h with
  | other hs => exact same hs.stakePools
  | pool hpool hs => exact put hpool rfl hs.releasingStake.ge
  | bind _ hpool => exact put hpool rfl le_rfl
  | release _ _ hpool => exact put hpool rfl le_rfl
  | stop _ _ _ _ _ _ hpool => exact put hpool rfl (Nat.le_add_right _ _)
  | _ => exact same rfl

theorem Asides.mines (h : Asides cfg P s s') (hm : s'.Mines cfg pid) : s.Mines cfg pid := by
  induction h with
  | refl => exact hm
  | tail _ h ih => exact ih (h.mines hm)

theorem Asides.releasing_le (h : Asides cfg P s s') (hp : s.stakePools.lookup pid = some pool)
    (hp' : s'.stakePools.lookup pid = some pool') : pool.releasingStake ≤ pool'.releasingStake := by
  induction h generalizing pool' with
  | refl => exact (congrArg PoolInfo.releasingStake (Option.some.inj (hp.symm.trans hp'))).le
  | tail hrest h ih =>
    obtain ⟨pool₁, hp₁, -⟩ := h.pool_of_lookup hp'
    exact (ih hp₁).trans (h.releasing_le hp₁ hp')

/-! ## What keeps the cover -/

namespace State

/-- The block hooks have done with the pool: it is listed under no time past the grace period, none of its
withdrawals has expired, and its miners are at work. -/
structure Spared (cfg : Config A W) (s : State A W) (pid : ℕ) : Prop where
  done : ¬s.Due cfg pid
  covered : ¬s.Expired cfg pid
  mines : s.Mines cfg pid

instance (s : State A W) : Decidable (s.Spared cfg pid) :=
  decidable_of_iff (¬s.Due cfg pid ∧ ¬s.Expired cfg pid ∧ s.Mines cfg pid)
    ⟨fun h => ⟨h.1, h.2.1, h.2.2⟩, fun h => ⟨h.done, h.covered, h.mines⟩⟩

/-- The requests past the grace period are for shares that their stakers hold, and the pool, as the queue's loop
finds it, backs the shares that go with them. -/
def BacksOverdue (cfg : Config A W) (s : State A W) (pool pool' : PoolInfo A W) : Prop :=
  (∀ w ∈ s.overdue cfg pool, w.shares ≤ Desk.sharesOf ⟨pool, s.books⟩ w.user) ∧
    pool'.Backs (Desk.leaving ⟨pool, s.books⟩ (s.overdue cfg pool))

/-- The requests past the grace period once a staker has withdrawn shares. -/
def overdueAfter (cfg : Config A W) (s : State A W) (pool : PoolInfo A W) (who : A) (shares : ℕ) :
    List (WithdrawInfo A) :=
  overdueRequests s.nowSec cfg.gracePeriod
    (Desk.requestQueue who (Desk.sharesLater pool shares) s.nowSec pool.withdrawQueue)

/-- What the operation must keep at a pool that the block hooks have spared, if it owes requests past the
grace period. A contribution and a reclaim leave a budget that backs the shares that go when these are paid,
the dust of their stakers with them; a withdrawal that is paid at once leaves one that backs these requests
beside it; a request that is cut is for no more shares than there are. And no miner is started in a pool
that owes such requests. -/
def KeepsCover (cfg : Config A W) (s : State A W) : Op A W → Prop
  | .contribute _ pid amount => ∀ pool ∈ s.stakePools.lookup pid, s.overdue cfg pool ≠ [] → s.Spared cfg pid →
      1000 < pool.sharesFor amount ∧ s.BacksOverdue cfg pool (pool.added amount)
  | .reclaimPoolWorker pid w => ∀ pool ∈ s.stakePools.lookup pid, s.overdue cfg pool ≠ [] → s.Spared cfg pid →
      ∀ r ∈ s.finalStakeOf cfg (cfg.poolSubAccount pid w), s.BacksOverdue cfg pool (pool.givenBack r.1 r.2)
  | .withdraw who pid shares => ∀ pool ∈ s.stakePools.lookup pid, ∀ user ∈ s.books.poolStakers.lookup (pid, who),
      0 < Desk.sharesNow pool shares → s.overdueAfter cfg pool who shares ≠ [] → s.Spared cfg pid →
        pool.Backs (((s.overdueAfter cfg pool who shares).map WithdrawInfo.shares).sum +
          goingShares user.shares (Desk.sharesNow pool shares))
  | .reconcileWithdrawQueue pid _ => ∀ pool ∈ s.stakePools.lookup pid, s.Spared cfg pid →
      pool.totalShares < 2 ^ 64 ∧ ∀ w ∈ s.overdue cfg pool, w.shares ≤ pool.totalShares
  | .startMining _ pid _ stake => ∀ pool ∈ s.stakePools.lookup pid, ¬s.Due cfg pid → ∀ price ∈ pool.sharePrice,
      requestsWorth price (s.overdue cfg pool) ≤ pool.freeStake - stake + pool.releasingStake
  | .forceStartMining m _ => ∀ w ∈ s.mining.minerBindings.lookup m, ∀ pid ∈ s.workerAssignments.lookup w,
      ¬s.Due cfg pid → ¬s.Expired cfg pid
  | _ => True

instance (s : State A W) (pool pool' : PoolInfo A W) : Decidable (s.BacksOverdue cfg pool pool') :=
  inferInstanceAs (Decidable ((∀ w ∈ _, _ ≤ _) ∧ PoolInfo.Backs _ _))

instance (s : State A W) (op : Op A W) : Decidable (s.KeepsCover cfg op) :=
  match op with
  | .contribute .. => inferInstanceAs (Decidable (∀ pool ∈ _, _ → _ → _ ∧ s.BacksOverdue cfg _ _))
  | .reclaimPoolWorker .. => inferInstanceAs (Decidable (∀ pool ∈ _, _ → _ → ∀ r ∈ _, s.BacksOverdue cfg _ _))
  | .withdraw .. => inferInstanceAs (Decidable (∀ pool ∈ _, ∀ user ∈ _, _ → _ → _ → PoolInfo.Backs _ _))
  | .reconcileWithdrawQueue .. => inferInstanceAs (Decidable (∀ pool ∈ _, _ → _ ∧ ∀ w ∈ _, _))
  | .startMining .. => inferInstanceAs (Decidable (∀ pool ∈ _, _ → ∀ price ∈ _, _))
  | .forceStartMining .. => inferInstanceAs (Decidable (∀ w ∈ _, ∀ pid ∈ _, _ → _))
  | .create .. | .addWorker .. | .removeWorker .. | .setCap .. | .setPayoutPref ..
    | .setMiningEnable .. | .claimRewards ..
  | .stopMining .. | .onFinalize | .unbind .. | .forceStopMining .. | .heartbeat .. | .gkMessage ..
  | .setCoolDownExpiration .. | .updateTokenomic .. | .finalizeMining
    | .forceRegisterWorker .. | .registerWorker ..
  | .benchReport .. | .time .. | .balances .. => .isTrue trivial

/-! ## What holds between the block hooks -/

/-- A request that is listed no more is past the grace period. -/
def RequestsListed (cfg : Config A W) (s : State A W) : Prop :=
  ∀ pid pool w, s.stakePools.lookup pid = some pool → w ∈ pool.withdrawQueue →
    s.Listed w.startTime pid ∨ cfg.gracePeriod < s.nowSec - w.startTime

/-- A pool with an expired withdrawal is still to be checked, or is stopped. -/
def Stopped (cfg : Config A W) (s : State A W) : Prop :=
  ∀ pid, ¬s.Due cfg pid → s.Expired cfg pid → ¬s.Mines cfg pid

end State

/-- Time only adds to what is due. -/
theorem Did.due {op : Op A W} (hd : Did cfg s op s') (hf : s.WellFiled)
    (hne : op ≠ .onFinalize) (h : s.Due cfg pid) :
    s'.Due cfg pid := by
  obtain ⟨t, hlisted, hage⟩ := h
  have hnow : s.nowSec ≤ s'.nowSec := Nat.div_le_div_right hd.now_le
  rcases hd.listed hf hlisted with hlisted | ⟨he, -⟩
  · exact ⟨t, hlisted, by omega⟩
  · exact absurd he hne

theorem Did.requestsListed {op : Op A W} (hd : Did cfg s op s') (hf : s.WellFiled) (h : s.RequestsListed cfg) :
    s'.RequestsListed cfg := by
  intro pid pool' w hpool' hw
  have hnow : s.nowSec ≤ s'.nowSec := Nat.div_le_div_right hd.now_le
  rcases hd.request hf hpool' hw with hlisted | ⟨pool, w₀, hpool, hw₀, he⟩
  · exact .inl hlisted
  rw [he]
  rcases h pid pool w₀ hpool hw₀ with hlisted | hage
  · rcases hd.listed hf hlisted with hlisted | ⟨-, hage⟩
    · exact .inl hlisted
    · exact .inr (by omega)
  · exact .inr (by omega)

/-! ## Step by step -/

namespace State

omit [DecidableEq A] [DecidableEq W] in
theorem Expired.of_eq (h : s'.Expired cfg pid) (hp : s'.stakePools.lookup pid = s.stakePools.lookup pid)
    (hn : s'.now = s.now) : s.Expired cfg pid := by
  unfold Expired nowSec at h ⊢
  rwa [hp, hn] at h

/-- Nothing has expired where no request is overdue. -/
theorem Orderly.not_expired_of_nil (hs : s.Orderly cfg) (hpool : s.stakePools.lookup pid = some pool)
    (hnone : s.overdue cfg pool = []) : ¬s.Expired cfg pid := by
  rw [hs.expired_iff hpool, hnone]
  rintro ⟨-, _, -, -, hlt⟩
  exact absurd hlt (Nat.not_lt_zero _)

/-- Nor where the desk serves those that are. -/
theorem Orderly.not_expired_of_cleared {d : Desk A W} {b k : ℕ} (hs : s.Orderly cfg)
    (hpool : s.stakePools.lookup pid = some d.pool) (hd : d.Cleared s.nowSec cfg.gracePeriod b k) (hlt : b < k) :
    ¬s.Expired cfg pid := by
  rw [hs.expired_iff hpool]
  rintro ⟨-, price, hprice, -, hshort⟩
  exact absurd (hd.worth_le hlt hprice) (Nat.not_le.mpr hshort)

omit [DecidableEq A] in
theorem overdue_shrinks {q q' : List (WithdrawInfo A)} {now gracePeriod : ℕ} (h : QueueShrinks q q')
    (hnone : overdueRequests now gracePeriod q = []) : overdueRequests now gracePeriod q' = [] := by
  refine List.filter_eq_nil_iff.mpr fun w hw => ?_
  obtain ⟨w₀, hw₀, -, ht, -⟩ := h w hw
  rw [ht]
  exact List.filter_eq_nil_iff.mp hnone w₀ hw₀

end State

omit [DecidableEq W] in
/-- A contribution adds its shares to the contributor's. -/
theorem Prepared.sharesOf {d : Desk A W} {who : A} {books : Books A W} {user : UserStakeInfo A} {amount : ℕ}
    (h : Prepared cfg d who books user) (u : A) : (Desk.contributed d.pool books who user amount).sharesOf u =
      if u = who then d.sharesOf who + d.pool.sharesFor amount else d.sharesOf u := by
  have hbooks : books.poolStakers = d.books.poolStakers := by
    cases h with
    | join => rfl
    | settle => exact Books.settled_poolStakers
  have hlookup : (Desk.contributed d.pool books who user amount).books.poolStakers.lookup (d.pool.pid, u) = _ :=
    Books.lookup_putStaker _ _ _ _ _
  change ((Desk.contributed d.pool books who user amount).books.poolStakers.lookup (d.pool.pid, u)).elim _ _ = _
  rw [hlookup]
  by_cases he : u = who
  · subst he
    rw [if_pos rfl, if_pos rfl]
    change user.shares + d.pool.sharesFor amount = _
    cases h with
    | join hn => rw [Desk.sharesOf, hn]; rfl
    | settle hu hs =>
      obtain ⟨_, _, rfl⟩ := hs
      rw [Desk.sharesOf_eq hu]
  · rw [if_neg fun h => he (congrArg Prod.snd h), if_neg he, Books.touch_poolStakers, hbooks]
    rfl

omit [DecidableEq W] in
/-- Where it buys more than dust it leaves no more to go with the requests. -/
theorem Prepared.leaving_le {d : Desk A W} {who : A} {books : Books A W} {user : UserStakeInfo A} {amount : ℕ}
    {q : List (WithdrawInfo A)} (h : Prepared cfg d who books user) (hbuys : 1000 < d.pool.sharesFor amount)
    (hheld : ∀ w ∈ q, w.shares ≤ d.sharesOf w.user) :
    (∀ w ∈ q, w.shares ≤ (Desk.contributed d.pool books who user amount).sharesOf w.user) ∧
      (Desk.contributed d.pool books who user amount).leaving q ≤ d.leaving q := by
  constructor
  · intro w hw
    have := hheld w hw
    rw [h.sharesOf]
    split
    · next he =>
      rw [← he]
      omega
    · exact this
  · refine List.sum_le_sum fun w hw => ?_
    have hle := hheld w hw
    rw [h.sharesOf]
    split
    · next he =>
      rw [he] at hle ⊢
      unfold goingShares
      rw [extractDust_of_lt (by omega)]
      exact Nat.le_add_right _ _
    · exact le_rfl

namespace State

omit [DecidableEq W] in
/-- The requests past the grace period are served at a desk that a contribution or a reclaim enters. -/
theorem BacksOverdue.cleared {d : Desk A W} (h : s.BacksOverdue cfg pool d.pool)
    (hq : QueueInOrder pool.withdrawQueue) (hqueue : d.pool.withdrawQueue = pool.withdrawQueue)
    (hheld : ∀ w ∈ s.overdue cfg pool, w.shares ≤ d.sharesOf w.user)
    (hleaving : d.leaving (s.overdue cfg pool) ≤ Desk.leaving ⟨pool, s.books⟩ (s.overdue cfg pool)) :
    ∃ b k, b < k ∧ d.Cleared s.nowSec cfg.gracePeriod b k := by
  obtain ⟨b, k, hlt, hb⟩ := h.2.backing
  refine ⟨b, k, hlt, hqueue ▸ hq, fun _ => ?_⟩
  rw [hqueue]
  exact ⟨hheld, hb.mono hleaving⟩

/-- What the queue's loop leaves of a pool that the block hooks have spared has not expired. -/
theorem not_expired_of_queue {fuel : ℕ} {d d' : Desk A W} (hs' : s'.Orderly cfg) (hnow : s'.nowSec = s.nowSec)
    (hpool' : s'.stakePools.lookup pid = some d'.pool) (hqueue : d.pool.withdrawQueue = pool.withdrawQueue)
    (hcleared : s.overdue cfg pool ≠ [] → ∃ b k, b < k ∧ d.Cleared s.nowSec cfg.gracePeriod b k)
    (hq : d.tryProcessWithdrawQueue cfg fuel = .ok d') : ¬s'.Expired cfg pid := by
  by_cases hnone : s.overdue cfg pool = []
  · refine hs'.not_expired_of_nil hpool' ?_
    unfold overdue
    rw [hnow]
    exact overdue_shrinks (hqueue ▸ Desk.tryProcessWithdrawQueue_shrinks hq) hnone
  · obtain ⟨b, k, hlt, hd⟩ := hcleared hnone
    have hd' := hd.tryProcessWithdrawQueue hq
    rw [← hnow] at hd'
    exact hs'.not_expired_of_cleared hpool' hd' hlt

omit [DecidableEq W] in
/-- A pool that is spared stays so if the step puts none of its miners to work and lets nothing expire in it. -/
theorem Stopped.spared (h : s.Stopped cfg) (hdone : ¬s.Due cfg pid) (hm : s.Mines cfg pid) : s.Spared cfg pid :=
  ⟨hdone, fun he => h pid hdone he hm, hm⟩

omit [DecidableEq W] in
/-- Only the pool that is stored anew is of concern. -/
theorem not_expired_of_put {pid' : ℕ} (hspared : s.Spared cfg pid)
    (hp : s'.stakePools = s.stakePools.insert pid' pool')
    (hn : s'.now = s.now) (h : s.Spared cfg pid' → ¬s'.Expired cfg pid') : ¬s'.Expired cfg pid := by
  by_cases he : pid = pid'
  · subst he
    exact h hspared
  · exact fun hexp => hspared.covered (hexp.of_eq (by rw [hp, StorageMap.lookup_insert_ite, if_neg he]) hn)

end State

omit [DecidableEq W] in
/-- A new request is not yet overdue. -/
theorem overdueRequests_requestQueue {user : A} {shares now gracePeriod : ℕ} {q : List (WithdrawInfo A)} :
    (overdueRequests now gracePeriod (Desk.requestQueue user shares now q)).Sublist
    (overdueRequests now gracePeriod q) := by
  unfold Desk.requestQueue
  split
  · unfold overdueRequests
    rw [List.filter_append, List.filter_cons_of_neg (by simp), List.filter_nil, List.append_nil]
    exact List.filter_sublist.filter _
  · exact List.Sublist.refl _

omit [DecidableEq A] in
/-- Cut requests are worth no more. -/
theorem requestsWorth_reconciledQueue {price : FixedPoint} {n idx now gracePeriod : ℕ} {q : List (WithdrawInfo A)}
    (hworth : ∀ w ∈ overdueRequests now gracePeriod q, n ≤ w.shares → bmul n price ≤ bmul w.shares price)
    (hle : ∀ w ∈ q[idx]?, n ≤ w.shares) :
    requestsWorth price (overdueRequests now gracePeriod (reconciledQueue n idx q)) ≤
      requestsWorth price (overdueRequests now gracePeriod q) := by
  unfold reconciledQueue
  split
  · exact requestsWorth_sublist ((List.eraseIdx_sublist _ _).filter _)
  clear * - hworth hle
  induction q generalizing idx with
  | nil => simp
  | cons w q ih =>
    have hcons : ∀ w₁ w₂ : WithdrawInfo A, ∀ q₁ q₂, w₁.startTime = w₂.startTime →
        (gracePeriod < now - w₂.startTime → bmul w₁.shares price ≤ bmul w₂.shares price) →
        requestsWorth price (overdueRequests now gracePeriod q₁) ≤
          requestsWorth price (overdueRequests now gracePeriod q₂) →
        requestsWorth price (overdueRequests now gracePeriod (w₁ :: q₁)) ≤
          requestsWorth price (overdueRequests now gracePeriod (w₂ :: q₂)) := by
      intro w₁ w₂ q₁ q₂ ht hw hq
      by_cases hage : gracePeriod < now - w₂.startTime
      · rw [overdueRequests_cons_of hage, overdueRequests_cons_of (ht ▸ hage),
          requestsWorth_cons, requestsWorth_cons]
        exact Nat.add_le_add (hw hage) hq
      · rwa [overdueRequests_cons_of_not hage, overdueRequests_cons_of_not (ht ▸ hage)]
    cases idx with
    | zero =>
      refine hcons _ _ _ _ rfl (fun hage => ?_) le_rfl
      exact hworth w (overdueRequests_cons_of hage ▸ List.mem_cons_self) (hle w rfl)
    | succ idx =>
      refine hcons _ _ _ _ rfl (fun _ => le_rfl) (ih (fun w' hw' => hworth w' ?_) hle)
      exact (List.sublist_cons_self w q).filter _ |>.subset hw'

/-! ## The operations -/

namespace State

theorem Orderly.not_expired_of_create {owner : A} (hs' : (s.create owner).Orderly cfg)
    (hspared : s.Spared cfg pid) :
    ¬(s.create owner).Expired cfg pid :=
  not_expired_of_put hspared rfl rfl fun _ =>
    hs'.not_expired_of_nil ((StorageMap.lookup_insert_ite _ _ _ _).trans (if_pos rfl)) rfl

theorem Orderly.not_expired_of_withdraw {who : A} {pid' shares : ℕ} {user user' : UserStakeInfo A} {d : Desk A W}
    (hs : s.Orderly cfg) (hs' : (((s.scheduled pool shares).putDesk pid' d).putStaker pid' who user').Orderly cfg)
    (hok : s.KeepsCover cfg (.withdraw who pid' shares)) (hpool : s.stakePools.lookup pid' = some pool)
    (hu : s.books.poolStakers.lookup (pid', who) = some user)
    (hw : Desk.Withdrew cfg ⟨pool, s.books⟩ user shares s.nowSec d user') (hspared : s.Spared cfg pid) :
    ¬(((s.scheduled pool shares).putDesk pid' d).putStaker pid' who user').Expired cfg pid := by
  have hss := s.scheduled_sameStore pool shares
  generalize hs₁ : ((s.scheduled pool shares).putDesk pid' d).putStaker pid' who user' = s' at hs' ⊢
  have hnow : s'.now = s.now := by rw [← hs₁]; exact hss.now
  have hsec : s'.nowSec = s.nowSec := congrArg (· / 1000) hnow
  have hpools : s'.stakePools = s.stakePools.insert pid' d.pool := by
    rw [← hs₁, ← hss.stakePools]
    rfl
  have hpool' : s'.stakePools.lookup pid' = some d.pool := by rw [hpools, StorageMap.lookup_insert_ite, if_pos rfl]
  refine not_expired_of_put hspared hpools hnow fun hspared' => ?_
  obtain ⟨user₁, d₁, ⟨_, _, rfl⟩, hpaid, rfl⟩ := hw
  rw [(hs.sound.filed.staker _ _ _ hu).1] at hpool' hpools
  rcases hpaid with ⟨hpos, hp⟩ | ⟨-, rfl, rfl⟩
  · -- paid at once, beside a budget for the requests past the grace period
    have hoverdue : ∀ q, overdue cfg s' (d₁.setQueue q).pool = overdueRequests s.nowSec cfg.gracePeriod q :=
      fun q => by rw [overdue, hsec]; rfl
    by_cases hnone : s.overdueAfter cfg pool who shares = []
    · exact hs'.not_expired_of_nil hpool' ((hoverdue _).trans hnone)
    obtain ⟨b, k, hlt, hb⟩ := (hok pool hpool user hu hpos hnone hspared').backing
    have hb₁ := hp.backing hb
    rw [hs'.expired_iff hpool', hoverdue]
    rintro ⟨-, price, hprice, -, hshort⟩
    exact absurd (hb₁.worth_le hlt hprice le_rfl) (Nat.not_le.mpr hshort)
  · refine fun hexp => hspared'.covered (hexp.before hs hs' hpool hpool' rfl rfl rfl le_rfl fun price _ => ?_)
    rw [overdue, overdue, hsec]
    exact requestsWorth_sublist overdueRequests_requestQueue

/-- A request that is cut is worth less, where it is for no more shares than there are. -/
theorem Orderly.not_expired_of_reconcile {account : A} {pid' idx : ℕ} {user : UserStakeInfo A} (hs : s.Orderly cfg)
    (hs' : (s.putPool pid' { pool with
      withdrawQueue := reconciledQueue (extractDust user.shares).1 idx pool.withdrawQueue }).Orderly cfg)
    (hok : s.KeepsCover cfg (.reconcileWithdrawQueue pid' account)) (hpool : s.stakePools.lookup pid' = some pool)
    (hidx : (pool.withdrawQueue.findIdx? fun req =>
      req.user = account ∧ req.shares > (extractDust user.shares).1) = some idx)
    (hspared : s.Spared cfg pid) :
    ¬(s.putPool pid' { pool with
      withdrawQueue := reconciledQueue (extractDust user.shares).1 idx pool.withdrawQueue }).Expired cfg pid := by
  refine not_expired_of_put hspared rfl rfl fun hspared' hexp => hspared'.covered ?_
  refine hexp.before hs hs' hpool ((StorageMap.lookup_insert_ite _ _ _ _).trans (if_pos rfl)) rfl rfl rfl le_rfl
    fun price hprice => ?_
  obtain ⟨hfits, hheld⟩ := hok pool hpool hspared'
  refine requestsWorth_reconciledQueue (fun w hw hle => PoolInfo.bmul_mono hprice hfits hle (hheld w hw))
    fun w hw => ?_
  obtain ⟨hlt, hcut, -⟩ := List.findIdx?_eq_some_iff_getElem.mp hidx
  obtain ⟨hlt', he⟩ := List.getElem?_eq_some_iff.mp hw
  rw [he] at hcut
  have := of_decide_eq_true hcut
  omega

/-- What a contribution or a reclaim brings, the queue's loop pays out of. -/
theorem Orderly.not_expired_of_queue {pid' fuel : ℕ} {d d' : Desk A W} (hs : s.Orderly cfg) (hs' : s'.Orderly cfg)
    (hp : s'.stakePools = s.stakePools.insert pid' d'.pool) (hnow : s'.now = s.now)
    (hpool : s.stakePools.lookup pid' = some pool) (hqueue : d.pool.withdrawQueue = pool.withdrawQueue)
    (hbacks : s.overdue cfg pool ≠ [] → s.Spared cfg pid' → s.BacksOverdue cfg pool d.pool ∧
      (∀ w ∈ s.overdue cfg pool, w.shares ≤ d.sharesOf w.user) ∧
        d.leaving (s.overdue cfg pool) ≤ Desk.leaving ⟨pool, s.books⟩ (s.overdue cfg pool))
    (hq : d.tryProcessWithdrawQueue cfg fuel = .ok d') (hspared : s.Spared cfg pid) : ¬s'.Expired cfg pid := by
  refine not_expired_of_put hspared hp hnow fun hspared' => ?_
  have hpool' : s'.stakePools.lookup pid' = some d'.pool := by rw [hp, StorageMap.lookup_insert_ite, if_pos rfl]
  refine State.not_expired_of_queue hs' (congrArg (· / 1000) hnow) hpool' hqueue (fun hne => ?_) hq
  obtain ⟨hback, hheld, hleaving⟩ := hbacks hne hspared'
  exact hback.cleared (hs.queues _ _ hpool) hqueue hheld hleaving

/-- Time makes a request overdue only while it is listed, and then the pool is due. -/
theorem Orderly.not_expired_of_time {now : ℕ} (hs : s.Orderly cfg) (hs' : ({ s with now } : State A W).Orderly cfg)
    (hle : s.now ≤ now) (hl : s.RequestsListed cfg) (hdone : ¬({ s with now } : State A W).Due cfg pid)
    (hspared : s.Spared cfg pid) : ¬({ s with now } : State A W).Expired cfg pid := by
  intro hexp
  obtain ⟨pool, hpool, -⟩ := id hexp
  have hpool₀ : s.stakePools.lookup pid = some pool := hpool
  have hsec : s.nowSec ≤ now / 1000 := Nat.div_le_div_right hle
  have hsame : overdue cfg ({ s with now } : State A W) pool = s.overdue cfg pool := by
    refine List.filter_congr fun w hw => decide_eq_decide.mpr ⟨fun hage => ?_, fun hage => ?_⟩
    · rcases hl pid pool w hpool₀ hw with hlisted | hage'
      · exact absurd ⟨_, hlisted, hage⟩ hdone
      · exact hage'
    · exact lt_of_lt_of_le hage (Nat.sub_le_sub_right hsec _)
  refine hspared.covered (hexp.before hs hs' hpool₀ hpool rfl rfl rfl le_rfl fun price _ => ?_)
  rw [hsame]

theorem Orderly.not_expired_of_asides (hs : s.Orderly cfg) (hs' : s'.Orderly cfg) (ha : Asides cfg P s s')
    (hspared : s.Spared cfg pid) : ¬s'.Expired cfg pid := by
  intro hexp
  obtain ⟨pool', hpool', -⟩ := id hexp
  obtain ⟨pool, hpool, hsame⟩ := ha.pool_of_lookup hpool'
  refine hspared.covered (hexp.before hs hs' hpool hpool' hsame.totalShares hsame.totalStake hsame.freeStake
    (ha.releasing_le hpool hpool') fun price _ => ?_)
  unfold overdue nowSec
  rw [hsame.withdrawQueue, ha.now_eq]

omit [DecidableEq W] in
/-- A pool that mines after a start did so before, or the miner that is started is that of a worker of it. -/
theorem Mines.started {m : A} {stake : ℕ} (h : s'.Mines cfg pid) (hst : Started cfg s m stake s') :
    s.Mines cfg pid ∨ ∃ pool w, s.stakePools.lookup pid = some pool ∧ w ∈ pool.workers ∧
    cfg.poolSubAccount pid w = m := by
  obtain ⟨w₀, info, info', onlineMiners, nextSessionId, -, -, -, -, -, -, -, rfl⟩ := hst.result
  obtain ⟨pool, hpool, w, hw, info₁, hinfo₁, hsettle⟩ := h
  have hput : (s.mining.miners.insert m info').lookup (cfg.poolSubAccount pid w) = some info₁ := hinfo₁
  rw [StorageMap.lookup_insert_ite] at hput
  split at hput
  · next he => exact .inr ⟨pool, w, hpool, hw, he⟩
  · exact .inl ⟨pool, hpool, w, hw, info₁, hput, hsettle⟩

theorem Stopped.forceStarted {m : A} {stake : ℕ} (h : s.Stopped cfg) (hs : s.Orderly cfg)
    (hok : s.KeepsCover cfg (.forceStartMining m stake)) (hst : Started cfg s m stake s') (hdone : ¬s.Due cfg pid)
    (hexp : s'.Expired cfg pid) : ¬s'.Mines cfg pid := by
  intro hm
  obtain ⟨mining, he⟩ := hst.mining_only
  have hexp₀ : s.Expired cfg pid := by rw [he] at hexp; exact hexp
  rcases hm.started hst with hm₀ | ⟨pool, w, hpool, hw, rfl⟩
  · exact h pid hdone hexp₀ hm₀
  · have ha := (hs.sound.bound.assigned w pid).mpr ⟨pool, hpool, hw⟩
    exact hok w (hs.sound.bound.binding_of_assignment ha) pid ha hdone hexp₀

theorem Stopped.started {owner : A} {pid' stake : ℕ} {w : W} {s₁ : State A W} (h : s.Stopped cfg)
    (hs : s.Orderly cfg) (hs' : (s₁.putPool pid' { pool with freeStake := pool.freeStake - stake }).Orderly cfg)
    (hok : s.KeepsCover cfg (.startMining owner pid' w stake)) (hpool : s.stakePools.lookup pid' = some pool)
    (hw : w ∈ pool.workers) (hst : Started cfg s (cfg.poolSubAccount pid' w) stake s₁) (hdone : ¬s.Due cfg pid)
    (hexp : (s₁.putPool pid' { pool with freeStake := pool.freeStake - stake }).Expired cfg pid) :
    ¬(s₁.putPool pid' { pool with freeStake := pool.freeStake - stake }).Mines cfg pid := by
  intro hm
  obtain ⟨mining, he⟩ := hst.mining_only
  have hpools : s₁.stakePools = s.stakePools := by rw [he]
  have hnow : s₁.now = s.now := by rw [he]
  by_cases hpid : pid = pid'
  · -- the stake leaves a budget for the requests past the grace period
    subst hpid
    refine absurd hexp ?_
    rw [hs'.expired_iff ((StorageMap.lookup_insert_ite _ _ _ _).trans (if_pos rfl))]
    rintro ⟨-, price, hprice, -, hshort⟩
    have hcover := hok pool hpool hdone price hprice
    have hnow' : (s₁.putPool pid { pool with freeStake := pool.freeStake - stake }).now = s.now := hnow
    unfold overdue nowSec at hshort hcover
    rw [hnow'] at hshort
    exact absurd hcover (Nat.not_le.mpr hshort)
  · have hlookup : (s₁.putPool pid' { pool with freeStake := pool.freeStake - stake }).stakePools.lookup pid =
        s.stakePools.lookup pid := (StorageMap.lookup_insert_ite _ _ _ _).trans
        ((if_neg hpid).trans (by rw [hpools]))
    have hm₁ : s₁.Mines cfg pid := hm.before (fun _ hwork => hwork) fun pool' hpool' =>
      ⟨pool', by rw [hpools, ← hlookup]; exact hpool', fun _ hw _ => hw⟩
    rcases hm₁.started hst with hm₀ | ⟨pool₁, w₁, hpool₁, hw₁, heq⟩
    · exact h pid hdone (hexp.of_eq hlookup hnow) hm₀
    · exact hs.sound.bound.subAccount_ne hpool hw hpool₁ hw₁ hpid heq

end State

/-- No other operation puts a miner to work. -/
theorem Did.mines {op : Op A W} (hd : Did cfg s op s') (hs : s.Sound cfg) (hm : s'.Mines cfg pid) :
    s.Mines cfg pid ∨ (∃ owner pid' w stake, op = .startMining owner pid' w stake) ∨
      ∃ m stake, op = .forceStartMining m stake := by
  cases hd with
  | @create owner =>
    refine .inl (hm.before (fun _ h => h) fun pool' hpool' => ?_)
    have hlookup : (s.create owner).stakePools.lookup pid = _ := StorageMap.lookup_insert_ite _ _ _ _
    rw [hlookup] at hpool'
    split at hpool'
    · cases hpool'
      obtain ⟨pool, hpool, w, hw, -⟩ := hm
      rw [hlookup, if_pos (by assumption)] at hpool
      cases hpool
      cases hw
    · exact ⟨pool', hpool', fun _ hw _ => hw⟩
  | contribute hpool _ hprep hq =>
    have hw := (Desk.tryProcessWithdrawQueue_moves.ok hq).workers_eq
    exact .inl (hm.of_put (fun _ h => h) hpool rfl fun w hmem _ => hw ▸ hmem)
  | @withdraw who pid' shares pool user d user' hpool hu _ _ hw =>
    obtain ⟨rfl, -⟩ := hs.filed.pool _ _ hpool
    have hworkers : d.pool.workers = pool.workers := (hw.moves (u := who) hu).workers_eq
    have hss := s.scheduled_sameStore pool shares
    refine .inl (hm.of_put (fun _ h => h.of_eq hss.miners) hpool ?_ fun w hmem _ => hworkers ▸ hmem)
    exact congrArg (AList.insert pool.pid d.pool) hss.stakePools
  | reconcile hpool => exact .inl (hm.of_put (fun _ h => h) hpool rfl fun w hmem _ => hmem)
  | start => exact .inr (.inl ⟨_, _, _, _, rfl⟩)
  | forceStart => exact .inr (.inr ⟨_, _, rfl⟩)
  | reclaim hpool hr hq =>
    have hw := (Desk.tryProcessWithdrawQueue_moves.ok hq).workers_eq
    exact .inl (hm.of_put (fun m h => h.of_put rfl nofun) hpool rfl fun w hmem _ => hw ▸ hmem)
  | balances => exact .inl (hm.of_eq rfl rfl)
  | time => exact .inl (hm.of_eq rfl rfl)
  | finalize ha => exact .inl (ha.mines hm)
  | aside ha => exact .inl (ha.mines hm)

/-- And none that keeps the cover lets a withdrawal expire in a pool that is spared. -/
theorem Did.not_expired {op : Op A W} (hd : Did cfg s op s') (hs : s.Orderly cfg) (hs' : s'.Orderly cfg)
    (hl : s.RequestsListed cfg) (hok : s.KeepsCover cfg op) (hdone : ¬s'.Due cfg pid) (hspared : s.Spared cfg pid)
    (hne : op ≠ .onFinalize) (hstart : ∀ owner pid' w stake, op ≠ .startMining owner pid' w stake)
    (hforce : ∀ m stake, op ≠ .forceStartMining m stake) : ¬s'.Expired cfg pid := by
  cases hd with
  | create => exact hs'.not_expired_of_create hspared
  | contribute hpool _ hprep hq =>
    refine State.Orderly.not_expired_of_queue hs hs' rfl rfl hpool rfl (fun hn hsp => ?_) hq hspared
    obtain ⟨hbuys, hback⟩ := hok _ hpool hn hsp
    exact ⟨hback, hprep.leaving_le hbuys hback.1⟩
  | withdraw hpool hu _ _ hw => exact hs.not_expired_of_withdraw hs' hok hpool hu hw hspared
  | reconcile hpool _ hidx => exact hs.not_expired_of_reconcile hs' hok hpool hidx hspared
  | start => exact absurd rfl (hstart _ _ _ _)
  | forceStart => exact absurd rfl (hforce _ _)
  | reclaim hpool hr hq =>
    refine State.Orderly.not_expired_of_queue hs hs' rfl rfl hpool rfl (fun hn hsp => ?_) hq hspared
    have hback := hok _ hpool hn hsp _ (State.finalStakeOf_of_lookup hr.miner hr.state hr.final)
    exact ⟨hback, hback.1, le_rfl⟩
  | balances => exact fun hexp => hspared.covered (hexp.of_eq rfl rfl)
  | time hle => exact hs.not_expired_of_time hs' hle hl hdone hspared
  | finalize => exact absurd rfl hne
  | aside ha => exact hs.not_expired_of_asides hs' ha hspared

/-- Between the block hooks the pools with expired withdrawals stay stopped. -/
theorem State.Stopped.did {op : Op A W} (h : s.Stopped cfg) (hs : s.Orderly cfg) (hs' : s'.Orderly cfg)
    (hl : s.RequestsListed cfg) (hok : s.KeepsCover cfg op) (hd : Did cfg s op s') (hne : op ≠ .onFinalize) :
    s'.Stopped cfg := by
  intro pid hdone hexp hm
  have hdone₀ : ¬s.Due cfg pid := fun hdue => hdone (hd.due hs.sound.filed hne hdue)
  by_cases hstart : (∃ owner pid' w stake, op = .startMining owner pid' w stake) ∨ ∃ m stake,
    op = .forceStartMining m stake
  · rcases hstart with ⟨owner, pid', w, stake, rfl⟩ | ⟨m, stake, rfl⟩
    · cases hd with
      | start hpool _ hw hst => exact h.started hs hs' hok hpool hw hst hdone₀ hexp hm
      | aside ha => exact hs.not_expired_of_asides hs' ha (h.spared hdone₀ (ha.mines hm)) hexp
    · cases hd with
      | forceStart hst => exact h.forceStarted hs hok hst hdone₀ hexp hm
      | aside ha => exact hs.not_expired_of_asides hs' ha (h.spared hdone₀ (ha.mines hm)) hexp
  · obtain ⟨hstart, hforce⟩ := not_or.mp hstart
    have hm₀ : s.Mines cfg pid := (hd.mines hs.sound hm).resolve_right fun hor => hor.elim hstart hforce
    refine hd.not_expired hs hs' hl hok hdone (h.spared hdone₀ hm₀) hne ?_ ?_ hexp
    · exact fun owner pid' w stake he => hstart ⟨owner, pid', w, stake, he⟩
    · exact fun m stake he => hforce ⟨m, stake, he⟩

/-- The block hook checks the pools that are due; the others it leaves as they were. -/
theorem State.Stopped.onFinalize (h : s.Stopped cfg) (hs : s.Sound cfg) (hfin : s.onFinalize cfg = .ok s') :
    ∀ pid, s'.Expired cfg pid → ¬s'.Mines cfg pid := by
  intro pid
  have hchecked := (State.onFinalize_checked pid hs.bound hs.timed).ok hfin
  by_cases hdue : s.Due cfg pid
  · exact hchecked.stops hdue
  · have hkept := hchecked.kept hdue
    rw [hkept.expired, hkept.mines]
    exact h pid hdue

theorem ReachWhere.stopped (h : RunWhere cfg (State.KeepsCover cfg) s) : s.RequestsListed cfg ∧ s.Stopped cfg := by
  have hI : (s.Sound cfg ∧ s.QueuesInOrder) ∧ s.RequestsListed cfg ∧ s.Stopped cfg := by
    refine h.invariant (fun s => (s.Sound cfg ∧ s.QueuesInOrder) ∧ s.RequestsListed cfg ∧ s.Stopped cfg)
      (fun s hs => ?_) ?_
    · have hnone : ∀ pid pool, s.stakePools.lookup pid ≠ some pool := fun pid pool => by rw [hs.pools.1]; nofun
      exact ⟨⟨State.Sound.genesis hs, fun pid pool hpool => absurd hpool (hnone pid pool)⟩,
        fun pid pool w hpool => absurd hpool (hnone pid pool), fun pid _ ⟨pool, hpool, _⟩ =>
        absurd hpool (hnone pid pool)⟩
    · rintro s op s' ⟨⟨hs, hq⟩, hl, hst⟩ hok ⟨fuel, he⟩
      have hd := (exec_ends hs).ok he
      have hs' : s'.Sound cfg ∧ s'.QueuesInOrder := ⟨hs.did hd, hq.did hs.timed hd⟩
      refine ⟨hs', hd.requestsListed hs.filed hl, ?_⟩
      by_cases hfin : op = .onFinalize
      · subst hfin
        exact fun pid _ => hst.onFinalize hs he pid
      · exact hst.did ⟨hs, hq⟩ ⟨hs'.1, hs'.2⟩ hl hok hd hfin
  exact hI.2

/-! ## The result -/

/-- **A pool with an expired withdrawal is stopped**: after every block hook, in every run that keeps the cover of
the pools that the hook has spared. -/
theorem expired_pools_stop (h : RunWhere cfg (State.KeepsCover cfg) s) (hfin : s.onFinalize cfg = .ok s') :
    ∀ pid, s'.Expired cfg pid → ¬s'.Mines cfg pid :=
  h.stopped.2.onFinalize h.sound hfin

/-- Three stakers and three miners. Two of the stakers ask for half a stake and a whole one, and two miners
are stopped; the third staker asks later, and the third miner loses its `v`. The block hook finds the first
two requests covered, one of the stopped miners is reclaimed, and the third request passes the grace period. -/
def Demo.keptCover : List (Op Account ℕ) := setup ++ [.addWorker (.user 0) 0 1,
  .forceRegisterWorker 2 (some (.user 0)), .benchReport 2 0 1000, .addWorker (.user 0) 0 2,
  .contribute (.user 1) 0 1000000000000, .contribute (.user 2) 0 1000000000000,
  .contribute (.user 3) 0 1000000000000, .startMining (.user 0) 0 0 1000000000000,
  .startMining (.user 0) 0 1 1000000000000, .startMining (.user 0) 0 2 1000000000000,
  .withdraw (.user 1) 0 500000000000, .withdraw (.user 2) 0 1000000000000, .stopMining (.user 0) 0 0,
  .stopMining (.user 0) 0 1, .time 100000, .withdraw (.user 3) 0 1000000000000,
  .gkMessage ⟨[], [], [⟨2, 0, 0, 0⟩]⟩, .time 604803000, .onFinalize, .reclaimPoolWorker 0 0, .time 604905000]

/-- The pool has an expired withdrawal then and mines; the block hook stops it, and the requests go on waiting. -/
theorem expired_pools_stop_demo : ∃ s s', RunWhere Demo.release (State.KeepsCover Demo.release) s ∧
    s.onFinalize Demo.release = .ok s' ∧ s.Expired Demo.release 0 ∧ s.Mines Demo.release 0 ∧
    s'.Expired Demo.release 0 ∧ ¬s'.Mines Demo.release 0 := by
  obtain ⟨s, hrun, hexp, hmines, hfin⟩ := ranTo_iff.mp (by decide +kernel :
    ranTo (runWhere Demo.release (State.KeepsCover Demo.release) 9 Demo.genesis Demo.keptCover)
      (fun s => s.Expired Demo.release 0 ∧ s.Mines Demo.release 0 ∧
        ranTo (s.onFinalize Demo.release) (fun s' => s'.Expired Demo.release 0) = true) = true)
  obtain ⟨s', hfin, hexp'⟩ := ranTo_iff.mp hfin
  have h := runWhere_reachable (.init Demo.genesis_spec) hrun
  exact ⟨s, s', h, hfin, hexp, hmines, hexp', expired_pools_stop h hfin 0 hexp'⟩

/-- Two requests past the grace period, covered by two miners that cool down; a third is at work. -/
def Demo.coveredRequests : List (Op Account ℕ) := setup ++ [.addWorker (.user 0) 0 1,
  .forceRegisterWorker 2 (some (.user 0)), .benchReport 2 0 1000, .addWorker (.user 0) 0 2,
  .contribute (.user 1) 0 1000000000000, .contribute (.user 2) 0 1000000000000,
  .contribute (.user 3) 0 1000000000000, .startMining (.user 0) 0 0 999999999002,
  .startMining (.user 0) 0 1 999999999999, .startMining (.user 0) 0 2 1000000000999,
  .withdraw (.user 1) 0 999999999000, .withdraw (.user 2) 0 1000000000000, .stopMining (.user 0) 0 0,
  .stopMining (.user 0) 0 1, .time 604803000]

/-- The block hook takes their timestamp out. Then the first is paid; the rest
of its user's shares is dust, the price rises, and the second is short of some
hundreds. -/
theorem expired_pool_mines :
    ∃ s s', run Demo.release 9 Demo.genesis (Demo.coveredRequests ++ [.onFinalize]) = .ok s ∧
      ¬s.Expired Demo.release 0 ∧ s.withdrawalTimestamps = [] ∧
      run Demo.release 9 Demo.genesis
        (Demo.coveredRequests ++ [.onFinalize, .reclaimPoolWorker 0 0, .onFinalize]) =
        .ok s' ∧
      s'.Expired Demo.release 0 ∧ s'.Mines Demo.release 0 := by
  obtain ⟨s, hrun, hcovered⟩ := ranTo_iff.mp (by decide +kernel :
    ranTo (run Demo.release 9 Demo.genesis (Demo.coveredRequests ++ [.onFinalize]))
      (fun s => ¬s.Expired Demo.release 0 ∧ s.withdrawalTimestamps = []) = true)
  obtain ⟨s', hrun', hshort⟩ := ranTo_iff.mp (by decide +kernel :
    ranTo (run Demo.release 9 Demo.genesis
      (Demo.coveredRequests ++ [.onFinalize, .reclaimPoolWorker 0 0, .onFinalize]))
      (fun s => s.Expired Demo.release 0 ∧ s.Mines Demo.release 0) = true)
  exact ⟨s, s', hrun, hcovered.1, hcovered.2, hrun', hshort.1, hshort.2⟩

end Khala
