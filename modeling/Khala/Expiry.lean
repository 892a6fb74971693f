/-
What the test for an expired withdrawal decides.

The loop stops at the first request that the budget does not cover and answers
by that request's age. In an ordered queue no later request is older, and no
later one is covered by less, so the answer stands for all of them.
-/
import Khala.StakePool

namespace Khala

open Outcome

variable {A W : Type} {cfg : Config A W}

namespace PoolInfo

/-- The worth of the first `n` requests. -/
def queuedWorth (price : FixedPoint) (queue : List (WithdrawInfo A)) (n : ℕ) : ℕ :=
  ((queue.take n).map fun request => bmul request.shares price).sum

/-- A request is older than the grace period, and the budget does not cover it
together with all before it. -/
def Expired (now gracePeriod : ℕ) (price : FixedPoint) (budget : ℕ) (queue : List (WithdrawInfo A)) : Prop :=
  ∃ i request, queue[i]? = some request ∧ gracePeriod < now - request.startTime ∧
    budget < queuedWorth price queue (i + 1)

variable {now gracePeriod budget : ℕ} {price : FixedPoint} {request : WithdrawInfo A}
  {queue : List (WithdrawInfo A)}

theorem queuedWorth_cons (n : ℕ) :
    queuedWorth price (request :: queue) (n + 1) = bmul request.shares price + queuedWorth price queue n := by
  unfold queuedWorth
  rw [List.take_succ_cons, List.map_cons, List.sum_cons]

/-- Where the first request is not covered, its own age decides: the others are younger. -/
theorem expired_cons_of_lt (h : budget < bmul request.shares price)
    (hold : ∀ later ∈ queue, request.startTime ≤ later.startTime) :
    Expired now gracePeriod price budget (request :: queue) ↔ gracePeriod < now - request.startTime := by
  constructor
  · intro ⟨i, later, hi, hage, _⟩
    have hle : request.startTime ≤ later.startTime := by
      rcases List.mem_cons.mp (List.mem_of_getElem? hi) with rfl | hmem
      · exact le_rfl
      · exact hold later hmem
    omega
  · intro hage
    refine ⟨0, request, rfl, hage, ?_⟩
    rw [queuedWorth_cons]
    omega

/-- Where it is covered, the rest of the queue decides with the rest of the budget. -/
theorem expired_cons_of_le (h : bmul request.shares price ≤ budget) :
    Expired now gracePeriod price budget (request :: queue) ↔
      Expired now gracePeriod price (budget - bmul request.shares price) queue := by
  constructor
  · intro ⟨i, later, hi, hage, hworth⟩
    cases i with
    | zero =>
      rw [queuedWorth_cons] at hworth
      change budget < bmul request.shares price + 0 at hworth
      omega
    | succ i =>
      rw [queuedWorth_cons] at hworth
      exact ⟨i, later, hi, hage, by omega⟩
  · intro ⟨i, later, hi, hage, hworth⟩
    refine ⟨i + 1, later, hi, hage, ?_⟩
    rw [queuedWorth_cons]
    omega

/-- What the loop answers for an ordered queue of requests made so far. -/
theorem expiredRequest_ok (cfg : Config A W) (gracePeriod : ℕ) (price : FixedPoint) (budget : ℕ)
    (hsorted : queue.Pairwise fun request later => request.startTime ≤ later.startTime)
    (hpast : ∀ request ∈ queue, request.startTime ≤ now) :
    ∃ answer, expiredRequest cfg now gracePeriod price budget queue = .ok answer ∧
      (answer = true ↔ Expired now gracePeriod price budget queue) := by
  induction queue generalizing budget with
  | nil =>
    refine ⟨false, rfl, fun h => absurd h (by decide), ?_⟩
    intro ⟨i, request, hi, _⟩
    cases hi
  | cons request queue ih =>
    obtain ⟨hold, hsorted⟩ := List.pairwise_cons.mp hsorted
    have hnow : request.startTime ≤ now := hpast request List.mem_cons_self
    unfold expiredRequest
    dsimp only
    split
    · next hlt =>
      refine ⟨decide (now - request.startTime > gracePeriod), ?_, ?_⟩
      · rw [cfg.sub64_of_le hnow]
        rfl
      · rw [expired_cons_of_lt hlt hold]
        exact decide_eq_true_iff
    · next hle =>
      obtain ⟨answer, hanswer, hiff⟩ :=
        ih (budget - bmul request.shares price) hsorted fun r hr => hpast r (List.mem_cons_of_mem _ hr)
      exact ⟨answer, hanswer, hiff.trans (expired_cons_of_le (Nat.not_lt.mp hle)).symm⟩

/-- The budget never underflows: subtracting with any check is the same. -/
theorem expiredRequest_sub (c : Check) :
    expiredRequest cfg now gracePeriod price budget (request :: queue) =
      (if bmul request.shares price > budget then do
        let waiting ← cfg.sub64 .requestTime now request.startTime
        pure (waiting > gracePeriod)
      else do
        let left ← cfg.sub c budget (bmul request.shares price)
        expiredRequest cfg now gracePeriod price left queue) := by
  rw [expiredRequest]
  split
  · rfl
  · next hle =>
    rw [cfg.sub_of_le (Nat.not_lt.mp hle)]
    rfl

end PoolInfo

/-- **The expiry test.** For a pool with a nonzero price and an ordered queue of
requests made so far it answers whether a request older than the grace period is
not covered, with all before it, by the free and the releasing stake; the budget
it keeps never underflows. A build that asserts so stops at free stake first. -/
theorem hasExpiredWithdrawal_iff (cfg : Config A W) {pool : PoolInfo A W} {price : FixedPoint} {now : ℕ}
    (gracePeriod : ℕ) (hprice : pool.sharePrice = some price) (hne : price ≠ 0)
    (hsorted : pool.withdrawQueue.Pairwise fun request later => request.startTime ≤ later.startTime)
    (hpast : ∀ request ∈ pool.withdrawQueue, request.startTime ≤ now) :
    (∃ answer, pool.hasExpiredWithdrawal cfg now gracePeriod =
        (do cfg.debugAssert .expiredFree (pool.freeStake = 0); pure answer) ∧
      (answer = true ↔ ∃ i request, pool.withdrawQueue[i]? = some request ∧ gracePeriod < now - request.startTime ∧
        pool.freeStake + pool.releasingStake < PoolInfo.queuedWorth price pool.withdrawQueue (i + 1))) ∧
    ∀ c budget request rest, PoolInfo.expiredRequest cfg now gracePeriod price budget (request :: rest) =
      (if bmul request.shares price > budget then do
        let waiting ← cfg.sub64 .requestTime now request.startTime
        pure (waiting > gracePeriod)
      else do
        let left ← cfg.sub c budget (bmul request.shares price)
        PoolInfo.expiredRequest cfg now gracePeriod price left rest) := by
  constructor
  · obtain ⟨answer, hanswer, hiff⟩ := PoolInfo.expiredRequest_ok cfg gracePeriod price
      (pool.freeStake + pool.releasingStake) hsorted hpast
    refine ⟨answer, ?_, hiff⟩
    unfold PoolInfo.hasExpiredWithdrawal
    rw [hprice]
    dsimp only
    rw [if_pos hne, hanswer]
    rfl
  · exact fun c budget request rest => PoolInfo.expiredRequest_sub c

/-- A staker's request of two tokens, and an older one of a token before it. -/
def Demo.waitingPool : PoolInfo Account ℕ where
  pid := 0
  owner := .user 0
  payoutCommission := none
  ownerReward := 0
  cap := none
  rewardAcc := 0
  totalShares := 3000000000000
  totalStake := 3000000000000
  freeStake := 0
  releasingStake := 2000000000000
  workers := []
  withdrawQueue := [⟨.user 1, 1000000000000, 5⟩, ⟨.user 2, 2000000000000, 7⟩]

/-- The releasing stake covers the first request only, and the second one is too old as well. -/
theorem hasExpiredWithdrawal_iff_demo : ∃ i request, Demo.waitingPool.withdrawQueue[i]? = some request ∧
    604800 < 700000 - request.startTime ∧
    Demo.waitingPool.freeStake + Demo.waitingPool.releasingStake <
      PoolInfo.queuedWorth 1 Demo.waitingPool.withdrawQueue (i + 1) := by
  have hprice : Demo.waitingPool.sharePrice = some 1 := by decide +kernel
  have hrun : Demo.waitingPool.hasExpiredWithdrawal Demo.release 700000 604800 = .ok true := by decide +kernel
  have hstated := hasExpiredWithdrawal_iff Demo.release 604800 hprice (by decide) (by decide +kernel)
    (by decide +kernel : ∀ request ∈ Demo.waitingPool.withdrawQueue, request.startTime ≤ 700000)
  obtain ⟨⟨answer, hanswer, hiff⟩, _⟩ := hstated
  rw [hrun] at hanswer
  cases hanswer
  exact hiff.mp rfl

end Khala
