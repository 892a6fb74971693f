/-
What `PoolInfo`'s methods do, as one account each: the results in full, and
what a failure means. Later proofs use these and never unfold the methods.
-/
import Khala.Books

namespace Khala

open Outcome

namespace PoolInfo

variable {A W : Type} {cfg : Config A W} {pool pool' : PoolInfo A W} {user user' : UserStakeInfo A}
  {shares amount dust : ℕ} {E : Fault → Prop}

/-- The price exists when the shares, and the quotient, fit the format. -/
theorem sharePrice_eq_some {price : FixedPoint} :
    pool.sharePrice = some price ↔ (toFixed pool.totalShares).bits ≠ 0 ∧
      price.bits = 2 ^ 64 * (toFixed pool.totalStake).bits / (toFixed pool.totalShares).bits :=
  U64F64.checkedDiv_eq_some

theorem sharePrice_of_no_shares (h : pool.totalShares = 0) : pool.sharePrice = none := by
  rw [sharePrice, h, toFixed_zero]
  exact U64F64.checkedDiv_eq_none.mpr (.inl rfl)

theorem totalShares_pos {price : FixedPoint} (h : pool.sharePrice = some price) : 0 < pool.totalShares := by
  by_contra h0
  rw [sharePrice_of_no_shares (by omega)] at h
  cases h

/-- The price depends on the stake and the shares only. -/
theorem sharePrice_congr (hs : pool'.totalStake = pool.totalStake) (ht : pool'.totalShares = pool.totalShares) :
    pool'.sharePrice = pool.sharePrice := by
  rw [sharePrice, sharePrice, hs, ht]

/-! ## Rewards -/

/-- Only the two reward fields differ. -/
def SameStake (user user' : UserStakeInfo A) : Prop :=
  ∃ availableRewards rewardDebt, user' = { user with availableRewards, rewardDebt }

theorem SameStake.refl (user : UserStakeInfo A) : SameStake user user := ⟨_, _, rfl⟩

/-- A record whose rewards are reset is one whose debt is the accumulator's. -/
theorem resetPendingReward_eq_self :
    pool.resetPendingReward user = user ↔ user.rewardDebt =
    Accumulator.clearPending user.shares pool.rewardAcc := by
  cases user
  simp only [resetPendingReward, UserStakeInfo.mk.injEq, true_and]
  exact eq_comm

theorem settleUserPendingReward_ends (hE : E (.panic (.check .pendingReward))) :
    Ends (pool.settleUserPendingReward cfg user)
      (fun user' => SameStake user user' ∧ pool.resetPendingReward user' = user') E := by
  refine (cfg.sub_ends fun _ => hE).bind fun n _ => ?_
  exact ⟨⟨_, _, rfl⟩, rfl⟩

/-! ## Slashes -/

/-- What is left locked when the pending slash is settled. -/
def settledLocked (pool : PoolInfo A W) (user : UserStakeInfo A) : ℕ :=
  match pool.sharePrice with
  | none => user.locked
  | some price => (extractDust (min (bmul user.shares price) user.locked)).1

theorem settledLocked_le : pool.settledLocked user ≤ user.locked := by
  unfold settledLocked
  split
  · exact le_rfl
  · exact (extractDust_fst_le _).trans (min_le_right _ _)

theorem settledLocked_eq {price : FixedPoint} (h : pool.sharePrice = some price) :
    pool.settledLocked user = (extractDust (min (bmul user.shares price) user.locked)).1 := by
  simp only [settledLocked, h]

/-- The pending slash. -/
def shortfall (pool : PoolInfo A W) (user : UserStakeInfo A) : ℕ := user.locked - pool.settledLocked user

theorem shortfall_def : user.locked - pool.settledLocked user = pool.shortfall user := rfl

theorem slash_ends (hE : ¬isNondustBalance pool.totalShares = true → E (.panic (.check .slashShares)))
    (hE' : pool.totalStake < amount → E (.panic (.check .slashStake))) :
    Ends (pool.slash cfg amount)
      (fun pool' => pool' = { pool with totalStake := (extractDust (pool.totalStake - amount)).1 }) E := by
  refine (cfg.debugAssert_ends hE).bind fun _ _ => ?_
  refine (cfg.debugAssert_ends fun h => hE' (Nat.lt_of_not_le h)).bind fun _ _ => ?_
  have h : pool.totalStake - min pool.totalStake amount = pool.totalStake - amount := by omega
  simp only [h]
  rfl

/-! ## Stake -/

/-- The pool and the staker after `addStake`. -/
def added (pool : PoolInfo A W) (amount : ℕ) : PoolInfo A W :=
  { pool with
    totalShares := pool.totalShares + pool.sharesFor amount
    totalStake := pool.totalStake + amount
    freeStake := pool.freeStake + amount }

def addedStaker (pool : PoolInfo A W) (user : UserStakeInfo A) (amount : ℕ) : UserStakeInfo A :=
  pool.resetPendingReward
    { user with shares := user.shares + pool.sharesFor amount, locked := user.locked + amount }

theorem addStake_ends (hE : E (.panic (.check .addNondust)) ∧ E (.panic (.check .slashClean)) ∧
    E (.panic (.check .rewardClean))) :
    Ends (pool.addStake cfg user amount) (fun r => r = (pool.added amount, pool.addedStaker user amount)) E := by
  refine (cfg.debugAssert_ends fun _ => hE.1).bind fun _ _ => ?_
  refine (cfg.debugAssert_ends fun _ => hE.2.1).bind fun _ _ => ?_
  refine (cfg.debugAssert_ends fun _ => hE.2.2).bind fun _ _ => ?_
  rfl

/-- The stake that leaves with `shares`. -/
def removable (pool : PoolInfo A W) (user : UserStakeInfo A) (shares : ℕ) (price : FixedPoint) : ℕ :=
  min (min (bmul shares price) pool.freeStake) user.locked

theorem removable_le_free {price : FixedPoint} : pool.removable user shares price ≤ pool.freeStake :=
  (min_le_left _ _).trans (min_le_right _ _)

theorem removable_le_locked {price : FixedPoint} : pool.removable user shares price ≤ user.locked :=
  min_le_right _ _

/-- What a successful `removeStake` did. `rest` is `total_stake - amount` as
the code computes it. -/
structure Removed (pool : PoolInfo A W) (user : UserStakeInfo A) (shares : ℕ)
    (pool' : PoolInfo A W) (user' : UserStakeInfo A) (amount dust : ℕ) : Prop where
  amount_eq : ∃ price, pool.sharePrice = some price ∧ amount = pool.removable user shares price
  shares_le : shares ≤ user.shares
  total_le : shares + (extractDust (user.shares - shares)).2 ≤ pool.totalShares
  pool_eq : ∃ rest, (amount ≤ pool.totalStake → rest = pool.totalStake - amount) ∧
    pool' = { pool with
      totalShares := pool.totalShares - (shares + (extractDust (user.shares - shares)).2)
      totalStake := if (extractDust rest).1 > 0 then rest else 0
      freeStake := if (extractDust rest).1 > 0 then pool.freeStake - amount else 0 }
  user_eq : user' = pool.resetPendingReward { user with
    shares := (extractDust (user.shares - shares)).1, locked := (extractDust (user.locked - amount)).1 }
  dust_eq : dust = (extractDust (user.locked - amount)).2

/-- What a refusal of `removeStake` means. -/
def Refused (pool : PoolInfo A W) (user : UserStakeInfo A) (shares : ℕ) : Prop :=
  pool.sharePrice = none ∨ user.shares < shares ∨
    pool.totalShares < shares + (extractDust (user.shares - shares)).2

theorem removeStake_ends
    (hE : E (.panic (.check .removeNondust)) ∧ E (.panic (.check .slashClean)) ∧
      E (.panic (.check .rewardClean)) ∧ E (.panic (.check .totalSharesDust)))
    (hE' : ∀ price, pool.sharePrice = some price → pool.totalStake < pool.removable user shares price →
      E (.panic (.check .removeTotal))) :
    Ends (pool.removeStake cfg user shares)
      (fun r => r.elim (pool.Refused user shares) fun (pool', user', amount, dust) =>
        pool.Removed user shares pool' user' amount dust) E := by
  refine (cfg.debugAssert_ends fun _ => hE.1).bind fun _ _ => ?_
  refine (cfg.debugAssert_ends fun _ => hE.2.1).bind fun _ _ => ?_
  refine (cfg.debugAssert_ends fun _ => hE.2.2.1).bind fun _ _ => ?_
  split
  · next h => exact .inl h
  · next price hprice =>
    dsimp only
    split
    · next h => exact .inr (.inl h)
    · next h =>
      split
      · next h' => exact .inr (.inr h')
      · next h' =>
        refine (cfg.debugAssert_ends fun _ => hE.2.2.2).bind fun _ _ => ?_
        refine (cfg.sub_ends fun hlt => hE' price hprice hlt).bind fun rest hrest => ?_
        refine ⟨⟨price, hprice, rfl⟩, Nat.le_of_not_lt h, Nat.le_of_not_lt h',
          ⟨rest, fun hle => ?_, rfl⟩, rfl, rfl⟩
        rcases hrest with ⟨_, hr⟩ | ⟨hlt, _⟩
        · exact hr
        · exact absurd hle (Nat.not_le.mpr hlt)

theorem Removed.unchanged (h : pool.Removed user shares pool' user' amount dust) :
    pool'.pid = pool.pid ∧ pool'.withdrawQueue = pool.withdrawQueue ∧ pool'.rewardAcc = pool.rewardAcc ∧
      pool'.releasingStake = pool.releasingStake ∧ pool'.workers = pool.workers := by
  obtain ⟨rest, _, he⟩ := h.pool_eq
  rw [he]
  exact ⟨rfl, rfl, rfl, rfl, rfl⟩

theorem Removed.user_user (h : pool.Removed user shares pool' user' amount dust) : user'.user = user.user := by
  rw [h.user_eq]; rfl

theorem Removed.reset (h : pool.Removed user shares pool' user' amount dust) :
    pool'.resetPendingReward user' = user' := by
  refine resetPendingReward_eq_self.mpr ?_
  rw [h.user_eq, h.unchanged.2.2.1]
  rfl

end PoolInfo

end Khala
