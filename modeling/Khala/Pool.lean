/-
`PoolInfo`'s methods (`stakepool.rs`): shares against stake, the pending
slash of a staker, the reward accumulator.

A share's price is `totalStake / totalShares` in fixed point, of which a
staker holds `shares`. A slash lowers only `totalStake`; a staker's `locked`
follows when the staker is next settled. Methods that change the staker's
record return it.
-/
import Khala.Types

namespace Khala

namespace PoolInfo

variable {A W : Type} (cfg : Config A W) (self : PoolInfo A W)

/-- The price of one share, or `none` if no share at all. -/
def sharePrice : Option FixedPoint := (toFixed self.totalStake).checkedDiv (toFixed self.totalShares)

/-! ## Rewards -/

/-- `Accumulator::pending` -/
def pendingReward (user : UserStakeInfo A) : Except Fault ℕ :=
  cfg.sub .pendingReward (bmul user.shares self.rewardAcc) user.rewardDebt

def resetPendingReward (user : UserStakeInfo A) : UserStakeInfo A :=
  { user with rewardDebt := Accumulator.clearPending user.shares self.rewardAcc }

def settleUserPendingReward (user : UserStakeInfo A) : Except Fault (UserStakeInfo A) := do
  let pendingReward ← self.pendingReward cfg user
  pure (self.resetPendingReward { user with availableRewards := user.availableRewards + pendingReward })

/-- It asserts that the shares are not dust, and divides by them in fixed point. -/
def distributeReward (rewards : ℕ) : Except Fault (PoolInfo A W) := do
  Outcome.require (isNondustBalance self.totalShares = true ∧ (toFixed self.totalShares).bits ≠ 0)
    (.panic .divideByZero)
  pure { self with rewardAcc := Accumulator.distribute self.totalShares self.rewardAcc rewards }

/-! ## Debug assertions -/

def SlashClean (user : UserStakeInfo A) : Prop :=
  self.totalShares = 0 ∨
    ∃ price ∈ self.sharePrice, balancesNearlyEqual (bmul user.shares price) user.locked = true

instance (user : UserStakeInfo A) : Decidable (self.SlashClean user) :=
  inferInstanceAs (Decidable (_ ∨ _))

def assertSlashClean (user : UserStakeInfo A) : Except Fault Unit :=
  cfg.debugAssert .slashClean (self.SlashClean user)

/-- Compiled out with its own subtraction where nothing is checked. -/
def assertRewardClean (user : UserStakeInfo A) : Except Fault Unit :=
  cfg.debugAssert .rewardClean (bmul user.shares self.rewardAcc = user.rewardDebt)

/-! ## Stake -/

/-- How many shares `amount` buys: at price one while there is no share, or no stake left. -/
def sharesFor (amount : ℕ) : ℕ :=
  match self.sharePrice with
  | some price => if price ≠ 0 then bdiv amount price else amount
  | none => amount

def addStake (user : UserStakeInfo A) (amount : ℕ) : Except Fault (PoolInfo A W × UserStakeInfo A) := do
  cfg.debugAssert .addNondust (isNondustBalance amount = true)
  self.assertSlashClean cfg user
  self.assertRewardClean cfg user
  let shares := self.sharesFor amount
  let user := self.resetPendingReward
    { user with shares := user.shares + shares, locked := user.locked + amount }
  pure ({ self with
    totalShares := self.totalShares + shares
    totalStake := self.totalStake + amount
    freeStake := self.freeStake + amount }, user)

/-- The pool and the staker after the removal, the removed stake and the dust
to remove; `none` where the code makes no change. -/
def removeStake (user : UserStakeInfo A) (shares : ℕ) :
    Except Fault (Option (PoolInfo A W × UserStakeInfo A × ℕ × ℕ)) := do
  cfg.debugAssert .removeNondust (isNondustBalance shares = true)
  self.assertSlashClean cfg user
  self.assertRewardClean cfg user
  match self.sharePrice with
  | none => pure none
  | some price =>
    let amount := min (min (bmul shares price) self.freeStake) user.locked
    if user.shares < shares then pure none
    else
      let userShares := (extractDust (user.shares - shares)).1
      let sharesDust := (extractDust (user.shares - shares)).2
      let userLocked := (extractDust (user.locked - amount)).1
      let userDust := (extractDust (user.locked - amount)).2
      if self.totalShares < shares + sharesDust then pure none
      else do
        let totalShares := self.totalShares - (shares + sharesDust)
        cfg.debugAssert .totalSharesDust ((extractDust totalShares).2 = 0)
        let rest ← cfg.sub .removeTotal self.totalStake amount
        -- `amount` is at most `free_stake`, so `free_stake -= amount` never wraps
        let pool := { self with
          totalShares
          totalStake := if (extractDust rest).1 > 0 then rest else 0
          freeStake := if (extractDust rest).1 > 0 then self.freeStake - amount else 0 }
        let user := pool.resetPendingReward { user with shares := userShares, locked := userLocked }
        pure (some (pool, user, amount, userDust))

/-- Slashes the pool with dust removed. -/
def slash (amount : ℕ) : Except Fault (PoolInfo A W) := do
  cfg.debugAssert .slashShares (isNondustBalance self.totalShares = true)
  cfg.debugAssert .slashStake (amount ≤ self.totalStake)
  let amount := min self.totalStake amount
  pure { self with totalStake := (extractDust (self.totalStake - amount)).1 }

/-- The staker without the pending slash, and the slash. -/
def settleSlash (user : UserStakeInfo A) : Option (UserStakeInfo A × ℕ) :=
  match self.sharePrice with
  | none => none
  | some price =>
    let newLocked := (extractDust (min (bmul user.shares price) user.locked)).1
    some ({ user with locked := newLocked }, user.locked - newLocked)

/-! ## Workers and requests -/

def removeWorker [DecidableEq W] (worker : W) : PoolInfo A W :=
  { self with workers := self.workers.filter fun w => w ≠ worker }

/-- The first request that `budget` does not cover decides. -/
def expiredRequest (now gracePeriod : ℕ) (price : FixedPoint) : ℕ → List (WithdrawInfo A) → Except Fault Bool
  | _, [] => pure false
  | budget, request :: rest =>
    let amount := bmul request.shares price
    if amount > budget then do
      let waiting ← cfg.sub64 .requestTime now request.startTime
      pure (waiting > gracePeriod)
    else expiredRequest now gracePeriod price (budget - amount) rest

def hasExpiredWithdrawal (now gracePeriod : ℕ) : Except Fault Bool := do
  cfg.debugAssert .expiredFree (self.freeStake = 0)
  match self.sharePrice with
  | some price =>
    if price ≠ 0 then
      expiredRequest cfg now gracePeriod price (self.freeStake + self.releasingStake) self.withdrawQueue
    else pure false
  | none => pure false

end PoolInfo

end Khala
