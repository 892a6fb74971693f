/-
The stakers' side of the stake pool pallet: the ledger of locked balances
with its currency lock, the settlement of a pending slash, and the withdraw
queue (`stakepool.rs`).

`try_process_withdraw_queue` works on a copy of the pool while it writes the
stakers straight to storage, so its state is the pair of the two. Its loop
takes fuel: `outOfFuel` is no outcome of the code, and a run that never ends
has no other.
-/
import Khala.Pool

namespace Khala

variable {A W : Type} [DecidableEq A]

/-! ## Currency -/

namespace Balances

def setFree (b : Balances A) (who : A) (amount : ℕ) : Balances A :=
  { b with free := fun a => if a = who then amount else b.free a }

def setLock (b : Balances A) (who : A) (amount : Option ℕ) : Balances A :=
  { b with lock := fun a => if a = who then amount else b.lock a }

def deposit (b : Balances A) (who : A) (amount : ℕ) : Balances A := b.setFree who (b.free who + amount)

/-- `Currency::slash`, what it took going to `OnSlashed`; and what it took. -/
def slash (cfg : Config A W) (b : Balances A) (who : A) (amount : ℕ) : Balances A × ℕ :=
  let removed := cfg.slashable b who amount
  ((b.setFree who (b.free who - removed)).deposit cfg.treasury removed, removed)

/-- `Currency::transfer`, which succeeds at nothing, and at anything from an account to itself, and does
nothing. -/
def transfer (cfg : Config A W) (b : Balances A) (source dest : A) (value : ℕ) : Option (Balances A) :=
  if value = 0 ∨ source = dest then some b
  else if cfg.transferable b source dest value then
    some ((b.setFree source (b.free source - value)).deposit dest value)
  else none

/-- `Currency::withdraw`, what it took going to `OnTreasurySettled`. -/
def withdraw (cfg : Config A W) (b : Balances A) (who : A) (value : ℕ) : Option (Balances A) :=
  if cfg.withdrawable b who value then
    some ((b.setFree who (b.free who - value)).deposit cfg.treasury value)
  else none

end Balances

/-! ## The ledger -/

namespace Books

variable (cfg : Config A W) (b : Books A W)

def putStaker (pid : ℕ) (u : A) (user : UserStakeInfo A) : Books A W :=
  { b with poolStakers := b.poolStakers.insert (pid, u) user }

/-- Writes the history variable. -/
def touch (kind : TouchKind) (pool : PoolInfo A W) (user : UserStakeInfo A) : Books A W :=
  { b with history := ⟨kind, pool, user, b.balances⟩ :: b.history }

def ledgerQuery (who : A) : ℕ := (b.stakeLedger.lookup who).getD 0

def updateLock (who : A) (amount : ℕ) : Books A W :=
  { b with balances := b.balances.setLock who (if amount = 0 then none else some amount) }

def setLedger (who : A) (amount : ℕ) : Books A W :=
  { b with stakeLedger := b.stakeLedger.insert who amount }.updateLock who amount

def removeDust (who : A) (dust : ℕ) : Books A W :=
  { b with balances := (b.balances.slash cfg who dust).1 }

def ledgerAccrue (who : A) (amount : ℕ) : Books A W := b.setLedger who (b.ledgerQuery who + amount)

def ledgerReduce (who : A) (amount dust : ℕ) : Except Fault (Books A W) := do
  cfg.debugAssert .ledgerReduce (amount + dust ≤ b.ledgerQuery who)
  let b' := b.setLedger who (b.ledgerQuery who - (amount + dust))
  pure (if dust ≠ 0 then b'.removeDust cfg who dust else b')

/-! ## Slashes and withdrawals -/

def maybeSettleSlash (pool : PoolInfo A W) (user : UserStakeInfo A) :
    Except Fault (Books A W × UserStakeInfo A) := do
  let b := b.touch .settle pool user
  match pool.settleSlash user with
  | none => pure (b, user)
  | some (user, slashed) =>
    -- a dust shortfall is dropped from the record and slashed from nobody
    if isNondustBalance slashed = true then do
      let (balances, actualSlashed) := b.balances.slash cfg user.user slashed
      let b ← { b with balances }.ledgerReduce cfg user.user actualSlashed 0
      pure (b, user)
    else pure (b, user)

end Books

/-- A pool taken out of storage, with the books. -/
structure Desk (A W : Type) where
  pool : PoolInfo A W
  books : Books A W

namespace Desk

variable (cfg : Config A W)

def setQueue (d : Desk A W) (withdrawQueue : List (WithdrawInfo A)) : Desk A W :=
  ⟨{ d.pool with withdrawQueue }, d.books⟩

/-- What `try_withdraw` and the queue's loop do alike: settle the staker, remove
the shares (`missing` where there are not enough) and unlock the stake. -/
def payOut (d : Desk A W) (userInfo : UserStakeInfo A) (shares : ℕ) (missing : Panic) :
    Except Fault (Desk A W × UserStakeInfo A) := do
  let (books, userInfo) ← d.books.maybeSettleSlash cfg d.pool userInfo
  let books := books.touch (.remove shares) d.pool userInfo
  let (pool, userInfo, reduced, dust) ← Outcome.get (← d.pool.removeStake cfg userInfo shares) (.panic missing)
  let books ← books.ledgerReduce cfg userInfo.user reduced dust
  pure (⟨pool, books⟩, userInfo)

/-- The shares that the free stake pays of a request; all of them once everything was slashed. -/
def withdrawingShares (price : FixedPoint) (pool : PoolInfo A W) (withdraw : WithdrawInfo A) : ℕ :=
  min (if price = 0 then withdraw.shares else bdiv pool.freeStake price) withdraw.shares

/-- The queue after so many shares of the request at its front are paid out. -/
def servedQueue (withdraw : WithdrawInfo A) (withdrawingShares : ℕ) (queue : List (WithdrawInfo A)) :
    List (WithdrawInfo A) :=
  let shares := (extractDust (withdraw.shares - withdrawingShares)).1
  if shares = 0 then queue.tail else { withdraw with shares } :: queue.tail

/-- One pass of the queue's loop, for the request `withdraw` at the front and its staker. -/
def fulfill (price : FixedPoint) (d : Desk A W) (withdraw : WithdrawInfo A) (userInfo : UserStakeInfo A) :
    Except Fault (Desk A W) := do
  let pid := d.pool.pid
  let userInfo ← d.pool.settleUserPendingReward cfg userInfo
  let shares := withdrawingShares price d.pool withdraw
  cfg.debugAssert .withdrawingShares (isNondustBalance shares = true)
  let (d, userInfo) ← d.payOut cfg userInfo shares .removeOnlyWhatWeHave
  let books := d.books.putStaker pid withdraw.user (d.pool.resetPendingReward userInfo)
  pure (setQueue ⟨d.pool, books⟩ (servedQueue withdraw shares d.pool.withdrawQueue))

/-- The `while` loop. -/
def processQueue (price : FixedPoint) : ℕ → Desk A W → Except Fault (Desk A W)
  | 0, _ => throw .outOfFuel
  | fuel + 1, d =>
    if isNondustBalance d.pool.freeStake = true then
      match d.pool.withdrawQueue with
      | [] => pure d
      | withdraw :: rest =>
        match d.books.poolStakers.lookup (d.pool.pid, withdraw.user) with
        | none => processQueue price fuel (d.setQueue rest)
        | some userInfo => do
          let d ← d.fulfill cfg price withdraw userInfo
          processQueue price fuel d
    else pure d

def tryProcessWithdrawQueue (fuel : ℕ) (d : Desk A W) : Except Fault (Desk A W) :=
  match d.pool.sharePrice with
  | some price => processQueue cfg price fuel d
  | none => pure d

/-- The shares that the pool's free stake pays for now; any number once everything was slashed. -/
def freeShares (pool : PoolInfo A W) (shares : ℕ) : ℕ :=
  match pool.sharePrice with
  | some price => if price ≠ 0 then bdiv pool.freeStake price else shares
  | none => shares

/-- How many of the shares are withdrawn at once. -/
def sharesNow (pool : PoolInfo A W) (shares : ℕ) : ℕ := (extractDust (min shares (freeShares pool shares))).1

/-- How many of them have to wait. -/
def sharesLater (pool : PoolInfo A W) (shares : ℕ) : ℕ := (extractDust (shares - sharesNow pool shares)).1

/-- The queue with a staker's request, which replaces an earlier one; unchanged for no shares. -/
def requestQueue (user : A) (shares now : ℕ) (queue : List (WithdrawInfo A)) : List (WithdrawInfo A) :=
  if shares > 0 then queue.filter (fun withdraw => withdraw.user ≠ user) ++ [⟨user, shares, now⟩] else queue

/-- The desk and the staker after `try_withdraw`. -/
def tryWithdraw (d : Desk A W) (userInfo : UserStakeInfo A) (shares now : ℕ) :
    Except Fault (Desk A W × UserStakeInfo A) := do
  let withdrawing := sharesNow d.pool shares
  let queued := sharesLater d.pool shares
  let userInfo ← d.pool.settleUserPendingReward cfg userInfo
  let (d, userInfo) ←
    (if withdrawing > 0 then d.payOut cfg userInfo withdrawing .enoughWithdrawingShares else pure (d, userInfo))
  let d := d.setQueue (requestQueue userInfo.user queued now d.pool.withdrawQueue)
  pure (d, d.pool.resetPendingReward userInfo)

end Desk

end Khala
