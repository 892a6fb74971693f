/-
The elementary changes to a pool and its stakers, and that settling, paying
out and the withdraw queue are runs of them.

A call works on copies: the pool is stored when the call is over and a staker
when its turn is. `Move` is about the desk as if each copy were stored at
once, so that an invariant of the books can be followed through the middle of
a call; a record written twice is written once (`putStaker_putStaker`).
`Stuck` are the ways in which a call can panic at a desk.
-/
import Khala.PoolFacts

namespace Khala

open Outcome Relation

variable {A W : Type} [DecidableEq A] {cfg : Config A W} {E : Fault → Prop}

/-! ## The books, operation by operation -/

namespace Books

variable {b : Books A W} {pool : PoolInfo A W} {user : UserStakeInfo A} {who u : A} {pid amount dust : ℕ}

@[simp] theorem putStaker_putStaker (b : Books A W) (pid : ℕ) (u : A) (user user' : UserStakeInfo A) :
    (b.putStaker pid u user).putStaker pid u user' = b.putStaker pid u user' := by
  simp only [putStaker, AList.insert_insert]

@[simp] theorem lookup_putStaker_self (b : Books A W) (pid : ℕ) (u : A) (user : UserStakeInfo A) :
    (b.putStaker pid u user).poolStakers.lookup (pid, u) = some user := AList.lookup_insert _

theorem lookup_putStaker (b : Books A W) (pid : ℕ) (u : A) (user : UserStakeInfo A) (k : ℕ × A) :
    (b.putStaker pid u user).poolStakers.lookup k =
      if k = (pid, u) then some user else b.poolStakers.lookup k :=
  StorageMap.lookup_insert_ite _ _ _ _

/-- The books after `ledgerReduce`. -/
def reduced (cfg : Config A W) (b : Books A W) (who : A) (amount dust : ℕ) : Books A W :=
  let b' := b.setLedger who (b.ledgerQuery who - (amount + dust))
  if dust ≠ 0 then b'.removeDust cfg who dust else b'

theorem ledgerReduce_ends (hE : b.ledgerQuery who < amount + dust → E (.panic (.check .ledgerReduce))) :
    Ends (b.ledgerReduce cfg who amount dust) (fun b' => b' = b.reduced cfg who amount dust) E := by
  refine (cfg.debugAssert_ends fun h => hE (Nat.lt_of_not_le h)).bind fun _ _ => ?_
  rfl

/-- The books with the pending slash taken from the staker's account, before the ledger follows. -/
def slashed (cfg : Config A W) (b : Books A W) (pool : PoolInfo A W) (user : UserStakeInfo A) : Books A W :=
  { b.touch .settle pool user with balances := (b.balances.slash cfg user.user (pool.shortfall user)).1 }

/-- What the pending slash takes from the staker's account. -/
def actualSlashed (cfg : Config A W) (b : Books A W) (pool : PoolInfo A W) (user : UserStakeInfo A) : ℕ :=
  cfg.slashable b.balances user.user (pool.shortfall user)

/-- The books after `maybeSettleSlash`. -/
def settled (cfg : Config A W) (b : Books A W) (pool : PoolInfo A W) (user : UserStakeInfo A) : Books A W :=
  if isNondustBalance (pool.shortfall user) = true then
    (b.slashed cfg pool user).reduced cfg user.user (b.actualSlashed cfg pool user) 0
  else b.touch .settle pool user

theorem maybeSettleSlash_ends
    (hE : isNondustBalance (pool.shortfall user) = true →
      b.ledgerQuery user.user < b.actualSlashed cfg pool user → E (.panic (.check .ledgerReduce))) :
    Ends (b.maybeSettleSlash cfg pool user)
      (fun r => r = (b.settled cfg pool user, { user with locked := pool.settledLocked user })) E := by
  unfold maybeSettleSlash PoolInfo.settleSlash
  cases hprice : pool.sharePrice with
  | none =>
    have hl : pool.settledLocked user = user.locked := by simp only [PoolInfo.settledLocked, hprice]
    have hs : pool.shortfall user = 0 := by simp only [PoolInfo.shortfall, hl, Nat.sub_self]
    have hd : ¬isNondustBalance 0 = true := by decide
    simp only [settled, hs, hd, hl]
    rfl
  | some price =>
    have hl : pool.settledLocked user = _ := PoolInfo.settledLocked_eq hprice
    simp only [← hl, PoolInfo.shortfall_def]
    split
    · next h =>
      refine (ledgerReduce_ends fun hlt => hE h hlt).bind fun b' hb' => ?_
      have : b.settled cfg pool user = b' := by rw [settled, if_pos h, hb']; rfl
      rw [this]
      rfl
    · next h =>
      rw [settled, if_neg h]
      rfl

theorem reduced_putStaker {user' : UserStakeInfo A} :
    (b.putStaker pid u user').reduced cfg who amount dust =
      (b.reduced cfg who amount dust).putStaker pid u user' := by
  unfold reduced
  split <;> rfl

theorem settled_putStaker {user' : UserStakeInfo A} :
    (b.putStaker pid u user').settled cfg pool user = (b.settled cfg pool user).putStaker pid u user' := by
  have hs : (b.putStaker pid u user').slashed cfg pool user =
      (b.slashed cfg pool user).putStaker pid u user' := rfl
  have ha : (b.putStaker pid u user').actualSlashed cfg pool user = b.actualSlashed cfg pool user := rfl
  unfold settled
  split
  · rw [hs, ha, reduced_putStaker]
  · rfl

theorem history_reduced : (b.reduced cfg who amount dust).history = b.history := by
  unfold reduced
  split <;> rfl

theorem history_settled : (b.settled cfg pool user).history = ⟨.settle, pool, user, b.balances⟩ :: b.history := by
  unfold settled
  split
  · exact history_reduced
  · rfl

end Books

/-! ## Moves -/

/-- An elementary change to the desk. -/
inductive Move (cfg : Config A W) (d : Desk A W) : Desk A W → Prop
  /-- A new staker -/
  | join {u : A} : d.books.poolStakers.lookup (d.pool.pid, u) = none →
      Move cfg d ⟨d.pool, d.books.putStaker d.pool.pid u ⟨u, 0, 0, 0, 0⟩⟩
  /-- A staker's rewards -/
  | reward {u : A} {user user'} : d.books.poolStakers.lookup (d.pool.pid, u) = some user →
      PoolInfo.SameStake user user' → Move cfg d ⟨d.pool, d.books.putStaker d.pool.pid u user'⟩
  /-- `maybeSettleSlash` -/
  | settle {u : A} {user} : d.books.poolStakers.lookup (d.pool.pid, u) = some user →
      Move cfg d ⟨d.pool, (d.books.settled cfg d.pool user).putStaker d.pool.pid u
        { user with locked := d.pool.settledLocked user }⟩
  /-- `removeStake` and `ledgerReduce` -/
  | remove {u : A} {user shares pool' user' amount dust} :
      d.books.poolStakers.lookup (d.pool.pid, u) = some user →
      d.pool.Removed user shares pool' user' amount dust →
      Move cfg d ⟨pool', ((d.books.touch (.remove shares) d.pool user).reduced cfg user.user amount dust).putStaker
        d.pool.pid u user'⟩
  /-- The pool's queue -/
  | queue {withdrawQueue} : Move cfg d (d.setQueue withdrawQueue)

abbrev Moves (cfg : Config A W) : Desk A W → Desk A W → Prop := ReflTransGen (Move cfg)

/-- The assertions that say nothing about stake or the ledger. -/
def Check.Plain (c : Check) : Prop :=
  c = .addNondust ∨ c = .removeNondust ∨ c = .slashClean ∨ c = .rewardClean ∨ c = .pendingReward ∨
    c = .totalSharesDust ∨ c = .withdrawingShares

/-- The panics that a desk allows. -/
inductive Stuck (cfg : Config A W) (d : Desk A W) : Fault → Prop
  | plain {c} : c.Plain → Stuck cfg d (.panic (.check c))
  | settle {u : A} {user} : d.books.poolStakers.lookup (d.pool.pid, u) = some user →
      isNondustBalance (d.pool.shortfall user) = true →
      d.books.ledgerQuery user.user < d.books.actualSlashed cfg d.pool user →
      Stuck cfg d (.panic (.check .ledgerReduce))
  | total {u : A} {user shares price} : d.books.poolStakers.lookup (d.pool.pid, u) = some user →
      d.pool.sharePrice = some price → d.pool.totalStake < d.pool.removable user shares price →
      Stuck cfg d (.panic (.check .removeTotal))
  | reduce {u : A} {user shares pool' user' amount dust} :
      d.books.poolStakers.lookup (d.pool.pid, u) = some user →
      d.pool.Removed user shares pool' user' amount dust →
      d.books.ledgerQuery user.user < amount + dust → Stuck cfg d (.panic (.check .ledgerReduce))
  | refuse {u : A} {user shares p} : d.books.poolStakers.lookup (d.pool.pid, u) = some user →
      d.pool.Refused user shares → p = .removeOnlyWhatWeHave ∨ p = .enoughWithdrawingShares →
      Stuck cfg d (.panic p)

/-- How a call that starts at the desk `d` can fail. -/
def Fails (cfg : Config A W) (d : Desk A W) (e : Fault) : Prop :=
  ∃ d', Moves cfg d d' ∧ Stuck cfg d' e

theorem Stuck.fails {d : Desk A W} {e : Fault} (h : Stuck cfg d e) : Fails cfg d e := ⟨d, .refl, h⟩

theorem Fails.of_moves {d d' : Desk A W} {e : Fault} (hm : Moves cfg d d') (h : Fails cfg d' e) :
    Fails cfg d e :=
  let ⟨d₁, hm', hs⟩ := h
  ⟨d₁, hm.trans hm', hs⟩

theorem Fails.ne_outOfFuel {d : Desk A W} {e : Fault} (h : Fails cfg d e) : e ≠ .outOfFuel := by
  rintro rfl
  obtain ⟨_, _, hs⟩ := h
  cases hs

theorem Move.pid_eq {d d' : Desk A W} (h : Move cfg d d') : d'.pool.pid = d.pool.pid := by
  cases h with
  | remove _ hr =>
    obtain ⟨rest, _, he⟩ := hr.pool_eq
    rw [he]
  | _ => rfl

theorem Moves.pid_eq {d d' : Desk A W} (h : Moves cfg d d') : d'.pool.pid = d.pool.pid := by
  induction h with
  | refl => rfl
  | tail _ h ih => rw [h.pid_eq, ih]

/-- No move mints shares. -/
theorem Move.totalShares_le {d d' : Desk A W} (h : Move cfg d d') : d'.pool.totalShares ≤ d.pool.totalShares := by
  cases h with
  | remove _ hr =>
    obtain ⟨rest, _, he⟩ := hr.pool_eq
    rw [he]
    exact Nat.sub_le _ _
  | _ => exact le_rfl

theorem Moves.totalShares_le {d d' : Desk A W} (h : Moves cfg d d') :
    d'.pool.totalShares ≤ d.pool.totalShares := by
  induction h with
  | refl => exact le_rfl
  | tail _ h ih => exact h.totalShares_le.trans ih

/-! ## A withdrawal -/

namespace Desk

variable {d d' : Desk A W} {u : A} {user user₁ user₂ : UserStakeInfo A} {shares : ℕ} {missing : Panic}

/-- What `payOut` did for the staker `user`. -/
def PaidOut (cfg : Config A W) (d : Desk A W) (user : UserStakeInfo A) (shares : ℕ) (d' : Desk A W)
    (user' : UserStakeInfo A) : Prop :=
  ∃ amount dust,
    d.pool.Removed { user with locked := d.pool.settledLocked user } shares d'.pool user' amount dust ∧
    d'.books = ((d.books.settled cfg d.pool user).touch (.remove shares) d.pool
      { user with locked := d.pool.settledLocked user }).reduced cfg user.user amount dust

/-- The staker is stored with the rewards settled, then settled. -/
theorem settle_moves (hu : d.books.poolStakers.lookup (d.pool.pid, u) = some user)
    (hs : PoolInfo.SameStake user user₁) :
    Moves cfg d ⟨d.pool, (d.books.settled cfg d.pool user₁).putStaker d.pool.pid u
      { user₁ with locked := d.pool.settledLocked user₁ }⟩ := by
  refine ReflTransGen.head (.reward hu hs) (.single ?_)
  let d₁ : Desk A W := ⟨d.pool, d.books.putStaker d.pool.pid u user₁⟩
  have hu₁ : d₁.books.poolStakers.lookup (d₁.pool.pid, u) = some user₁ := Books.lookup_putStaker_self _ _ _ _
  have h : Move cfg d₁ _ := .settle hu₁
  rwa [Books.settled_putStaker, Books.putStaker_putStaker] at h

theorem PaidOut.moves (hu : d.books.poolStakers.lookup (d.pool.pid, u) = some user)
    (hs : PoolInfo.SameStake user user₁) (h : d.PaidOut cfg user₁ shares d' user₂) :
    Moves cfg d ⟨d'.pool, d'.books.putStaker d.pool.pid u user₂⟩ := by
  obtain ⟨amount, dust, hr, hb⟩ := h
  refine (settle_moves hu hs).tail ?_
  let d₁ : Desk A W := ⟨d.pool, (d.books.settled cfg d.pool user₁).putStaker d.pool.pid u
    { user₁ with locked := d.pool.settledLocked user₁ }⟩
  have hu₁ : d₁.books.poolStakers.lookup (d₁.pool.pid, u) = some _ := Books.lookup_putStaker_self _ _ _ _
  have hm : Move cfg d₁ _ := .remove hu₁ hr
  rw [hb]
  convert hm using 2
  exact (congrArg (fun b : Books A W => b.putStaker d.pool.pid u user₂) Books.reduced_putStaker).trans
    (Books.putStaker_putStaker _ _ _ _ _) |>.symm

theorem payOut_ends (hu : d.books.poolStakers.lookup (d.pool.pid, u) = some user)
    (hs : PoolInfo.SameStake user user₁)
    (hp : missing = .removeOnlyWhatWeHave ∨ missing = .enoughWithdrawingShares) :
    Ends (d.payOut cfg user₁ shares missing) (fun (d', user₂) => d.PaidOut cfg user₁ shares d' user₂)
      (Fails cfg d) := by
  -- the desks at which the staker's record is settled and paid from
  let d₁ : Desk A W := ⟨d.pool, d.books.putStaker d.pool.pid u user₁⟩
  let user₁' := { user₁ with locked := d.pool.settledLocked user₁ }
  let d₂ : Desk A W := ⟨d.pool, (d.books.settled cfg d.pool user₁).putStaker d.pool.pid u user₁'⟩
  have hm₁ : Moves cfg d d₁ := .single (.reward hu hs)
  have hm₂ : Moves cfg d d₂ := settle_moves hu hs
  have hu₁ : d₁.books.poolStakers.lookup (d.pool.pid, u) = some user₁ := Books.lookup_putStaker_self _ _ _ _
  have hu₂ : d₂.books.poolStakers.lookup (d.pool.pid, u) = some user₁' := Books.lookup_putStaker_self _ _ _ _
  have plain {c : Check} (hc : c.Plain) : Fails cfg d (.panic (.check c)) := Stuck.fails (.plain hc)
  refine (Books.maybeSettleSlash_ends fun hd hlt => ?_).bind ?_
  · have hst : Stuck cfg d₁ (.panic (.check .ledgerReduce)) := .settle hu₁ hd hlt
    exact hst.fails.of_moves hm₁
  rintro _ rfl
  refine (PoolInfo.removeStake_ends ⟨?_, ?_, ?_, ?_⟩ fun price hprice hlt => ?_).bind fun r hr => ?_
  · exact plain (by simp [Check.Plain])
  · exact plain (by simp [Check.Plain])
  · exact plain (by simp [Check.Plain])
  · exact plain (by simp [Check.Plain])
  · have hst : Stuck cfg d₂ (.panic (.check .removeTotal)) := .total hu₂ hprice hlt
    exact hst.fails.of_moves hm₂
  refine (Ends.get fun hn => ?_).bind ?_
  · subst hn
    have hst : Stuck cfg d₂ (.panic missing) := .refuse hu₂ hr hp
    exact hst.fails.of_moves hm₂
  rintro ⟨pool, user₂, amount, dust⟩ rfl
  have hr : d.pool.Removed user₁' shares pool user₂ amount dust := hr
  have he : user₂.user = user₁.user := hr.user_user
  refine (Books.ledgerReduce_ends fun hlt => ?_).bind ?_
  · rw [he] at hlt
    have hst : Stuck cfg d₂ (.panic (.check .ledgerReduce)) := .reduce hu₂ hr hlt
    exact hst.fails.of_moves hm₂
  rintro _ rfl
  exact ⟨amount, dust, hr, by rw [he]⟩

/-! ## The withdraw queue -/

variable {price : FixedPoint} {withdraw : WithdrawInfo A}

/-- What one pass of the loop did, for a request of the staker `user`. -/
def Fulfilled (cfg : Config A W) (price : FixedPoint) (d : Desk A W) (withdraw : WithdrawInfo A)
    (user : UserStakeInfo A) (d' : Desk A W) : Prop :=
  ∃ user₁ d₁ user₂, PoolInfo.SameStake user user₁ ∧
    d.PaidOut cfg user₁ (withdrawingShares price d.pool withdraw) d₁ user₂ ∧
    d' = setQueue ⟨d₁.pool, d₁.books.putStaker d.pool.pid withdraw.user user₂⟩
      (servedQueue withdraw (withdrawingShares price d.pool withdraw) d.pool.withdrawQueue)

theorem fulfill_ends (hu : d.books.poolStakers.lookup (d.pool.pid, withdraw.user) = some user) :
    Ends (d.fulfill cfg price withdraw user) (d.Fulfilled cfg price withdraw user) (Fails cfg d) := by
  refine (PoolInfo.settleUserPendingReward_ends ?_).bind fun user₁ ⟨hs, _⟩ => ?_
  · exact Stuck.fails (.plain (by simp [Check.Plain]))
  refine (cfg.debugAssert_ends fun _ => ?_).bind fun _ _ => ?_
  · exact Stuck.fails (.plain (by simp [Check.Plain]))
  refine (payOut_ends hu hs (.inl rfl)).bind ?_
  rintro ⟨d₁, user₂⟩ ⟨amount, dust, hr, hb⟩
  refine ⟨user₁, d₁, user₂, hs, ⟨amount, dust, hr, hb⟩, ?_⟩
  simp only [hr.reset, hr.unchanged.2.1]

theorem Fulfilled.moves (hu : d.books.poolStakers.lookup (d.pool.pid, withdraw.user) = some user)
    (h : d.Fulfilled cfg price withdraw user d') : Moves cfg d d' := by
  obtain ⟨user₁, d₁, user₂, hs, hp, rfl⟩ := h
  exact (hp.moves hu hs).tail .queue

/-- The loop rule: what skipping a request and serving one keep, the loop keeps. -/
theorem processQueue_ends {I : Desk A W → Prop} {fuel : ℕ} (hE : E .outOfFuel)
    (skip : ∀ d w rest, I d → isNondustBalance d.pool.freeStake = true → d.pool.withdrawQueue = w :: rest →
      d.books.poolStakers.lookup (d.pool.pid, w.user) = none →
      I (d.setQueue rest))
    (serve : ∀ d w rest user, I d → isNondustBalance d.pool.freeStake = true →
      d.pool.withdrawQueue = w :: rest → d.books.poolStakers.lookup (d.pool.pid, w.user) = some user →
      Ends (d.fulfill cfg price w user) I E)
    (hd : I d) : Ends (processQueue cfg price fuel d) I E := by
  induction fuel generalizing d with
  | zero => exact hE
  | succ fuel ih =>
    unfold processQueue
    split
    · next hf =>
      split
      · exact hd
      · next w rest hq =>
        split
        · next hn => exact ih (skip d w rest hd hf hq hn)
        · next user hu => exact (serve d w rest user hd hf hq hu).bind fun d' hd' => ih hd'
    · exact hd

theorem tryProcessWithdrawQueue_ends {I : Desk A W → Prop} {fuel : ℕ} (hE : E .outOfFuel)
    (skip : ∀ d w rest, I d → isNondustBalance d.pool.freeStake = true → d.pool.withdrawQueue = w :: rest →
      d.books.poolStakers.lookup (d.pool.pid, w.user) = none →
      I (d.setQueue rest))
    (serve : ∀ price d₁ w rest user, d.pool.sharePrice = some price → I d₁ →
      isNondustBalance d₁.pool.freeStake = true → d₁.pool.withdrawQueue = w :: rest →
      d₁.books.poolStakers.lookup (d₁.pool.pid, w.user) = some user → Ends (d₁.fulfill cfg price w user) I E)
    (hd : I d) : Ends (d.tryProcessWithdrawQueue cfg fuel) I E := by
  unfold tryProcessWithdrawQueue
  split
  · next price hprice =>
    exact processQueue_ends hE skip (fun d₁ w rest user => serve price d₁ w rest user hprice) hd
  · exact hd

theorem tryProcessWithdrawQueue_moves {fuel : ℕ} :
    Ends (d.tryProcessWithdrawQueue cfg fuel) (Moves cfg d) fun e => e = .outOfFuel ∨ Fails cfg d e := by
  refine tryProcessWithdrawQueue_ends (.inl rfl) (fun d₁ w rest hm _ _ _ => hm.tail .queue) ?_ .refl
  intro price d₁ w rest user _ hm _ _ hu
  exact (fulfill_ends hu).mono (fun d₂ h => hm.trans (h.moves hu)) fun e h => .inr (h.of_moves hm)

/-! ## Withdrawing -/

/-- What `tryWithdraw` did for the staker `user`: paid out now what the free
stake pays for, and queued the rest. -/
def Withdrew (cfg : Config A W) (d : Desk A W) (user : UserStakeInfo A) (shares now : ℕ) (d' : Desk A W)
    (user' : UserStakeInfo A) : Prop :=
  ∃ user₁ d₁, PoolInfo.SameStake user user₁ ∧
    (0 < sharesNow d.pool shares ∧ d.PaidOut cfg user₁ (sharesNow d.pool shares) d₁ user' ∨
      sharesNow d.pool shares = 0 ∧ d₁ = d ∧ user' = user₁) ∧
    d' = d₁.setQueue (requestQueue user.user (sharesLater d.pool shares) now d.pool.withdrawQueue)

theorem tryWithdraw_ends {now : ℕ} (hu : d.books.poolStakers.lookup (d.pool.pid, u) = some user) :
    Ends (d.tryWithdraw cfg user shares now) (fun (d', user') => d.Withdrew cfg user shares now d' user')
      (Fails cfg d) := by
  refine (PoolInfo.settleUserPendingReward_ends ?_).bind fun user₁ ⟨hs, hreset⟩ => ?_
  · exact Stuck.fails (.plain (by simp [Check.Plain]))
  have he : user₁.user = user.user := by obtain ⟨_, _, rfl⟩ := hs; rfl
  split
  · next hw =>
    refine (payOut_ends hu hs (.inr rfl)).bind ?_
    rintro ⟨d₁, user₂⟩ ⟨amount, dust, hr, hb⟩
    refine ⟨user₁, d₁, hs, .inl ⟨hw, amount, dust, ?_, hb⟩, ?_⟩
    · exact (congrArg (d.pool.Removed _ _ d₁.pool · amount dust) hr.reset.symm).mp hr
    · simp only [hr.unchanged.2.1, hr.user_user, he]
  · next hw =>
    refine ⟨user₁, d, hs, .inr ⟨Nat.eq_zero_of_not_pos hw, rfl, hreset⟩, ?_⟩
    simp only [he]

theorem Withdrew.moves {now : ℕ} (hu : d.books.poolStakers.lookup (d.pool.pid, u) = some user)
    (h : d.Withdrew cfg user shares now d' user₂) :
    Moves cfg d ⟨d'.pool, d'.books.putStaker d.pool.pid u user₂⟩ := by
  obtain ⟨user₁, d₁, hs, hpaid, rfl⟩ := h
  rcases hpaid with ⟨_, hp⟩ | ⟨_, rfl, rfl⟩
  · exact (hp.moves hu hs).tail .queue
  · exact ReflTransGen.tail (.single (.reward hu hs)) .queue

end Desk

end Khala
