/-
Whether the stake of a pool is backed by what its stakers have locked.

A pool's total is the worth of its stakers' shares, so it is backed as far as
each staker's shares are. What comes in between is what a touch leaves behind
in the pool: whoever withdraws drops the rest of the shares as dust, but its
worth stays in the total and lifts the price of all others; a share is bought
and paid at a rounded price; a settlement leaves less locked than the shares
are worth. `Touch.leftover` says how much, from the pool and the staker before
the touch, and all a pool's touches together are what its stake exceeds the
locked by at most.
-/
import Khala.ShareValue
import Khala.Shares
import Mathlib.Algebra.Order.Field.Rat
import Mathlib.Data.Nat.Dist
import Mathlib.Tactic.Linarith

namespace Khala

open Relation

variable {A W : Type}

/-! ## What is left behind -/

/-- By how much a staker's shares are worth more than it has locked, times the pool's shares. -/
def PoolInfo.excess (pool : PoolInfo A W) (user : UserStakeInfo A) : ℕ :=
  user.shares * pool.totalStake - pool.totalShares * user.locked

/-- What a removal of the shares and of those it drops takes too little, or too much, at the payment of
`amount`, and the dust that it drops from what stays locked behind shares. Nothing is left of a stake that
comes down to dust. -/
def PoolInfo.leftBehind (pool : PoolInfo A W) (user : UserStakeInfo A) (shares amount : ℕ) : ℚ :=
  if pool.totalStake - amount ≤ 1000 then 0
  else
    Nat.dist ((shares + (extractDust (user.shares - shares)).2) * pool.totalStake) (pool.totalShares * amount) /
        pool.totalShares +
      (if (extractDust (user.shares - shares)).1 = 0 then 0 else (extractDust (user.locked - amount)).2 : ℕ)

/-- What a touch leaves behind in the pool. -/
def Touch.leftover (t : Touch A W) : ℚ :=
  match t.kind with
  | .settle => (t.pool.excess { t.user with locked := t.pool.settledLocked t.user } - t.pool.excess t.user : ℕ) /
      t.pool.totalShares
  | .add amount => Nat.dist (t.pool.totalShares * amount) (t.pool.sharesFor amount * t.pool.totalStake) /
      t.pool.totalShares
  | .remove shares => t.pool.sharePrice.elim 0 fun price =>
      t.pool.leftBehind t.user shares (t.pool.removable t.user shares price)

/-- What the touches of a pool leave behind in it. -/
def leftovers (pid : ℕ) (history : List (Touch A W)) : ℚ :=
  ((history.filter fun t => t.pool.pid = pid).map Touch.leftover).sum

theorem PoolInfo.leftBehind_nonneg {pool : PoolInfo A W} {user : UserStakeInfo A} {shares amount : ℕ} :
    0 ≤ pool.leftBehind user shares amount := by
  unfold leftBehind
  split
  · exact le_rfl
  · positivity

theorem Touch.leftover_nonneg (t : Touch A W) : 0 ≤ t.leftover := by
  obtain ⟨kind, pool, user, balances⟩ := t
  cases kind with
  | settle =>
    dsimp only [leftover]
    positivity
  | add amount =>
    dsimp only [leftover]
    positivity
  | remove shares =>
    dsimp only [leftover]
    cases pool.sharePrice with
    | none => exact le_rfl
    | some price => exact PoolInfo.leftBehind_nonneg

section History

variable {pid : ℕ} {history history' : List (Touch A W)}

theorem leftovers_cons (kind : TouchKind) (pool : PoolInfo A W) (user : UserStakeInfo A) (balances : Balances A) :
    leftovers pool.pid (⟨kind, pool, user, balances⟩ :: history) =
      Touch.leftover ⟨kind, pool, user, balances⟩ + leftovers pool.pid history := by
  have hfilter : (⟨kind, pool, user, balances⟩ :: history).filter (fun t => t.pool.pid = pool.pid) =
      ⟨kind, pool, user, balances⟩ :: history.filter fun t => t.pool.pid = pool.pid :=
    List.filter_cons_of_pos (decide_eq_true rfl)
  unfold leftovers
  rw [hfilter, List.map_cons, List.sum_cons]

theorem leftovers_nonneg : 0 ≤ leftovers pid history := by
  refine List.sum_nonneg fun x hx => ?_
  obtain ⟨t, _, rfl⟩ := List.mem_map.mp hx
  exact t.leftover_nonneg

/-- What was left behind stays. -/
theorem leftovers_mono (h : history <:+ history') : leftovers pid history ≤ leftovers pid history' := by
  obtain ⟨newer, rfl⟩ := h
  have hsplit : leftovers pid (newer ++ history) = leftovers pid newer + leftovers pid history := by
    unfold leftovers
    rw [List.filter_append, List.map_append, List.sum_append]
  have hnonneg : 0 ≤ leftovers pid newer := leftovers_nonneg
  linarith

end History

/-! ## Arithmetic -/

section Arithmetic

variable {T T' S S' s h m a x d L o : ℕ}

/-- Another staker's excess, after `m` was paid for `h` shares. -/
theorem excess_removed (hT : T' + m = T) (hS : S' + h = S) :
    S * (s * T' - S' * L) ≤ S' * (s * T - S * L) + s * (h * T - S * m) := by
  have he : s * T ≤ s * T - S * L + S * L := by omega
  have hd : h * T ≤ h * T - S * m + S * m := by omega
  rw [Nat.mul_sub, Nat.sub_le_iff_le_add]
  generalize s * T - S * L = e at he ⊢
  generalize h * T - S * m = δ at hd ⊢
  subst hT hS
  have := Nat.mul_le_mul_left S' he
  have := Nat.mul_le_mul_left s hd
  linarith

/-- The excess of the one who was paid, where `o` shares are others', and dust of `d` is dropped. -/
theorem excess_remover (hT : T' + m = T) (hS : s + h + o = S) :
    S * (s * T' - (s + o) * L) ≤
      (s + o) * ((s + h) * T - S * (L + d + m)) + o * (S * m - h * T) + S * ((s + o) * d) := by
  have he : (s + h) * T ≤ (s + h) * T - S * (L + d + m) + S * (L + d + m) := by omega
  have hd : S * m ≤ S * m - h * T + h * T := by omega
  rw [Nat.mul_sub, Nat.sub_le_iff_le_add]
  generalize (s + h) * T - S * (L + d + m) = e at he ⊢
  generalize S * m - h * T = δ at hd ⊢
  subst hT hS
  have := Nat.mul_le_mul_left (s + o) he
  have := Nat.mul_le_mul_left o hd
  linarith

/-- Another staker's excess, after `a` was added for `x` shares. -/
theorem excess_added : S * (s * (T + a) - (S + x) * L) ≤ (S + x) * (s * T - S * L) + s * (S * a - x * T) := by
  have he : s * T ≤ s * T - S * L + S * L := by omega
  have hd : S * a ≤ S * a - x * T + x * T := by omega
  rw [Nat.mul_sub, Nat.sub_le_iff_le_add]
  generalize s * T - S * L = e at he ⊢
  generalize S * a - x * T = δ at hd ⊢
  have := Nat.mul_le_mul_left (S + x) he
  have := Nat.mul_le_mul_left s hd
  linarith

/-- The excess of the one who added it. -/
theorem excess_adder (hS : s + o = S) :
    S * ((s + x) * (T + a) - (S + x) * (L + a)) ≤ (S + x) * (s * T - S * L) + o * (x * T - S * a) := by
  have he : s * T ≤ s * T - S * L + S * L := by omega
  have hd : x * T ≤ x * T - S * a + S * a := by omega
  rw [Nat.mul_sub, Nat.sub_le_iff_le_add]
  generalize s * T - S * L = e at he ⊢
  generalize x * T - S * a = δ at hd ⊢
  subst hS
  have := Nat.mul_le_mul_left (s + o + x) he
  have := Nat.mul_le_mul_left o hd
  linarith

/-- What all the excess is after a touch, from what it was. -/
theorem excess_budget {e e' δ : ℕ} {R : ℚ} (hS : 0 < S) (h : S * e' ≤ S' * (e + δ + S * d))
    (he : (e : ℚ) ≤ S * R) :
    (e' : ℚ) ≤ S' * (δ / S + d + R) := by
  have hpos : (0 : ℚ) < S := by exact_mod_cast hS
  have hcast : (S : ℚ) * e' ≤ S' * (e + δ + S * d) := by exact_mod_cast h
  have hbound : (S' : ℚ) * (e + δ + S * d) ≤ S' * (S * R + δ + S * d) := by
    refine mul_le_mul_of_nonneg_left ?_ (Nat.cast_nonneg _)
    linarith
  refine le_of_mul_le_mul_left ?_ hpos
  calc (S : ℚ) * e' ≤ S' * (S * R + δ + S * d) := hcast.trans hbound
    _ = S * (S' * (δ / S + d + R)) := by
      field_simp
      ring

end Arithmetic

variable [DecidableEq A]

/-! ## Sums -/

namespace Books

variable {b : Books A W} {pid : ℕ} {u : A} {user user' : UserStakeInfo A} {f g : UserStakeInfo A → ℕ}

/-- The shares that the other stakers of a pool hold. -/
def otherShares (pid : ℕ) (u : A) (b : Books A W) : ℕ := b.othersSum pid u fun user => user.shares

theorem heldShares_split (hu : b.poolStakers.lookup (pid, u) = some user) :
    b.heldShares pid = b.otherShares pid u + user.shares := (othersSum_add hu).symm

/-- The sum after a record was written, weighed, from the others' and the written one. -/
theorem stakerSum_put_le {b' : Books A W} {c c' δ ε : ℕ} (hb : b'.poolStakers = b.poolStakers)
    (hu : b.poolStakers.lookup (pid, u) = some user) (hothers : ∀ user, c * g user ≤ c' * f user + user.shares * δ)
    (hself : c * g user' ≤ c' * f user + ε) :
    c * (b'.putStaker pid u user').stakerSum (fun k => k.1 = pid) g ≤
      c' * b.stakerSum (fun k => k.1 = pid) f + b.otherShares pid u * δ + ε := by
  have hother : (b'.putStaker pid u user').othersSum pid u g = b.othersSum pid u g :=
    (stakerSum_put_other fun h => h.2 rfl).trans (stakerSum_congr hb)
  have hle : c * b.othersSum pid u g ≤ c' * b.othersSum pid u f + δ * b.otherShares pid u := by
    unfold otherShares othersSum
    rw [← stakerSum_mul, ← stakerSum_mul, ← stakerSum_mul, ← stakerSum_add]
    refine stakerSum_le fun k user _ _ => ?_
    rw [Nat.mul_comm δ]
    exact hothers user
  rw [← othersSum_add (lookup_putStaker_self b' pid u user'), ← othersSum_add hu, hother]
  have := Nat.mul_comm δ (b.otherShares pid u)
  simp only [Nat.mul_add]
  omega

end Books

/-! ## At the desk -/

namespace Desk

/-- How much the stakers' shares are worth more than what they have locked, times the pool's shares. -/
def excess (d : Desk A W) : ℕ := d.books.stakerSum (fun k => k.1 = d.pool.pid) d.pool.excess

/-- The stakers' shares are worth at most `R` more, all told, than what they have locked. -/
structure Within (R : ℚ) (d : Desk A W) : Prop where
  excess : (d.excess : ℚ) ≤ d.pool.totalShares * R
  empty : d.pool.totalShares = 0 → (d.pool.totalStake : ℚ) ≤ R

theorem excess_of_no_shares {d : Desk A W} (h : d.SharesAgree) (h0 : d.pool.totalShares = 0) : d.excess = 0 := by
  have hle : d.excess ≤ d.pool.totalStake * d.books.heldShares d.pool.pid := by
    unfold excess Books.heldShares
    rw [← Books.stakerSum_mul]
    refine Books.stakerSum_le fun k user _ _ => ?_
    rw [Nat.mul_comm]
    exact Nat.sub_le _ _
  rw [← h, h0, Nat.mul_zero] at hle
  exact Nat.le_zero.mp hle

theorem excess_of_no_stake {d : Desk A W} (h0 : d.pool.totalStake = 0) : d.excess = 0 := by
  have hle : d.excess ≤ 0 * d.books.heldShares d.pool.pid := by
    unfold excess Books.heldShares PoolInfo.excess
    rw [← Books.stakerSum_mul, h0]
    refine Books.stakerSum_le fun k user _ _ => ?_
    rw [Nat.mul_zero, Nat.zero_mul]
    exact Nat.sub_le _ _
  rw [Nat.zero_mul] at hle
  exact Nat.le_zero.mp hle

namespace Within

variable {d : Desk A W} {u : A} {user user' : UserStakeInfo A} {b : Books A W} {R R' : ℚ}

omit [DecidableEq A] in
theorem mono (h : d.Within R) (hle : R ≤ R') : d.Within R' :=
  ⟨h.excess.trans (mul_le_mul_of_nonneg_left hle (Nat.cast_nonneg _)), fun h0 => (h.empty h0).trans hle⟩

omit [DecidableEq A] in
theorem nonneg (h : d.Within R) : 0 ≤ R := by
  rcases Nat.eq_zero_or_pos d.pool.totalShares with h0 | hpos
  · exact (Nat.cast_nonneg _).trans (h.empty h0)
  · have hle : (0 : ℚ) ≤ d.pool.totalShares * R := (Nat.cast_nonneg _).trans h.excess
    exact nonneg_of_mul_nonneg_right hle (by exact_mod_cast hpos)

/-- Each staker's share of it. -/
theorem staker (h : d.Within R) (hu : d.books.poolStakers.lookup (d.pool.pid, u) = some user) :
    (user.shares * d.pool.totalStake : ℚ) ≤ d.pool.totalShares * (user.locked + R) := by
  have hle : d.pool.excess user ≤ d.excess := Books.le_stakerSum hu rfl
  have hsub : user.shares * d.pool.totalStake ≤ d.pool.excess user + d.pool.totalShares * user.locked := by
    unfold PoolInfo.excess
    omega
  have hcast : (user.shares * d.pool.totalStake : ℚ) ≤ d.excess + d.pool.totalShares * user.locked := by
    exact_mod_cast hsub.trans (Nat.add_le_add_right hle _)
  have := h.excess
  linarith

/-- All stakers' together: the worth of the shares is the total. -/
theorem totalStake_le (h : d.Within R) (hagree : d.SharesAgree) :
    (d.pool.totalStake : ℚ) ≤ (d.books.stakerSum (fun k => k.1 = d.pool.pid) fun user => user.locked) + R := by
  rcases Nat.eq_zero_or_pos d.pool.totalShares with h0 | hpos
  · have := h.empty h0
    have hnonneg : (0 : ℚ) ≤ (d.books.stakerSum (fun k => k.1 = d.pool.pid) fun user => user.locked : ℕ) :=
      Nat.cast_nonneg _
    linarith
  have hsum : d.pool.totalStake * d.pool.totalShares ≤
      d.excess + d.pool.totalShares * d.books.stakerSum (fun k => k.1 = d.pool.pid) fun user => user.locked := by
    unfold Desk.excess
    rw [hagree, Books.heldShares, ← Books.stakerSum_mul, ← Books.stakerSum_mul, ← Books.stakerSum_add]
    refine Books.stakerSum_le fun k user _ _ => ?_
    rw [← Books.heldShares, ← hagree, Nat.mul_comm]
    unfold PoolInfo.excess
    omega
  have hshares : (0 : ℚ) < d.pool.totalShares := by exact_mod_cast hpos
  refine le_of_mul_le_mul_left ?_ hshares
  have hcast : (d.pool.totalStake * d.pool.totalShares : ℚ) ≤ d.excess +
      d.pool.totalShares * (d.books.stakerSum (fun k => k.1 = d.pool.pid) fun user => user.locked : ℕ) := by
    exact_mod_cast hsum
  have := h.excess
  linarith

/-- A record is written that has the same shares. -/
theorem put (h : d.Within R) (hagree : d.SharesAgree) (hu : d.books.poolStakers.lookup (d.pool.pid, u) = some user)
    (hb : b.poolStakers = d.books.poolStakers) (hs : user'.shares = user.shares) :
    Within ((d.pool.excess user' - d.pool.excess user : ℕ) / d.pool.totalShares + R)
      ⟨d.pool, b.putStaker d.pool.pid u user'⟩ := by
  have hle : R ≤ (d.pool.excess user' - d.pool.excess user : ℕ) / d.pool.totalShares + R := by
    have : (0 : ℚ) ≤ (d.pool.excess user' - d.pool.excess user : ℕ) / d.pool.totalShares := by positivity
    linarith
  refine ⟨?_, fun h0 => (h.empty h0).trans hle⟩
  rcases Nat.eq_zero_or_pos d.pool.totalShares with h0 | hpos
  · have hagree' : Desk.SharesAgree ⟨d.pool, b.putStaker d.pool.pid u user'⟩ :=
      hagree.trans ((Books.heldShares_put_same (hb.symm ▸ hu) hs).trans (Books.heldShares_congr hb)).symm
    rw [excess_of_no_shares hagree' h0]
    change ((0 : ℕ) : ℚ) ≤ (d.pool.totalShares : ℚ) * _
    rw [h0, Nat.cast_zero, zero_mul]
  · have hsum := Books.stakerSum_put (p := fun k => k.1 = d.pool.pid) (f := d.pool.excess) user' (hb.symm ▸ hu)
    rw [if_pos rfl, if_pos rfl, Books.stakerSum_congr hb] at hsum
    have hput : Desk.excess ⟨d.pool, b.putStaker d.pool.pid u user'⟩ ≤
        d.excess + (d.pool.excess user' - d.pool.excess user) + d.pool.totalShares * 0 := by
      unfold Desk.excess
      dsimp only
      omega
    have hbudget := excess_budget hpos (Nat.mul_le_mul_left d.pool.totalShares hput) h.excess
    rwa [Nat.cast_zero, add_zero] at hbudget

/-- Somebody new has nothing. -/
theorem join (h : d.Within R) (hn : d.books.poolStakers.lookup (d.pool.pid, u) = none) :
    Within R ⟨d.pool, d.books.putStaker d.pool.pid u ⟨u, 0, 0, 0, 0⟩⟩ := by
  refine ⟨?_, h.empty⟩
  have hnone : d.pool.excess ⟨u, 0, 0, 0, 0⟩ = 0 := by simp [PoolInfo.excess]
  have hsum := Books.stakerSum_put_new (p := fun k => k.1 = d.pool.pid) (f := d.pool.excess) ⟨u, 0, 0, 0, 0⟩ hn
  rw [if_pos rfl, hnone] at hsum
  have hsame : Desk.excess ⟨d.pool, d.books.putStaker d.pool.pid u ⟨u, 0, 0, 0, 0⟩⟩ = d.excess := hsum
  rw [hsame]
  exact h.excess

/-- A slash lowers what the shares are worth. -/
theorem slashed {returned slashed : ℕ} (h : d.Within R) :
    Within R ⟨d.pool.givenBack returned slashed, d.books⟩ := by
  have hle : (d.pool.givenBack returned slashed).totalStake ≤ d.pool.totalStake := by
    by_cases h0 : slashed = 0
    · rw [h0]
      exact le_rfl
    · rw [PoolInfo.givenBack_totalStake h0]
      exact (extractDust_fst_le _).trans (Nat.sub_le _ _)
  have hexcess : Desk.excess ⟨d.pool.givenBack returned slashed, d.books⟩ ≤ d.excess :=
    Books.stakerSum_le fun k user _ _ => Nat.sub_le_sub_right (Nat.mul_le_mul_left _ hle) _
  refine ⟨le_trans ?_ h.excess, fun h0 => le_trans ?_ (h.empty h0)⟩
  · exact_mod_cast hexcess
  · exact_mod_cast hle

end Within

end Desk

omit [DecidableEq A] in
/-- A payment for shares that the pool has is part of its stake. -/
theorem PoolInfo.removable_le_totalStake {pool : PoolInfo A W} {user : UserStakeInfo A} {shares : ℕ}
    {price : FixedPoint} (hsmall : pool.totalShares < 2 ^ 64) (hprice : pool.sharePrice = some price)
    (hle : shares ≤ pool.totalShares) :
    pool.removable user shares price ≤ pool.totalStake := by
  have hworth : pool.removable user shares price ≤ bmul shares price := (min_le_left _ _).trans (min_le_left _ _)
  refine hworth.trans ?_
  rcases Nat.lt_or_ge pool.totalStake (2 ^ 64) with hstake | hgreat
  · obtain ⟨product, hvalued⟩ := valued hstake hsmall hprice hle
    exact (priced hstake hsmall hprice).worth_le_stake hvalued hle
  · exact (fromFixed_lt _).le.trans hgreat

namespace PoolInfo

variable {pool pool' : PoolInfo A W} {user user' : UserStakeInfo A} {shares amount dust o : ℕ}

/-- The shares that a removal takes and drops. -/
def gone (user : UserStakeInfo A) (shares : ℕ) : ℕ := shares + (extractDust (user.shares - shares)).2

/-- The locked dust that a removal drops from what stays behind shares. -/
def droppedDust (user : UserStakeInfo A) (shares amount : ℕ) : ℕ :=
  if (extractDust (user.shares - shares)).1 = 0 then 0 else (extractDust (user.locked - amount)).2

omit [DecidableEq A] in
theorem Removed.shares_add_gone (hr : pool.Removed user shares pool' user' amount dust) :
    user'.shares + gone user shares = user.shares ∧ pool'.totalShares + gone user shares = pool.totalShares := by
  have hle := hr.shares_le
  have htotal := hr.total_le
  have hdust := extractDust_add (user.shares - shares)
  obtain ⟨rest, _, hpool⟩ := hr.pool_eq
  rw [hr.user_eq, hpool]
  change (extractDust (user.shares - shares)).1 + _ = _ ∧
    pool.totalShares - (shares + (extractDust (user.shares - shares)).2) + _ = _
  unfold gone
  omega

omit [DecidableEq A] in
/-- The excess of the one that is paid, where `o` shares are others'. -/
theorem Removed.excess_le (hr : pool.Removed user shares pool' user' amount dust)
    (hstake : pool'.totalStake + amount = pool.totalStake) (ho : pool.totalShares = o + user.shares) :
    pool.totalShares * pool'.excess user' ≤ pool'.totalShares * pool.excess user +
      (o * (pool.totalShares * amount - gone user shares * pool.totalStake) +
        pool.totalShares * (pool'.totalShares * droppedDust user shares amount)) := by
  obtain ⟨huser, hpool⟩ := hr.shares_add_gone
  by_cases hnone : user'.shares = 0
  · have hzero : pool'.excess user' = 0 := by
      unfold excess
      rw [hnone, Nat.zero_mul, Nat.zero_sub]
    rw [hzero, Nat.mul_zero]
    exact Nat.zero_le _
  · have hkept : user'.shares = (extractDust (user.shares - shares)).1 := by rw [hr.user_eq]; rfl
    have hlocked : user'.locked + droppedDust user shares amount + amount = user.locked := by
      obtain ⟨price, _, hamount⟩ := hr.amount_eq
      have hle : amount ≤ user.locked := hamount ▸ removable_le_locked
      have := extractDust_add (user.locked - amount)
      have hleft : user'.locked = (extractDust (user.locked - amount)).1 := by rw [hr.user_eq]; rfl
      unfold droppedDust
      rw [if_neg (hkept ▸ hnone)]
      omega
    have h := excess_remover (L := user'.locked) (d := droppedDust user shares amount) hstake
      (show user'.shares + gone user shares + o = pool.totalShares by omega)
    rw [show user'.shares + o = pool'.totalShares by omega, huser, hlocked] at h
    unfold excess
    omega

end PoolInfo

namespace Desk.Within

variable {d : Desk A W} {u : A} {user user' : UserStakeInfo A} {b : Books A W} {R : ℚ}

/-- A removal lifts the price by what it leaves behind. -/
theorem remove {pool' : PoolInfo A W} {shares amount dust : ℕ} (h : d.Within R) (hagree : d.SharesAgree)
    (hu : d.books.poolStakers.lookup (d.pool.pid, u) = some user)
    (hr : d.pool.Removed user shares pool' user' amount dust) (hb : b.poolStakers = d.books.poolStakers)
    (hsmall : d.pool.totalShares < 2 ^ 64) :
    Within (d.pool.leftBehind user shares amount + R) ⟨pool', b.putStaker d.pool.pid u user'⟩ := by
  obtain ⟨price, hprice, hamount⟩ := hr.amount_eq
  have hsplit : d.pool.totalShares = d.books.otherShares d.pool.pid u + user.shares :=
    hagree.trans (Books.heldShares_split hu)
  have hpaid : amount ≤ d.pool.totalStake := by
    rw [hamount]
    exact PoolInfo.removable_le_totalStake hsmall hprice (hr.shares_le.trans (by omega))
  obtain ⟨rest, hrest, hpool⟩ := hr.pool_eq
  rw [hrest hpaid] at hpool
  have hR := h.nonneg
  rcases extractDust_fst_cases (d.pool.totalStake - amount) with ⟨hzero, hdust⟩ | ⟨hall, hmore⟩
  · -- nothing is left of the stake
    have hstake : pool'.totalStake = 0 := by rw [hpool, hzero]; rfl
    have hnone : d.pool.leftBehind user shares amount = 0 := if_pos hdust
    rw [hnone, zero_add]
    refine ⟨?_, fun _ => ?_⟩
    · rw [excess_of_no_stake hstake, Nat.cast_zero]
      exact mul_nonneg (Nat.cast_nonneg _) hR
    · change (pool'.totalStake : ℚ) ≤ R
      rwa [hstake, Nat.cast_zero]
  · have hstake : pool'.totalStake + amount = d.pool.totalStake := by
      have : pool'.totalStake = d.pool.totalStake - amount := by
        rw [hpool, hall]
        exact if_pos (by omega)
      omega
    obtain ⟨huser, hshares⟩ := hr.shares_add_gone
    have hself := hr.excess_le hstake hsplit
    have hpos : 0 < d.pool.totalShares := Nat.pos_of_ne_zero fun h0 => by
      rw [PoolInfo.sharePrice_of_no_shares h0] at hprice
      cases hprice
    have hbehind : d.pool.leftBehind user shares amount =
        Nat.dist (PoolInfo.gone user shares * d.pool.totalStake)
        (d.pool.totalShares * amount) / d.pool.totalShares +
          PoolInfo.droppedDust user shares amount := if_neg (by omega)
    generalize PoolInfo.gone user shares = gone at huser hshares hself hbehind
    generalize PoolInfo.droppedDust user shares amount = dropped at hself hbehind
    -- the others, and the one that is paid
    have hexcess : d.pool.totalShares * Desk.excess ⟨pool', b.putStaker d.pool.pid u user'⟩ ≤
        pool'.totalShares * (d.excess + Nat.dist (gone * d.pool.totalStake) (d.pool.totalShares * amount) +
          d.pool.totalShares * dropped) := by
      have hpid : pool'.pid = d.pool.pid := hr.unchanged.1
      have hsum := Books.stakerSum_put_le hb hu
        (fun user => excess_removed (s := user.shares) (L := user.locked) hstake hshares) hself
      have hothers : d.books.otherShares d.pool.pid u ≤ pool'.totalShares := by omega
      have := Nat.mul_le_mul_right (gone * d.pool.totalStake - d.pool.totalShares * amount) hothers
      have := Nat.mul_le_mul_right (d.pool.totalShares * amount - gone * d.pool.totalStake) hothers
      unfold Desk.excess Nat.dist
      dsimp only
      rw [hpid]
      unfold PoolInfo.excess at hsum ⊢
      linarith
    have hbudget := excess_budget hpos hexcess h.excess
    rw [hbehind]
    refine ⟨hbudget, fun h0 => ?_⟩
    -- then all the shares are gone
    have hall : gone = d.pool.totalShares := by
      change pool'.totalShares = 0 at h0
      omega
    have hdist : pool'.totalStake * d.pool.totalShares ≤
        Nat.dist (gone * d.pool.totalStake) (d.pool.totalShares * amount) := by
      rw [hall, ← hstake, Nat.mul_add, Nat.mul_comm]
      unfold Nat.dist
      omega
    have hle : (pool'.totalStake : ℚ) ≤
        Nat.dist (gone * d.pool.totalStake) (d.pool.totalShares * amount) / d.pool.totalShares := by
      rw [le_div_iff₀ (by exact_mod_cast hpos)]
      exact_mod_cast hdist
    have hdropped : (0 : ℚ) ≤ dropped := Nat.cast_nonneg _
    change (pool'.totalStake : ℚ) ≤ _
    linarith

/-- A contribution lifts the price, or lowers it, by what its shares are not worth. -/
theorem contributed {pool : PoolInfo A W} {amount : ℕ} {balances : Balances A}
    (h : Within R ⟨pool, b.putStaker pool.pid u user⟩) (hagree : SharesAgree ⟨pool, b.putStaker pool.pid u user⟩) :
    Within (Touch.leftover ⟨.add amount, pool, user, balances⟩ + R) (Desk.contributed pool b u user amount) := by
  have hR := h.nonneg
  have hu := Books.lookup_putStaker_self b pool.pid u user
  have hsplit : pool.totalShares = (b.putStaker pool.pid u user).otherShares pool.pid u + user.shares :=
    hagree.trans (Books.heldShares_split hu)
  have hput : Desk.excess (Desk.contributed pool b u user amount) =
      ((b.putStaker pool.pid u user).putStaker pool.pid u (pool.addedStaker user amount)).stakerSum
        (fun k => k.1 = pool.pid) (pool.added amount).excess := by
    rw [Books.putStaker_putStaker]
    exact Books.stakerSum_congr rfl
  have hleft : Touch.leftover ⟨.add amount, pool, user, balances⟩ =
      Nat.dist (pool.totalShares * amount) (pool.sharesFor amount * pool.totalStake) / pool.totalShares := rfl
  have hsame : ∀ user' : UserStakeInfo A, (pool.added amount).excess user' =
    user'.shares * (pool.totalStake + amount) - (pool.totalShares + pool.sharesFor amount) * user'.locked :=
  fun _ => rfl
  have hadded : (pool.added amount).excess (pool.addedStaker user amount) =
    (user.shares + pool.sharesFor amount) * (pool.totalStake + amount) -
      (pool.totalShares + pool.sharesFor amount) * (user.locked + amount) := rfl
  rw [hleft]
  rcases Nat.eq_zero_or_pos pool.totalShares with h0 | hpos
  · -- the first shares
    have hmint : pool.sharesFor amount = amount := by
      unfold PoolInfo.sharesFor
      rw [PoolInfo.sharePrice_of_no_shares h0]
    have hstake : (pool.totalStake : ℚ) ≤ R := h.empty h0
    have hself : 1 * (pool.added amount).excess (pool.addedStaker user amount) ≤
        0 * pool.excess user + amount * pool.totalStake := by
      rw [hadded, hmint, h0, show user.shares = 0 by omega, Nat.zero_add, Nat.mul_add, Nat.mul_add]
      omega
    have hsum := Books.stakerSum_put_le (f := pool.excess) (g := (pool.added amount).excess) rfl hu
      (δ := pool.totalStake + amount) (fun user => by rw [hsame]; omega) hself
    rw [← hput, show (b.putStaker pool.pid u user).otherShares pool.pid u = 0 by omega] at hsum
    have hexcess : Desk.excess (Desk.contributed pool b u user amount) ≤ amount * pool.totalStake := by omega
    have hcast : (Desk.excess (Desk.contributed pool b u user amount) : ℚ) ≤ amount * pool.totalStake := by
      exact_mod_cast hexcess
    rw [h0, Nat.cast_zero, div_zero, zero_add]
    refine ⟨hcast.trans ?_, fun hnone => ?_⟩
    · change (amount * pool.totalStake : ℚ) ≤ (pool.totalShares + pool.sharesFor amount : ℕ) * R
      rw [hmint, h0, Nat.zero_add]
      exact mul_le_mul_of_nonneg_left hstake (Nat.cast_nonneg _)
    · change pool.totalShares + pool.sharesFor amount = 0 at hnone
      change ((pool.totalStake + amount : ℕ) : ℚ) ≤ R
      rw [show amount = 0 by omega, Nat.add_zero]
      exact hstake
  · have hexcess : pool.totalShares * Desk.excess (Desk.contributed pool b u user amount) ≤
        (pool.totalShares + pool.sharesFor amount) * (Desk.excess ⟨pool, b.putStaker pool.pid u user⟩ +
          Nat.dist (pool.totalShares * amount) (pool.sharesFor amount * pool.totalStake) +
          pool.totalShares * 0) := by
      have hself := excess_adder (x := pool.sharesFor amount) (T := pool.totalStake)
        (a := amount) (L := user.locked)
        (show user.shares + (b.putStaker pool.pid u user).otherShares pool.pid u = pool.totalShares by omega)
      rw [← hadded] at hself
      have hsum := Books.stakerSum_put_le (f := pool.excess) (g := (pool.added amount).excess) rfl hu
        (fun user => excess_added (s := user.shares) (L := user.locked)) hself
      rw [← hput] at hsum
      have hothers : (b.putStaker pool.pid u user).otherShares pool.pid u ≤
          pool.totalShares + pool.sharesFor amount := by
        omega
      have := Nat.mul_le_mul_right (pool.totalShares * amount - pool.sharesFor amount * pool.totalStake) hothers
      have := Nat.mul_le_mul_right (pool.sharesFor amount * pool.totalStake - pool.totalShares * amount) hothers
      have hall : Desk.excess ⟨pool, b.putStaker pool.pid u user⟩ =
        (b.putStaker pool.pid u user).stakerSum (fun k => k.1 = pool.pid) pool.excess := rfl
      rw [hall]
      unfold Nat.dist
      linarith
    have hbudget := excess_budget hpos hexcess h.excess
    rw [Nat.cast_zero, add_zero] at hbudget
    refine ⟨hbudget, fun h0 => ?_⟩
    change pool.totalShares + pool.sharesFor amount = 0 at h0
    omega

end Desk.Within

namespace Desk

/-- The pool had fewer than `2^64` shares at each touch. -/
def SharesFit (pid : ℕ) (history : List (Touch A W)) : Prop :=
  ∀ t ∈ history, t.pool.pid = pid → t.pool.totalShares < 2 ^ 64

/-- The shares agree, and the stakers have what their shares are worth but for what was left behind. -/
def Accounted (d : Desk A W) : Prop :=
  d.SharesAgree ∧ (SharesFit d.pool.pid d.books.history → d.Within (leftovers d.pool.pid d.books.history))

namespace Accounted

variable [DecidableEq W] {d d' : Desk A W} {cfg : Config A W}

omit [DecidableEq W] in
theorem move (h : d.Accounted) (hm : Move cfg d d') : d'.Accounted := by
  obtain ⟨hagree, hwithin⟩ := h
  refine ⟨hm.sharesAgree hagree, fun hfit => ?_⟩
  have h := hwithin fun t ht hpid => hfit t (hm.history.subset ht) (hpid.trans hm.pid_eq.symm)
  rw [hm.pid_eq] at hfit ⊢
  cases hm with
  | join hn => exact h.join hn
  | @reward u user user' hu hs =>
    obtain ⟨availableRewards, rewardDebt, rfl⟩ := hs
    have hput : Desk.Within ((d.pool.excess { user with availableRewards, rewardDebt } - d.pool.excess user : ℕ) /
        d.pool.totalShares + _)
        ⟨d.pool, d.books.putStaker d.pool.pid u { user with availableRewards, rewardDebt }⟩ :=
      h.put hagree hu rfl rfl
    have hsame : d.pool.excess { user with availableRewards, rewardDebt } - d.pool.excess user = 0 :=
      Nat.sub_self _
    rwa [hsame, Nat.cast_zero, zero_div, zero_add] at hput
  | @settle u user hu =>
    have hhistory : ((d.books.settled cfg d.pool user).putStaker d.pool.pid u
        { user with locked := d.pool.settledLocked user }).history = _ := Books.history_settled
    change Within (leftovers d.pool.pid (Books.history _)) _
    rw [hhistory, leftovers_cons]
    exact h.put hagree hu Books.settled_poolStakers rfl
  | @remove u user shares pool' user' amount dust hu hr =>
    have hhistory :
        (((d.books.touch (.remove shares) d.pool user).reduced cfg user.user amount dust).putStaker d.pool.pid
        u user').history = _ := Books.history_reduced
    change Within (leftovers d.pool.pid (Books.history _)) _
    have hsmall := hfit _ (by rw [hhistory]; exact List.mem_cons_self) rfl
    obtain ⟨price, hprice, hamount⟩ := hr.amount_eq
    have hleft : Touch.leftover ⟨.remove shares, d.pool, user, d.books.balances⟩ =
        d.pool.leftBehind user shares amount := by
      simp only [Touch.leftover, hprice, Option.elim_some, hamount]
    rw [hhistory]
    change Within (leftovers d.pool.pid (⟨.remove shares, d.pool, user, d.books.balances⟩ :: d.books.history)) _
    rw [leftovers_cons, hleft]
    exact h.remove hagree hu hr Books.reduced_poolStakers hsmall
  | queue => exact ⟨h.excess, h.empty⟩

omit [DecidableEq W] in
theorem moves (h : d.Accounted) (hm : Moves cfg d d') : d'.Accounted := by
  induction hm with
  | refl => exact h
  | tail _ hm ih => exact ih.move hm

omit [DecidableEq W] in
theorem alike (h : d.Accounted) (ha : d.Alike d') : d'.Accounted := by
  obtain ⟨hagree, hwithin⟩ := h
  refine ⟨hagree.alike ha, fun hfit => ?_⟩
  have h := hwithin fun t ht hpid => hfit t (ha.history.subset ht) (hpid.trans ha.pid.symm)
  have hexcess : d'.excess = d.excess := by
    unfold Desk.excess PoolInfo.excess
    rw [ha.pid, ha.totalShares, ha.totalStake]
    refine Books.stakerSum_of_lookup fun k hk => ?_
    obtain ⟨pid, u⟩ := k
    change pid = d.pool.pid at hk
    subst hk
    exact ha.stakers u
  refine Within.mono (R := leftovers d.pool.pid d.books.history) ⟨?_, fun h0 => ?_⟩ ?_
  · rw [hexcess, ha.totalShares]
    exact h.excess
  · rw [ha.totalStake]
    exact h.empty (ha.totalShares.symm.trans h0)
  · rw [ha.pid]
    exact leftovers_mono ha.history

omit [DecidableEq W] in
theorem contribute {who : A} {books : Books A W} {user : UserStakeInfo A} {amount : ℕ} (h : d.Accounted)
    (hprep : Prepared cfg d who books user) : (Desk.contributed d.pool books who user amount).Accounted := by
  refine ⟨hprep.sharesAgree h.1 amount, fun hfit => ?_⟩
  obtain ⟨hagree, hwithin⟩ := h.moves hprep.moves
  have h := hwithin fun t ht hpid => hfit t (List.mem_cons_of_mem _ ht) hpid
  change Within (leftovers d.pool.pid (⟨.add amount, d.pool, user, books.balances⟩ :: books.history)) _
  rw [leftovers_cons]
  exact h.contributed hagree

end Accounted

theorem accounted_invariant [DecidableEq W] {cfg : Config A W} : Invariant cfg Accounted where
  new d hshares hstake hnone := by
    have hagree : d.SharesAgree := hshares.trans (Books.heldShares_eq_zero hnone).symm
    refine ⟨hagree, fun _ => ⟨?_, fun _ => ?_⟩⟩
    · rw [excess_of_no_shares hagree hshares, hshares, Nat.cast_zero, zero_mul]
    · rw [hstake, Nat.cast_zero]
      exact leftovers_nonneg
  alike hd ha := hd.alike ha
  move _ _ hm hd := hd.move hm
  contribute _ _ _ _ _ hprep hd := hd.contribute hprep
  slash _ _ _ hd := ⟨hd.1, fun hfit => (hd.2 hfit).slashed⟩

end Desk

/-! ## In the state -/

namespace Books

/-- What the stakers of a pool have locked. -/
def lockedIn (pid : ℕ) (b : Books A W) : ℕ := b.stakerSum (fun k => k.1 = pid) fun user => user.locked

/-- How many records of stakers a pool has. -/
def stakerCount (pid : ℕ) (b : Books A W) : ℕ := b.stakerSum (fun k => k.1 = pid) fun _ => 1

end Books

variable [DecidableEq W] {cfg : Config A W} {s : State A W}

/-- **The stake of a pool is backed by what its stakers have locked**, in every
reachable state, but for what contributions, withdrawals and settlements have
left behind in the pool: so up to 1000 planck a staker while that is no more. -/
theorem totalStake_le_lockedIn (h : Reachable cfg s) {pid : ℕ} {pool : PoolInfo A W}
    (hpool : s.stakePools.lookup pid = some pool)
    (hfit : ∀ t ∈ s.books.history, t.pool.pid = pid → t.pool.totalShares < 2 ^ 64) :
    (pool.totalStake : ℚ) ≤ s.books.lockedIn pid + leftovers pid s.books.history ∧
    (leftovers pid s.books.history ≤ 1000 * s.books.stakerCount pid →
      pool.totalStake ≤ s.books.lockedIn pid + 1000 * s.books.stakerCount pid) := by
  obtain ⟨rfl, _⟩ := h.sound.filed.pool _ _ hpool
  obtain ⟨hagree, hwithin⟩ := h.desk_invariant Desk.accounted_invariant _ _ hpool
  have hle : (pool.totalStake : ℚ) ≤ s.books.lockedIn pool.pid + leftovers pool.pid s.books.history :=
    (hwithin hfit).totalStake_le hagree
  refine ⟨hle, fun hfew => ?_⟩
  have : (pool.totalStake : ℚ) ≤ s.books.lockedIn pool.pid + 1000 * s.books.stakerCount pool.pid := by linarith
  exact_mod_cast this

/-- Two stakers, of whose stake a miner loses half of a third, a withdrawal of some of the shares of the first and
another contribution: each touch leaves a little behind. -/
theorem totalStake_le_lockedIn_demo : ∃ s pool, Reachable Demo.release s ∧ s.stakePools.lookup 0 = some pool ∧
    0 < leftovers 0 s.books.history ∧ pool.totalStake ≤ s.books.lockedIn 0 + 1000 * s.books.stakerCount 0 := by
  obtain ⟨s, hrun, hfit, hleft, hfew, hstake⟩ := ranTo_iff.mp (by decide +kernel :
    ranTo (run Demo.release 9 Demo.genesis (Demo.setup ++ [.contribute (.user 1) 0 1000000000000,
      .contribute (.user 2) 0 1000000000000, .startMining (.user 0) 0 0 666666666667,
      .gkMessage ⟨[], [], [⟨0, 0, 0, 0⟩]⟩, .stopMining (.user 0) 0 0, .time 10000, .reclaimPoolWorker 0 0,
      .withdraw (.user 1) 0 500000000000, .contribute (.user 1) 0 700000000000]))
      (fun s => (∀ t ∈ s.books.history, t.pool.pid = 0 → t.pool.totalShares < 2 ^ 64) ∧
        0 < leftovers 0 s.books.history ∧ leftovers 0 s.books.history ≤ 1000 * s.books.stakerCount 0 ∧
        (s.stakePools.lookup 0).isSome = true) = true)
  obtain ⟨pool, hpool⟩ := Option.isSome_iff_exists.mp hstake
  refine ⟨s, pool, Demo.run_genesis hrun, hpool, hleft, ?_⟩
  exact (totalStake_le_lockedIn (Demo.run_genesis hrun) hpool hfit).2 hfew

/-- The first staker keeps 1001 shares. Three times the second contributes and
withdraws all but 1000 shares, which are dropped: their worth stays in the
pool's total, which has 3004 more than the two have locked. -/
theorem lockedIn_lt_totalStake : ∃ s pool, Reachable Demo.release s ∧ s.stakePools.lookup 0 = some pool ∧
    s.books.stakerCount 0 = 2 ∧ s.books.lockedIn 0 + 1000 * s.books.stakerCount 0 < pool.totalStake := by
  obtain ⟨s, hrun, hcount, hlocked, hstake⟩ := ranTo_iff.mp (by decide +kernel :
    ranTo (run Demo.release 9 Demo.genesis (Demo.setup ++ [.contribute (.user 1) 0 10000000000,
      .withdraw (.user 1) 0 9999998999, .contribute (.user 2) 0 10000000000, .withdraw (.user 2) 0 9990018960,
      .contribute (.user 2) 0 10000000000, .withdraw (.user 2) 0 4997502744,
      .contribute (.user 2) 0 10000000000, .withdraw (.user 2) 0 2499998999]))
      (fun s => s.books.stakerCount 0 = 2 ∧ s.books.lockedIn 0 = 5001 ∧
        (s.stakePools.lookup 0).map PoolInfo.totalStake = some 8005) = true)
  obtain ⟨pool, hpool, hstake⟩ := Option.map_eq_some_iff.mp hstake
  refine ⟨s, pool, Demo.run_genesis hrun, hpool, hcount, ?_⟩
  rw [hcount, hlocked, hstake]
  decide

end Khala
