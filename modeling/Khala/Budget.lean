/-
How the free and the releasing stake go on covering the requests that wait.

A payment takes from the budget what it takes from the stake, and with it the
shares that are paid and the rest of the staker's where it is dust. So a budget
that is the part of the stake of all the shares that go, the dust with them,
stays so until they are gone, but for the rounding of the price.
-/
import Khala.Expiry
import Khala.Queues

namespace Khala

open Outcome

variable {A W : Type} {cfg : Config A W}

/-! ## Requests past the grace period -/

/-- The requests that are older than the grace period. -/
def overdueRequests (now gracePeriod : ℕ) (q : List (WithdrawInfo A)) : List (WithdrawInfo A) :=
  q.filter fun w => gracePeriod < now - w.startTime

/-- What the requests are worth. -/
def requestsWorth (price : FixedPoint) (q : List (WithdrawInfo A)) : ℕ :=
  (q.map fun w => bmul w.shares price).sum

section

variable {now gracePeriod budget : ℕ} {price : FixedPoint} {w : WithdrawInfo A} {q q' rest : List (WithdrawInfo A)}

theorem overdueRequests_cons_of (h : gracePeriod < now - w.startTime) :
    overdueRequests now gracePeriod (w :: rest) = w :: overdueRequests now gracePeriod rest :=
  List.filter_cons_of_pos (decide_eq_true h)

theorem overdueRequests_cons_of_not (h : ¬gracePeriod < now - w.startTime) :
    overdueRequests now gracePeriod (w :: rest) = overdueRequests now gracePeriod rest :=
  List.filter_cons_of_neg (by simpa using h)

/-- Where the first request is not overdue, none is: the others are younger. -/
theorem overdueRequests_eq_nil (h : ¬gracePeriod < now - w.startTime)
    (hold : ∀ w' ∈ rest, w.startTime ≤ w'.startTime) :
    overdueRequests now gracePeriod (w :: rest) = [] := by
  refine List.filter_eq_nil_iff.mpr fun w' hw' => ?_
  rw [decide_eq_true_iff]
  rcases List.mem_cons.mp hw' with rfl | hw'
  · exact h
  · have := hold w' hw'
    omega

/-- A request that is paid in part is as old as before. -/
theorem overdueRequests_servedQueue {shares : ℕ} :
    overdueRequests now gracePeriod (Desk.servedQueue w shares (w :: rest)) =
      if gracePeriod < now - w.startTime then Desk.servedQueue w shares (w :: overdueRequests now gracePeriod rest)
      else overdueRequests now gracePeriod rest := by
  unfold Desk.servedQueue
  dsimp only [List.tail_cons]
  split
  · next hzero =>
    split <;> rfl
  · next hne =>
    let left : WithdrawInfo A := { w with shares := (extractDust (w.shares - shares)).1 }
    change overdueRequests now gracePeriod (left :: rest) = _
    split
    · next hage => exact overdueRequests_cons_of (w := left) hage
    · next hage => exact overdueRequests_cons_of_not (w := left) hage

theorem requestsWorth_cons : requestsWorth price (w :: rest) =
    bmul w.shares price + requestsWorth price rest := rfl

theorem requestsWorth_sublist (h : q'.Sublist q) : requestsWorth price q' ≤ requestsWorth price q :=
  (h.map _).sum_le_sum fun _ _ => Nat.zero_le _

/-- A request of an ordered queue has expired where the budget does not cover those that are overdue. -/
theorem PoolInfo.expired_iff_worth (h : q.Pairwise fun request later => request.startTime ≤ later.startTime) :
    PoolInfo.Expired now gracePeriod price budget q ↔
      budget < requestsWorth price (overdueRequests now gracePeriod q) := by
  induction q generalizing budget with
  | nil =>
    refine iff_of_false ?_ (Nat.not_lt_zero _)
    rintro ⟨i, request, hi, -⟩
    cases hi
  | cons request q ih =>
    obtain ⟨hold, h⟩ := List.pairwise_cons.mp h
    by_cases hage : gracePeriod < now - request.startTime
    · rw [overdueRequests_cons_of hage, requestsWorth_cons]
      rcases Nat.lt_or_ge budget (bmul request.shares price) with hlt | hle
      · exact iff_of_true ((expired_cons_of_lt hlt hold).mpr hage) (by omega)
      · rw [expired_cons_of_le hle, ih h]
        omega
    · have hnone := overdueRequests_eq_nil hage hold
      rw [hnone]
      refine iff_of_false ?_ (Nat.not_lt_zero _)
      rcases Nat.lt_or_ge budget (bmul request.shares price) with hlt | hle
      · exact fun he => hage ((expired_cons_of_lt hlt hold).mp he)
      · rw [expired_cons_of_le hle, ih h, ← overdueRequests_cons_of_not hage, hnone]
        exact Nat.not_lt_zero _

end

/-! ## A budget and the shares that go -/

theorem bits_toFixed_mono {x y : ℕ} (hle : x ≤ y) (hlt : y < 2 ^ 64) : (toFixed x).bits ≤ (toFixed y).bits := by
  rw [bits_toFixed_of_lt (hle.trans_lt hlt), bits_toFixed_of_lt hlt]
  exact Nat.div_le_div_right (Nat.mul_le_mul_left _ hle)

namespace PoolInfo

variable {pool pool' : PoolInfo A W} {user user' : UserStakeInfo A} {price : FixedPoint}
  {b k n leaving leaving' shares amount dust : ℕ}

/-- The free and the releasing stake are no less than the part of the stake of the shares that go, which leave
shares that are not worth more than `2^64 / 10^12` planck each to that budget. -/
structure Backs (pool : PoolInfo A W) (leaving : ℕ) : Prop where
  budget : leaving * pool.totalStake ≤ (pool.freeStake + pool.releasingStake) * pool.totalShares
  stays : pool.freeStake + pool.releasingStake + 1 < (toFixed (pool.totalShares - leaving)).bits
  fits : pool.totalShares < 2 ^ 64

instance (pool : PoolInfo A W) (leaving : ℕ) : Decidable (pool.Backs leaving) :=
  decidable_of_iff (leaving * pool.totalStake ≤ (pool.freeStake + pool.releasingStake) * pool.totalShares ∧
      pool.freeStake + pool.releasingStake + 1 < (toFixed (pool.totalShares - leaving)).bits ∧
      pool.totalShares < 2 ^ 64)
    ⟨fun h => ⟨h.1, h.2.1, h.2.2⟩, fun h => ⟨h.budget, h.stays, h.fits⟩⟩

/-- The same while requests are paid: the budget was `b` at first, and `k + 1` are bits of the shares that stay. -/
structure Backing (b k : ℕ) (pool : PoolInfo A W) (leaving : ℕ) : Prop where
  budget : leaving * pool.totalStake * (k + 1) ≤
    (b + (pool.freeStake + pool.releasingStake) * k) * pool.totalShares
  leaving_le : leaving ≤ pool.totalShares
  stays : k + 1 ≤ (toFixed (pool.totalShares - leaving)).bits
  fits : pool.totalShares < 2 ^ 64

theorem Backs.backing (h : pool.Backs leaving) :
    ∃ b k, b < k ∧ pool.Backing b k leaving := by
  obtain ⟨hbudget, hstays, hfits⟩ := h
  obtain ⟨k, hk⟩ : ∃ k, (toFixed (pool.totalShares - leaving)).bits = k + 1 :=
    Nat.exists_eq_succ_of_ne_zero (by omega)
  refine ⟨pool.freeStake + pool.releasingStake, k, by omega, ?_, ?_, hk.ge, hfits⟩
  · calc leaving * pool.totalStake * (k + 1)
        ≤ (pool.freeStake + pool.releasingStake) * pool.totalShares * (k + 1) := Nat.mul_le_mul_right _ hbudget
      _ = (pool.freeStake + pool.releasingStake + (pool.freeStake + pool.releasingStake) * k) *
        pool.totalShares := by ring
  · by_contra hlt
    rw [Nat.sub_eq_zero_of_le (Nat.le_of_not_le hlt), toFixed_zero, U64F64.bits_zero] at hk
    omega

theorem Backing.mono (h : pool.Backing b k leaving) (hle : leaving' ≤ leaving) : pool.Backing b k leaving' := by
  refine ⟨?_, hle.trans h.leaving_le, h.stays.trans ?_, h.fits⟩
  · exact (Nat.mul_le_mul_right _ (Nat.mul_le_mul_right _ hle)).trans h.budget
  · exact bits_toFixed_mono (Nat.sub_le_sub_left hle _) ((Nat.sub_le _ _).trans_lt h.fits)

theorem Backing.bits_le (h : pool.Backing b k leaving) : k + 1 ≤ (toFixed pool.totalShares).bits :=
  (h.mono (Nat.zero_le _)).stays

/-- Shares are worth no more than their part, in bits, of the stake; a stake that does not fit the format is
priced too low. -/
theorem bmul_mul_bits_le (hprice : pool.sharePrice = some price) :
    bmul shares price * (toFixed pool.totalShares).bits ≤ (toFixed shares).bits * pool.totalStake := by
  obtain ⟨-, hbits⟩ := sharePrice_eq_some.mp hprice
  have hstake : 10 ^ 12 * (toFixed pool.totalStake).bits ≤ 2 ^ 64 * pool.totalStake := by
    rw [bits_toFixed]
    exact (Nat.mul_div_le _ _).trans (Nat.mul_le_mul_left _ (Nat.mod_le _ _))
  have hworth : 2 ^ 64 * (2 ^ 64 * bmul shares price) ≤ 10 ^ 12 * ((toFixed shares).bits * price.bits) := by
    have hmul : (toFixed shares * price).bits ≤ (toFixed shares).bits * price.bits / 2 ^ 64 := by
      rw [U64F64.bits_mul]
      exact Nat.mod_le _ _
    have hfrom := fromFixed_le (toFixed shares * price)
    change 2 ^ 64 * (2 ^ 64 * fromFixed (toFixed shares * price)) ≤ _
    omega
  have hpriceLe : price.bits * (toFixed pool.totalShares).bits ≤ 2 ^ 64 * (toFixed pool.totalStake).bits := by
    rw [hbits]
    exact Nat.div_mul_le_self _ _
  refine Nat.le_of_mul_le_mul_left (c := 2 ^ 64 * 2 ^ 64) ?_ (by norm_num)
  calc 2 ^ 64 * 2 ^ 64 * (bmul shares price * (toFixed pool.totalShares).bits)
      = 2 ^ 64 * (2 ^ 64 * bmul shares price) * (toFixed pool.totalShares).bits := by ring
    _ ≤ 10 ^ 12 * ((toFixed shares).bits * price.bits) * (toFixed pool.totalShares).bits :=
      Nat.mul_le_mul_right _ hworth
    _ = 10 ^ 12 * (toFixed shares).bits * (price.bits * (toFixed pool.totalShares).bits) := by ring
    _ ≤ 10 ^ 12 * (toFixed shares).bits * (2 ^ 64 * (toFixed pool.totalStake).bits) :=
      Nat.mul_le_mul_left _ hpriceLe
    _ = 2 ^ 64 * (toFixed shares).bits * (10 ^ 12 * (toFixed pool.totalStake).bits) := by ring
    _ ≤ 2 ^ 64 * (toFixed shares).bits * (2 ^ 64 * pool.totalStake) := Nat.mul_le_mul_left _ hstake
    _ = 2 ^ 64 * 2 ^ 64 * ((toFixed shares).bits * pool.totalStake) := by ring

/-- Of the pool's own shares fewer are worth no more. -/
theorem bmul_mono {shares' : ℕ} (hprice : pool.sharePrice = some price) (hfits : pool.totalShares < 2 ^ 64)
    (hle : shares' ≤ shares) (htotal : shares ≤ pool.totalShares) : bmul shares' price ≤ bmul shares price := by
  obtain ⟨-, hbits⟩ := sharePrice_eq_some.mp hprice
  have hproduct : (toFixed shares).bits * price.bits / 2 ^ 64 < 2 ^ 128 := by
    have hall : (toFixed shares).bits * price.bits ≤ 2 ^ 64 * (toFixed pool.totalStake).bits := by
      rw [hbits]
      exact (Nat.mul_le_mul_right _ (bits_toFixed_mono htotal hfits)).trans (Nat.mul_div_le _ _)
    have := (toFixed pool.totalStake).lt
    omega
  refine fromFixed_mono ?_
  have hpart : (toFixed shares').bits * price.bits ≤ (toFixed shares).bits * price.bits :=
    Nat.mul_le_mul_right _ (bits_toFixed_mono hle (htotal.trans_lt hfits))
  rw [U64F64.bits_mul_of_lt hproduct, U64F64.bits_mul_of_lt ((Nat.div_le_div_right hpart).trans_lt hproduct)]
  exact Nat.div_le_div_right hpart

/-- And no more than their part but for the rounding of the price, with `k + 1` bits of the pool's shares. -/
theorem bmul_mul_le (hprice : pool.sharePrice = some price) (hk : k + 1 ≤ (toFixed pool.totalShares).bits)
    (hfits : pool.totalShares < 2 ^ 64) :
    bmul shares price * pool.totalShares * k ≤ shares * pool.totalStake * (k + 1) := by
  have hbits : bmul shares price * (toFixed pool.totalShares).bits ≤ (toFixed shares).bits * pool.totalStake :=
    bmul_mul_bits_le hprice
  have hshares : 10 ^ 12 * (toFixed shares).bits ≤ 2 ^ 64 * shares := by
    rw [bits_toFixed]
    exact (Nat.mul_div_le _ _).trans (Nat.mul_le_mul_left _ (Nat.mod_le _ _))
  have htotal : 2 ^ 64 * pool.totalShares ≤ 10 ^ 12 * ((toFixed pool.totalShares).bits + 1) := by
    rw [bits_toFixed_of_lt hfits]
    omega
  generalize (toFixed pool.totalShares).bits = sb at *
  refine Nat.le_of_mul_le_mul_left (c := 2 ^ 64) ?_ (by norm_num)
  calc 2 ^ 64 * (bmul shares price * pool.totalShares * k)
      = bmul shares price * k * (2 ^ 64 * pool.totalShares) := by ring
    _ ≤ bmul shares price * k * (10 ^ 12 * (sb + 1)) := Nat.mul_le_mul_left _ htotal
    _ = 10 ^ 12 * (bmul shares price * (sb * k + k)) := by ring
    _ ≤ 10 ^ 12 * (bmul shares price * (sb * k + sb)) :=
      Nat.mul_le_mul_left _ (Nat.mul_le_mul_left _ (Nat.add_le_add_left (by omega) _))
    _ = 10 ^ 12 * (bmul shares price * sb * (k + 1)) := by ring
    _ ≤ 10 ^ 12 * ((toFixed shares).bits * pool.totalStake * (k + 1)) :=
      Nat.mul_le_mul_left _ (Nat.mul_le_mul_right _ hbits)
    _ = 10 ^ 12 * (toFixed shares).bits * (pool.totalStake * (k + 1)) := by ring
    _ ≤ 2 ^ 64 * shares * (pool.totalStake * (k + 1)) := Nat.mul_le_mul_right _ hshares
    _ = 2 ^ 64 * (shares * pool.totalStake * (k + 1)) := by ring

/-- What a payment for the shares `g` leaves of a budget for `z` more: with `t` the stake and `f` the budget
after a payment of `a`, from `sz = z + e` shares left. -/
theorem budget_left {z g t a f e : ℕ} (hpos : 0 < z + e + g)
    (hbudget : (z + g) * (t + a) * (k + 1) ≤ (b + (f + a) * k) * (z + e + g))
    (hpaid : a * (z + e + g) * k ≤ g * (t + a) * (k + 1)) : z * t * (k + 1) ≤ (b + f * k) * (z + e) := by
  refine Nat.le_of_mul_le_mul_left (c := z + e + g) ?_ hpos
  have hleft := Nat.mul_le_mul_left (z + e) hbudget
  have hrest := Nat.mul_le_mul_left e hpaid
  have hslack : 0 ≤ (z + e + g) * z * a := Nat.zero_le _
  linarith

/-- A payment leaves a budget that backs the other shares that go. -/
theorem Backing.removed (h : pool.Backing b k (leaving + (shares + (extractDust (user.shares - shares)).2)))
    (hr : pool.Removed user shares pool' user' amount dust) : pool'.Backing b k leaving := by
  obtain ⟨price, hprice, hamount⟩ := hr.amount_eq
  obtain ⟨rest, hrest, hpool⟩ := hr.pool_eq
  have hle := h.leaving_le
  have hfits := h.fits
  have hfree : amount ≤ pool.freeStake := hamount ▸ removable_le_free
  have hworth : amount ≤ bmul shares price := hamount ▸ (min_le_left _ _).trans (min_le_left _ _)
  have hbits := h.bits_le
  have hpaid := (Nat.mul_le_mul_right k (Nat.mul_le_mul_right _ hworth)).trans (bmul_mul_le hprice hbits hfits)
  -- the stake covers the payment
  have hstake : amount ≤ pool.totalStake := by
    have hshares : (toFixed shares).bits ≤ (toFixed pool.totalShares).bits := bits_toFixed_mono (by omega) hfits
    refine hworth.trans (Nat.le_of_mul_le_mul_right ?_ (Nat.lt_of_lt_of_le (Nat.succ_pos k) hbits))
    exact (bmul_mul_bits_le hprice).trans (by rw [Nat.mul_comm]; exact Nat.mul_le_mul_left _ hshares)
  replace hrest := hrest hstake
  have hstays := h.stays
  rw [hpool]
  refine ⟨?_, ?_, ?_, ?_⟩
  · have hbudget := h.budget
    dsimp only
    split
    · obtain ⟨e, he⟩ := Nat.exists_eq_add_of_le hle
      have hgone : pool.totalShares - (shares + (extractDust (user.shares - shares)).2) = leaving + e := by omega
      have hshares : pool.totalShares = leaving + e + (shares + (extractDust (user.shares - shares)).2) := by omega
      have hparts : pool.freeStake + pool.releasingStake =
          pool.freeStake - amount + pool.releasingStake + amount := by omega
      have hwhole : pool.totalStake = rest + amount := by omega
      rw [hgone]
      rw [hparts, hwhole, hshares] at hbudget
      rw [hwhole, hshares] at hpaid
      refine budget_left (a := amount) ?_ hbudget (hpaid.trans ?_)
      · exact hshares ▸ totalShares_pos hprice
      · exact Nat.mul_le_mul_right _ (Nat.mul_le_mul_right _ (Nat.le_add_right _ _))
    · rw [Nat.mul_zero, Nat.zero_mul]
      exact Nat.zero_le _
  · change leaving ≤ pool.totalShares - _
    omega
  · change k + 1 ≤ (toFixed (pool.totalShares - _ - leaving)).bits
    rw [Nat.sub_sub, Nat.add_comm _ leaving]
    exact hstays
  · exact (Nat.sub_le _ _).trans_lt hfits

/-- So the requests that are left are worth no more than the budget. -/
theorem Backing.worth_le {q : List (WithdrawInfo A)} (h : pool.Backing b k leaving) (hlt : b < k)
    (hprice : pool.sharePrice = some price) (hq : (q.map WithdrawInfo.shares).sum ≤ leaving) :
    requestsWorth price q ≤ pool.freeStake + pool.releasingStake := by
  have hworth : requestsWorth price q * pool.totalShares * k ≤
      (q.map WithdrawInfo.shares).sum * pool.totalStake * (k + 1) := by
    clear hq
    induction q with
    | nil => simp [requestsWorth]
    | cons w q ih =>
      have hw : bmul w.shares price * pool.totalShares * k ≤ w.shares * pool.totalStake * (k + 1) :=
        bmul_mul_le hprice h.bits_le h.fits
      rw [requestsWorth_cons, List.map_cons, List.sum_cons]
      linarith
  have hpos := totalShares_pos hprice
  have hall : requestsWorth price q * k * pool.totalShares ≤
      (b + (pool.freeStake + pool.releasingStake) * k) * pool.totalShares :=
    calc requestsWorth price q * k * pool.totalShares = requestsWorth price q * pool.totalShares * k := by ring
      _ ≤ (q.map WithdrawInfo.shares).sum * pool.totalStake * (k + 1) := hworth
      _ ≤ leaving * pool.totalStake * (k + 1) := Nat.mul_le_mul_right _ (Nat.mul_le_mul_right _ hq)
      _ ≤ _ := h.budget
  refine Nat.lt_succ_iff.mp (Nat.lt_of_mul_lt_mul_right (a := k) ?_)
  have hk := Nat.le_of_mul_le_mul_right hall hpos
  rw [Nat.succ_mul]
  omega

end PoolInfo

/-! ## At the desk -/

/-- The shares that go when so many of a staker's are paid: the rest goes with them where it is dust. -/
def goingShares (held shares : ℕ) : ℕ := shares + (extractDust (held - shares)).2

theorem goingShares_mono {held shares shares' : ℕ} (hle : shares' ≤ shares) (hheld : shares ≤ held) :
    goingShares held shares' ≤ goingShares held shares := by
  unfold goingShares
  rcases Nat.lt_or_ge 1000 (held - shares) with hlt | hge
  · rw [extractDust_of_lt hlt, extractDust_of_lt (by omega)]
    exact hle
  · have := extractDust_add (held - shares')
    rw [extractDust_of_le hge]
    omega

variable [DecidableEq A]

namespace Desk

variable {d d' d₁ : Desk A W} {w : WithdrawInfo A} {q rest : List (WithdrawInfo A)} {user user' : UserStakeInfo A}
  {price : FixedPoint} {b k : ℕ}

/-- The shares that a staker holds in the pool. -/
def sharesOf (d : Desk A W) (u : A) : ℕ :=
  (d.books.poolStakers.lookup (d.pool.pid, u)).elim 0 UserStakeInfo.shares

/-- The shares that go when the requests are paid. -/
def leaving (d : Desk A W) (q : List (WithdrawInfo A)) : ℕ :=
  (q.map fun w => goingShares (d.sharesOf w.user) w.shares).sum

theorem sharesOf_eq {u : A} (h : d.books.poolStakers.lookup (d.pool.pid, u) = some user) :
    d.sharesOf u = user.shares := by
  rw [sharesOf, h]
  rfl

theorem leaving_cons : d.leaving (w :: rest) = goingShares (d.sharesOf w.user) w.shares + d.leaving rest := rfl

theorem leaving_congr (h : ∀ w ∈ q, d'.sharesOf w.user = d.sharesOf w.user) : d'.leaving q = d.leaving q := by
  refine congrArg List.sum (List.map_congr_left fun w hw => ?_)
  rw [h w hw]

theorem shares_le_leaving : (q.map WithdrawInfo.shares).sum ≤ d.leaving q :=
  List.sum_le_sum fun _ _ => Nat.le_add_right _ _

/-- The requests are for shares that their stakers hold, and the pool's budget backs the shares that go with
them. -/
structure Serves (b k : ℕ) (d : Desk A W) (q : List (WithdrawInfo A)) : Prop where
  held : ∀ w ∈ q, w.shares ≤ d.sharesOf w.user
  backing : d.pool.Backing b k (d.leaving q)

theorem Serves.tail (h : d.Serves b k (w :: rest)) : d.Serves b k rest := by
  refine ⟨fun w' hw' => h.held w' (List.mem_cons_of_mem _ hw'), h.backing.mono ?_⟩
  rw [leaving_cons]
  exact Nat.le_add_left _ _

theorem Serves.setQueue {q' : List (WithdrawInfo A)} (h : d.Serves b k q) : (d.setQueue q').Serves b k q :=
  ⟨h.held, h.backing.budget, h.backing.leaving_le, h.backing.stays, h.backing.fits⟩

/-- A payment leaves a budget that backs the other shares that go. -/
theorem PaidOut.backing {n shares : ℕ} (h : d.PaidOut cfg user shares d₁ user')
    (hb : d.pool.Backing b k (n + goingShares user.shares shares)) : d₁.pool.Backing b k n := by
  obtain ⟨amount, dust, hr, -⟩ := h
  let settled : UserStakeInfo A := { user with locked := d.pool.settledLocked user }
  have hb : d.pool.Backing b k (n + (shares + (extractDust (settled.shares - shares)).2)) := hb
  exact hb.removed hr

/-- And it takes shares from its staker only. -/
theorem PaidOut.sharesOf {u : A} {shares : ℕ} (h : d.PaidOut cfg user shares d₁ user') (u' : A) :
    Desk.sharesOf ⟨d₁.pool, d₁.books.putStaker d.pool.pid u user'⟩ u' =
      if u' = u then (extractDust (user.shares - shares)).1 else d.sharesOf u' := by
  obtain ⟨amount, dust, hr, hbooks⟩ := h
  unfold Desk.sharesOf
  rw [hr.unchanged.1, Books.lookup_putStaker, hbooks, Books.reduced_poolStakers, Books.touch_poolStakers,
    Books.settled_poolStakers]
  by_cases he : u' = u
  · rw [if_pos he, if_pos (by rw [he]), hr.user_eq]
    rfl
  · rw [if_neg he, if_neg fun h => he (congrArg Prod.snd h)]

/-- A pass of the loop leaves a budget that serves what is left of the requests. -/
theorem Serves.fulfilled (h : d.Serves b k (w :: q)) (hq : w.user ∉ q.map WithdrawInfo.user)
    (hu : d.books.poolStakers.lookup (d.pool.pid, w.user) = some user) (hf : d.Fulfilled cfg price w user d') :
    d'.Serves b k (servedQueue w (withdrawingShares price d.pool w) (w :: q)) := by
  obtain ⟨user₁, d₁, user₂, hs, hp, rfl⟩ := hf
  obtain ⟨_, _, rfl⟩ := hs
  generalize hn : withdrawingShares price d.pool w = n at *
  have hnw : n ≤ w.shares := hn ▸ min_le_right _ _
  have hle : w.shares ≤ user.shares := sharesOf_eq hu ▸ h.held w List.mem_cons_self
  have hsharesOf := hp.sharesOf (u := w.user)
  have hother : ∀ w' ∈ q, w'.user ≠ w.user := fun w' hw' he => hq (he ▸ List.mem_map_of_mem hw')
  have hsame : ∀ w' ∈ q, Desk.sharesOf ⟨d₁.pool, d₁.books.putStaker d.pool.pid w.user user₂⟩ w'.user =
      d.sharesOf w'.user :=
    fun w' hw' => (hsharesOf _).trans (if_neg (hother w' hw'))
  have hheld : ∀ w' ∈ q, w'.shares ≤ Desk.sharesOf ⟨d₁.pool, d₁.books.putStaker d.pool.pid w.user user₂⟩ w'.user :=
    fun w' hw' => (hsame w' hw').symm ▸ h.held w' (List.mem_cons_of_mem _ hw')
  have hbacking := h.backing
  rw [leaving_cons, sharesOf_eq hu, Nat.add_comm] at hbacking
  refine Serves.setQueue ?_
  unfold servedQueue
  dsimp only [List.tail_cons]
  split
  · refine ⟨hheld, ?_⟩
    rw [leaving_congr hsame]
    exact hp.backing (hbacking.mono (Nat.add_le_add_left (goingShares_mono hnw hle) _))
  · next hne =>
    have hrest : 1000 < w.shares - n := by
      have := extractDust_fst_cases (w.shares - n)
      omega
    have hnow : Desk.sharesOf ⟨d₁.pool, d₁.books.putStaker d.pool.pid w.user user₂⟩ w.user = user.shares - n := by
      rw [hsharesOf, if_pos rfl]
      exact congrArg Prod.fst (extractDust_of_lt (show 1000 < user.shares - n by omega))
    rw [extractDust_of_lt hrest]
    refine ⟨fun w' hw' => ?_, ?_⟩
    · rcases List.mem_cons.mp hw' with rfl | hw'
      · exact (Nat.sub_le_sub_right hle n).trans hnow.ge
      · exact hheld w' hw'
    · rw [leaving_cons, leaving_congr hsame]
      dsimp only
      rw [hnow]
      refine hp.backing (hbacking.mono (le_of_eq ?_))
      -- the rest of the staker's shares goes with what is left of the request as it did with all of it
      change _ + goingShares user.shares n = _
      unfold goingShares
      rw [extractDust_of_lt (show 1000 < user.shares - n by
        omega), show user.shares - n - (w.shares - n) = user.shares - w.shares by omega]
      omega

/-- The queue is in order, and the budget serves the requests in it that are overdue. -/
structure Cleared (now gracePeriod b k : ℕ) (d : Desk A W) : Prop where
  queue : QueueInOrder d.pool.withdrawQueue
  serves : overdueRequests now gracePeriod d.pool.withdrawQueue ≠ [] →
    d.Serves b k (overdueRequests now gracePeriod d.pool.withdrawQueue)

namespace Cleared

variable {now gracePeriod fuel : ℕ}

theorem skip (h : d.Cleared now gracePeriod b k) (hq : d.pool.withdrawQueue = w :: rest) :
    (d.setQueue rest).Cleared now gracePeriod b k := by
  obtain ⟨hqueue, hserves⟩ := h
  rw [hq] at hqueue hserves
  refine ⟨hqueue.sublist (List.sublist_cons_self _ _), fun hne => Serves.setQueue ?_⟩
  change overdueRequests now gracePeriod rest ≠ [] at hne
  change d.Serves b k (overdueRequests now gracePeriod rest)
  by_cases hage : gracePeriod < now - w.startTime
  · rw [overdueRequests_cons_of hage] at hserves
    exact (hserves (List.cons_ne_nil _ _)).tail
  · rw [overdueRequests_cons_of_not hage] at hserves
    exact hserves hne

theorem fulfilled (h : d.Cleared now gracePeriod b k) (hq : d.pool.withdrawQueue = w :: rest)
    (hu : d.books.poolStakers.lookup (d.pool.pid, w.user) = some user) (hf : d.Fulfilled cfg price w user d') :
    d'.Cleared now gracePeriod b k := by
  obtain ⟨hqueue, hserves⟩ := h
  refine ⟨hqueue.fulfilled hq hf, fun hne => ?_⟩
  rw [hf.queue, hq] at hne ⊢
  rw [hq] at hqueue hserves
  obtain ⟨hold, -⟩ := List.pairwise_cons.mp hqueue.ordered
  obtain ⟨hnew, -⟩ := List.nodup_cons.mp hqueue.requesters
  by_cases hage : gracePeriod < now - w.startTime
  · rw [overdueRequests_cons_of hage] at hserves
    have hnew : w.user ∉ (overdueRequests now gracePeriod rest).map WithdrawInfo.user :=
      fun hmem => hnew ((List.filter_sublist.map _).subset hmem)
    rw [overdueRequests_servedQueue, if_pos hage]
    exact (hserves (List.cons_ne_nil _ _)).fulfilled hnew hu hf
  · refine absurd ?_ hne
    rw [overdueRequests_servedQueue, if_neg hage, ← overdueRequests_cons_of_not hage]
    exact overdueRequests_eq_nil hage fun w' hw' => hold _ (List.mem_map_of_mem hw')

theorem tryProcessWithdrawQueue (h : d.Cleared now gracePeriod b k)
    (hq : d.tryProcessWithdrawQueue cfg fuel = .ok d') : d'.Cleared now gracePeriod b k := by
  refine (tryProcessWithdrawQueue_ends (E := fun _ => True) (I := Cleared now gracePeriod b k) trivial
    (fun d₁ w rest hd _ he _ => hd.skip he) (fun price d₁ w rest user _ hd _ he hu => ?_) h).ok hq
  exact (fulfill_ends hu).mono (fun d₂ hf => hd.fulfilled he hu hf) fun _ _ => trivial

/-- The requests that are overdue are covered. -/
theorem worth_le (h : d.Cleared now gracePeriod b k) (hlt : b < k) (hprice : d.pool.sharePrice = some price) :
    requestsWorth price (overdueRequests now gracePeriod d.pool.withdrawQueue) ≤
      d.pool.freeStake + d.pool.releasingStake := by
  by_cases hnone : overdueRequests now gracePeriod d.pool.withdrawQueue = []
  · rw [hnone]
    exact Nat.zero_le _
  · exact (h.serves hnone).backing.worth_le hlt hprice shares_le_leaving

end Cleared

end Desk

end Khala
