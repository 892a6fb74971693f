/-
What shares are worth, and how far rounding takes it from what it would be.

A price is rounded from the stake and the shares, each rounded to fixed point,
and a worth from a product with the price and back to planck. The first section
keeps these roundings as inequalities between naturals (`2^64` is one in fixed
point, `10^12` the planck of a token) and compares two pools by them, one left
by a removal from the other; the second reads them off the code.
-/
import Khala.PoolFacts

namespace Khala

/-! ## Roundings -/

/-- The bits of a pool's stake, shares and price. -/
structure Priced (stake shares stakeBits sharesBits price : ℕ) : Prop where
  stake_le : 10 ^ 12 * stakeBits ≤ 2 ^ 64 * stake
  lt_stake : 2 ^ 64 * stake < 10 ^ 12 * (stakeBits + 1)
  shares_le : 10 ^ 12 * sharesBits ≤ 2 ^ 64 * shares
  lt_shares : 2 ^ 64 * shares < 10 ^ 12 * (sharesBits + 1)
  price_le : sharesBits * price ≤ 2 ^ 64 * stakeBits
  lt_price : 2 ^ 64 * stakeBits < sharesBits * (price + 1)

/-- The bits of so many shares and of their product with the price, and their worth. -/
structure Valued (price shares sharesBits product worth : ℕ) : Prop where
  shares_le : 10 ^ 12 * sharesBits ≤ 2 ^ 64 * shares
  lt_shares : 2 ^ 64 * shares < 10 ^ 12 * (sharesBits + 1)
  product_le : 2 ^ 64 * product ≤ sharesBits * price
  lt_product : sharesBits * price < 2 ^ 64 * (product + 1)
  worth_le : 2 ^ 64 * worth ≤ 10 ^ 12 * product
  lt_worth : 10 ^ 12 * product < 2 ^ 64 * (worth + 1)

namespace Priced

variable {T T' S S' tb tb' sb sb' p p' x xb v V o ob v' V' a w wb vw Vw : ℕ}

/-- Some number exceeds another product, so the bits of the shares are not zero. -/
theorem shares_pos (h : Priced T S tb sb p) : 0 < sb := by
  have := h.lt_price
  rcases Nat.eq_zero_or_pos sb with rfl | hpos
  · rw [Nat.zero_mul] at this
    omega
  · exact hpos

theorem product_mul_le (h : Priced T S tb sb p) (hx : Valued p x xb v V) : v * sb ≤ xb * tb := by
  refine Nat.le_of_mul_le_mul_left (c := 2 ^ 64) ?_ (by norm_num)
  calc 2 ^ 64 * (v * sb) = 2 ^ 64 * v * sb := (Nat.mul_assoc _ _ _).symm
    _ ≤ xb * p * sb := Nat.mul_le_mul_right _ hx.product_le
    _ = xb * (sb * p) := by ring
    _ ≤ xb * (2 ^ 64 * tb) := Nat.mul_le_mul_left _ h.price_le
    _ = 2 ^ 64 * (xb * tb) := by ring

/-- Shares are worth no more than their part, in bits, of the stake. -/
theorem worth_mul_le (h : Priced T S tb sb p) (hx : Valued p x xb v V) : V * sb ≤ xb * T := by
  refine Nat.le_of_mul_le_mul_left (c := 2 ^ 64) ?_ (by norm_num)
  calc 2 ^ 64 * (V * sb) = 2 ^ 64 * V * sb := (Nat.mul_assoc _ _ _).symm
    _ ≤ 10 ^ 12 * v * sb := Nat.mul_le_mul_right _ hx.worth_le
    _ = 10 ^ 12 * (v * sb) := Nat.mul_assoc _ _ _
    _ ≤ 10 ^ 12 * (xb * tb) := Nat.mul_le_mul_left _ (h.product_mul_le hx)
    _ = xb * (10 ^ 12 * tb) := by ring
    _ ≤ xb * (2 ^ 64 * T) := Nat.mul_le_mul_left _ h.stake_le
    _ = 2 ^ 64 * (xb * T) := by ring

theorem worth_le_stake (h : Priced T S tb sb p) (hx : Valued p x xb v V) (hle : x ≤ S) : V ≤ T := by
  have hb : xb ≤ sb := by
    have := hx.shares_le
    have := h.lt_shares
    omega
  refine Nat.le_of_mul_le_mul_left (c := sb) ?_ h.shares_pos
  calc sb * V = V * sb := Nat.mul_comm _ _
    _ ≤ xb * T := h.worth_mul_le hx
    _ ≤ sb * T := Nat.mul_le_mul_right _ hb

/-- While the price is at most `2^64 / 10^12`, they are worth no more than a planck over their part of the
stake. -/
theorem worth_mul_shares_le (h : Priced T S tb sb p) (hx : Valued p x xb v V) (hle : x ≤ S) (hprice : T ≤ sb) :
    V * S ≤ x * T + S := by
  have hV : V ≤ sb := (h.worth_le_stake hx hle).trans hprice
  refine Nat.le_of_mul_le_mul_left (c := 2 ^ 64) ?_ (by norm_num)
  calc 2 ^ 64 * (V * S) = V * (2 ^ 64 * S) := by ring
    _ ≤ V * (10 ^ 12 * (sb + 1)) := Nat.mul_le_mul_left _ h.lt_shares.le
    _ = 10 ^ 12 * (V * sb) + 10 ^ 12 * V := by ring
    _ ≤ 10 ^ 12 * (xb * T) + 10 ^ 12 * sb :=
      Nat.add_le_add (Nat.mul_le_mul_left _ (h.worth_mul_le hx)) (Nat.mul_le_mul_left _ hV)
    _ = 10 ^ 12 * xb * T + 10 ^ 12 * sb := by ring
    _ ≤ 2 ^ 64 * x * T + 2 ^ 64 * S := Nat.add_le_add (Nat.mul_le_mul_right _ hx.shares_le) h.shares_le
    _ = 2 ^ 64 * (x * T + S) := by ring

/-- And, at such a price, less than four planck under it. -/
theorem lt_worth_mul (h : Priced T S tb sb p) (hx : Valued p x xb v V) (hle : x ≤ S) (hprice : T ≤ sb)
    (hx64 : x < 2 ^ 64) : x * T < (V + 4) * S := by
  have hS : 0 < S := by
    have := h.shares_pos
    have := h.shares_le
    omega
  have hstake : 2 ^ 64 * (tb + 1) ≤ sb * (p + 1) + 2 ^ 64 := by
    have := h.lt_price
    omega
  -- what the roundings of the shares, the stake and the price come to
  have hround : 10 ^ 24 * (2 ^ 64 * sb + xb * sb + 2 ^ 64 * xb + sb * p + sb + 2 ^ 64) ≤ 2 ^ 192 * (3 * S) := by
    have hxs : 10 ^ 24 * (xb * sb) ≤ 2 ^ 192 * S :=
      calc 10 ^ 24 * (xb * sb) = 10 ^ 12 * xb * (10 ^ 12 * sb) := by ring
        _ ≤ 2 ^ 64 * x * (2 ^ 64 * S) := Nat.mul_le_mul hx.shares_le h.shares_le
        _ = 2 ^ 128 * (x * S) := by ring
        _ ≤ 2 ^ 128 * (2 ^ 64 * S) := Nat.mul_le_mul_left _ (Nat.mul_le_mul_right _ hx64.le)
        _ = 2 ^ 192 * S := by ring
    have hsp : 10 ^ 24 * (sb * p) ≤ 2 ^ 192 * S := by
      have := h.price_le
      have := h.stake_le
      have := h.shares_le
      omega
    have := h.shares_le
    have := hx.shares_le
    omega
  have hproduct : 10 ^ 24 * (xb * sb * p) ≤ 10 ^ 24 * (2 ^ 64 * sb * (v + 1)) := by
    refine Nat.mul_le_mul_left _ ?_
    calc xb * sb * p = sb * (xb * p) := by ring
      _ ≤ sb * (2 ^ 64 * (v + 1)) := Nat.mul_le_mul_left _ hx.lt_product.le
      _ = 2 ^ 64 * sb * (v + 1) := by ring
  have hworth : 10 ^ 24 * (2 ^ 64 * sb * v) ≤ 2 ^ 192 * ((V + 1) * S) :=
    calc 10 ^ 24 * (2 ^ 64 * sb * v) = 2 ^ 64 * (10 ^ 12 * v * (10 ^ 12 * sb)) := by ring
      _ ≤ 2 ^ 64 * (2 ^ 64 * (V + 1) * (2 ^ 64 * S)) :=
        Nat.mul_le_mul_left _ (Nat.mul_le_mul hx.lt_worth.le h.shares_le)
      _ = 2 ^ 192 * ((V + 1) * S) := by ring
  refine Nat.lt_of_mul_lt_mul_left (a := 2 ^ 192) ?_
  calc 2 ^ 192 * (x * T) = 2 ^ 64 * (2 ^ 64 * x * (2 ^ 64 * T)) := by ring
    _ < 2 ^ 64 * (10 ^ 12 * (xb + 1) * (10 ^ 12 * (tb + 1))) :=
      Nat.mul_lt_mul_of_pos_left (Nat.mul_lt_mul_of_lt_of_le hx.lt_shares h.lt_stake.le (by omega)) (by norm_num)
    _ = 10 ^ 24 * (xb + 1) * (2 ^ 64 * (tb + 1)) := by ring
    _ ≤ 10 ^ 24 * (xb + 1) * (sb * (p + 1) + 2 ^ 64) := Nat.mul_le_mul_left _ hstake
    _ = 10 ^ 24 * (xb * sb * p) + 10 ^ 24 * (xb * sb + 2 ^ 64 * xb + sb * p + sb + 2 ^ 64) := by ring
    _ ≤ 10 ^ 24 * (2 ^ 64 * sb * (v + 1)) + 10 ^ 24 * (xb * sb + 2 ^ 64 * xb + sb * p + sb + 2 ^ 64) :=
      Nat.add_le_add_right hproduct _
    _ = 10 ^ 24 * (2 ^ 64 * sb * v) + 10 ^ 24 * (2 ^ 64 * sb + xb * sb + 2 ^ 64 * xb + sb * p + sb + 2 ^ 64) := by
      ring
    _ ≤ 2 ^ 192 * ((V + 1) * S) + 2 ^ 192 * (3 * S) := Nat.add_le_add hworth hround
    _ = 2 ^ 192 * ((V + 4) * S) := by ring

/-! ### Two prices -/

/-- A removal of no more than the worth of the removed shares leaves the price
as it was or higher, but for rounding. -/
theorem price_mul_lt (h : Priced T S tb sb p) (h' : Priced T' S' tb' sb' p') (hw : Valued p w wb vw Vw)
    (hT : T' + a = T) (ha : a ≤ Vw) (hS : S' + w ≤ S) : sb' * p < sb' * (p' + 1) + 2 ^ 64 := by
  have hsb : sb' + wb ≤ sb := by
    have := h'.shares_le
    have := hw.shares_le
    have := h.lt_shares
    omega
  have hout : 2 ^ 64 * a * sb ≤ 10 ^ 12 * (wb * tb) :=
    calc 2 ^ 64 * a * sb ≤ 2 ^ 64 * Vw * sb := Nat.mul_le_mul_right _ (Nat.mul_le_mul_left _ ha)
      _ ≤ 10 ^ 12 * vw * sb := Nat.mul_le_mul_right _ hw.worth_le
      _ = 10 ^ 12 * (vw * sb) := Nat.mul_assoc _ _ _
      _ ≤ 10 ^ 12 * (wb * tb) := Nat.mul_le_mul_left _ (h.product_mul_le hw)
  have hstake : tb * sb' < (tb' + 1) * sb := by
    have hin : 10 ^ 12 * (tb * sb) ≤ 2 ^ 64 * T' * sb + 2 ^ 64 * a * sb :=
      calc 10 ^ 12 * (tb * sb) = 10 ^ 12 * tb * sb := (Nat.mul_assoc _ _ _).symm
        _ ≤ 2 ^ 64 * T * sb := Nat.mul_le_mul_right _ h.stake_le
        _ = 2 ^ 64 * T' * sb + 2 ^ 64 * a * sb := by rw [← hT]; ring
    have hlt : 2 ^ 64 * T' * sb < 10 ^ 12 * ((tb' + 1) * sb) :=
      calc 2 ^ 64 * T' * sb < 10 ^ 12 * (tb' + 1) * sb := Nat.mul_lt_mul_of_pos_right h'.lt_stake h.shares_pos
        _ = 10 ^ 12 * ((tb' + 1) * sb) := Nat.mul_assoc _ _ _
    have hmul : tb * sb' + wb * tb ≤ tb * sb :=
      calc tb * sb' + wb * tb = tb * (sb' + wb) := by ring
        _ ≤ tb * sb := Nat.mul_le_mul_left _ hsb
    omega
  have hprice : sb' * p < 2 ^ 64 * (tb' + 1) := by
    refine Nat.lt_of_mul_lt_mul_left (a := sb) ?_
    calc sb * (sb' * p) = sb * p * sb' := by ring
      _ ≤ 2 ^ 64 * tb * sb' := Nat.mul_le_mul_right _ h.price_le
      _ = 2 ^ 64 * (tb * sb') := Nat.mul_assoc _ _ _
      _ < 2 ^ 64 * ((tb' + 1) * sb) := Nat.mul_lt_mul_of_pos_left hstake (by norm_num)
      _ = sb * (2 ^ 64 * (tb' + 1)) := by ring
  have := h'.lt_price
  omega

/-- So the product of shares that are still there falls by at most their bits, but for rounding. -/
theorem product_lt (h : Priced T S tb sb p) (h' : Priced T' S' tb' sb' p') (hw : Valued p w wb vw Vw)
    (hT : T' + a = T) (ha : a ≤ Vw) (hS : S' + w ≤ S) (ho : Valued p' o ob v' V') (hle : o ≤ S') :
    ob * p < 2 ^ 64 * (v' + 1) + max ob (2 ^ 64 * 2) := by
  have hprice := h.price_mul_lt h' hw hT ha hS
  have hob : ob ≤ sb' := by
    have := ho.shares_le
    have := h'.lt_shares
    omega
  have hv := ho.lt_product
  rcases Nat.lt_or_ge (p' + 1) p with hp | hp
  · obtain ⟨k, rfl⟩ := Nat.exists_eq_add_of_lt hp
    have hk : sb' * (k + 1) < 2 ^ 64 := by
      rw [show p' + 1 + k + 1 = p' + 1 + (k + 1) by omega, Nat.mul_add sb' (p' + 1)] at hprice
      omega
    have hle' : sb' ≤ sb' * (k + 1) := Nat.le_mul_of_pos_right _ (by omega)
    have hrest : ob * (k + 1) ≤ sb' * (k + 1) := Nat.mul_le_mul_right _ hob
    rw [show p' + 1 + k + 1 = p' + (k + 1) + 1 by omega, Nat.mul_add, Nat.mul_add, Nat.mul_one]
    omega
  · have hprod : ob * p ≤ ob * p' + ob := Nat.mul_le_mul_left ob hp
    omega

/-- And they are worth at most a planck less. -/
theorem worth_le_succ (h : Priced T S tb sb p) (h' : Priced T' S' tb' sb' p') (hw : Valued p w wb vw Vw)
    (hT : T' + a = T) (ha : a ≤ Vw) (hS : S' + w ≤ S) (ho : Valued p o ob v V) (ho' : Valued p' o ob v' V')
    (hle : o ≤ S') (hrange : o ≤ 18446744 * 10 ^ 12) : V ≤ V' + 1 := by
  have hprod := h.product_lt h' hw hT ha hS ho' hle
  have := ho.product_le
  have := ho.shares_le
  have := ho.worth_le
  have := ho'.lt_worth
  omega

/-- The bits of shares and of their price cannot both be great. -/
theorem slack_le (h : Priced T S tb sb p) (hob : ob ≤ sb) (hprice : T ≤ sb) (hT : T < 2 ^ 64) (hS : S < 2 ^ 64) :
    10 ^ 12 * max ob (2 ^ 64 * 2) + 10 ^ 12 * p + 2 ^ 64 * (10 ^ 12 * 2) ≤ 2 ^ 64 * (2 ^ 64 * 2) := by
  have hp : 10 ^ 12 * p ≤ 2 ^ 64 * 2 ^ 64 := by
    refine Nat.le_of_mul_le_mul_left (c := sb) ?_ h.shares_pos
    calc sb * (10 ^ 12 * p) = 10 ^ 12 * (sb * p) := by ring
      _ ≤ 10 ^ 12 * (2 ^ 64 * tb) := Nat.mul_le_mul_left _ h.price_le
      _ = 2 ^ 64 * (10 ^ 12 * tb) := by ring
      _ ≤ 2 ^ 64 * (2 ^ 64 * sb) := Nat.mul_le_mul_left _ (h.stake_le.trans (Nat.mul_le_mul_left _ hprice))
      _ = sb * (2 ^ 64 * 2 ^ 64) := by ring
  have hsb := h.shares_le
  rcases Nat.lt_or_ge (9000000 * 2 ^ 64) p with hgreat | hsmall
  · have hob : 9000000 * ob ≤ tb := by
      refine Nat.le_of_mul_le_mul_left (c := 2 ^ 64) ?_ (by norm_num)
      calc 2 ^ 64 * (9000000 * ob) = ob * (9000000 * 2 ^ 64) := by ring
        _ ≤ sb * p := Nat.mul_le_mul hob hgreat.le
        _ ≤ 2 ^ 64 * tb := h.price_le
    have := h.stake_le
    omega
  · omega

/-- What a removal of part of the shares costs their holder: the parts are worth
three planck less than the whole at most. -/
theorem worth_le_parts (h : Priced T S tb sb p) (h' : Priced T' S' tb' sb' p') (hw : Valued p w wb vw Vw)
    (hT : T' + a = T) (ha : a ≤ Vw) (hS : S' + w ≤ S) (hx : Valued p x xb v V) (ho : Valued p' o ob v' V')
    (hle : o ≤ S') (hparts : x = w + o) (hprice : T ≤ sb) (hT64 : T < 2 ^ 64) (hS64 : S < 2 ^ 64) :
    V ≤ Vw + V' + 3 := by
  have hprod := h.product_lt h' hw hT ha hS ho hle
  have hbits : xb ≤ wb + ob + 1 := by
    have := hx.shares_le
    have := hw.lt_shares
    have := ho.lt_shares
    omega
  have hsum : xb * p ≤ wb * p + ob * p + p :=
    calc xb * p ≤ (wb + ob + 1) * p := Nat.mul_le_mul_right _ hbits
      _ = wb * p + ob * p + p := by ring
  have hob : ob ≤ sb := by
    have := ho.shares_le
    have := h.lt_shares
    omega
  have hslack := h.slack_le hob hprice hT64 hS64
  have := hx.product_le
  have := hx.worth_le
  have := hw.lt_product
  have := hw.lt_worth
  have := ho.lt_worth
  omega

end Priced

/-! ## The code's own -/

theorem toFixed_bounds {x : ℕ} (h : x < 2 ^ 64) :
    10 ^ 12 * (toFixed x).bits ≤ 2 ^ 64 * x ∧ 2 ^ 64 * x < 10 ^ 12 * ((toFixed x).bits + 1) := by
  rw [bits_toFixed_of_lt h]
  omega

namespace PoolInfo

variable {A W : Type} {pool : PoolInfo A W} {price : FixedPoint} {shares : ℕ}

/-- What so many shares are worth: nothing where there is no price. -/
def worth (pool : PoolInfo A W) (shares : ℕ) : ℕ :=
  match pool.sharePrice with
  | some price => bmul shares price
  | none => 0

/-- Stake and shares are whole numbers of tokens below `2^64` planck, and no
share costs more than `2^64 / 10^12` planck, below which rounding it is worth
less than a planck. -/
structure InRange (pool : PoolInfo A W) : Prop where
  stake : pool.totalStake < 18446744 * 10 ^ 12
  shares : pool.totalShares < 18446744 * 10 ^ 12
  price : pool.totalStake ≤ (toFixed pool.totalShares).bits

theorem worth_eq (h : pool.sharePrice = some price) : pool.worth shares = bmul shares price := by
  simp only [worth, h]

theorem worth_zero : pool.worth 0 = 0 := by
  unfold worth
  split
  · exact bmul_zero _
  · rfl

/-- A pool without stake prices every share at nothing. -/
theorem worth_of_no_stake (h : pool.totalStake = 0) : pool.worth shares = 0 := by
  unfold worth
  split
  · next price hprice =>
    have hbits : price.bits = 0 := by
      rw [(sharePrice_eq_some.mp hprice).2, h, toFixed_zero, U64F64.bits_zero, Nat.mul_zero, Nat.zero_div]
    have hprod : (toFixed shares * price).bits = 0 := by
      rw [U64F64.bits_mul, hbits, Nat.mul_zero, Nat.zero_div]; rfl
    refine Nat.le_zero.mp ((fromFixed_le _).trans ?_)
    rw [hprod, Nat.mul_zero, Nat.zero_div]
  · rfl

theorem priced (hstake : pool.totalStake < 2 ^ 64) (hshares : pool.totalShares < 2 ^ 64)
    (h : pool.sharePrice = some price) :
    Priced pool.totalStake pool.totalShares (toFixed pool.totalStake).bits
    (toFixed pool.totalShares).bits price.bits := by
  obtain ⟨hne, hprice⟩ := sharePrice_eq_some.mp h
  refine ⟨(toFixed_bounds hstake).1, (toFixed_bounds hstake).2, (toFixed_bounds hshares).1,
    (toFixed_bounds hshares).2,
    ?_, ?_⟩
  · rw [hprice]
    exact Nat.mul_div_le _ _
  · rw [hprice]
    exact Nat.lt_mul_div_succ _ (Nat.pos_of_ne_zero hne)

/-- No product of the pool's own shares with its price leaves the format. -/
theorem valued (hstake : pool.totalStake < 2 ^ 64) (hshares : pool.totalShares < 2 ^ 64)
    (h : pool.sharePrice = some price) (hle : shares ≤ pool.totalShares) :
    ∃ product, Valued price.bits shares (toFixed shares).bits product (bmul shares price) := by
  have hp := priced hstake hshares h
  have hlt : shares < 2 ^ 64 := hle.trans_lt hshares
  have hbits : (toFixed shares).bits ≤ (toFixed pool.totalShares).bits := by
    have := (toFixed_bounds hlt).1
    have := hp.lt_shares
    omega
  have hprod : (toFixed shares).bits * price.bits ≤ 2 ^ 64 * (toFixed pool.totalStake).bits :=
    (Nat.mul_le_mul_right _ hbits).trans hp.price_le
  have hstakeBits := hp.stake_le
  have hmul : (toFixed shares * price).bits = (toFixed shares).bits * price.bits / 2 ^ 64 :=
    U64F64.bits_mul_of_lt (by omega)
  have hworth : bmul shares price = 10 ^ 12 * ((toFixed shares).bits * price.bits / 2 ^ 64) / 2 ^ 64 := by
    rw [bmul, fromFixed_of_lt (by rw [hmul]; omega), hmul]
  refine ⟨(toFixed shares).bits * price.bits / 2 ^ 64, (toFixed_bounds hlt).1,
    (toFixed_bounds hlt).2, ?_, ?_, ?_, ?_⟩
  · exact Nat.mul_div_le _ _
  · exact Nat.lt_mul_div_succ _ (by norm_num)
  · rw [hworth]
    exact Nat.mul_div_le _ _
  · rw [hworth]
    exact Nat.lt_mul_div_succ _ (by norm_num)

/-- A pool in range with a share in it has a price. -/
theorem exists_price (hstake : pool.totalStake < 18446744 * 10 ^ 12) (hshares : pool.totalShares < 2 ^ 64)
    (hpos : 0 < pool.totalShares) : ∃ price, pool.sharePrice = some price := by
  have hs := toFixed_bounds hshares
  have ht := toFixed_bounds (hstake.trans (by norm_num))
  have hone : 18446744 ≤ (toFixed pool.totalShares).bits := by omega
  have hlt : 2 ^ 64 * (toFixed pool.totalStake).bits / (toFixed pool.totalShares).bits < 2 ^ 128 := by
    refine Nat.div_lt_of_lt_mul ?_
    omega
  exact ⟨⟨_, hlt⟩, sharePrice_eq_some.mpr ⟨by omega, rfl⟩⟩

namespace InRange

theorem stake_lt (hr : pool.InRange) : pool.totalStake < 2 ^ 64 := hr.stake.trans (by norm_num)

theorem shares_lt (hr : pool.InRange) : pool.totalShares < 2 ^ 64 := hr.shares.trans (by norm_num)

/-- Shares are worth no more than the pool's stake, nor than a planck over their part of it. -/
theorem worth_le (hr : pool.InRange) (hle : shares ≤ pool.totalShares) :
    pool.worth shares ≤ pool.totalStake ∧
      pool.worth shares * pool.totalShares ≤ shares * pool.totalStake + pool.totalShares := by
  cases hprice : pool.sharePrice with
  | none => simp [worth, hprice]
  | some price =>
    have hp := priced hr.stake_lt hr.shares_lt hprice
    obtain ⟨_, hv⟩ := valued hr.stake_lt hr.shares_lt hprice hle
    rw [worth_eq hprice]
    exact ⟨hp.worth_le_stake hv hle, hp.worth_mul_shares_le hv hle hr.price⟩

end InRange

end PoolInfo

end Khala
