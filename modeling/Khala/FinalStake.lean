/-
What is left of a miner's stake (`MinerInfo::calc_final_stake`).

The stake is scaled by `v / ve`, at most by one, in three truncating steps:
the rate, the stake as a fixed-point number, and their product; a fourth
truncation takes the product back to planck. Together they lose less than three
planck (`returned_bounds`). At rate one the product is exact, and what is left
is the stake converted there and back, which is the stake itself only if
`5^12` divides it (`fromFixed_toFixed`).
-/
import Khala.Changes

namespace Khala

namespace MinerInfo

variable {A W : Type} {cfg : Config A W}

/-- `return_rate` -/
def returnRate (self : MinerInfo) : FixedPoint := min (self.v / self.ve) 1

def returned (self : MinerInfo) (origStake : ℕ) : ℕ := fromFixed (self.returnRate * toFixed origStake)

/-- Every operation of `calc_final_stake` stays in range. -/
structure FinalStakeFits (info : MinerInfo) (origStake : ℕ) : Prop where
  rate : U64F64.DivFits info.v info.ve
  stake : U64F64.NumFits origStake
  scaled : U64F64.DivFits (U64F64.fromNum origStake) fixed1e12
  product : U64F64.MulFits info.returnRate (toFixed origStake)
  balance : U64F64.MulFits (info.returnRate * toFixed origStake) fixed1e12

/-- What is promised of the final stake: nothing overflows, nothing is lost,
a miner whose `v` is not below `ve` gets its stake back, another its part of it
to within three planck, and more `v` never means less stake. -/
structure FinalStake (cfg : Config A W) (info : MinerInfo) (origStake returned slashed : ℕ) : Prop where
  final : info.calcFinalStake cfg origStake = .ok (returned, slashed)
  fits : info.FinalStakeFits origStake
  sum : returned + slashed = origStake
  whole : info.ve.bits ≤ info.v.bits → slashed = 0
  upper : info.v.bits < info.ve.bits → returned * info.ve.bits ≤ origStake * info.v.bits
  lower : info.v.bits < info.ve.bits → origStake * info.v.bits < (returned + 3) * info.ve.bits
  mono : ∀ v : FixedPoint, info.v.bits ≤ v.bits → v.bits < 2 ^ 64 * info.ve.bits →
    ∃ returned' slashed', { info with v }.calcFinalStake cfg origStake =
    .ok (returned', slashed') ∧ returned ≤ returned'

variable {self : MinerInfo} {origStake : ℕ}

theorem bits_returnRate_le : self.returnRate.bits ≤ 2 ^ 64 := by
  rw [returnRate, U64F64.bits_min, U64F64.bits_one]
  exact min_le_right _ _

theorem bits_returnRate (h : self.v.bits < 2 ^ 64 * self.ve.bits) :
    self.returnRate.bits = min (2 ^ 64 * self.v.bits / self.ve.bits) (2 ^ 64) := by
  have hlt : 2 ^ 64 * self.v.bits / self.ve.bits < 2 ^ 128 := Nat.div_lt_of_lt_mul (by omega)
  rw [returnRate, U64F64.bits_min, U64F64.bits_one, U64F64.bits_div_of_lt hlt]

theorem bits_product : (self.returnRate * toFixed origStake).bits =
    self.returnRate.bits * (toFixed origStake).bits / 2 ^ 64 :=
  U64F64.bits_mul_of_lt (U64F64.mulFits_of_le_one bits_returnRate_le)

/-- The product, in planck, is far from the limit. -/
theorem product_small (ho : origStake < 2 ^ 64) :
    10 ^ 12 * (self.returnRate * toFixed origStake).bits < 2 ^ 128 := by
  have hle := U64F64.bits_mul_le (x := self.returnRate) (y := toFixed origStake) bits_returnRate_le
  rw [bits_toFixed_of_lt ho] at hle
  omega

theorem calcFinalStake_eq (hve : 0 < self.ve.bits) :
    self.calcFinalStake cfg origStake = .ok (self.returned origStake, origStake - self.returned origStake) := by
  have hne : self.ve ≠ 0 := by
    intro he
    simp [he] at hve
  rw [calcFinalStake, Outcome.bind_require hne]
  change (cfg.sub .finalStake origStake (self.returned origStake) >>= fun slashed => _) = _
  have hle : self.returned origStake ≤ origStake := self.returned_le origStake
  rw [cfg.sub_of_le hle]
  rfl

/-- At rate one or more the stake is only converted there and back. -/
theorem returned_of_whole (h : self.v.bits < 2 ^ 64 * self.ve.bits) (hwhole : self.ve.bits ≤ self.v.bits) :
    self.returned origStake = fromFixed (toFixed origStake) := by
  have hve : 0 < self.ve.bits := by omega
  have hrate : self.returnRate.bits = 2 ^ 64 := by
    rw [bits_returnRate h, min_eq_right]
    rw [Nat.le_div_iff_mul_le hve]
    exact Nat.mul_le_mul_left _ hwhole
  have hprod : self.returnRate * toFixed origStake = toFixed origStake := by
    apply U64F64.ext_bits
    rw [bits_product, hrate, Nat.mul_div_cancel_left _ (by norm_num)]
  rw [returned, hprod]

/-- Four truncating divisions in a row: by `ve`, by `10^12`, and twice by `2^64`. -/
theorem scaled_bounds {v ve x r t m n : ℕ} (hve : 0 < ve) (hx : x < 2 ^ 64) (hv : v < ve)
    (hr : r = 2 ^ 64 * v / ve) (ht : t = 2 ^ 64 * x / 10 ^ 12) (hm : m = r * t / 2 ^ 64)
    (hn : n = 10 ^ 12 * m / 2 ^ 64) : n * ve ≤ x * v ∧ x * v < (n + 3) * ve := by
  have hr₁ : r * ve ≤ 2 ^ 64 * v := hr ▸ Nat.div_mul_le_self _ _
  have hr₂ : 2 ^ 64 * v < (r + 1) * ve := by
    rw [hr, Nat.mul_comm _ ve]
    exact Nat.lt_mul_div_succ _ hve
  have hr₃ : r < 2 ^ 64 := Nat.lt_of_mul_lt_mul_right (hr₁.trans_lt (Nat.mul_lt_mul_of_pos_left hv (by norm_num)))
  have ht₁ : 10 ^ 12 * t ≤ 2 ^ 64 * x := by omega
  have ht₂ : 2 ^ 64 * x < 10 ^ 12 * (t + 1) := by omega
  constructor
  · have hle : 2 ^ 64 * 2 ^ 64 * (n * ve) ≤ 2 ^ 64 * 2 ^ 64 * (x * v) := calc
      2 ^ 64 * 2 ^ 64 * (n * ve) = 2 ^ 64 * (2 ^ 64 * n) * ve := by ring
      _ ≤ 10 ^ 12 * (r * t) * ve := Nat.mul_le_mul_right _ (by omega)
      _ = r * ve * (10 ^ 12 * t) := by ring
      _ ≤ 2 ^ 64 * v * (2 ^ 64 * x) := Nat.mul_le_mul hr₁ ht₁
      _ = 2 ^ 64 * 2 ^ 64 * (x * v) := by ring
    exact Nat.le_of_mul_le_mul_left hle (by norm_num)
  · have hstep : 10 ^ 12 * (r * t) + 10 ^ 12 * t + 10 ^ 12 * (r + 1) ≤ 2 ^ 64 * 2 ^ 64 * (n + 3) := by omega
    have hlt : 2 ^ 64 * 2 ^ 64 * (x * v) < 2 ^ 64 * 2 ^ 64 * ((n + 3) * ve) := calc
      2 ^ 64 * 2 ^ 64 * (x * v) = 2 ^ 64 * v * (2 ^ 64 * x) := by ring
      _ < (r + 1) * ve * (10 ^ 12 * (t + 1)) := Nat.mul_lt_mul_of_lt_of_le hr₂ ht₂.le (by omega)
      _ = (10 ^ 12 * (r * t) + 10 ^ 12 * t + 10 ^ 12 * (r + 1)) * ve := by ring
      _ ≤ 2 ^ 64 * 2 ^ 64 * (n + 3) * ve := Nat.mul_le_mul_right _ hstep
      _ = 2 ^ 64 * 2 ^ 64 * ((n + 3) * ve) := by ring
    exact Nat.lt_of_mul_lt_mul_left hlt

/-- The truncations never favour the miner, and take less than three planck. -/
theorem returned_bounds (ho : origStake < 2 ^ 64) (h : self.v.bits < self.ve.bits) :
    self.returned origStake * self.ve.bits ≤ origStake * self.v.bits ∧
      origStake * self.v.bits < (self.returned origStake + 3) * self.ve.bits := by
  have hrate : self.returnRate.bits = 2 ^ 64 * self.v.bits / self.ve.bits := by
    rw [bits_returnRate (by omega), min_eq_left]
    exact Nat.div_le_of_le_mul (by rw [Nat.mul_comm]; exact Nat.mul_le_mul_right _ h.le)
  have hfits : 10 ^ 12 * (self.returnRate * toFixed origStake).bits < 2 ^ 128 := product_small ho
  exact scaled_bounds (by omega) ho h hrate (bits_toFixed_of_lt ho) bits_product (fromFixed_of_lt hfits)

theorem returned_mono {v : FixedPoint} (hle : self.v.bits ≤ v.bits) (hlt : v.bits < 2 ^ 64 * self.ve.bits) :
    self.returned origStake ≤ { self with v }.returned origStake := by
  apply fromFixed_mono
  rw [bits_product, bits_product, bits_returnRate (lt_of_le_of_lt hle hlt), bits_returnRate hlt]
  apply Nat.div_le_div_right
  apply Nat.mul_le_mul_right
  have hdiv : 2 ^ 64 * self.v.bits / self.ve.bits ≤ 2 ^ 64 * v.bits / self.ve.bits :=
    Nat.div_le_div_right (Nat.mul_le_mul_left _ hle)
  change min _ _ ≤ min (2 ^ 64 * v.bits / self.ve.bits) _
  omega

theorem finalStakeFits (hve : 0 < self.ve.bits) (hv : self.v.bits < 2 ^ 64 * self.ve.bits)
    (ho : origStake < 2 ^ 64) :
    self.FinalStakeFits origStake where
  rate := ⟨by omega, Nat.div_lt_of_lt_mul (by omega)⟩
  stake := ho
  scaled := by
    rw [U64F64.DivFits, U64F64.bits_fromNum, bits_fixed1e12]
    omega
  product := U64F64.mulFits_of_le_one bits_returnRate_le
  balance := by
    have hsmall : 10 ^ 12 * (self.returnRate * toFixed origStake).bits < 2 ^ 128 := product_small ho
    rw [U64F64.MulFits, bits_fixed1e12]
    omega

/-- **The final stake is as promised exactly when the miner lost V or `5^12`
divides its stake.** A stake that `5^12` does not divide comes back a planck short. -/
theorem finalStake_iff (hve : 0 < self.ve.bits) (hv : self.v.bits < 2 ^ 64 * self.ve.bits)
    (ho : origStake < 2 ^ 64) :
    (∃ returned slashed, FinalStake cfg self origStake returned slashed) ↔
      self.v.bits < self.ve.bits ∨ 5 ^ 12 ∣ origStake := by
  have heq : self.calcFinalStake cfg origStake = .ok
      (self.returned origStake, origStake - self.returned origStake) :=
    calcFinalStake_eq hve
  constructor
  · rintro ⟨returned, slashed, h⟩
    by_contra hno
    obtain ⟨hlost, hdvd⟩ := not_or.mp hno
    obtain ⟨rfl, rfl⟩ := Prod.mk.inj (Except.ok.inj (h.final.symm.trans heq))
    have hslashed := h.whole (by omega)
    rw [returned_of_whole hv (by omega), fromFixed_toFixed ho, if_neg hdvd] at hslashed
    have hpos : origStake ≠ 0 := by
      intro hz
      simp [hz] at hdvd
    omega
  · intro hcond
    have hle : self.returned origStake ≤ origStake := self.returned_le origStake
    refine ⟨_, _, heq, finalStakeFits hve hv ho, by omega, ?_, ?_, ?_, ?_⟩
    · intro hwhole
      rcases hcond with hlost | hdvd
      · omega
      · rw [returned_of_whole hv hwhole, fromFixed_toFixed ho, if_pos hdvd, Nat.sub_self]
    · exact fun h => (returned_bounds ho h).1
    · exact fun h => (returned_bounds ho h).2
    · exact fun v hmono hlt => ⟨_, _, calcFinalStake_eq hve, returned_mono hmono hlt⟩

end MinerInfo

namespace Demo

/-- A miner that has the V it started with. -/
def unslashed : MinerInfo where
  state := .miningCoolingDown
  ve := U64F64.fromNum 3000
  v := U64F64.fromNum 3000
  vUpdatedAt := 0
  benchmark := ⟨100, 100, 0, 0, 0⟩
  coolDownStart := 1000
  totalReward := 0

end Demo

/-- A stake of a token. -/
theorem finalStake_iff_demo : ∃ returned slashed,
    Demo.unslashed.FinalStake Demo.release 1000000000000 returned slashed :=
  (MinerInfo.finalStake_iff (by decide) (by decide) (by decide)).mpr (.inr (by decide))

/-- A stake of a token and a planck: the planck is slashed. -/
theorem finalStake_not_whole : Demo.unslashed.ve.bits ≤ Demo.unslashed.v.bits ∧
    Demo.unslashed.calcFinalStake Demo.release 1000000000001 = .ok (1000000000000, 1) ∧
    ¬∃ returned slashed, Demo.unslashed.FinalStake Demo.release 1000000000001 returned slashed := by
  have hfinal : Demo.unslashed.calcFinalStake Demo.release 1000000000001 = .ok (1000000000000, 1) := by
    decide +kernel
  refine ⟨le_rfl, hfinal, ?_⟩
  rintro ⟨returned, slashed, h⟩
  obtain ⟨rfl, rfl⟩ := Prod.mk.inj (Except.ok.inj (h.final.symm.trans hfinal))
  exact absurd (h.whole le_rfl) (by decide)

end Khala
