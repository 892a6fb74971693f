/-
Balances and shares against fixed-point numbers, dust, and the reward
accumulator (`utils/balance_convert.rs`, `utils/accumulator.rs` and the dust
helpers at the end of `stakepool.rs`).

A balance has 12 decimals: `toFixed` divides by `10^12` and `fromFixed`
multiplies back. A balance of `2^64` or more does not fit the integer part,
of which `toFixed` keeps the low 64 bits.
-/
import Khala.U64F64

namespace Khala

abbrev FixedPoint := U64F64

def fixed1e12 : FixedPoint := U64F64.fromNum (10 ^ 12)

def fromFixed (v : FixedPoint) : ℕ := (v.saturatingMul fixed1e12).toNum

def toFixed (x : ℕ) : FixedPoint := (U64F64.fromNum x).saturatingDiv fixed1e12

/-- `balance_convert::mul` -/
def bmul (x : ℕ) (y : FixedPoint) : ℕ := fromFixed (toFixed x * y)

/-- `balance_convert::div`; its callers exclude a zero divisor, at which the code panics. -/
def bdiv (x : ℕ) (y : FixedPoint) : ℕ := fromFixed (toFixed x / y)

/-! ## Dust -/

def balanceCloseToZero (n : ℕ) : Bool := n ≤ 1000

def balancesNearlyEqual (a b : ℕ) : Bool :=
  if a > b then balanceCloseToZero (a - b) else balanceCloseToZero (b - a)

def isNondustBalance (n : ℕ) : Bool := !balanceCloseToZero n

/-- The balance without its dust, and the dust. -/
def extractDust (n : ℕ) : ℕ × ℕ := if balanceCloseToZero n then (0, n) else (n, 0)

theorem isNondustBalance_iff {n : ℕ} : isNondustBalance n = true ↔ 1000 < n := by
  simp [isNondustBalance, balanceCloseToZero]

theorem balancesNearlyEqual_iff {a b : ℕ} : balancesNearlyEqual a b = true ↔ a ≤ b + 1000 ∧ b ≤ a + 1000 := by
  unfold balancesNearlyEqual balanceCloseToZero
  split
  · rw [decide_eq_true_iff]
    omega
  · rw [decide_eq_true_iff]
    omega

theorem extractDust_of_le {n : ℕ} (h : n ≤ 1000) : extractDust n = (0, n) := by
  simp [extractDust, balanceCloseToZero, h]

theorem extractDust_of_lt {n : ℕ} (h : 1000 < n) : extractDust n = (n, 0) := by
  simp [extractDust, balanceCloseToZero, Nat.not_le.mpr h]

theorem extractDust_add (n : ℕ) : (extractDust n).1 + (extractDust n).2 = n := by
  unfold extractDust; split <;> simp

theorem extractDust_fst_le (n : ℕ) : (extractDust n).1 ≤ n := by
  unfold extractDust; split <;> simp

/-- What is left without dust is nothing or more than dust. -/
theorem extractDust_fst_cases (n : ℕ) :
    (extractDust n).1 = 0 ∧ n ≤ 1000 ∨ (extractDust n).1 = n ∧ 1000 < n := by
  by_cases h : n ≤ 1000
  · exact .inl ⟨by rw [extractDust_of_le h], h⟩
  · exact .inr ⟨by rw [extractDust_of_lt (by omega)], by omega⟩

theorem extractDust_fst_mono {m n : ℕ} (h : m ≤ n) : (extractDust m).1 ≤ (extractDust n).1 := by
  rcases extractDust_fst_cases m with ⟨hm, _⟩ | ⟨hm, _⟩ <;>
    rcases extractDust_fst_cases n with ⟨hn, _⟩ | ⟨hn, _⟩ <;> omega

/-! ## Conversions, in bits -/

theorem bits_fixed1e12 : fixed1e12.bits = 2 ^ 64 * 10 ^ 12 := by
  rw [fixed1e12, U64F64.bits_fromNum, Nat.mod_eq_of_lt (by norm_num)]

theorem bits_toFixed (x : ℕ) : (toFixed x).bits = 2 ^ 64 * (x % 2 ^ 64) / 10 ^ 12 := by
  have h : (toFixed x).bits =
      min (2 ^ 64 * (2 ^ 64 * (x % 2 ^ 64)) / (2 ^ 64 * 10 ^ 12)) (2 ^ 128 - 1) := by
    rw [toFixed, U64F64.saturatingDiv, U64F64.bits_saturate, U64F64.bits_fromNum, bits_fixed1e12]
  rw [h, Nat.mul_div_mul_left _ _ (by norm_num : 0 < 2 ^ 64)]
  omega

theorem bits_toFixed_of_lt {x : ℕ} (h : x < 2 ^ 64) : (toFixed x).bits = 2 ^ 64 * x / 10 ^ 12 := by
  rw [bits_toFixed, Nat.mod_eq_of_lt h]

theorem fromFixed_eq (v : FixedPoint) : fromFixed v = min (10 ^ 12 * v.bits) (2 ^ 128 - 1) / 2 ^ 64 := by
  have h : 2 ^ 64 * 10 ^ 12 * v.bits / 2 ^ 64 = 10 ^ 12 * v.bits := by
    rw [Nat.mul_assoc, Nat.mul_div_cancel_left _ (by norm_num)]
  rw [fromFixed, U64F64.toNum, U64F64.saturatingMul, U64F64.bits_saturate, bits_fixed1e12, h]

theorem fromFixed_le (v : FixedPoint) : fromFixed v ≤ 10 ^ 12 * v.bits / 2 ^ 64 := by
  rw [fromFixed_eq]
  exact Nat.div_le_div_right (Nat.min_le_left _ _)

theorem fromFixed_lt (v : FixedPoint) : fromFixed v < 2 ^ 64 := by
  rw [fromFixed_eq]; omega

theorem fromFixed_of_lt {v : FixedPoint} (h : 10 ^ 12 * v.bits < 2 ^ 128) :
    fromFixed v = 10 ^ 12 * v.bits / 2 ^ 64 := by
  rw [fromFixed_eq]; omega

theorem fromFixed_mono {v w : FixedPoint} (h : v.bits ≤ w.bits) : fromFixed v ≤ fromFixed w := by
  rw [fromFixed_eq, fromFixed_eq]
  exact Nat.div_le_div_right (by omega)

/-- A balance converted there and back only shrinks. -/
theorem fromFixed_le_of_bits_le {v : FixedPoint} {x : ℕ} (h : v.bits ≤ 2 ^ 64 * x / 10 ^ 12) :
    fromFixed v ≤ x := by
  refine (fromFixed_le v).trans ?_
  omega

/-- It comes back whole if `5^12` divides it, and a planck short otherwise. -/
theorem fromFixed_toFixed {x : ℕ} (h : x < 2 ^ 64) : fromFixed (toFixed x) = if 5 ^ 12 ∣ x then x else x - 1 := by
  have hbits := bits_toFixed_of_lt h
  rw [fromFixed_of_lt (by rw [hbits]; omega), hbits]
  have hle : 10 ^ 12 * (2 ^ 64 * x / 10 ^ 12) ≤ 2 ^ 64 * x := Nat.mul_div_le _ _
  have hlt : 2 ^ 64 * x < 10 ^ 12 * (2 ^ 64 * x / 10 ^ 12) + 10 ^ 12 := Nat.lt_mul_div_succ _ (by norm_num)
  split
  · next hd =>
    have hdvd : 2 ^ 12 * 5 ^ 12 ∣ 2 ^ 64 * x := Nat.mul_dvd_mul (by norm_num) hd
    rw [Nat.mul_div_cancel' (show 10 ^ 12 ∣ 2 ^ 64 * x by
      norm_num at hdvd ⊢; exact hdvd), Nat.mul_div_cancel_left _ (by norm_num)]
  · next hd =>
    have hne : 10 ^ 12 * (2 ^ 64 * x / 10 ^ 12) ≠ 2 ^ 64 * x := by
      intro he
      have hdvd : 5 ^ 12 ∣ 2 ^ 64 * x := Nat.dvd_trans (by norm_num) (Dvd.intro _ he)
      exact hd (Nat.Coprime.dvd_of_dvd_mul_left (by norm_num) hdvd)
    omega

/-- A part of a balance is at most the balance. -/
theorem fromFixed_part_le {rate : FixedPoint} (h : rate.bits ≤ 2 ^ 64) (x : ℕ) :
    fromFixed (rate * toFixed x) ≤ x := by
  refine fromFixed_le_of_bits_le ((U64F64.bits_mul_le h).trans ?_)
  rw [bits_toFixed]
  exact Nat.div_le_div_right (Nat.mul_le_mul_left _ (Nat.mod_le _ _))

theorem toFixed_zero : toFixed 0 = 0 := U64F64.ext_bits (by rw [bits_toFixed]; rfl)

theorem bmul_zero (y : FixedPoint) : bmul 0 y = 0 := by
  have h : toFixed 0 * y = 0 := by
    rw [toFixed_zero]
    refine U64F64.ext_bits ?_
    rw [U64F64.bits_mul, U64F64.bits_zero, Nat.zero_mul]
    rfl
  rw [bmul, h]
  rfl

theorem bits_toFixed_pos {x : ℕ} (h : x < 2 ^ 64) (h0 : 0 < x) : 0 < (toFixed x).bits := by
  rw [bits_toFixed_of_lt h]
  omega

/-! ## Permill -/

/-- Parts per million. -/
structure Permill where
  parts : ℕ
  le : parts ≤ 1000000
deriving DecidableEq

namespace Permill

/-- `unwrap_or_default` of a missing one -/
def zero : Permill := ⟨0, by omega⟩

/-- The part of `x`, to the nearest, half down. -/
def mul (p : Permill) (x : ℕ) : ℕ :=
  let remMul := x % 1000000 * p.parts
  x / 1000000 * p.parts + (remMul / 1000000 + if remMul % 1000000 > 500000 then 1 else 0)

theorem mul_le (p : Permill) (x : ℕ) : p.mul x ≤ x := by
  have hp := p.le
  have h1 : x / 1000000 * p.parts ≤ x / 1000000 * 1000000 := Nat.mul_le_mul_left _ hp
  have h2 : x % 1000000 * p.parts ≤ x % 1000000 * 1000000 := Nat.mul_le_mul_left _ hp
  have h3 : x % 1000000 * p.parts / 1000000 +
      (if x % 1000000 * p.parts % 1000000 > 500000 then 1 else 0) ≤ x % 1000000 := by
    split <;> omega
  have h4 := Nat.div_add_mod x 1000000
  simp only [mul]
  omega

end Permill

/-! ## The reward accumulator -/

namespace Accumulator

/-- The debt at which nothing is pending. -/
def clearPending (share : ℕ) (acc : FixedPoint) : ℕ := bmul share acc

def distribute (totalShare : ℕ) (acc : FixedPoint) (v : ℕ) : FixedPoint :=
  acc + toFixed v / toFixed totalShare

end Accumulator

end Khala
