/-
Unsigned fixed-point numbers with 64 integer and 64 fractional bits.

A number is its 128 bits; the value is `bits / 2^64`. Multiplication and
division truncate. Out of range, the plain operations keep the low 128 bits
(what a build without overflow checks does), `saturatingMul` and
`saturatingDiv` stop at the greatest number, and `checkedDiv` answers `none`,
as it does for a zero divisor.

Constant factors stand on the left: with one on the right, comparing two terms
by unfolding them would count it down.
-/
import Mathlib

namespace Khala

structure U64F64 where
  bits : ℕ
  lt : bits < 2 ^ 128
deriving DecidableEq

namespace U64F64

theorem ext_bits {x y : U64F64} (h : x.bits = y.bits) : x = y := by
  cases x; cases y; cases h; rfl

/-- The number with the low 128 bits of `n`. -/
def ofBits (n : ℕ) : U64F64 := ⟨n % 2 ^ 128, Nat.mod_lt _ (by norm_num)⟩

/-- The number with bits `n`, or the greatest one. -/
def saturate (n : ℕ) : U64F64 := ⟨min n (2 ^ 128 - 1), by omega⟩

/-- The integer `n`, of which only the low 64 bits fit. -/
def fromNum (n : ℕ) : U64F64 := ofBits (2 ^ 64 * n)

/-- The integer part. -/
def toNum (x : U64F64) : ℕ := x.bits / 2 ^ 64

instance : Zero U64F64 := ⟨⟨0, by norm_num⟩⟩
instance : One U64F64 := ⟨⟨2 ^ 64, by norm_num⟩⟩
instance : Add U64F64 := ⟨fun x y => ofBits (x.bits + y.bits)⟩
instance : Sub U64F64 := ⟨fun x y => ofBits (2 ^ 128 + x.bits - y.bits)⟩
instance : Mul U64F64 := ⟨fun x y => ofBits (x.bits * y.bits / 2 ^ 64)⟩
instance : Div U64F64 := ⟨fun x y => ofBits (2 ^ 64 * x.bits / y.bits)⟩
instance : Min U64F64 := ⟨fun x y => if x.bits ≤ y.bits then x else y⟩

def saturatingMul (x y : U64F64) : U64F64 := saturate (y.bits * x.bits / 2 ^ 64)

def saturatingDiv (x y : U64F64) : U64F64 := saturate (2 ^ 64 * x.bits / y.bits)

/-- The quotient, or `none` when the divisor is zero or the quotient does not fit. -/
def checkedDiv (x y : U64F64) : Option U64F64 :=
  if y.bits = 0 then none
  else if h : 2 ^ 64 * x.bits / y.bits < 2 ^ 128 then some ⟨_, h⟩
  else none

/-! ## What stays in range -/

/-- The integer `n` has a number. -/
def NumFits (n : ℕ) : Prop := n < 2 ^ 64

def AddFits (x y : U64F64) : Prop := x.bits + y.bits < 2 ^ 128

def MulFits (x y : U64F64) : Prop := x.bits * y.bits / 2 ^ 64 < 2 ^ 128

def DivFits (x y : U64F64) : Prop := y.bits ≠ 0 ∧ 2 ^ 64 * x.bits / y.bits < 2 ^ 128

instance (n : ℕ) : Decidable (NumFits n) := inferInstanceAs (Decidable (_ < _))
instance (x y : U64F64) : Decidable (AddFits x y) := inferInstanceAs (Decidable (_ < _))
instance (x y : U64F64) : Decidable (MulFits x y) := inferInstanceAs (Decidable (_ < _))
instance (x y : U64F64) : Decidable (DivFits x y) := inferInstanceAs (Decidable (_ ∧ _))

/-! ## Bits -/

@[simp] theorem bits_zero : (0 : U64F64).bits = 0 := rfl
@[simp] theorem bits_one : (1 : U64F64).bits = 2 ^ 64 := rfl
theorem bits_ofBits (n : ℕ) : (ofBits n).bits = n % 2 ^ 128 := rfl
theorem bits_saturate (n : ℕ) : (saturate n).bits = min n (2 ^ 128 - 1) := rfl
theorem bits_mul (x y : U64F64) : (x * y).bits = x.bits * y.bits / 2 ^ 64 % 2 ^ 128 := rfl
theorem bits_div (x y : U64F64) : (x / y).bits = 2 ^ 64 * x.bits / y.bits % 2 ^ 128 := rfl

theorem bits_min (x y : U64F64) : (min x y).bits = min x.bits y.bits := by
  change (if x.bits ≤ y.bits then x else y).bits = _
  split <;> omega

theorem bits_fromNum (n : ℕ) : (fromNum n).bits = 2 ^ 64 * (n % 2 ^ 64) := by
  rw [fromNum, bits_ofBits, show (2 : ℕ) ^ 128 = 2 ^ 64 * 2 ^ 64 by norm_num, Nat.mul_mod_mul_left]

theorem bits_eq_zero {x : U64F64} : x.bits = 0 ↔ x = 0 :=
  ⟨fun h => ext_bits h, fun h => h ▸ rfl⟩

theorem checkedDiv_eq_some {x y q : U64F64} :
    checkedDiv x y = some q ↔ y.bits ≠ 0 ∧ q.bits = 2 ^ 64 * x.bits / y.bits := by
  unfold checkedDiv
  split
  · next h => simp [h]
  · next h =>
    split
    · next hlt =>
      simp only [Option.some.injEq, ne_eq, h, not_false_eq_true, true_and]
      exact ⟨fun he => he ▸ rfl, fun he => ext_bits he.symm⟩
    · next hlt =>
      simp only [reduceCtorEq, ne_eq, h, not_false_eq_true, true_and, false_iff]
      exact fun he => hlt (he ▸ q.lt)

theorem checkedDiv_eq_none {x y : U64F64} :
    checkedDiv x y = none ↔ y.bits = 0 ∨ 2 ^ 128 ≤ 2 ^ 64 * x.bits / y.bits := by
  unfold checkedDiv
  split
  · next h => simp [h]
  · next h =>
    split
    · next hlt => simp only [reduceCtorEq, h, false_or, Nat.not_le.mpr hlt]
    · next hlt => simp only [h, false_or, Nat.not_lt.mp hlt]

/-- A product that fits is exact up to truncation. -/
theorem bits_mul_of_lt {x y : U64F64} (h : x.bits * y.bits / 2 ^ 64 < 2 ^ 128) :
    (x * y).bits = x.bits * y.bits / 2 ^ 64 := by rw [bits_mul, Nat.mod_eq_of_lt h]

/-- A quotient that fits is exact up to truncation. -/
theorem bits_div_of_lt {x y : U64F64} (h : 2 ^ 64 * x.bits / y.bits < 2 ^ 128) :
    (x / y).bits = 2 ^ 64 * x.bits / y.bits := by rw [bits_div, Nat.mod_eq_of_lt h]

/-- A factor of at most one makes nothing greater. -/
theorem bits_mul_le {x y : U64F64} (hx : x.bits ≤ 2 ^ 64) : (x * y).bits ≤ y.bits := by
  rw [bits_mul]
  refine (Nat.mod_le _ _).trans (Nat.div_le_of_le_mul ?_)
  exact Nat.mul_le_mul_right _ hx

/-- Nor does it take anything out of range. -/
theorem mulFits_of_le_one {x y : U64F64} (hx : x.bits ≤ 2 ^ 64) : MulFits x y := by
  have hle : x.bits * y.bits / 2 ^ 64 ≤ y.bits := Nat.div_le_of_le_mul (Nat.mul_le_mul_right _ hx)
  exact lt_of_le_of_lt hle y.lt

end U64F64

end Khala
