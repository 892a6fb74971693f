/-
Numbers as bytes of a fixed width, in either order. Two numbers that fit the
width have different bytes.
-/
import Mathlib

namespace Khala

/-- The bytes of a number, the low ones first. -/
def leBytes : ℕ → ℕ → List UInt8
  | 0, _ => []
  | width + 1, n => UInt8.ofNat n :: leBytes width (n / 256)

/-- The bytes of a number, the high ones first. -/
def beBytes (width n : ℕ) : List UInt8 := (leBytes width n).reverse

variable {width m n : ℕ}

theorem length_leBytes (width n : ℕ) : (leBytes width n).length = width := by
  induction width generalizing n with
  | zero => rfl
  | succ width ih => exact congrArg (· + 1) (ih _)

theorem length_beBytes (width n : ℕ) : (beBytes width n).length = width := by
  rw [beBytes, List.length_reverse, length_leBytes]

theorem leBytes_inj (hm : m < 256 ^ width) (hn : n < 256 ^ width)
    (h : leBytes width m = leBytes width n) : m = n := by
  induction width generalizing m n with
  | zero =>
    rw [Nat.pow_zero] at hm hn
    omega
  | succ width ih =>
    rw [Nat.pow_succ] at hm hn
    injection h with hhead htail
    have hrest : m / 256 = n / 256 := ih (by omega) (by omega) htail
    have hlow : m % 256 = n % 256 := by
      have := congrArg UInt8.toNat hhead
      rwa [UInt8.toNat_ofNat', UInt8.toNat_ofNat'] at this
    omega

theorem beBytes_inj (hm : m < 256 ^ width) (hn : n < 256 ^ width)
    (h : beBytes width m = beBytes width n) : m = n :=
  leBytes_inj hm hn (List.reverse_injective h)

end Khala
