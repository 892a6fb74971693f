/-
Rules for computations that may fail, as values of `Except`.

`Ends x Q E` is the whole account of one computation: a result satisfies `Q`,
a failure satisfies `E`. A computation's rules follow its shape (`pure`,
`throw`, `bind`, a loop over a list); the equations of the first section take
a successful run apart instead.
-/
import Mathlib

namespace Khala

namespace Outcome

variable {ε α β : Type}

/-! ## Successful runs -/

theorem pure_ok {a b : α} : (pure a : Except ε α) = .ok b ↔ a = b := by
  change Except.ok a = Except.ok b ↔ a = b
  exact ⟨fun h => Except.ok.inj h, fun h => h ▸ rfl⟩

theorem bind_ok {x : Except ε α} {f : α → Except ε β} {b : β} :
    (x >>= f) = .ok b ↔ ∃ a, x = .ok a ∧ f a = .ok b := by
  cases x with
  | ok a => exact ⟨fun h => ⟨a, rfl, h⟩, fun ⟨_, h, h'⟩ => by cases h; exact h'⟩
  | error e => exact ⟨nofun, nofun⟩

theorem bind_error {x : Except ε α} {f : α → Except ε β} {e : ε} :
    (x >>= f) = .error e ↔ x = .error e ∨ ∃ a, x = .ok a ∧ f a = .error e := by
  cases x with
  | ok a =>
    refine ⟨fun h => .inr ⟨a, rfl, h⟩, fun h => ?_⟩
    rcases h with h | ⟨_, h, h'⟩
    · cases h
    · cases h; exact h'
  | error e' =>
    refine ⟨fun h => by cases h; exact .inl rfl, fun h => ?_⟩
    rcases h with h | ⟨_, h, _⟩
    · cases h; rfl
    · cases h

theorem bind_congr_ok {x : Except ε α} {f g : α → Except ε β} (h : ∀ a, x = .ok a → f a = g a) :
    (x >>= f) = (x >>= g) := by
  cases x with
  | ok a => exact h a rfl
  | error e => rfl

/-- Where a run does not fail with `e`, it may go on in another way that agrees with it wherever the first
does not fail with `e`. -/
theorem bind_congr_ne {x : Except ε α} {f g : α → Except ε β} {e : ε} (h : (x >>= f) ≠ .error e)
    (hfg : ∀ a, x = .ok a → f a ≠ .error e → g a = f a) : (x >>= g) = (x >>= f) := by
  cases x with
  | ok a => exact hfg a rfl h
  | error e' => rfl

/-- Fails with `e` unless `p`. -/
def require (p : Prop) [Decidable p] (e : ε) : Except ε Unit := if p then pure () else throw e

theorem require_ok {p : Prop} [Decidable p] {e : ε} {u : Unit} : require p e = .ok u ↔ p := by
  unfold require
  split
  · next h => exact ⟨fun _ => h, fun _ => rfl⟩
  · next h => exact ⟨nofun, fun h' => absurd h' h⟩

theorem require_error {p : Prop} [Decidable p] {e e' : ε} : require p e = .error e' ↔ ¬p ∧ e = e' := by
  unfold require
  split
  · next h => exact ⟨nofun, fun h' => absurd h h'.1⟩
  · next h => exact ⟨fun h' => ⟨h, Except.error.inj h'⟩, fun h' => h'.2 ▸ rfl⟩

theorem bind_require {p : Prop} [Decidable p] {e : ε} {f : Unit → Except ε β} (h : p) :
    (require p e >>= f) = f () := by
  rw [require, if_pos h]
  rfl

theorem bind_require_not {p : Prop} [Decidable p] {e : ε} {f : Unit → Except ε β} (h : ¬p) :
    (require p e >>= f) = .error e := by
  rw [require, if_neg h]
  rfl

/-- The value, or failure with `e`. -/
def get (x : Option α) (e : ε) : Except ε α := x.elim (throw e) pure

theorem get_ok {x : Option α} {e : ε} {a : α} : get x e = .ok a ↔ x = some a := by
  cases x with
  | none => exact ⟨nofun, nofun⟩
  | some b =>
    refine pure_ok.trans ⟨fun h => h ▸ rfl, fun h => ?_⟩
    cases h; rfl

theorem get_error {x : Option α} {e e' : ε} : get x e = .error e' ↔ x = none ∧ e = e' := by
  cases x with
  | none => exact ⟨fun h => ⟨rfl, Except.error.inj h⟩, fun h => h.2 ▸ rfl⟩
  | some b => exact ⟨nofun, nofun⟩

/-! ## Failures -/

/-- What `x` failed with. -/
def failure (x : Except ε α) : Option ε :=
  match x with
  | .ok _ => none
  | .error e => some e

theorem failure_eq_some {x : Except ε α} {e : ε} : failure x = some e ↔ x = .error e := by
  cases x with
  | ok a => exact ⟨nofun, nofun⟩
  | error e' => exact ⟨fun h => congrArg _ (Option.some.inj h), fun h => congrArg _ (Except.error.inj h)⟩

/-! ## Results and failures together -/

/-- A result of `x` satisfies `Q`, a failure `E`. -/
def Ends (x : Except ε α) (Q : α → Prop) (E : ε → Prop) : Prop :=
  match x with
  | .ok a => Q a
  | .error e => E e

variable {x : Except ε α} {f : α → Except ε β} {Q Q' : α → Prop} {R : β → Prop} {E E' : ε → Prop}

theorem ends_iff : Ends x Q E ↔ (∀ a, x = .ok a → Q a) ∧ ∀ e, x = .error e → E e := by
  cases x with
  | ok a => exact ⟨fun h => ⟨fun _ he => Except.ok.inj he ▸ h, nofun⟩, fun h => h.1 a rfl⟩
  | error e => exact ⟨fun h => ⟨nofun, fun _ he => Except.error.inj he ▸ h⟩, fun h => h.2 e rfl⟩

theorem Ends.ok (h : Ends x Q E) {a : α} (ha : x = .ok a) : Q a := (ends_iff.mp h).1 a ha

theorem Ends.error (h : Ends x Q E) {e : ε} (he : x = .error e) : E e := (ends_iff.mp h).2 e he

/-- The result is the computation's. -/
theorem Ends.result (h : Ends x Q E) : Ends x (fun a => x = .ok a ∧ Q a) E :=
  ends_iff.mpr ⟨fun _ ha => ⟨ha, h.ok ha⟩, fun _ he => h.error he⟩

theorem Ends.pure {a : α} (h : Q a) : Ends (pure a : Except ε α) Q E := h

theorem Ends.mono (h : Ends x Q E) (hQ : ∀ a, Q a → Q' a) (hE : ∀ e, E e → E' e) : Ends x Q' E' :=
  ends_iff.mpr ⟨fun a ha => hQ a (h.ok ha), fun e he => hE e (h.error he)⟩

theorem Ends.bind (h : Ends x Q E) (hf : ∀ a, Q a → Ends (f a) R E) : Ends (x >>= f) R E := by
  cases x with
  | ok a => exact hf a h
  | error e => exact h

theorem Ends.require {p : Prop} [Decidable p] {e : ε} (h : ¬p → E e) :
    Ends (require p e) (fun _ => p) E :=
  ends_iff.mpr ⟨fun _ hu => require_ok.mp hu, fun _ he => (require_error.mp he).2 ▸ h (require_error.mp he).1⟩

theorem Ends.get {o : Option α} {e : ε} (h : o = none → E e) : Ends (get o e) (fun a => o = some a) E :=
  ends_iff.mpr ⟨fun _ ha => get_ok.mp ha, fun _ he => (get_error.mp he).2 ▸ h (get_error.mp he).1⟩

/-- What is there is got. -/
theorem Ends.get_of {o : Option α} {e : ε} {a : α} (h : o = some a) :
    Ends (Outcome.get o e) (fun b => b = a) E := by
  rw [h]
  rfl

/-- The loop rule: what a pass keeps from any of the list's elements, the loop keeps. -/
theorem Ends.foldlM {g : β → α → Except ε β} {l : List α} {b : β}
    (step : ∀ b a, a ∈ l → R b → Ends (g b a) R E) (hb : R b) : Ends (l.foldlM g b) R E := by
  induction l generalizing b with
  | nil => exact hb
  | cons a l ih =>
    rw [List.foldlM_cons]
    exact (step b a (by simp) hb).bind fun b' hb' => ih (fun b a ha => step b a (by simp [ha])) hb'

/-- The loop rule with what is left to do. -/
theorem Ends.foldlM_rest {R : List α → β → Prop} {g : β → α → Except ε β} {l : List α} {b : β}
    (step : ∀ a rest b, R (a :: rest) b → Ends (g b a) (R rest) E) (hb : R l b) :
    Ends (l.foldlM g b) (R []) E := by
  induction l generalizing b with
  | nil => exact hb
  | cons a l ih =>
    rw [List.foldlM_cons]
    exact (step a l b hb).bind fun b' hb' => ih hb'

end Outcome

end Khala
