/-
Reachable states of a machine whose steps may be asked to meet a condition.

`ReachWhere init step ok s` is a run to `s` every step of which satisfies
`ok`. An invariant may use that condition at each step.
-/
import Mathlib

namespace Khala

variable {S O : Type} {init : S → Prop} {step : S → O → S → Prop} {ok ok' : S → O → Prop}

/-- Reached from an initial state by steps that satisfy `ok` where they are taken. -/
inductive ReachWhere (init : S → Prop) (step : S → O → S → Prop) (ok : S → O → Prop) : S → Prop
  | init {s} : init s → ReachWhere init step ok s
  | step {s o s'} : ReachWhere init step ok s → ok s o → step s o s' → ReachWhere init step ok s'

namespace ReachWhere

/-- What holds at first and is kept by every admissible step holds of every state reached. -/
theorem invariant {s} (I : S → Prop) (base : ∀ s, init s → I s)
    (keep : ∀ s o s', I s → ok s o → step s o s' → I s') (h : ReachWhere init step ok s) : I s := by
  induction h with
  | init h => exact base _ h
  | step _ hok hs ih => exact keep _ _ _ ih hok hs

theorem mono {s} (h : ReachWhere init step ok s) (hle : ∀ s o, ok s o → ok' s o) :
    ReachWhere init step ok' s := by
  induction h with
  | init h => exact .init h
  | step _ hok hs ih => exact .step ih (hle _ _ hok) hs

/-- `ok` holds along the run of a machine whose operations have one effect. -/
def okAlong (exec : S → O → S) (ok : S → O → Prop) [∀ s o, Decidable (ok s o)] : S → List O → Bool
  | _, [] => true
  | s, o :: os => ok s o && okAlong exec ok (exec s o) os

theorem foldl {exec : S → O → S} [∀ s o, Decidable (ok s o)] {s : S} {os : List O}
    (h : ReachWhere init (fun s o s' => s' = exec s o) ok s) (hok : okAlong exec ok s os = true) :
    ReachWhere init (fun s o s' => s' = exec s o) ok (os.foldl exec s) := by
  induction os generalizing s with
  | nil => exact h
  | cons o os ih =>
    obtain ⟨ho, hos⟩ := Bool.and_eq_true_iff.mp hok
    exact ih (.step h (of_decide_eq_true ho) rfl) hos

end ReachWhere

end Khala
