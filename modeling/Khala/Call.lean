/-
Calls that write to storage and may err midway.

Nothing rolls a call back: what it wrote before an error stays. `Ends` says
what holds of the storage when a call ends well and when it errs; a proof goes
through a call with one rule for each operation. A call that only appends to a log
does the same on every log.
-/
import Mathlib

namespace Khala

/-- A call on the storage `S`, which stays as the call leaves it also after an error. -/
def Call (S E α : Type) : Type := S → Except E α × S

namespace Call

variable {S E α β : Type}

instance : Monad (Call S E) where
  pure a := fun s => (.ok a, s)
  bind x f := fun s => match x s with
    | (.ok a, s') => f a s'
    | (.error e, s') => (.error e, s')

instance : MonadExcept E (Call S E) where
  throw e := fun s => (.error e, s)
  tryCatch x handle := fun s => match x s with
    | (.ok a, s') => (.ok a, s')
    | (.error e, s') => handle e s'

def read : Call S E S := fun s => (.ok s, s)

def write (f : S → S) : Call S E Unit := fun s => (.ok (), f s)

def ensure (p : Prop) [Decidable p] (e : E) : Call S E Unit := if p then pure () else throw e

/-- What a computation that writes nothing returns. -/
def lift (x : Except E α) : Call S E α := fun s => (x, s)

def unwrap (x : Option α) (e : E) : Call S E α := x.elim (throw e) pure

/-- An error rolls back. -/
def transactional (x : Call S E α) : Call S E α := fun s => match x s with
  | (.ok a, s') => (.ok a, s')
  | (.error e, _) => (.error e, s)

/-- A call on a part of the storage. -/
def zoom {T : Type} (get : S → T) (put : S → T → S) (x : Call T E α) : Call S E α := fun s =>
  let ended := x (get s)
  (ended.1, put s ended.2)

/-! ## What a call comes to -/

section Run

variable {x : Call S E α} {f : α → Call S E β} {s s' : S}

theorem bind_ok {a : α} {t : S} (h : x s = (.ok a, t)) : (x >>= f) s = f a t := by
  change (match x s with
    | (.ok a, s') => f a s'
    | (.error e, s') => (.error e, s')) = _
  rw [h]

theorem bind_error {e : E} (h : x s = (.error e, s')) : (x >>= f) s = (.error e, s') := by
  change (match x s with
    | (.ok a, s') => f a s'
    | (.error e, s') => (.error e, s')) = _
  rw [h]

theorem unwrap_some {o : Option α} {a : α} {e : E} (h : o = some a) :
    (unwrap o e : Call S E α) s = (.ok a, s) := by
  rw [h]
  rfl

theorem unwrap_none {o : Option α} {e : E} (h : o = none) : (unwrap o e : Call S E α) s = (.error e, s) := by
  rw [h]
  rfl

theorem ensure_of {p : Prop} [Decidable p] {e : E} (h : p) : (ensure p e : Call S E Unit) s = (.ok (), s) := by
  rw [ensure, if_pos h]
  rfl

theorem ensure_not {p : Prop} [Decidable p] {e : E} (h : ¬p) : (ensure p e : Call S E Unit) s = (.error e, s) := by
  rw [ensure, if_neg h]
  rfl

theorem lift_ok {y : Except E α} {a : α} (h : y = .ok a) : (lift y : Call S E α) s = (.ok a, s) := by
  rw [h]
  rfl

theorem lift_error {y : Except E α} {e : E} (h : y = .error e) : (lift y : Call S E α) s = (.error e, s) := by
  rw [h]
  rfl

end Run

/-! ## Rules -/

/-- Started on `s`, the call ends well with `Q`, or errs with `R`. -/
def Ends (x : Call S E α) (s : S) (Q : α → S → Prop) (R : E → S → Prop) : Prop :=
  match x s with
  | (.ok a, s') => Q a s'
  | (.error e, s') => R e s'

variable {x : Call S E α} {s s' : S} {Q Q' : α → S → Prop} {R R' : E → S → Prop}

theorem Ends.ok (h : Ends x s Q R) {a : α} (hx : x s = (.ok a, s')) : Q a s' := by
  unfold Ends at h
  rwa [hx] at h

theorem Ends.error (h : Ends x s Q R) {e : E} (hx : x s = (.error e, s')) : R e s' := by
  unfold Ends at h
  rwa [hx] at h

/-- What holds however the call ends. -/
theorem Ends.state {I : S → Prop} (h : Ends x s (fun _ s' => I s') fun _ s' => I s') : I (x s).2 := by
  unfold Ends at h
  split at h
  · next heq => rwa [heq]
  · next heq => rwa [heq]

theorem ends_of (hok : ∀ a s', x s = (.ok a, s') → Q a s') (herr : ∀ e s', x s = (.error e, s') → R e s') :
    Ends x s Q R := by
  unfold Ends
  split
  · next a s' h => exact hok a s' h
  · next e s' h => exact herr e s' h

theorem Ends.mono (h : Ends x s Q R) (hQ : ∀ a s', Q a s' → Q' a s') (hR : ∀ e s', R e s' → R' e s') :
    Ends x s Q' R' :=
  ends_of (fun a s' hx => hQ a s' (h.ok hx)) fun e s' hx => hR e s' (h.error hx)

theorem Ends.pure {a : α} (h : Q a s) : Ends (pure a : Call S E α) s Q R := h

theorem Ends.throw {e : E} (h : R e s) : Ends (throw e : Call S E α) s Q R := h

theorem Ends.bind {f : α → Call S E β} {T : β → S → Prop} (h : Ends x s Q R)
    (hf : ∀ a s', Q a s' → Ends (f a) s' T R) : Ends (x >>= f) s T R := by
  unfold Ends at h
  change match (match x s with
    | (.ok a, s') => f a s'
    | (.error e, s') => (.error e, s')) with
    | (.ok a, s') => T a s'
    | (.error e, s') => R e s'
  split at h
  · next a s' _ => exact hf a s' h
  · exact h

theorem Ends.read {T : S → S → Prop} {R : E → S → Prop} (h : T s s) : Ends (read : Call S E S) s T R := h

theorem Ends.write {f : S → S} {T : Unit → S → Prop} {R : E → S → Prop} (h : T () (f s)) :
    Ends (write f : Call S E Unit) s T R := h

theorem Ends.ensure {p : Prop} [Decidable p] {e : E} {R : E → S → Prop} (h : ¬p → R e s) :
    Ends (ensure p e : Call S E Unit) s (fun _ s' => p ∧ s' = s) R := by
  unfold Call.ensure
  split
  · next hp => exact ⟨hp, rfl⟩
  · next hp => exact h hp

theorem Ends.unwrap {o : Option α} {e : E} (h : o = none → R e s) :
    Ends (unwrap o e) s (fun a s' => o = some a ∧ s' = s) R := by
  cases o with
  | none => exact h rfl
  | some a => exact ⟨rfl, rfl⟩

theorem Ends.lift {y : Except E α} (h : ∀ e, y = .error e → R e s) :
    Ends (lift y) s (fun a s' => y = .ok a ∧ s' = s) R := by
  cases y with
  | ok a => exact ⟨rfl, rfl⟩
  | error e => exact h e rfl

/-! Rules for an operation with what follows it. -/

variable {f : α → Call S E β} {T : β → S → Prop}

theorem Ends.read_then {f : S → Call S E β} (h : (f s).Ends s T R) : Ends (Call.read >>= f) s T R := h

theorem Ends.write_then {g : S → S} {f : Unit → Call S E β} (h : (f ()).Ends (g s) T R) :
    Ends (Call.write g >>= f) s T R := h

theorem Ends.ensure_then {p : Prop} [Decidable p] {e : E} {f : Unit → Call S E β} (herr : ¬p → R e s)
    (h : p → (f ()).Ends s T R) : Ends (Call.ensure p e >>= f) s T R := by
  refine Ends.bind (Ends.ensure herr) ?_
  rintro _ _ ⟨hp, rfl⟩
  exact h hp

theorem Ends.unwrap_then {o : Option α} {e : E} (herr : o = none → R e s)
    (h : ∀ a, o = some a → (f a).Ends s T R) :
    Ends (Call.unwrap o e >>= f) s T R := by
  refine Ends.bind (Ends.unwrap herr) ?_
  rintro a _ ⟨ho, rfl⟩
  exact h a ho

theorem Ends.lift_then {y : Except E α} (herr : ∀ e, y = .error e → R e s)
    (h : ∀ a, y = .ok a → (f a).Ends s T R) :
    Ends (Call.lift y >>= f) s T R := by
  refine Ends.bind (Ends.lift herr) ?_
  rintro a _ ⟨hy, rfl⟩
  exact h a hy

/-- An error leaves everything as it was. -/
theorem Ends.transactional (h : Ends x s Q R) (hR : ∀ e, R' e s) : Ends (Call.transactional x) s Q R' := by
  refine ends_of (fun a s' hx => ?_) fun e s' hx => ?_
  · unfold Call.transactional at hx
    split at hx
    · next h' =>
      cases hx
      exact h.ok h'
    · cases hx
  · unfold Call.transactional at hx
    split at hx
    · cases hx
    · cases hx
      exact hR e

theorem Ends.zoom {S' : Type} {get : S' → S} {put : S' → S → S'} {t : S'} (h : Ends x (get t) Q R) :
    Ends (Call.zoom get put x) t (fun a t' => ∃ s', Q a s' ∧ t' = put t s') fun e t' =>
    ∃ s', R e s' ∧ t' = put t s' := by
  refine ends_of (fun a t' hx => ?_) fun e t' hx => ?_
  · obtain ⟨ha, ht⟩ := Prod.ext_iff.mp hx
    exact ⟨_, h.ok (Prod.ext ha rfl), ht.symm⟩
  · obtain ⟨he, ht⟩ := Prod.ext_iff.mp hx
    exact ⟨_, h.error (Prod.ext he rfl), ht.symm⟩

/-! ## Invariants -/

/-- Started where `I` holds, the call ends where `I` holds, well or not. -/
def Keeps (x : Call S E α) (I : S → Prop) : Prop := ∀ s, I s → x.Ends s (fun _ s' => I s') fun _ s' => I s'

variable {I : S → Prop}

theorem Keeps.state (h : x.Keeps I) (hs : I s) : I (x s).2 := (h s hs).state

theorem Keeps.throw (e : E) : (MonadExcept.throw e : Call S E α).Keeps I := fun _ hs => hs

theorem Keeps.pure (a : α) : (Pure.pure a : Call S E α).Keeps I := fun _ hs => hs

theorem Keeps.lift (y : Except E α) : (Call.lift y : Call S E α).Keeps I := by
  intro s hs
  cases y with
  | ok => exact hs
  | error => exact hs

theorem Keeps.write {g : S → S} (h : ∀ s, I s → I (g s)) : (Call.write g : Call S E Unit).Keeps I := h

theorem Keeps.ensure (p : Prop) [Decidable p] (e : E) : (Call.ensure p e : Call S E Unit).Keeps I := by
  intro s hs
  unfold Call.ensure
  split
  · exact hs
  · exact hs

theorem Keeps.read : (Call.read : Call S E S).Keeps I := fun _ hs => hs

theorem Keeps.unwrap (o : Option α) (e : E) : (Call.unwrap o e : Call S E α).Keeps I := by
  intro s hs
  cases o with
  | none => exact hs
  | some => exact hs

theorem Keeps.transactional (h : x.Keeps I) : (Call.transactional x).Keeps I := fun s hs =>
  Ends.transactional (h s hs) fun _ => hs

theorem Keeps.bind (h : x.Keeps I) (hf : ∀ a, (f a).Keeps I) : (x >>= f).Keeps I := fun s hs =>
  Ends.bind (h s hs) fun a s' hs' => hf a s' hs'

/-! ## Logs -/

section Log

variable {L : Type}

/-- The call only appends to a list, and does not look at it. -/
def Appends (x : Call (List L) E α) : Prop := ∀ log, x log = ((x []).1, log ++ (x []).2)

variable {x : Call (List L) E α}

theorem Appends.pure (a : α) : (Pure.pure a : Call (List L) E α).Appends := fun log => by
  change ((Except.ok a : Except E α), log) = (.ok a, log ++ [])
  rw [List.append_nil]

theorem Appends.lift (y : Except E α) : (Call.lift y : Call (List L) E α).Appends := fun log => by
  change (y, log) = (y, log ++ [])
  rw [List.append_nil]

theorem Appends.unwrap (o : Option α) (e : E) : (Call.unwrap o e : Call (List L) E α).Appends := by
  cases o with
  | none => exact Appends.lift (.error e)
  | some a => exact Appends.lift (.ok a)

theorem Appends.write (entries : List L) :
    (Call.write (· ++ entries) : Call (List L) E Unit).Appends := fun log => by
  change ((Except.ok () : Except E Unit), log ++ entries) = (.ok (), log ++ ([] ++ entries))
  rw [List.nil_append]

theorem Appends.bind {f : α → Call (List L) E β} (h : x.Appends) (hf : ∀ a, (f a).Appends) :
    (x >>= f).Appends := by
  intro log
  cases hx : x [] with
  | mk result entries =>
    have hlog : x log = (result, log ++ entries) := by rw [h log, hx]
    cases result with
    | error e => rw [bind_error hlog, bind_error hx]
    | ok a =>
      rw [bind_ok hlog, bind_ok hx, hf a (log ++ entries), hf a entries]
      dsimp only
      rw [List.append_assoc]

end Log

end Call

end Khala
