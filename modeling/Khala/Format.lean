/-
Formats: an encoder together with its decoder.

A decoder takes a value off the front of its input and hands on what follows.
The law of a format is a field, so none is built without it: the decoder
accepts the encodings of valid values, and nothing else. That no encoding is
the beginning of another one follows, and so does that a value is read back
whatever comes after it.

The combinators are those of a record (`pair`, `iso`), a collection (`list`)
and an enumeration (`variant`), over any tokens.
-/
import Mathlib

namespace Khala

/-- Values of `α` as tokens of `τ`. -/
structure Format (τ α : Type) where
  valid : α → Prop
  encode : α → List τ
  decode : List τ → Option (α × List τ)
  decode_iff : ∀ {input a rest}, decode input = some (a, rest) ↔ valid a ∧ input = encode a ++ rest

namespace Format

variable {τ α β γ : Type}

/-! ## What the law gives -/

section

variable (f : Format τ α) {a b : α} {input rest x y : List τ}

theorem decode_encode (h : f.valid a) (rest : List τ) : f.decode (f.encode a ++ rest) = some (a, rest) :=
  f.decode_iff.mpr ⟨h, rfl⟩

/-- The value that the input starts with; what follows is not looked at. -/
def decodeFirst (input : List τ) : Option α := (f.decode input).map Prod.fst

theorem decodeFirst_iff : f.decodeFirst input = some a ↔ f.valid a ∧ f.encode a <+: input := by
  unfold decodeFirst
  rw [Option.map_eq_some_iff]
  constructor
  · rintro ⟨⟨_, rest⟩, hdecode, rfl⟩
    obtain ⟨hvalid, hinput⟩ := f.decode_iff.mp hdecode
    exact ⟨hvalid, rest, hinput.symm⟩
  · rintro ⟨hvalid, rest, rfl⟩
    exact ⟨(a, rest), f.decode_encode hvalid rest, rfl⟩

theorem decodeFirst_encode (h : f.valid a) : f.decodeFirst (f.encode a) = some a :=
  f.decodeFirst_iff.mpr ⟨h, List.prefix_refl _⟩

end

/-! ## Records -/

/-- Nothing. -/
def unit : Format τ Unit where
  valid _ := True
  encode _ := []
  decode input := some ((), input)
  decode_iff := by
    intro input _ rest
    simp

/-- Any tokens, of a fixed number. -/
def block (n : ℕ) : Format τ (List τ) where
  valid tokens := tokens.length = n
  encode tokens := tokens
  decode input := if n ≤ input.length then some (input.take n, input.drop n) else none
  decode_iff := by
    intro input tokens rest
    constructor
    · intro h
      split at h
      · next hn =>
        cases h
        exact ⟨List.length_take_of_le hn, (List.take_append_drop n input).symm⟩
      · cases h
    · rintro ⟨rfl, rfl⟩
      rw [if_pos (by simp), List.take_left, List.drop_left]

/-- Tokens that carry their number. -/
def vector (n : ℕ) : Format τ {tokens : List τ // tokens.length = n} where
  valid _ := True
  encode tokens := tokens.1
  decode input :=
    if h : n ≤ input.length then some (⟨input.take n, List.length_take_of_le h⟩, input.drop n) else none
  decode_iff := by
    intro input tokens rest
    constructor
    · intro h
      split at h
      · next hn =>
        cases h
        exact ⟨trivial, (List.take_append_drop n input).symm⟩
      · cases h
    · rintro ⟨-, rfl⟩
      have hn : n ≤ (tokens.1 ++ rest).length := by simp [tokens.2]
      rw [dif_pos hn, Option.some_inj]
      exact Prod.ext (Subtype.ext (List.take_left' tokens.2)) (List.drop_left' tokens.2)

def pair (f : Format τ α) (g : Format τ β) : Format τ (α × β) where
  valid p := f.valid p.1 ∧ g.valid p.2
  encode p := f.encode p.1 ++ g.encode p.2
  decode input := (f.decode input).bind fun first => (g.decode first.2).map fun second =>
    ((first.1, second.1), second.2)
  decode_iff := by
    intro input p rest
    rw [Option.bind_eq_some_iff]
    constructor
    · rintro ⟨⟨a, middle⟩, hfirst, hrest⟩
      obtain ⟨⟨b, _⟩, hsecond, heq⟩ := Option.map_eq_some_iff.mp hrest
      cases heq
      obtain ⟨ha, rfl⟩ := f.decode_iff.mp hfirst
      obtain ⟨hb, rfl⟩ := g.decode_iff.mp hsecond
      exact ⟨⟨ha, hb⟩, (List.append_assoc _ _ _).symm⟩
    · rintro ⟨⟨ha, hb⟩, rfl⟩
      refine ⟨(p.1, g.encode p.2 ++ rest), ?_, ?_⟩
      · rw [List.append_assoc]
        exact f.decode_encode ha _
      · rw [g.decode_encode hb]
        rfl

/-- The same tokens, for values that correspond one to one. -/
def iso (f : Format τ α) (e : α ≃ β) : Format τ β where
  valid b := f.valid (e.symm b)
  encode b := f.encode (e.symm b)
  decode input := (f.decode input).map fun first => (e first.1, first.2)
  decode_iff := by
    intro input b rest
    rw [Option.map_eq_some_iff]
    constructor
    · rintro ⟨⟨a, _⟩, hdecode, heq⟩
      cases heq
      obtain ⟨ha, rfl⟩ := f.decode_iff.mp hdecode
      rw [e.symm_apply_apply]
      exact ⟨ha, rfl⟩
    · rintro ⟨hb, rfl⟩
      refine ⟨(e.symm b, rest), f.decode_encode hb rest, ?_⟩
      rw [e.apply_symm_apply]

/-! ## Collections -/

section

variable (f : Format τ α)

/-- One value after the other. -/
def decodeMany : ℕ → List τ → Option (List α × List τ)
  | 0, input => some ([], input)
  | n + 1, input =>
    (f.decode input).bind fun first => (decodeMany n first.2).map fun others => (first.1 :: others.1, others.2)

theorem decodeMany_iff {n : ℕ} {input rest : List τ} {l : List α} :
    f.decodeMany n input = some (l, rest) ↔ l.length = n ∧ (∀ a ∈ l, f.valid a) ∧
    input = l.flatMap f.encode ++ rest := by
  induction n generalizing input l with
  | zero =>
    rw [decodeMany, List.length_eq_zero_iff]
    constructor
    · intro h
      cases h
      exact ⟨rfl, fun _ h => absurd h List.not_mem_nil, rfl⟩
    · rintro ⟨rfl, -, rfl⟩
      rfl
  | succ n ih =>
    rw [decodeMany, Option.bind_eq_some_iff]
    constructor
    · rintro ⟨⟨a, middle⟩, hfirst, hothers⟩
      obtain ⟨⟨l, rest⟩, hmany, heq⟩ := Option.map_eq_some_iff.mp hothers
      cases heq
      obtain ⟨ha, rfl⟩ := f.decode_iff.mp hfirst
      obtain ⟨rfl, hl, rfl⟩ := ih.mp hmany
      refine ⟨rfl, List.forall_mem_cons.mpr ⟨ha, hl⟩, ?_⟩
      rw [List.flatMap_cons, List.append_assoc]
    · rintro ⟨hlength, hl, rfl⟩
      obtain ⟨a, l, rfl⟩ := List.exists_cons_of_length_eq_add_one hlength
      obtain ⟨ha, hl⟩ := List.forall_mem_cons.mp hl
      refine ⟨(a, l.flatMap f.encode ++ rest), ?_, ?_⟩
      · rw [List.flatMap_cons, List.append_assoc]
        exact f.decode_encode ha _
      · rw [ih.mpr ⟨Nat.succ.inj hlength, hl, rfl⟩]
        rfl

/-- The number of the values, and then the values. -/
def list (count : Format τ ℕ) : Format τ (List α) where
  valid l := count.valid l.length ∧ ∀ a ∈ l, f.valid a
  encode l := count.encode l.length ++ l.flatMap f.encode
  decode input := (count.decode input).bind fun n => f.decodeMany n.1 n.2
  decode_iff := by
    intro input l rest
    rw [Option.bind_eq_some_iff]
    constructor
    · rintro ⟨⟨n, middle⟩, hcount, hmany⟩
      obtain ⟨hn, rfl⟩ := count.decode_iff.mp hcount
      obtain ⟨rfl, hl, rfl⟩ := f.decodeMany_iff.mp hmany
      exact ⟨⟨hn, hl⟩, (List.append_assoc _ _ _).symm⟩
    · rintro ⟨⟨hn, hl⟩, rfl⟩
      refine ⟨(l.length, l.flatMap f.encode ++ rest), ?_, f.decodeMany_iff.mpr ⟨rfl, hl, rfl⟩⟩
      rw [List.append_assoc]
      exact count.decode_encode hn _

end

/-! ## Enumerations -/

/-- Reads the fields of one variant. -/
def fields (f : Format τ α) (make : α → β) (input : List τ) : Option (β × List τ) :=
  (f.decode input).map fun first => (make first.1, first.2)

theorem fields_iff {f : Format τ α} {make : α → β} {input rest : List τ} {b : β} :
    f.fields make input = some (b, rest) ↔ ∃ a, make a = b ∧ f.valid a ∧ input = f.encode a ++ rest := by
  unfold fields
  rw [Option.map_eq_some_iff]
  constructor
  · rintro ⟨⟨a, _⟩, hdecode, heq⟩
    cases heq
    exact ⟨a, rfl, f.decode_iff.mp hdecode⟩
  · rintro ⟨a, rfl, ha, rfl⟩
    exact ⟨(a, rest), f.decode_encode ha rest, rfl⟩

/-- The fields of a value: whether they are valid, and their tokens. -/
structure Part (τ : Type) where
  valid : Prop
  tokens : List τ

def part (f : Format τ α) (a : α) : Part τ := ⟨f.valid a, f.encode a⟩

@[simp] theorem part_valid (f : Format τ α) (a : α) : (f.part a).valid = f.valid a := rfl

@[simp] theorem part_tokens (f : Format τ α) (a : α) : (f.part a).tokens = f.encode a := rfl

/-- The place of the variant, and then its fields. -/
def variant (tag : Format τ ℕ) (index : α → ℕ) (parts : α → Part τ)
    (branches : List (List τ → Option (α × List τ)))
    (htag : ∀ a, tag.valid (index a) ∧ index a < branches.length)
    (hbranch : ∀ i d, branches[i]? = some d → ∀ input a rest,
      d input = some (a, rest) ↔ index a = i ∧ (parts a).valid ∧ input = (parts a).tokens ++ rest) :
      Format τ α where
  valid a := (parts a).valid
  encode a := tag.encode (index a) ++ (parts a).tokens
  decode input := (tag.decode input).bind fun first => branches[first.1]?.bind fun d => d first.2
  decode_iff := by
    intro input a rest
    rw [Option.bind_eq_some_iff]
    constructor
    · rintro ⟨⟨i, middle⟩, hfirst, hrest⟩
      obtain ⟨d, hd, hfields⟩ := Option.bind_eq_some_iff.mp hrest
      obtain ⟨-, rfl⟩ := tag.decode_iff.mp hfirst
      obtain ⟨rfl, ha, rfl⟩ := (hbranch i d hd middle a rest).mp hfields
      exact ⟨ha, (List.append_assoc _ _ _).symm⟩
    · rintro ⟨ha, rfl⟩
      obtain ⟨hindex, hlt⟩ := htag a
      refine ⟨(index a, (parts a).tokens ++ rest), ?_, Option.bind_eq_some_iff.mpr ⟨branches[index a], ?_, ?_⟩⟩
      · rw [List.append_assoc]
        exact tag.decode_encode hindex _
      · exact List.getElem?_eq_getElem hlt
      · exact (hbranch _ _ (List.getElem?_eq_getElem hlt) _ a rest).mpr ⟨rfl, ha, rfl⟩

end Format

end Khala
