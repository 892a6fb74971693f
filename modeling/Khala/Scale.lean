/-
The SCALE encoding of numbers, byte strings, fields in sequence and variants,
and how encodings that follow one another are told apart.

An encoder is `none` where it panics: at a collection of `2^32` items.
-/
import Khala.Bytes

namespace Khala.Scale

abbrev Bytes : Type := List UInt8

variable {α β γ : Type} {n m width : ℕ} {e : Bytes}

/-! ## Encoders -/

/-- The length of a collection. The first byte modulo 4 says how many bytes it has. -/
def compactLen (n : ℕ) : Option Bytes :=
  if n < 2 ^ 6 then some (leBytes 1 (4 * n))
  else if n < 2 ^ 14 then some (leBytes 2 (4 * n + 1))
  else if n < 2 ^ 30 then some (leBytes 4 (4 * n + 2))
  else if n < 2 ^ 32 then some (3 :: leBytes 4 n)
  else none

def encodeBytes (bytes : Bytes) : Option Bytes := (compactLen bytes.length).map (· ++ bytes)

/-- Bytes of a fixed number. -/
def encodeFixed (bytes : Bytes) : Option Bytes := some bytes

/-- A number of a fixed width. -/
def encodeNat (width n : ℕ) : Option Bytes := some (leBytes width n)

def encodePair (f : α → Option Bytes) (g : β → Option Bytes) (p : α × β) : Option Bytes := do
  let first ← f p.1
  let second ← g p.2
  pure (first ++ second)

def encodeVariant (index : ℕ) (fields : Option Bytes) : Option Bytes := fields.map (UInt8.ofNat index :: ·)

theorem encodeBytes_eq_some {bytes : Bytes} :
    encodeBytes bytes = some e ↔ ∃ len, compactLen bytes.length = some len ∧ len ++ bytes = e :=
  Option.map_eq_some_iff

theorem encodePair_eq_some {f : α → Option Bytes} {g : β → Option Bytes} {p : α × β} :
    encodePair f g p = some e ↔ ∃ first second, f p.1 = some first ∧ g p.2 = some second ∧
    first ++ second = e := by
  unfold encodePair
  cases f p.1 with
  | none => simp
  | some first =>
    cases g p.2 with
    | none => simp
    | some second => simp

theorem encodeVariant_eq_some {index : ℕ} {fields : Option Bytes} :
    encodeVariant index fields = some e ↔ ∃ bytes, fields = some bytes ∧ UInt8.ofNat index :: bytes = e :=
  Option.map_eq_some_iff

theorem compactLen_isSome : (compactLen n).isSome ↔ n < 2 ^ 32 := by
  unfold compactLen
  split_ifs <;> simp <;> omega

theorem encodeBytes_isSome {bytes : Bytes} : (encodeBytes bytes).isSome ↔ bytes.length < 2 ^ 32 := by
  rw [encodeBytes, Option.isSome_map, compactLen_isSome]

theorem encodePair_isSome {f : α → Option Bytes} {g : β → Option Bytes} {p : α × β} :
    (encodePair f g p).isSome ↔ (f p.1).isSome ∧ (g p.2).isSome := by
  unfold encodePair
  cases f p.1 with
  | none => simp
  | some first =>
    cases g p.2 with
    | none => simp
    | some second => simp

theorem encodeVariant_isSome {index : ℕ} {fields : Option Bytes} :
    (encodeVariant index fields).isSome ↔ fields.isSome := by
  rw [encodeVariant, Option.isSome_map]

/-! ## Prefix-freeness -/

/-- Whatever follows, the values are told apart, and so is what follows. -/
def PrefixFree (P : α → Prop) (enc : α → Option Bytes) : Prop :=
  ∀ ⦃a b ea eb x y⦄, P a → P b → enc a = some ea → enc b = some eb → ea ++ x = eb ++ y → a = b ∧ x = y

namespace PrefixFree

variable {P : α → Prop} {Q : β → Prop} {f : α → Option Bytes} {g : β → Option Bytes}

theorem inj (h : PrefixFree P f) {a b : α} (ha : P a) (hb : P b) (hea : f a = some e)
    (heb : f b = some e) : a = b :=
  (h ha hb hea heb (rfl : e ++ [] = e ++ [])).1

/-- Encodings of one length. -/
theorem of_length (width : ℕ) (hlength : ∀ {a e}, P a → f a = some e → e.length = width)
    (hinj : ∀ {a b e}, P a → P b → f a = some e → f b = some e → a = b) : PrefixFree P f := by
  intro a b ea eb x y ha hb hea heb h
  obtain ⟨hbytes, hrest⟩ := List.append_inj h ((hlength ha hea).trans (hlength hb heb).symm)
  exact ⟨hinj ha hb hea (hbytes ▸ heb), hrest⟩

theorem pair (hf : PrefixFree P f) (hg : PrefixFree Q g) :
    PrefixFree (fun p : α × β => P p.1 ∧ Q p.2) (encodePair f g) := by
  intro a b ea eb x y ha hb hea heb h
  obtain ⟨first, second, hfirst, hsecond, rfl⟩ := encodePair_eq_some.mp hea
  obtain ⟨first', second', hfirst', hsecond', rfl⟩ := encodePair_eq_some.mp heb
  rw [List.append_assoc, List.append_assoc] at h
  obtain ⟨hfst, hrest⟩ := hf ha.1 hb.1 hfirst hfirst' h
  obtain ⟨hsnd, htail⟩ := hg ha.2 hb.2 hsecond hsecond' hrest
  exact ⟨Prod.ext hfst hsnd, htail⟩

theorem fixed (width : ℕ) : PrefixFree (fun bytes : Bytes => bytes.length = width) encodeFixed := by
  refine of_length width ?_ ?_
  · rintro bytes _ hlength ⟨⟩
    exact hlength
  · rintro bytes _ _ - - ⟨⟩ ⟨⟩
    rfl

theorem nat (width : ℕ) : PrefixFree (fun n => n < 256 ^ width) (encodeNat width) := by
  refine of_length width ?_ ?_
  · rintro n _ - ⟨⟩
    exact length_leBytes width n
  · intro m n e hm hn hem hen
    exact leBytes_inj hm hn (Option.some.inj (hem.trans hen.symm))

end PrefixFree

/-- A length is a number with its own width in its low bits. -/
theorem compactLen_eq_some (h : compactLen n = some e) : ∃ width code, e = leBytes (width + 1) code ∧
    code < 256 ^ (width + 1) ∧ width = [0, 1, 3, 4].getD (code % 4) 0 ∧
      n = if code % 4 = 3 then code / 256 else code / 4 := by
  unfold compactLen at h
  split at h
  · next hlt =>
    cases h
    have hmode : 4 * n % 4 = 0 := by omega
    refine ⟨0, 4 * n, rfl, by omega, ?_, ?_⟩
    · rw [hmode]
      rfl
    · rw [if_neg (by omega)]
      omega
  split at h
  · next hlt =>
    cases h
    have hmode : (4 * n + 1) % 4 = 1 := by omega
    refine ⟨1, 4 * n + 1, rfl, by omega, ?_, ?_⟩
    · rw [hmode]
      rfl
    · rw [if_neg (by omega)]
      omega
  split at h
  · next hlt =>
    cases h
    have hmode : (4 * n + 2) % 4 = 2 := by omega
    refine ⟨3, 4 * n + 2, rfl, by omega, ?_, ?_⟩
    · rw [hmode]
      rfl
    · rw [if_neg (by omega)]
      omega
  split at h
  · next hlt =>
    cases h
    have hmode : (256 * n + 3) % 4 = 3 := by omega
    refine ⟨4, 256 * n + 3, ?_, by omega, ?_, ?_⟩
    · have hhead : UInt8.ofNat (256 * n + 3) = 3 := by
        apply UInt8.toNat_inj.mp
        rw [UInt8.toNat_ofNat']
        change _ = 3
        omega
      have htail : (256 * n + 3) / 256 = n := by omega
      change 3 :: leBytes 4 n = UInt8.ofNat (256 * n + 3) :: leBytes 4 ((256 * n + 3) / 256)
      rw [hhead, htail]
    · rw [hmode]
      rfl
    · rw [if_pos hmode]
      omega
  · cases h

theorem PrefixFree.compactLen : PrefixFree (fun _ => True) compactLen := by
  intro n m en em x y _ _ hen hem h
  obtain ⟨width, code, rfl, hcode, hwidth, hn⟩ := compactLen_eq_some hen
  obtain ⟨width', code', rfl, hcode', hwidth', hm⟩ := compactLen_eq_some hem
  have hhead : code % 256 = code' % 256 := by
    have := congrArg UInt8.toNat (List.cons.inj h).1
    rwa [UInt8.toNat_ofNat', UInt8.toNat_ofNat'] at this
  have hmode : code % 4 = code' % 4 := by omega
  have hsame : width = width' := by rw [hwidth, hwidth', hmode]
  subst hsame
  obtain ⟨hbytes, hrest⟩ := List.append_inj h (by rw [length_leBytes, length_leBytes])
  have hcodes : code = code' := leBytes_inj hcode hcode' hbytes
  exact ⟨by rw [hn, hm, hcodes], hrest⟩

/-- The length comes first, and then says where the bytes end. -/
theorem PrefixFree.bytes : PrefixFree (fun _ => True) encodeBytes := by
  intro a b ea eb x y _ _ hea heb h
  obtain ⟨len, hlen, rfl⟩ := encodeBytes_eq_some.mp hea
  obtain ⟨len', hlen', rfl⟩ := encodeBytes_eq_some.mp heb
  rw [List.append_assoc, List.append_assoc] at h
  obtain ⟨hlength, hrest⟩ := PrefixFree.compactLen trivial trivial hlen hlen' h
  exact List.append_inj hrest hlength

end Khala.Scale
