/-
The formats of SCALE: numbers of a fixed width, lengths, byte strings, and the
tags of enumerations.

A length has four shapes and is read in the shortest only, so that it has one
encoding.
-/
import Khala.Format
import Khala.Scale

namespace Khala.Scale

/-! ## Numbers -/

/-- The number that bytes stand for, the low ones first. -/
def leNat : Bytes → ℕ
  | [] => 0
  | b :: bytes => b.toNat + 256 * leNat bytes

variable {width n : ℕ} {rest : Bytes}

theorem leNat_lt (bytes : Bytes) : leNat bytes < 256 ^ bytes.length := by
  induction bytes with
  | nil => exact Nat.one_pos
  | cons b bytes ih =>
    have hb := b.toNat_lt
    rw [List.length_cons, Nat.pow_succ, leNat]
    omega

theorem leBytes_leNat (bytes : Bytes) : leBytes bytes.length (leNat bytes) = bytes := by
  induction bytes with
  | nil => rfl
  | cons b bytes ih =>
    have hb := b.toNat_lt
    have hhead : UInt8.ofNat (b.toNat + 256 * leNat bytes) = b := by
      apply UInt8.toNat_inj.mp
      rw [UInt8.toNat_ofNat']
      omega
    have htail : (b.toNat + 256 * leNat bytes) / 256 = leNat bytes := by omega
    rw [List.length_cons, leNat, leBytes, hhead, htail, ih]

theorem leNat_leBytes (h : n < 256 ^ width) : leNat (leBytes width n) = n := by
  have hlt : leNat (leBytes width n) < 256 ^ width := by
    simpa only [length_leBytes] using leNat_lt (leBytes width n)
  refine leBytes_inj hlt h ?_
  simpa only [length_leBytes] using leBytes_leNat (leBytes width n)

/-- A number of a fixed width. -/
def nat (width : ℕ) : Format UInt8 ℕ where
  valid n := n < 256 ^ width
  encode n := leBytes width n
  decode := (Format.block width).fields leNat
  decode_iff := by
    intro input n rest
    rw [Format.fields_iff]
    constructor
    · rintro ⟨bytes, rfl, hlength, rfl⟩
      have hlength : bytes.length = width := hlength
      subst hlength
      rw [leBytes_leNat]
      exact ⟨leNat_lt bytes, rfl⟩
    · rintro ⟨hn, rfl⟩
      exact ⟨leBytes width n, leNat_leBytes hn, length_leBytes width n, rfl⟩

/-! ## Lengths -/

/-- A number that is read only if it needs its shape. -/
def decodeAbove (least : ℕ) (read : ℕ → ℕ) (input : Bytes) (width : ℕ) : Option (ℕ × Bytes) :=
  ((nat width).decode input).bind fun first => if least ≤ read first.1 then some (read first.1, first.2) else none

theorem decodeAbove_iff {least : ℕ} {read : ℕ → ℕ} {input : Bytes} :
    decodeAbove least read input width = some (n, rest) ↔
      ∃ code, code < 256 ^ width ∧ input = leBytes width code ++ rest ∧ least ≤ read code ∧ read code = n := by
  unfold decodeAbove
  rw [Option.bind_eq_some_iff]
  constructor
  · rintro ⟨⟨code, _⟩, hcode, hread⟩
    split at hread
    · next hleast =>
      cases hread
      obtain ⟨hlt, rfl⟩ := (nat width).decode_iff.mp hcode
      exact ⟨code, hlt, rfl, hleast, rfl⟩
    · cases hread
  · rintro ⟨code, hlt, rfl, hleast, rfl⟩
    exact ⟨(code, rest), (nat width).decode_encode hlt rest, if_pos hleast⟩

/-- The low two bits of the first byte are the shape. -/
def decodeCompact : Bytes → Option (ℕ × Bytes)
  | [] => none
  | first :: input =>
    match first.toNat % 4 with
    | 0 => some (first.toNat / 4, input)
    | 1 => decodeAbove (2 ^ 6) (· / 4) (first :: input) 2
    | 2 => decodeAbove (2 ^ 14) (· / 4) (first :: input) 4
    | _ => if first.toNat / 4 = 0 then decodeAbove (2 ^ 30) id input 4 else none

/-- The length, encoded. -/
def encodeCompact (n : ℕ) : Bytes := (compactLen n).getD []

theorem compactLen_eq_encodeCompact (h : n < 2 ^ 32) : compactLen n = some (encodeCompact n) := by
  obtain ⟨e, he⟩ := Option.isSome_iff_exists.mp (compactLen_isSome.mpr h)
  rw [encodeCompact, he]
  rfl

theorem toNat_ofNat_cons {code first : ℕ} {input : Bytes} {b : UInt8}
    (h : b :: input = leBytes (width + 1) code ++ rest) (hb : b.toNat % 4 = first) : code % 4 = first := by
  have hhead : b.toNat = code % 256 := by
    rw [(List.cons.inj h).1, UInt8.toNat_ofNat']
  omega

theorem decodeCompact_encodeCompact (h : n < 2 ^ 32) (rest : Bytes) :
    decodeCompact (encodeCompact n ++ rest) = some (n, rest) := by
  unfold encodeCompact compactLen
  split
  · next hlt =>
    have hbyte : (UInt8.ofNat (4 * n)).toNat = 4 * n := by
      rw [UInt8.toNat_ofNat']
      omega
    have hmode : 4 * n % 4 = 0 := by omega
    have hread : 4 * n / 4 = n := by omega
    change decodeCompact (UInt8.ofNat (4 * n) :: rest) = _
    rw [decodeCompact, hbyte, hmode, hread]
    rfl
  split
  · next hge hlt =>
    have hmode : (UInt8.ofNat (4 * n + 1)).toNat % 4 = 1 := by
      rw [UInt8.toNat_ofNat']
      omega
    change decodeCompact (UInt8.ofNat (4 * n + 1) :: _) = _
    rw [decodeCompact, hmode]
    exact decodeAbove_iff.mpr ⟨4 * n + 1, by omega, rfl, by omega, by omega⟩
  split
  · next hge hlt =>
    have hmode : (UInt8.ofNat (4 * n + 2)).toNat % 4 = 2 := by
      rw [UInt8.toNat_ofNat']
      omega
    change decodeCompact (UInt8.ofNat (4 * n + 2) :: _) = _
    rw [decodeCompact, hmode]
    exact decodeAbove_iff.mpr ⟨4 * n + 2, by omega, rfl, by omega, by omega⟩
  have hge : 2 ^ 30 ≤ n := by omega
  change decodeAbove (2 ^ 30) id (leBytes 4 n ++ rest) 4 = _
  exact decodeAbove_iff.mpr ⟨n, by omega, rfl, hge, rfl⟩

/-- Only the shortest encoding of a length is read. -/
theorem of_decodeCompact {input : Bytes} (h : decodeCompact input = some (n, rest)) :
    n < 2 ^ 32 ∧ input = encodeCompact n ++ rest := by
  cases input with
  | nil => cases h
  | cons b input =>
    have hb := b.toNat_lt
    rw [decodeCompact] at h
    unfold encodeCompact compactLen
    split at h
    · next hmode =>
      cases h
      have hbyte : UInt8.ofNat (4 * (b.toNat / 4)) = b := by
        apply UInt8.toNat_inj.mp
        rw [UInt8.toNat_ofNat']
        omega
      rw [if_pos (by omega)]
      exact ⟨by omega, congrArg (· :: rest) hbyte.symm⟩
    · next hmode =>
      obtain ⟨code, hcode, hinput, hleast, rfl⟩ := decodeAbove_iff.mp h
      have hshape := toNat_ofNat_cons hinput hmode
      rw [if_neg (by omega), if_pos (by omega), show 4 * (code / 4) + 1 = code by omega]
      exact ⟨by omega, hinput⟩
    · next hmode =>
      obtain ⟨code, hcode, hinput, hleast, rfl⟩ := decodeAbove_iff.mp h
      have hshape := toNat_ofNat_cons hinput hmode
      rw [if_neg (by omega), if_neg (by omega), if_pos (by omega), show 4 * (code / 4) + 2 = code by omega]
      exact ⟨by omega, hinput⟩
    · next h0 h1 h2 =>
      split at h
      · next hhigh =>
        obtain ⟨_, hcode, rfl, hleast, rfl⟩ := decodeAbove_iff.mp h
        rw [id_eq] at hleast
        have hthree : b = 3 := by
          apply UInt8.toNat_inj.mp
          change b.toNat = 3
          have hmode : ¬(b.toNat % 4 = 0 ∨ b.toNat % 4 = 1 ∨ b.toNat % 4 = 2) := fun hor =>
            hor.elim h0 fun hor => hor.elim h1 h2
          omega
        rw [id_eq, if_neg (by omega), if_neg (by omega), if_neg (by omega), if_pos (by omega), hthree]
        exact ⟨by omega, rfl⟩
      · cases h

/-- A length, of 32 bits. -/
def compact : Format UInt8 ℕ where
  valid n := n < 2 ^ 32
  encode := encodeCompact
  decode := decodeCompact
  decode_iff := by
    intro input n rest
    constructor
    · exact of_decodeCompact
    · rintro ⟨hn, rfl⟩
      exact decodeCompact_encodeCompact hn rest

/-! ## Byte strings -/

/-- A byte string: its length, and then its bytes. -/
def decodeBytes (input : Bytes) : Option (Bytes × Bytes) :=
  (decodeCompact input).bind fun first => (Format.block first.1).decode first.2

def bytes : Format UInt8 Bytes where
  valid bytes := bytes.length < 2 ^ 32
  encode bytes := encodeCompact bytes.length ++ bytes
  decode := decodeBytes
  decode_iff := by
    intro input bytes rest
    unfold decodeBytes
    rw [Option.bind_eq_some_iff]
    constructor
    · rintro ⟨⟨n, _⟩, hlength, hblock⟩
      obtain ⟨hn, rfl⟩ := of_decodeCompact hlength
      obtain ⟨hbytes, rfl⟩ := (Format.block n).decode_iff.mp hblock
      have hbytes : bytes.length = n := hbytes
      subst hbytes
      exact ⟨hn, (List.append_assoc _ _ _).symm⟩
    · rintro ⟨hn, rfl⟩
      refine ⟨(bytes.length, bytes ++ rest), ?_, (Format.block bytes.length).decode_encode rfl rest⟩
      rw [List.append_assoc]
      exact decodeCompact_encodeCompact hn _

/-- The encoder that panics at a collection of `2^32` items does so at no valid one. -/
theorem encodeBytes_eq {string : Bytes} (h : bytes.valid string) :
    encodeBytes string = some (bytes.encode string) := by
  rw [encodeBytes, compactLen_eq_encodeCompact h]
  rfl

/-! ## Widths -/

def u8 : Format UInt8 ℕ := nat 1

def u32 : Format UInt8 ℕ := nat 4

def u64 : Format UInt8 ℕ := nat 8

def u128 : Format UInt8 ℕ := nat 16

def u256 : Format UInt8 ℕ := nat 32

/-- 32 bytes: a public key or a hash. -/
def hash : Format UInt8 Bytes := Format.block 32

def key : Format UInt8 {bytes : Bytes // bytes.length = 32} := Format.vector 32

end Khala.Scale
