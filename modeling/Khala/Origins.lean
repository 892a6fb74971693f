/-
Where an asset is at home: `reserve_location` for the bridge, and
`ConcrateAsset::origin` of `pallets/xtransfer/src/xcm/xcm_helper.rs` for XCM.

They tell different chains for an asset of another parachain whose location goes
on with the key of the bridge: the bridge takes it for an asset of an EVM chain.
-/
import Khala.XcmHelper

namespace Khala.XTransfer

variable {location r : MultiLocation} {interior : List Junction} {index p q amount : ℕ}

namespace ConcrateAsset

def id (asset : MultiAsset) : Option MultiLocation :=
  match asset.id, asset.fungibility with
  | .concrete id, .fungible _ => some id
  | _, _ => none

def origin (asset : MultiAsset) : Option MultiLocation :=
  (id asset).bind fun id =>
    match id.parents, id.interior with
    -- sibling parachain
    | 1, .parachain p :: _ => some ⟨1, [.parachain p]⟩
    | 1, _ => some .parent
    -- children parachain
    | 0, .parachain p :: _ => some ⟨0, [.parachain p]⟩
    | 0, [] => some id
    | _, _ => none

@[simp] theorem id_of (location : MultiLocation) (amount : ℕ) : id (.of location amount) = some location := rfl

theorem origin_sibling (p : ℕ) (interior : List Junction) (amount : ℕ) :
    origin (.of ⟨1, .parachain p :: interior⟩ amount) = some ⟨1, [.parachain p]⟩ := rfl

theorem origin_parent (h : ∀ p rest, interior ≠ .parachain p :: rest) (amount : ℕ) :
    origin (.of ⟨1, interior⟩ amount) = some .parent := by
  cases interior with
  | nil => rfl
  | cons junction rest =>
    cases junction with
    | parachain p => exact absurd rfl (h p rest)
    | _ => rfl

end ConcrateAsset

namespace MultiLocation

/-- The junctions start with the key of the bridge and the id of a chain. -/
def CarriesKey (index : ℕ) (interior : List Junction) : Prop :=
  ∃ rest, interior = .generalKey cbAssetKey :: .generalIndex index :: rest

theorem CarriesKey.unique (h : CarriesKey p interior) (h' : CarriesKey q interior) : p = q := by
  obtain ⟨rest, rfl⟩ := h
  obtain ⟨rest', heq⟩ := h'
  injection heq with _ htail
  injection htail with hindex _
  injection hindex

theorem interiorReserve_of_carries (h : CarriesKey index interior) :
    interiorReserve interior = some ⟨0, [.generalKey cbAssetKey, .generalIndex index]⟩ := by
  obtain ⟨rest, rfl⟩ := h
  rfl

theorem interiorReserve_of_not (h : ∀ index, ¬CarriesKey index interior) : interiorReserve interior = none := by
  unfold interiorReserve
  split
  · split
    · next hkey =>
      subst hkey
      exact absurd ⟨_, rfl⟩ (h _)
    · rfl
  · rfl

theorem reserveLocation_sibling (p : ℕ) (interior : List Junction) :
    reserveLocation ⟨1, .parachain p :: interior⟩ = (interiorReserve interior).or (some ⟨1, [.parachain p]⟩) := rfl

theorem reserveLocation_parent (h : ∀ p rest, interior ≠ .parachain p :: rest) :
    reserveLocation ⟨1, interior⟩ = some parent := by
  cases interior with
  | nil => rfl
  | cons junction rest =>
    cases junction with
    | parachain p => exact absurd rfl (h p rest)
    | _ => rfl

theorem reserveLocation_sibling_of_carries (h : CarriesKey index interior) (p : ℕ) :
    reserveLocation ⟨1, .parachain p :: interior⟩ = some ⟨0, [.generalKey cbAssetKey, .generalIndex index]⟩ := by
  rw [reserveLocation_sibling, interiorReserve_of_carries h]
  rfl

theorem reserveLocation_sibling_of_not (h : ∀ index, ¬CarriesKey index interior) (p : ℕ) :
    reserveLocation ⟨1, .parachain p :: interior⟩ = some ⟨1, [.parachain p]⟩ := by
  rw [reserveLocation_sibling, interiorReserve_of_not h]
  rfl

/-- Reserves are at home. -/
theorem reserveLocation_idem (h : location.reserveLocation = some r) : r.reserveLocation = some r := by
  have hinterior {interior : List Junction} {other : MultiLocation} (hother : other.reserveLocation = some other)
      (h : (interiorReserve interior).or (some other) = some r) : r.reserveLocation = some r := by
    by_cases hkey : ∃ index, CarriesKey index interior
    · obtain ⟨index, hkey⟩ := hkey
      rw [interiorReserve_of_carries hkey] at h
      cases h
      rfl
    · rw [interiorReserve_of_not fun index hindex => hkey ⟨index, hindex⟩] at h
      cases h
      exact hother
  unfold reserveLocation at h
  split at h
  · exact hinterior rfl h
  · cases h
    rfl
  · exact hinterior rfl h
  · cases h

end MultiLocation

open MultiLocation

/-- **Where the two notions agree.** On a location outside of this chain they
agree exactly if it is not a parachain's that goes on with the bridge's key. Two
parachains share a reserve exactly if both carry the key with one index. The
reserve of a reserve is itself. -/
theorem reserveLocation_eq_origin_iff (location : MultiLocation) (amount : ℕ) :
    (location.parents = 1 →
      (location.reserveLocation = ConcrateAsset.origin (.of location amount) ↔
        ¬∃ p index rest, location.interior = .parachain p :: rest ∧ CarriesKey index rest)) ∧
    (∀ p q rest rest', p ≠ q →
      (reserveLocation ⟨1, .parachain p :: rest⟩ ≠ reserveLocation ⟨1, .parachain q :: rest'⟩ ↔
        ¬∃ index, CarriesKey index rest ∧ CarriesKey index rest')) ∧
    ∀ r, location.reserveLocation = some r → r.reserveLocation = some r := by
  refine ⟨?_, ?_, fun r => reserveLocation_idem⟩
  · intro hparents
    obtain ⟨n, junctions⟩ := location
    cases hparents
    by_cases hsibling : ∃ p rest, junctions = .parachain p :: rest
    · obtain ⟨p, rest, rfl⟩ := hsibling
      rw [ConcrateAsset.origin_sibling]
      constructor
      · intro heq ⟨p', index, rest', hinterior, hkey⟩
        cases hinterior
        rw [reserveLocation_sibling_of_carries hkey] at heq
        cases heq
      · intro hnot
        exact reserveLocation_sibling_of_not (fun index hkey => hnot ⟨p, index, rest, rfl, hkey⟩) p
    · have hparent : ∀ p rest, junctions ≠ .parachain p :: rest := fun p rest h => hsibling ⟨p, rest, h⟩
      rw [reserveLocation_parent hparent, ConcrateAsset.origin_parent hparent]
      refine iff_of_true rfl ?_
      intro ⟨p, _, rest, hinterior, _⟩
      exact hparent p rest hinterior
  · intro p q rest rest' hne
    by_cases hkey : ∃ index, CarriesKey index rest
    · obtain ⟨index, hkey⟩ := hkey
      rw [reserveLocation_sibling_of_carries hkey]
      by_cases hkey' : ∃ index, CarriesKey index rest'
      · obtain ⟨index', hkey'⟩ := hkey'
        rw [reserveLocation_sibling_of_carries hkey']
        constructor
        · intro hneq ⟨i, hi, hi'⟩
          rw [hkey.unique hi, hkey'.unique hi'] at hneq
          exact hneq rfl
        · intro hnot heq
          cases heq
          exact hnot ⟨index, hkey, hkey'⟩
      · rw [reserveLocation_sibling_of_not fun index hindex => hkey' ⟨index, hindex⟩]
        refine iff_of_true (by intro heq; cases heq) ?_
        intro ⟨i, _, hi⟩
        exact hkey' ⟨i, hi⟩
    · rw [reserveLocation_sibling_of_not fun index hindex => hkey ⟨index, hindex⟩]
      refine iff_of_true ?_ ?_
      · intro heq
        by_cases hkey' : ∃ index, CarriesKey index rest'
        · obtain ⟨index', hkey'⟩ := hkey'
          rw [reserveLocation_sibling_of_carries hkey'] at heq
          cases heq
        · rw [reserveLocation_sibling_of_not fun index hindex => hkey' ⟨index, hindex⟩] at heq
          cases heq
          exact hne rfl
      · intro ⟨i, hi, _⟩
        exact hkey ⟨i, hi⟩

namespace Demo

/-- `(1, X3(Parachain(id), GeneralKey("cb"), GeneralIndex(0)))` -/
def keyed (id : ℕ) : MultiLocation := ⟨1, [.parachain id, .generalKey cbAssetKey, .generalIndex 0]⟩

end Demo

theorem reserveLocation_eq_origin_demo :
    reserveLocation ⟨1, [.parachain 2000, .generalIndex 7]⟩ =
      ConcrateAsset.origin (.of ⟨1, [.parachain 2000, .generalIndex 7]⟩ 1) := by
  refine ((reserveLocation_eq_origin_iff ⟨1, [.parachain 2000, .generalIndex 7]⟩ 1).1 rfl).mpr ?_
  intro ⟨p, index, rest, hinterior, tail, hrest⟩
  cases hinterior
  cases hrest

/-- Two parachains, and for the bridge both assets are the chain 0's. -/
theorem reserveLocation_ne_origin :
    (Demo.keyed 2000).reserveLocation ≠ ConcrateAsset.origin (.of (Demo.keyed 2000) 1) ∧
      (Demo.keyed 2000).reserveLocation = (Demo.keyed 2001).reserveLocation ∧
      (Demo.keyed 2000).reserveLocation = some (ofChain 0) :=
  ⟨by decide, by decide, by decide⟩

end Khala.XTransfer
