/-
What XCM deposits (`XTransferAdapter::deposit_asset` of
`pallets/xtransfer/src/xcm/xcm_helper.rs`).

A deposit on an EVM chain goes over the bridge: the fee to the treasury, the
rest to a reserve account where the asset is not at home on that chain, and the
bridge announces it. The executor does not roll a failed deposit back.

The adapters that deposit the native currency and the assets of `pallet_assets`
belong to XCM: they are parameters, and what they are given is what the matchers
of this chain make of an asset.
-/
import Khala.BridgeTransfer

namespace Khala.XTransfer

open Bridge (BridgeChainId ResourceId)

variable {S P : Type}

inductive XcmAssetId
  | concrete (location : MultiLocation)
  | abstract (name : Bytes)
deriving DecidableEq, Repr

inductive Fungibility
  | fungible (amount : ℕ)
  | nonFungible (index : ℕ)
deriving DecidableEq, Repr

structure MultiAsset where
  id : XcmAssetId
  fungibility : Fungibility
deriving DecidableEq, Repr

/-- An amount of the asset at a location. -/
def MultiAsset.of (location : MultiLocation) (amount : ℕ) : MultiAsset := ⟨.concrete location, .fungible amount⟩

section Adapters

variable (rt : Runtime S)

def Runtime.isNativeAsset (what : MultiAsset) : Bool :=
  match what.id, what.fungibility with
  | .concrete location, .fungible _ => rt.isNativeAssetId location
  | _, _ => false

/-- `NativeAssetMatcher` -/
def Runtime.nativeAssetMatcher (what : MultiAsset) : Option ℕ :=
  match what.id, what.fungibility with
  | .concrete _, .fungible amount => if rt.isNativeAsset what = true then some amount else none
  | _, _ => none

/-- `ConcreteAssetsMatcher` -/
def concreteAssetsMatcher (registry : Registry) (what : MultiAsset) : Except MatchError (AssetId × ℕ) :=
  match what.id, what.fungibility with
  | .concrete location, .fungible amount =>
    match registry.idByAssets.lookup location with
    | some id => pure (id, amount)
    | none => throw .assetNotFound
  | _, _ => throw .assetNotFound

def Runtime.adapterDeposit (registry : Registry) (what : MultiAsset) (who : MultiLocation) (t : S) :
    Except Error S :=
  if rt.isNativeAsset what = true then rt.currencyAdapter (rt.nativeAssetMatcher what) who t
  else rt.fungiblesAdapter (concreteAssetsMatcher registry what) who t

/-- What is documented of the adapters: what they deposit is what the matcher found, on the
account that the location is. -/
structure Runtime.Adapts : Prop where
  currency : ∀ {found who t t'}, rt.currencyAdapter found (AccountId.location who) t = .ok t' →
    ∃ amount, found = some amount ∧ t' = rt.tokens.depositCreating t who amount
  fungibles : ∀ {found who t t'}, rt.fungiblesAdapter found (AccountId.location who) t = .ok t' →
    ∃ id amount, found = .ok (id, amount) ∧ rt.tokens.mintInto t id who amount = .ok t'

/-- The bridge's `transfer_fungible`, which fails for a chain that is not whitelisted only. -/
def announceXcm (destId : BridgeChainId) (rid : ResourceId) (recipient : Bytes) (amount : ℕ) :
    Call (State S P) Error Unit := fun s =>
  match announce destId rid recipient amount s with
  | (.ok (), s') => (.ok (), s')
  | (.error _, s') => (.error (.xcmFailedToTransactAsset "ChainNotWhitelisted"), s')

def toChainId (destId : ℕ) : Option BridgeChainId := if destId < 256 then some (UInt8.ofNat destId) else none

/-- Forwards an amount of an asset to an EVM chain. -/
def depositOverBridge (location : MultiLocation) (amount destId : ℕ) (recipient : Bytes) :
    Call (State S P) Error Unit := do
  let destId ← Call.unwrap (toChainId destId) (.xcmFailedToTransactAsset "ChainIdConversionFailed")
  let s ← Call.read
  -- deduct some fees if assets would be forwarded to solo chains
  let fee ← Call.unwrap (s.getFee rt destId location amount) (.xcmFailedToTransactAsset "FailedGetFee")
  Call.ensure (amount > fee) (.xcmFailedToTransactAsset "Insufficient")
  onTokens fun t => mapErr (rt.adapterDeposit s.registry (.of location fee) rt.treasury.location t)
    (.xcmFailedToTransactAsset "FeeTransferFailed")
  let transferingAmount := amount - fee
  let destReserve := MultiLocation.ofChain destId
  let assetReserveLocation ← Call.unwrap location.reserveLocation (.xcmFailedToTransactAsset "FailedGetreserve")
  -- if we are forwarding asset to its non-reserve destination, deposit assets to reserve account first
  if assetReserveLocation ≠ destReserve then
    let reserveAccount := (rt.hashing.intoAccount destReserve).location
    onTokens fun t => mapErr (rt.adapterDeposit s.registry (.of location transferingAmount) reserveAccount t)
      (.xcmFailedToTransactAsset "ReserveTransferFailed")
  -- the native asset has the resource id of `here` on solo chains
  let rid := if rt.isNativeAssetId location = true then rt.hashing.genPhaRid destId
      else rt.hashing.intoRid location destId
  announceXcm destId rid recipient transferingAmount

def depositAsset (what : MultiAsset) (who : MultiLocation) : Call (State S P) Error Unit :=
  match who.parents, who.interior with
  | 0, [.generalKey cbKey, .generalIndex destId, .generalKey recipient] => do
    Call.ensure (cbKey = cbAssetKey) (.xcmFailedToTransactAsset "DismatchPath")
    match what.id, what.fungibility with
    | .concrete location, .fungible amount => depositOverBridge rt location amount destId recipient
    | _, _ => throw .xcmUnimplemented
  | _, _ => do
    let s ← Call.read
    onTokens (rt.adapterDeposit s.registry what who)

end Adapters

/-- A deposit of an asset on an account: of PHA, or of a registered asset. -/
theorem adapterDeposit_cases {rt : Runtime S} {registry : Registry} {location : MultiLocation} {who : AccountId}
    {amount : ℕ} {t t' : S} (ha : rt.Adapts)
    (h : rt.adapterDeposit registry (.of location amount) who.location t = .ok t') :
    (rt.isNativeAssetId location = true ∧ t' = rt.tokens.depositCreating t who amount) ∨
    rt.isNativeAssetId location = false ∧ ∃ id, registry.idByAssets.lookup location = some id ∧
      rt.tokens.mintInto t id who amount = .ok t' := by
  unfold Runtime.adapterDeposit at h
  split at h
  · next hnative =>
    have hmatched : rt.nativeAssetMatcher (.of location amount) = some amount := by
      unfold Runtime.nativeAssetMatcher
      exact if_pos hnative
    rw [hmatched] at h
    obtain ⟨amount', hfound, hdeposit⟩ := ha.currency h
    cases hfound
    exact .inl ⟨hnative, hdeposit⟩
  · next hnative =>
    obtain ⟨id, amount', hfound, hmint⟩ := ha.fungibles h
    refine .inr ⟨by simpa using (show ¬rt.isNativeAssetId location = true from hnative), id, ?_⟩
    unfold concreteAssetsMatcher MultiAsset.of at hfound
    dsimp only at hfound
    split at hfound
    · next id' hid =>
      cases hfound
      exact ⟨hid, hmint⟩
    · cases hfound

end Khala.XTransfer
