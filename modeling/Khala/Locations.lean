/-
Where assets come from (`pallets/xtransfer/src/assets_wrapper.rs`).

A location of XCM names an asset, and says on which chain it is reserved. An
asset has a resource id for each chain that the bridge leads to: a hash of its
location, with the chain's id in the first byte.
-/
import Khala.Bridge

namespace Khala.XTransfer

open Bridge (BridgeChainId ResourceId)

abbrev Bytes : Type := List UInt8

abbrev Bytes32 : Type := Vector UInt8 32

abbrev AccountId : Type := Bytes32

/-! ## Locations -/

inductive NetworkId
  | any | named (name : Bytes) | polkadot | kusama
deriving DecidableEq, Repr

inductive Junction
  | parachain (id : ℕ)
  | accountId32 (network : NetworkId) (id : Bytes32)
  | accountIndex64 (network : NetworkId) (index : ℕ)
  | accountKey20 (network : NetworkId) (key : Bytes)
  | palletInstance (index : ℕ)
  | generalIndex (index : ℕ)
  | generalKey (key : Bytes)
  | onlyChild
  | plurality (id part : Bytes)
deriving DecidableEq, Repr

structure MultiLocation where
  parents : ℕ
  interior : List Junction
deriving DecidableEq, Repr

/-- The string `cb`. -/
def cbAssetKey : Bytes := [0x63, 0x62]

namespace MultiLocation

def here : MultiLocation := ⟨0, []⟩

def parent : MultiLocation := ⟨1, []⟩

/-- The reserve of a chain's own assets: `(0, X2(GeneralKey(CB_ASSET_KEY), GeneralIndex(chain)))`. -/
def ofChain (chain : BridgeChainId) : MultiLocation := ⟨0, [.generalKey cbAssetKey, .generalIndex chain.toNat]⟩

/-- The `reserve_location` of `Junctions`. -/
def interiorReserve : List Junction → Option MultiLocation
  | .generalKey cbKey :: .generalIndex chainId :: _ =>
    if cbKey = cbAssetKey then some ⟨0, [.generalKey cbKey, .generalIndex chainId]⟩ else none
  | _ => none

/-- The chain that the location belongs to. -/
def reserveLocation (location : MultiLocation) : Option MultiLocation :=
  match location.parents, location.interior with
  | 1, .parachain id :: interior => (interiorReserve interior).or (some ⟨1, [.parachain id]⟩)
  | 1, _ => some parent
  | 0, interior => (interiorReserve interior).or (some here)
  | _, _ => none

end MultiLocation

/-- An account of this chain, as a location. -/
def AccountId.location (who : AccountId) : MultiLocation := ⟨0, [.accountId32 .any who]⟩

/-! ## Resource ids -/

/-- The codec and the hash. -/
structure Hashing where
  encode : MultiLocation → Bytes
  decode : Bytes → Option MultiLocation
  blake2 : Bytes → Bytes32

namespace Hashing

variable (hashing : Hashing)

def intoAccount (location : MultiLocation) : AccountId := hashing.blake2 (hashing.encode location)

def intoRid (asset : MultiLocation) (chainId : BridgeChainId) : ResourceId :=
  (hashing.blake2 (hashing.encode asset)).set 0 chainId

/-- PHA is the asset of this very location. -/
def genPhaRid (chainId : BridgeChainId) : ResourceId := hashing.intoRid .here chainId

end Hashing

def getChainid (rid : ResourceId) : BridgeChainId := rid[0]

@[simp] theorem getChainid_intoRid (hashing : Hashing) (asset : MultiLocation) (chainId : BridgeChainId) :
    getChainid (hashing.intoRid asset chainId) = chainId := by simp [getChainid, Hashing.intoRid]

/-! ## The registry -/

inductive XBridgeConfig
  | xcmp
  | chainBridge (chainId : BridgeChainId) (resourceId : ResourceId)
    (reserveAccount : AccountId) (isMintable : Bool)
deriving DecidableEq, Repr

structure AssetProperties where
  name : Bytes
  symbol : Bytes
  decimals : ℕ
deriving DecidableEq, Repr

structure AssetRegistryInfo where
  location : MultiLocation
  reserveLocation : Option MultiLocation
  enabledBridges : List XBridgeConfig
  properties : AssetProperties

abbrev AssetId : Type := ℕ

structure Registry where
  idByAssets : StorageMap MultiLocation AssetId
  assetByIds : StorageMap AssetId MultiLocation
  assetByResourceIds : StorageMap ResourceId MultiLocation
  registryInfoByIds : StorageMap AssetId AssetRegistryInfo

namespace Registry

inductive Error
  | assetAlreadyExist | assetNotRegistered | bridgeAlreadyEnabled | bridgeAlreadyDisabled
  /-- `pallet_assets` does not create the asset, or does not take its metadata. -/
  | refused
deriving DecidableEq, Repr

def empty : Registry := ⟨∅, ∅, ∅, ∅⟩

variable (hashing : Hashing)

/-- `force_register_asset`; `created` says what `pallet_assets` makes of it. -/
def forceRegisterAsset (r : Registry) (asset : MultiLocation) (assetId : AssetId) (properties : AssetProperties)
    (created : Bool) : Except Error Registry :=
  if r.idByAssets.lookup asset ≠ none then throw .assetAlreadyExist
  else if r.assetByIds.lookup assetId ≠ none then throw .assetAlreadyExist
  else if created = false then throw .refused
  else
    let info : AssetRegistryInfo := ⟨asset, asset.reserveLocation, [.xcmp], properties⟩
    pure { r with
      idByAssets := r.idByAssets.insert asset assetId
      assetByIds := r.assetByIds.insert assetId asset
      registryInfoByIds := r.registryInfoByIds.insert assetId info }

def unbindResourceId (bound : StorageMap ResourceId MultiLocation) :
    XBridgeConfig → StorageMap ResourceId MultiLocation
  | .chainBridge _ resourceId _ _ => bound.erase resourceId
  | .xcmp => bound

def forceUnregisterAsset (r : Registry) (assetId : AssetId) : Except Error Registry :=
  match r.assetByIds.lookup assetId, r.registryInfoByIds.lookup assetId with
  | some asset, some info => pure { r with
      assetByIds := r.assetByIds.erase assetId
      idByAssets := r.idByAssets.erase asset
      assetByResourceIds := info.enabledBridges.foldl unbindResourceId r.assetByResourceIds
      registryInfoByIds := r.registryInfoByIds.erase assetId }
  | _, _ => throw .assetNotRegistered

def forceSetMetadata (r : Registry) (assetId : AssetId) (properties : AssetProperties) (taken : Bool) :
    Except Error Registry :=
  match r.registryInfoByIds.lookup assetId with
  | some info =>
    if taken = false then throw .refused
    else pure { r with registryInfoByIds := r.registryInfoByIds.insert assetId { info with properties } }
  | none => throw .assetNotRegistered

def forceEnableChainbridge (r : Registry) (assetId : AssetId) (chainId : BridgeChainId) (isMintable : Bool) :
    Except Error Registry :=
  match r.assetByIds.lookup assetId, r.registryInfoByIds.lookup assetId with
  | some asset, some info =>
    let resourceId := hashing.intoRid asset chainId
    if r.assetByResourceIds.lookup resourceId ≠ none then throw .bridgeAlreadyEnabled
    else
      let bridge := .chainBridge chainId resourceId (hashing.intoAccount (.ofChain chainId)) isMintable
      pure { r with
        assetByResourceIds := r.assetByResourceIds.insert resourceId asset
        registryInfoByIds :=
          r.registryInfoByIds.insert assetId { info with enabledBridges := info.enabledBridges ++ [bridge] } }
  | _, _ => throw .assetNotRegistered

/-- Whether the bridge is the one to the chain. -/
def XBridgeConfig.leadsTo (chainId : BridgeChainId) (resourceId : ResourceId) : XBridgeConfig → Bool
  | .chainBridge cid rid _ _ => cid = chainId && rid = resourceId
  | .xcmp => false

def forceDisableChainbridge (r : Registry) (assetId : AssetId) (chainId : BridgeChainId) : Except Error Registry :=
  match r.assetByIds.lookup assetId, r.registryInfoByIds.lookup assetId with
  | some asset, some info =>
    let resourceId := hashing.intoRid asset chainId
    if r.assetByResourceIds.lookup resourceId = none then throw .bridgeAlreadyDisabled
    else
      let enabledBridges := info.enabledBridges.eraseP (XBridgeConfig.leadsTo chainId resourceId)
      pure { r with
        assetByResourceIds := r.assetByResourceIds.erase resourceId
        registryInfoByIds := r.registryInfoByIds.insert assetId { info with enabledBridges } }
  | _, _ => throw .assetNotRegistered

inductive Op
  | register (asset : MultiLocation) (assetId : AssetId) (properties : AssetProperties) (created : Bool)
  | unregister (assetId : AssetId)
  | setMetadata (assetId : AssetId) (properties : AssetProperties) (taken : Bool)
  | enableChainbridge (assetId : AssetId) (chainId : BridgeChainId) (isMintable : Bool)
  | disableChainbridge (assetId : AssetId) (chainId : BridgeChainId)

/-- A call of the committee. An error rolls back. -/
def exec (r : Registry) : Op → Except Error Registry
  | .register asset assetId properties created => r.forceRegisterAsset asset assetId properties created
  | .unregister assetId => r.forceUnregisterAsset assetId
  | .setMetadata assetId properties taken => r.forceSetMetadata assetId properties taken
  | .enableChainbridge assetId chainId isMintable => r.forceEnableChainbridge hashing assetId chainId isMintable
  | .disableChainbridge assetId chainId => r.forceDisableChainbridge hashing assetId chainId

abbrev Reachable : Registry → Prop :=
  ReachWhere (· = empty) (fun r op r' => exec hashing r op = .ok r') fun _ _ => True

/-- Ids and assets determine each other, and a resource id is one of its asset's. -/
structure Sound (r : Registry) : Prop where
  ids : ∀ asset assetId, r.idByAssets.lookup asset = some assetId ↔ r.assetByIds.lookup assetId = some asset
  resourceIds : ∀ rid asset, r.assetByResourceIds.lookup rid = some asset →
    rid = hashing.intoRid asset (getChainid rid)

variable {hashing} {r r' : Registry}

namespace Sound

theorem id_inj (h : Sound hashing r) {asset asset' : MultiLocation} {assetId : AssetId}
    (hid : r.idByAssets.lookup asset = some assetId) (hid' : r.idByAssets.lookup asset' = some assetId) :
    asset = asset' := by
  have := (h.ids asset assetId).mp hid
  rw [(h.ids asset' assetId).mp hid'] at this
  exact (Option.some.inj this).symm

/-- Unbinding leaves the resource ids that it does not remove. -/
theorem lookup_unbind {bridges : List XBridgeConfig}
    {bound : StorageMap ResourceId MultiLocation} {rid : ResourceId}
    {asset : MultiLocation} (h : (bridges.foldl unbindResourceId bound).lookup rid = some asset) :
    bound.lookup rid = some asset := by
  induction bridges generalizing bound with
  | nil => exact h
  | cons bridge bridges ih =>
    have := ih h
    cases bridge with
    | xcmp => exact this
    | chainBridge _ resourceId _ _ =>
      change (bound.erase resourceId).lookup rid = _ at this
      rw [StorageMap.lookup_erase_ite] at this
      split at this
      · cases this
      · exact this

theorem register {asset : MultiLocation} {assetId : AssetId} {properties : AssetProperties} {created : Bool}
    (h : Sound hashing r) (hop : r.forceRegisterAsset asset assetId properties created = .ok r') :
    Sound hashing r' := by
  unfold forceRegisterAsset at hop
  split at hop
  · cases hop
  · next hasset =>
    split at hop
    · cases hop
    · next hid =>
      split at hop
      · cases hop
      · cases hop
        rw [not_not] at hasset hid
        refine ⟨fun a i => ?_, h.resourceIds⟩
        rw [StorageMap.lookup_insert_ite, StorageMap.lookup_insert_ite]
        have := h.ids a i
        have hnone (i : AssetId) : r.assetByIds.lookup i ≠ some asset := fun hi => by
          rw [(h.ids asset i).mpr hi] at hasset
          cases hasset
        have hnone' (a : MultiLocation) : r.idByAssets.lookup a ≠ some assetId := fun ha => by
          rw [(h.ids a assetId).mp ha] at hid
          cases hid
        by_cases ha : a = asset
        · subst ha
          by_cases hi : i = assetId
          · simp [hi]
          · simp [hi, Ne.symm hi, hnone]
        · by_cases hi : i = assetId
          · subst hi
            simp [ha, Ne.symm ha, hnone']
          · simp [ha, hi, this]

theorem unregister {assetId : AssetId} (h : Sound hashing r) (hop : r.forceUnregisterAsset assetId = .ok r') :
    Sound hashing r' := by
  unfold forceUnregisterAsset at hop
  split at hop
  · next asset info hasset hinfo =>
    cases hop
    refine ⟨fun a i => ?_, fun rid a hl => h.resourceIds rid a (lookup_unbind hl)⟩
    rw [StorageMap.lookup_erase_ite, StorageMap.lookup_erase_ite]
    have hid := (h.ids asset assetId).mpr hasset
    have := h.ids a i
    by_cases ha : a = asset
    · subst ha
      by_cases hi : i = assetId
      · simp [hi]
      · simp only [if_true, hi, if_false]
        rw [← this, hid]
        simp [Ne.symm hi]
    · by_cases hi : i = assetId
      · subst hi
        simp only [ha, if_false, if_true]
        rw [this, hasset]
        simp [Ne.symm ha]
      · simp [ha, hi, this]
  · cases hop

theorem setMetadata {assetId : AssetId} {properties : AssetProperties} {taken : Bool} (h : Sound hashing r)
    (hop : r.forceSetMetadata assetId properties taken = .ok r') : Sound hashing r' := by
  unfold forceSetMetadata at hop
  split at hop
  · split at hop
    · cases hop
    · cases hop
      exact ⟨h.ids, h.resourceIds⟩
  · cases hop

theorem enableChainbridge {assetId : AssetId} {chainId : BridgeChainId} {isMintable : Bool} (h : Sound hashing r)
    (hop : r.forceEnableChainbridge hashing assetId chainId isMintable = .ok r') : Sound hashing r' := by
  unfold forceEnableChainbridge at hop
  split at hop
  · next asset info hasset hinfo =>
    dsimp only at hop
    split at hop
    · cases hop
    · cases hop
      refine ⟨h.ids, fun rid a hl => ?_⟩
      rw [StorageMap.lookup_insert_ite] at hl
      split at hl
      · next he =>
        cases hl
        rw [he, getChainid_intoRid]
      · exact h.resourceIds rid a hl
  · cases hop

theorem disableChainbridge {assetId : AssetId} {chainId : BridgeChainId} (h : Sound hashing r)
    (hop : r.forceDisableChainbridge hashing assetId chainId = .ok r') : Sound hashing r' := by
  unfold forceDisableChainbridge at hop
  split at hop
  · dsimp only at hop
    split at hop
    · cases hop
    · cases hop
      refine ⟨h.ids, fun rid a hl => ?_⟩
      rw [StorageMap.lookup_erase_ite] at hl
      split at hl
      · cases hl
      · exact h.resourceIds rid a hl
  · cases hop

theorem empty : Sound hashing Registry.empty := by
  constructor <;> simp [Registry.empty]

theorem exec {op : Op} (h : Sound hashing r) (hop : Registry.exec hashing r op = .ok r') : Sound hashing r' := by
  cases op with
  | register => exact h.register hop
  | unregister => exact h.unregister hop
  | setMetadata => exact h.setMetadata hop
  | enableChainbridge => exact h.enableChainbridge hop
  | disableChainbridge => exact h.disableChainbridge hop

end Sound

/-- Whatever the committee did. -/
theorem Reachable.sound (h : Reachable hashing r) : Sound hashing r := by
  refine h.invariant (Sound hashing) ?_ ?_
  · rintro _ rfl
    exact .empty
  · intro r op r' h _ hop
    exact h.exec hop

end Registry

end Khala.XTransfer
