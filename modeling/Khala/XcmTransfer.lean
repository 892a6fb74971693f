/-
Transfers by XCM (`pallets/xtransfer/src/xcm/xcm_transfer.rs`).

A transfer is a message for the executor of this chain: what is withdrawn here,
and the program of the next chain, which may hold the one of a third. Where the
asset is at home decides on the shape of the message; the fee is part of the
asset, or an amount of PHA that travels with it.

What reanchoring makes of the id of an asset, and which assets contain which,
belongs to XCM: they are parameters.
-/
import Khala.Origins

namespace Khala.XTransfer

/-! ## Messages -/

inductive AssetFilter
  /-- `Wild(All)` -/
  | wildAll
  | definite (assets : List MultiAsset)

inductive Instruction
  | withdrawAsset (assets : List MultiAsset)
  | depositReserveAsset (assets : AssetFilter) (maxAssets : ℕ) (dest : MultiLocation) (xcm : List Instruction)
  | initiateReserveWithdraw (assets : AssetFilter) (reserve : MultiLocation) (xcm : List Instruction)
  | buyExecution (fees : MultiAsset) (weightLimit : ℕ)
  | depositAsset (assets : AssetFilter) (maxAssets : ℕ) (beneficiary : MultiLocation)

abbrev Xcm : Type := List Instruction

inductive TransferError
  | cannotReanchor | unknownTransfer | assetNotFound | illegalDestination
deriving DecidableEq, Repr

inductive TransferType
  /-- Transfer assets reserved by the origin chain. -/
  | fromNative
  /-- Transfer assets reserved by the dest chain. -/
  | toReserve
  /-- Transfer assets not reserved by the dest chain. -/
  | toNonReserve
deriving DecidableEq, Repr

/-- What the pallet takes from the runtime and from XCM. -/
structure XcmRuntime where
  parachainId : ℕ
  /-- `FeeAssets::contains` -/
  isFeeAsset : MultiAsset → Bool
  defaultFee : ℕ
  /-- `MultiAsset::contains` -/
  contains : MultiAsset → MultiAsset → Bool
  /-- The id of an asset as the chain at a location has it. -/
  reanchorId : MultiLocation → XcmAssetId → Option XcmAssetId

namespace XcmRuntime

variable (rt : XcmRuntime)

def isNativeAssetId (location : MultiLocation) : Bool :=
  location = .here || location = ⟨1, [.parachain rt.parachainId]⟩

def isNativeAsset (asset : MultiAsset) : Bool :=
  match asset.id, asset.fungibility with
  | .concrete location, .fungible _ => rt.isNativeAssetId location
  | _, _ => false

def nativeAssetId : MultiLocation := ⟨1, [.parachain rt.parachainId]⟩

def reanchored (asset : MultiAsset) (target : MultiLocation) : Option MultiAsset :=
  (rt.reanchorId target asset.id).map fun id => { asset with id }

end XcmRuntime

/-! ## The session -/

structure XcmSession where
  asset : MultiAsset
  fee : MultiAsset
  origin : MultiLocation
  /-- Where recipient located in -/
  destLocation : MultiLocation
  recipient : AccountId
  destWeight : ℕ

namespace XcmSession

variable (rt : XcmRuntime) (session : XcmSession)

def kind : Option TransferType :=
  (ConcrateAsset.origin session.asset).map fun assetReserveLocation =>
    if rt.isNativeAssetId assetReserveLocation = true then .fromNative
    else if assetReserveLocation = session.destLocation then .toReserve
    else .toNonReserve

/-- The buy execution instruction is executed on the chain at the location. -/
def buyExecutionOn (location : MultiLocation) : Except TransferError Instruction := do
  let fees ← (rt.reanchored session.fee location).elim (throw .cannotReanchor) pure
  pure (.buyExecution fees session.destWeight)

def invertBasedReserve (reserve location : MultiLocation) : MultiLocation :=
  if reserve = .parent then ⟨0, location.interior⟩ else location

/-- What is withdrawn, and the number of assets. -/
def withdrawal : List MultiAsset × ℕ :=
  if rt.contains session.asset session.fee = true then
    -- The assets to pay the fee is the same as the main assets. Only one withdraw is required.
    ([session.asset], 1)
  else ([session.asset, session.fee], 2)

def message : Except TransferError Xcm := do
  let beneficiary : MultiLocation := session.recipient.location
  let (withdrawn, maxAssets) := session.withdrawal rt
  let depositAsset : Instruction := .depositAsset .wildAll maxAssets beneficiary
  match session.kind rt with
  | none => throw .unknownTransfer
  | some .fromNative =>
    let buyExecution ← session.buyExecutionOn rt session.destLocation
    pure [.withdrawAsset withdrawn,
      .depositReserveAsset .wildAll maxAssets session.destLocation [buyExecution, depositAsset]]
  | some .toReserve =>
    let assetReserveLocation := session.destLocation
    let buyExecution ← session.buyExecutionOn rt session.destLocation
    pure [.withdrawAsset withdrawn,
      .initiateReserveWithdraw .wildAll assetReserveLocation [buyExecution, depositAsset]]
  | some .toNonReserve =>
    match ConcrateAsset.origin session.asset with
    | none => throw .unknownTransfer
    | some assetReserveLocation =>
      let buyOnReserve ← session.buyExecutionOn rt assetReserveLocation
      let buyOnDest ← session.buyExecutionOn rt session.destLocation
      pure [.withdrawAsset withdrawn,
        .initiateReserveWithdraw .wildAll assetReserveLocation
          [buyOnReserve,
            .depositReserveAsset .wildAll maxAssets
              (invertBasedReserve assetReserveLocation session.destLocation) [buyOnDest, depositAsset]]]

end XcmSession

section Pallet

variable (rt : XcmRuntime)

/-- The fee: half of the asset, or the default amount of PHA. -/
def XcmRuntime.feeOf (asset : MultiAsset) : Except TransferError MultiAsset :=
  if rt.isFeeAsset asset = true ∨ rt.isNativeAsset asset = true then
    match asset.fungibility with
    -- So far only half of amount are allowed to be used as fee
    | .fungible amount => pure { asset with fungibility := .fungible (amount / 2) }
    | .nonFungible _ => throw .assetNotFound
  else pure (.of rt.nativeAssetId rt.defaultFee)

def sessionOf (origin : MultiLocation) (asset : MultiAsset) (dest : MultiLocation) (destWeight : ℕ) :
    Except TransferError XcmSession :=
  if dest = .here then throw .illegalDestination
  else match dest.interior.getLast? with
    | some (.accountId32 _ recipient) => do
      let fee ← rt.feeOf asset
      pure ⟨asset, fee, origin, ⟨dest.parents, dest.interior.dropLast⟩, recipient, destWeight⟩
    | _ => throw .illegalDestination

/-- The message of a transfer, if it is built. -/
def buildMessage (origin : MultiLocation) (asset : MultiAsset) (dest : MultiLocation) (destWeight : ℕ) :
    Except TransferError Xcm := do
  let session ← sessionOf rt origin asset dest destWeight
  session.message rt

end Pallet

end Khala.XTransfer
