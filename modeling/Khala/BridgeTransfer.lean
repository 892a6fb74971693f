/-
Transfers over the bridge (`pallets/xtransfer/src/bridge_transfer/mod.rs`).

Out of the chain, what is sent goes to a reserve account, or is burned where the
asset goes home, and the bridge announces it. Into the chain, what arrives is
taken out of the reserve, or minted where the asset comes from its home.

The native balances, `pallet_assets` and the XCM transactor are not part of the
repository: `Tokens` is what the pallet calls of them. An imbalance is settled
at once. Balances are `u128`: what is computed from them wraps.
-/
import Khala.Locations

namespace Khala.XTransfer

open Bridge (BridgeChainId DepositNonce ResourceId BridgeEvent Origin)

variable {S P : Type}

/-! ## Tokens -/

inductive Error
  | badOrigin
  | assetConversionFailed | assetNotRegistered | feeOptionsMissing | cannotPayAsFee | invalidDestination
  | insufficientBalance | balanceConversionFailed | failedToTransactAsset | destUnrecognized
  | cannotDetermineReservedLocation
  | bridge (e : Bridge.Error)
  /-- `XcmError::FailedToTransactAsset`, with its text -/
  | xcmFailedToTransactAsset (reason : String)
  | xcmUnimplemented
  /-- An error of another pallet. -/
  | other (code : ℕ)
deriving DecidableEq, Repr

/-- `xcm_executor::traits::Error`, as far as a matcher here gives it: a balance holds any amount. -/
inductive MatchError
  | assetNotFound
deriving DecidableEq, Repr

inductive Token
  | native
  | asset (id : AssetId)
deriving DecidableEq, Repr

/-- The native balances and `pallet_assets` on their storage `S`. A call that
errs leaves the storage as it was. -/
structure Tokens (S : Type) where
  balance : S → Token → AccountId → ℕ
  issuance : S → Token → ℕ
  /-- The existential deposit, and the minimal balance of an asset. -/
  minimum : S → Token → ℕ
  reducibleBalance : S → AssetId → AccountId → ℕ
  withdraw : S → AccountId → ℕ → Except Error S
  transfer : S → AccountId → AccountId → ℕ → Except Error S
  depositCreating : S → AccountId → ℕ → S
  burnFrom : S → AssetId → AccountId → ℕ → Except Error S
  mintInto : S → AssetId → AccountId → ℕ → Except Error S
  transferAsset : S → AssetId → AccountId → AccountId → ℕ → Except Error S
  /-- `BalanceConverter` -/
  toAssetBalance : S → ℕ → AssetId → Except Error ℕ

/-- What the pallet takes from the runtime. -/
structure Runtime (S : Type) where
  hashing : Hashing
  tokens : Tokens S
  bridgeAccount : AccountId
  treasury : AccountId
  parachainId : ℕ
  /-- `OnFeePay` -/
  onFeePay : S → ℕ → S
  nativeExecutionPrice : ℕ
  executionPriceInfo : List (MultiLocation × ℕ)
  /-- `XcmTransactor::transfer_fungible`: from an account, an asset and its amount, to a location with a weight. -/
  xcmTransfer : S → AccountId → MultiLocation → ℕ → MultiLocation → ℕ → Except Error Unit × S
  /-- `NativeAdapter::deposit_asset`, of the amount that its matcher finds, to a location. -/
  currencyAdapter : Option ℕ → MultiLocation → S → Except Error S
  /-- `AssetsAdapter::deposit_asset`, of the asset and the amount that its matcher finds, to a location. -/
  fungiblesAdapter : Except MatchError (AssetId × ℕ) → MultiLocation → S → Except Error S

structure State (S P : Type) where
  tokens : S
  bridge : Bridge.Storage AccountId P
  bridgeFee : StorageMap BridgeChainId (ℕ × ℕ)
  registry : Registry
  /-- History: the transfers that the bridge announced. -/
  announced : List BridgeEvent
  /-- History: what was taken out of the reserves, for which resource id. -/
  released : List (ResourceId × ℕ)

/-- A call of the token pallets. -/
def onTokens (f : S → Except Error S) : Call (State S P) Error Unit := fun s =>
  match f s.tokens with
  | .ok tokens => (.ok (), { s with tokens })
  | .error e => (.error e, s)

/-- `map_err(|_| e)` -/
def mapErr {E α : Type} (x : Except E α) (e : Error) : Except Error α := x.mapError fun _ => e

section Pallet

variable (rt : Runtime S)

/-! ## Assets and fees -/

def Runtime.isNativeAssetId (location : MultiLocation) : Bool :=
  location = .here || location = ⟨1, [.parachain rt.parachainId]⟩

def Runtime.ridToLocation (registry : Registry) (rid : ResourceId) : Except Error MultiLocation :=
  if rid = rt.hashing.genPhaRid (getChainid rid) then pure .here
  else match registry.assetByResourceIds.lookup rid with
    | some asset => pure asset
    | none => throw .assetConversionFailed

def Runtime.ridToAssetid (registry : Registry) (rid : ResourceId) : Except Error AssetId :=
  if rid = rt.hashing.genPhaRid (getChainid rid) then throw .assetNotRegistered
  else match registry.assetByResourceIds.lookup rid with
    | some asset => match registry.idByAssets.lookup asset with
      | some id => pure id
      | none => throw .assetNotRegistered
    | none => throw .assetConversionFailed

def saturating (n : ℕ) : ℕ := min n (2 ^ 128 - 1)

def toE12 (amount decimals : ℕ) : ℕ :=
  if decimals > 12 then amount / saturating (10 ^ (decimals - 12))
  else saturating (amount * saturating (10 ^ (12 - decimals)))

def fromE12 (amount decimals : ℕ) : ℕ :=
  if decimals > 12 then saturating (amount * saturating (10 ^ (decimals - 12)))
  else amount / saturating (10 ^ (12 - decimals))

def Runtime.convertFeeFromPha (feeInPha price decimals : ℕ) : ℕ :=
  fromE12 (feeInPha * price % 2 ^ 128 / rt.nativeExecutionPrice) decimals

namespace State

variable (s : State S P)

def estimateFeeInPha (destId : BridgeChainId) (amount : ℕ) : ℕ :=
  let (minFee, feeScale) := (s.bridgeFee.lookup destId).getD (0, 0)
  let feeEstimated := amount * feeScale % 2 ^ 128 / 1000
  if feeEstimated > minFee then feeEstimated else minFee

/-- `GetBridgeFee::get_fee` of an amount of the asset at a location. -/
def getFee (chainId : BridgeChainId) (location : MultiLocation) (amount : ℕ) : Option ℕ :=
  match s.registry.idByAssets.lookup location with
  | none => none
  | some id =>
    let decimals := ((s.registry.registryInfoByIds.lookup id).map fun info => info.properties.decimals).getD 12
    let feeInPha := s.estimateFeeInPha chainId (toE12 amount decimals)
    if rt.isNativeAssetId location = true then some feeInPha
    else (rt.executionPriceInfo.find? fun price => price.1 = location).map fun price =>
      rt.convertFeeFromPha feeInPha price.2 decimals

end State

/-! ## Out of the chain -/

def ensureSigned : Origin AccountId → Call (State S P) Error AccountId
  | .signed who => pure who
  | _ => throw .badOrigin

def ensureBridge : Origin AccountId → Call (State S P) Error AccountId
  | .signed who => if who = rt.bridgeAccount then pure who else throw .badOrigin
  | _ => throw .badOrigin

/-- A transfer by the bridge, and its event. -/
def deposit (destId : BridgeChainId) (event : DepositNonce → BridgeEvent) : Call (State S P) Error Unit := fun s =>
  match Bridge.deposit destId event s.bridge with
  | (.ok (), bridge) =>
    (.ok (), { s with bridge, announced := s.announced ++ [event (s.bridge.nextNonce destId)] })
  | (.error e, bridge) => (.error (.bridge e), { s with bridge })

theorem deposit_eq (destId : BridgeChainId) (event : DepositNonce → BridgeEvent) (s : State S P) :
    deposit destId event s = if s.bridge.chainWhitelisted destId = true then
      (.ok (), { s with
        bridge := { s.bridge with
          chainNonces := s.bridge.chainNonces.insert destId (s.bridge.nextNonce destId)
          bridgeEvents := s.bridge.bridgeEvents ++ [event (s.bridge.nextNonce destId)] }
        announced := s.announced ++ [event (s.bridge.nextNonce destId)] })
    else (.error (.bridge .chainNotWhitelisted), s) := by
  unfold deposit
  rw [Bridge.deposit_eq]
  by_cases h : s.bridge.chainWhitelisted destId = true
  · rw [if_pos h, if_pos h]
  · rw [if_neg h, if_neg h]

/-- The bridge's `transfer_fungible`. -/
def announce (destId : BridgeChainId) (rid : ResourceId) (recipient : Bytes) (amount : ℕ) :
    Call (State S P) Error Unit :=
  deposit destId fun nonce => .fungibleTransfer destId nonce rid amount recipient

def transferAssets (origin : Origin AccountId) (asset : MultiLocation) (destId : BridgeChainId) (recipient : Bytes)
    (amount : ℕ) : Call (State S P) Error Unit := Call.transactional do
  let sender ← ensureSigned origin
  let destReserveLocation := MultiLocation.ofChain destId
  let assetReserveLocation ← Call.unwrap asset.reserveLocation .cannotDetermineReservedLocation
  let s ← Call.read
  Call.ensure (s.bridge.chainWhitelisted destId = true) .invalidDestination
  Call.ensure (s.bridgeFee.lookup destId ≠ none) .feeOptionsMissing
  let assetId ← Call.unwrap (s.registry.idByAssets.lookup asset) .assetNotRegistered
  let rid := rt.hashing.intoRid asset destId
  let _ ← Call.lift (mapErr (rt.ridToAssetid s.registry rid) .assetConversionFailed)
  let assetAmount ← Call.lift (mapErr (rt.tokens.toAssetBalance s.tokens amount assetId) .balanceConversionFailed)
  Call.ensure (rt.tokens.reducibleBalance s.tokens assetId sender ≥ assetAmount) .insufficientBalance
  let fee ← Call.unwrap (s.getFee rt destId asset amount) .cannotPayAsFee
  Call.ensure (amount > fee) .insufficientBalance
  let feeAmount ← Call.lift (mapErr (rt.tokens.toAssetBalance s.tokens fee assetId) .balanceConversionFailed)
  onTokens fun t => mapErr (rt.tokens.transferAsset t assetId sender rt.treasury feeAmount) .failedToTransactAsset
  let remainAsset := amount - fee
  let s ← Call.read
  let assetAmount ← Call.lift
      (mapErr (rt.tokens.toAssetBalance s.tokens remainAsset assetId) .balanceConversionFailed)
  if assetReserveLocation = destReserveLocation then
    onTokens fun t => mapErr (rt.tokens.burnFrom t assetId sender assetAmount) .failedToTransactAsset
  else
    let reserve := rt.hashing.intoAccount destReserveLocation
    onTokens fun t => mapErr (rt.tokens.transferAsset t assetId sender reserve assetAmount) .failedToTransactAsset
  announce destId rid recipient remainAsset

def transferNative (origin : Origin AccountId) (amount : ℕ) (recipient : Bytes) (destId : BridgeChainId) :
    Call (State S P) Error Unit := Call.transactional do
  let sender ← ensureSigned origin
  let s ← Call.read
  Call.ensure (s.bridge.chainWhitelisted destId = true) .invalidDestination
  Call.ensure (s.bridgeFee.lookup destId ≠ none) .feeOptionsMissing
  let fee := s.estimateFeeInPha destId amount
  Call.ensure (rt.tokens.balance s.tokens .native sender ≥ (amount + fee) % 2 ^ 128) .insufficientBalance
  onTokens fun t => rt.tokens.withdraw t sender fee
  onTokens fun t => pure (rt.onFeePay t fee)
  onTokens fun t => rt.tokens.transfer t sender rt.bridgeAccount amount
  announce destId (rt.hashing.genPhaRid destId) recipient amount

/-! ## Into the chain -/

/-- Out of the reserve: the bridge's account for PHA, the source chain's for other assets. -/
def Runtime.release (registry : Registry) (rid : ResourceId) (amount : ℕ) (t : S) : Except Error S :=
  if rid = rt.hashing.genPhaRid (getChainid rid) then rt.tokens.withdraw t rt.bridgeAccount amount
  else do
    let assetId ← rt.ridToAssetid registry rid
    let assetAmount ← mapErr (rt.tokens.toAssetBalance t amount assetId) .balanceConversionFailed
    mapErr (rt.tokens.burnFrom t assetId (rt.hashing.intoAccount (.ofChain (getChainid rid))) assetAmount)
      .failedToTransactAsset

/-- Into an account. -/
def Runtime.settle (registry : Registry) (rid : ResourceId) (who : AccountId) (amount : ℕ) (t : S) :
    Except Error S :=
  if rid = rt.hashing.genPhaRid (getChainid rid) then pure (rt.tokens.depositCreating t who amount)
  else do
    let assetId ← rt.ridToAssetid registry rid
    let assetAmount ← mapErr (rt.tokens.toAssetBalance t amount assetId) .balanceConversionFailed
    mapErr (rt.tokens.mintInto t assetId who assetAmount) .failedToTransactAsset

/-- The string `bridge_transfer`. -/
def bridgeTransferKey : Bytes :=
  [0x62, 0x72, 0x69, 0x64, 0x67, 0x65, 0x5f, 0x74, 0x72, 0x61, 0x6e, 0x73, 0x66, 0x65, 0x72]

def Runtime.temporaryAccount : AccountId := rt.hashing.intoAccount ⟨0, [.generalKey bridgeTransferKey]⟩

/-- To the relay chain or another parachain, by XCM from the temporary account. -/
def forward (registry : Registry) (rid : ResourceId) (assetLocation destLocation : MultiLocation) (amount : ℕ) :
    Call (State S P) Error Unit := do
  onTokens (rt.settle registry rid rt.temporaryAccount amount)
  fun s =>
    let ended := rt.xcmTransfer s.tokens rt.temporaryAccount assetLocation amount destLocation 6000000000
    (ended.1, { s with tokens := ended.2 })

/-- To the destination, once the asset is taken out of the reserve. -/
def payOut (registry : Registry) (rid : ResourceId) (assetLocation destLocation : MultiLocation) (amount : ℕ) :
    Call (State S P) Error Unit :=
  match destLocation.parents, destLocation.interior with
  | 0, [.accountId32 _ id] => onTokens (rt.settle registry rid id amount)
  | 1, [.accountId32 _ _] => forward rt registry rid assetLocation destLocation amount
  | 1, [.parachain _, .accountId32 _ _] => forward rt registry rid assetLocation destLocation amount
  -- to other EVM chains
  | 0, [.generalKey _, .generalIndex _, .generalKey _] => throw .destUnrecognized
  | _, _ => throw .destUnrecognized

/-- Executes a simple currency transfer using the bridge account as the source. -/
def transfer (origin : Origin AccountId) (dest : Bytes) (amount : ℕ) (rid : ResourceId) :
    Call (State S P) Error Unit := do
  let _ ← ensureBridge rt origin
  let srcReserveLocation := MultiLocation.ofChain (getChainid rid)
  let destLocation ← Call.unwrap (rt.hashing.decode dest) .destUnrecognized
  let s ← Call.read
  let assetLocation ← Call.lift (rt.ridToLocation s.registry rid)
  let assetReserveLocation ← Call.unwrap assetLocation.reserveLocation .cannotDetermineReservedLocation
  if assetReserveLocation ≠ srcReserveLocation then
    onTokens (rt.release s.registry rid amount)
    Call.write fun s => { s with released := s.released ++ [(rid, amount)] }
  payOut rt s.registry rid assetLocation destLocation amount

end Pallet

end Khala.XTransfer
