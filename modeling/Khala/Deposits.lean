/-
The ways to the bridge: `transfer_native` and `transfer_assets`, what XCM deposits,
and the transfers into the chain, which come back to no bridge.

On the storage of the bridge and on the history they do nothing but deposit, each
to its own chain. What every deposit keeps, they keep.
-/
import Khala.XcmHelper

namespace Khala.XTransfer

open Bridge (BridgeChainId DepositNonce ResourceId BridgeEvent Origin)

variable {S P : Type} {rt : Runtime S} {dests : Set BridgeChainId} {I : State S P → Prop} {rid : ResourceId}

/-- The events of a deposit carry its chain and its nonce. -/
def EventsOf (destId : BridgeChainId) (event : DepositNonce → BridgeEvent) : Prop :=
  ∀ nonce, (event nonce).destId = destId ∧ (event nonce).nonce = nonce

theorem eventsOf_fungible {destId : BridgeChainId} {recipient : Bytes} {amount : ℕ} :
    EventsOf destId fun nonce => .fungibleTransfer destId nonce rid amount recipient := fun _ => ⟨rfl, rfl⟩

theorem eventsOf_nonFungible {destId : BridgeChainId} {tokenId recipient metadata : Bytes} :
    EventsOf destId fun nonce => .nonFungibleTransfer destId nonce rid tokenId recipient metadata :=
  fun _ => ⟨rfl, rfl⟩

theorem eventsOf_generic {destId : BridgeChainId} {metadata : Bytes} :
    EventsOf destId fun nonce => .genericTransfer destId nonce rid metadata := fun _ => ⟨rfl, rfl⟩

/-- The state after a deposit. -/
def State.deposited (s : State S P) (destId : BridgeChainId) (event : DepositNonce → BridgeEvent) : State S P :=
  { s with
    bridge := { s.bridge with
      chainNonces := s.bridge.chainNonces.insert destId (s.bridge.nextNonce destId)
      bridgeEvents := s.bridge.bridgeEvents ++ [event (s.bridge.nextNonce destId)] }
    announced := s.announced ++ [event (s.bridge.nextNonce destId)] }

/-- Kept by what happens to the tokens, and by the deposits to some chains. -/
structure KeptByDeposits (dests : Set BridgeChainId) (I : State S P → Prop) : Prop where
  tokens : ∀ s t, I s → I { s with tokens := t }
  deposit : ∀ s destId event, destId ∈ dests → EventsOf destId event →
    s.bridge.chainWhitelisted destId = true → I s →
    I (s.deposited destId event)

/-- The chain that XCM deposits on over the bridge. -/
def MultiLocation.destChain (who : MultiLocation) : Option BridgeChainId :=
  match who.parents, who.interior with
  | 0, [.generalKey _, .generalIndex destId, .generalKey _] => toChainId destId
  | _, _ => none

namespace KeptByDeposits

theorem onTokens (hI : KeptByDeposits dests I) (f : S → Except Error S) :
    (onTokens f : Call (State S P) Error Unit).Keeps I := by
  intro s hs
  refine Call.ends_of (fun _ s' h => ?_) fun _ s' h => ?_
  · unfold XTransfer.onTokens at h
    split at h
    · cases h
      exact hI.tokens s _ hs
    · cases h
  · unfold XTransfer.onTokens at h
    split at h
    · cases h
    · cases h
      exact hs

theorem ofDeposit (hI : KeptByDeposits dests I) {destId : BridgeChainId} {event : DepositNonce → BridgeEvent}
    (hdest : destId ∈ dests) (he : EventsOf destId event) :
    (XTransfer.deposit destId event : Call (State S P) Error Unit).Keeps I := by
  intro s hs
  unfold Call.Ends
  rw [deposit_eq]
  by_cases h : s.bridge.chainWhitelisted destId = true
  · rw [if_pos h]
    exact hI.deposit s destId event hdest he h hs
  · rw [if_neg h]
    exact hs

theorem announceXcm (hI : KeptByDeposits dests I) {destId : BridgeChainId}
    (hdest : destId ∈ dests) (recipient : Bytes)
    (amount : ℕ) : (announceXcm destId rid recipient amount : Call (State S P) Error Unit).Keeps I := by
  intro s hs
  have hends := (hI.ofDeposit hdest eventsOf_fungible : (announce destId rid recipient amount).Keeps I) s hs
  refine Call.ends_of (fun _ s' h => ?_) fun _ s' h => ?_
  · unfold XTransfer.announceXcm at h
    split at h
    · next heq =>
      cases h
      exact hends.ok heq
    · cases h
  · unfold XTransfer.announceXcm at h
    split at h
    · cases h
    · next heq =>
      cases h
      exact hends.error heq

theorem ensureSigned (origin : Origin AccountId) :
    (ensureSigned origin : Call (State S P) Error AccountId).Keeps I := by
  cases origin with
  | signed who => exact .pure who
  | committee => exact .throw _
  | other => exact .throw _

theorem ensureBridge (origin : Origin AccountId) :
    (ensureBridge rt origin : Call (State S P) Error AccountId).Keeps I := by
  cases origin with
  | signed who =>
    unfold XTransfer.ensureBridge
    dsimp only
    split
    · exact .pure who
    · exact .throw _
  | committee => exact .throw _
  | other => exact .throw _

theorem transferNative (hI : KeptByDeposits dests I) (origin : Origin AccountId) (amount : ℕ) (recipient : Bytes)
    {destId : BridgeChainId} (hdest : destId ∈ dests) :
    (transferNative rt origin amount recipient destId : Call (State S P) Error Unit).Keeps I := by
  refine .transactional (.bind (ensureSigned origin) fun sender => .bind .read fun s => ?_)
  refine .bind (.ensure _ _) fun _ => .bind (.ensure _ _) fun _ => .bind (.ensure _ _) fun _ => ?_
  refine .bind (hI.onTokens _) fun _ => .bind (hI.onTokens _) fun _ => .bind (hI.onTokens _) fun _ => ?_
  exact hI.ofDeposit hdest eventsOf_fungible

theorem transferAssets (hI : KeptByDeposits dests I) (origin : Origin AccountId) (asset : MultiLocation)
    {destId : BridgeChainId} (hdest : destId ∈ dests) (recipient : Bytes) (amount : ℕ) :
    (transferAssets rt origin asset destId recipient amount : Call (State S P) Error Unit).Keeps I := by
  refine .transactional (.bind (ensureSigned origin) fun sender => .bind (.unwrap _ _) fun reserve => ?_)
  refine .bind .read fun s => .bind (.ensure _ _) fun _ => .bind (.ensure _ _) fun _ => ?_
  refine .bind (.unwrap _ _) fun id => .bind (.lift _) fun _ => .bind (.lift _) fun _ =>
    .bind (.ensure _ _) fun _ => ?_
  refine .bind (.unwrap _ _) fun fee => .bind (.ensure _ _) fun _ => .bind (.lift _) fun feeAmount => ?_
  refine .bind (hI.onTokens _) fun _ => .bind .read fun s => .bind (.lift _) fun assetAmount => ?_
  split
  · exact .bind (hI.onTokens _) fun _ => hI.ofDeposit hdest eventsOf_fungible
  · exact .bind (hI.onTokens _) fun _ => hI.ofDeposit hdest eventsOf_fungible

theorem depositOverBridge (hI : KeptByDeposits dests I) (location : MultiLocation) (amount : ℕ) {destId : ℕ}
    (hdest : ∀ chain, toChainId destId = some chain → chain ∈ dests) (recipient : Bytes) :
    (depositOverBridge rt location amount destId recipient : Call (State S P) Error Unit).Keeps I := by
  intro s hs
  refine .unwrap_then (fun _ => hs) fun chain hchain => ?_
  suffices hkeeps : Call.Keeps _ I from hkeeps s hs
  refine .bind .read fun s => .bind (.unwrap _ _) fun fee => .bind (.ensure _ _) fun _ => ?_
  refine .bind (hI.onTokens _) fun _ => .bind (.unwrap _ _) fun reserve => ?_
  dsimp only
  split
  · exact .bind (hI.onTokens _) fun _ => hI.announceXcm (hdest chain hchain) recipient _
  · exact hI.announceXcm (hdest chain hchain) recipient _

theorem depositAsset (hI : KeptByDeposits dests I) (what : MultiAsset) {who : MultiLocation}
    (hdest : ∀ chain, who.destChain = some chain → chain ∈ dests) :
    (depositAsset rt what who : Call (State S P) Error Unit).Keeps I := by
  obtain ⟨parents, interior⟩ := who
  unfold XTransfer.depositAsset
  dsimp only
  split
  · refine .bind (.ensure _ _) fun _ => ?_
    split
    · exact hI.depositOverBridge _ _ hdest _
    · exact .throw _
  · exact .bind .read fun s => hI.onTokens _

theorem payOut (hI : KeptByDeposits dests I) (registry : Registry) (location place : MultiLocation) (amount : ℕ) :
    (payOut rt registry rid location place amount : Call (State S P) Error Unit).Keeps I := by
  have hforward : (forward rt registry rid location place amount : Call (State S P) Error Unit).Keeps I := by
    refine .bind (hI.onTokens _) fun _ s hs => Call.ends_of (fun _ s' h => ?_) fun e s' h => ?_
    · obtain ⟨-, rfl⟩ := Prod.ext_iff.mp h
      exact hI.tokens s _ hs
    · obtain ⟨-, rfl⟩ := Prod.ext_iff.mp h
      exact hI.tokens s _ hs
  unfold XTransfer.payOut
  split
  · exact hI.onTokens _
  · exact hforward
  · exact hforward
  · exact .throw _
  · exact .throw _

/-- What is released is noted, too. -/
theorem transfer (hI : KeptByDeposits dests I) (hreleased : ∀ s released, I s → I { s with released })
    (origin : Origin AccountId) (dest : Bytes) (amount : ℕ) :
    (transfer rt origin dest amount rid : Call (State S P) Error Unit).Keeps I := by
  refine .bind (ensureBridge origin) fun _ => .bind (.unwrap _ _) fun place => .bind .read fun s => ?_
  refine .bind (.lift _) fun location => .bind (.unwrap _ _) fun reserve => ?_
  dsimp only
  split
  · refine .bind (hI.onTokens _) fun _ => .bind (.write fun s hs => hreleased s _ hs) fun _ => ?_
    exact hI.payOut _ _ _ _
  · exact hI.payOut _ _ _ _

end KeptByDeposits

end Khala.XTransfer
