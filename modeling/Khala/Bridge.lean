/-
The bridge pallet (`pallets/xtransfer/src/bridge/mod.rs`): relayers vote on the
proposals of other chains, and the pallet dispatches a proposal with enough votes.

A dispatched call may call the pallet again. `Script` is what it does, one thing
after the other; `dispatch` runs it, and dispatches nest to any given depth.
Nothing is rolled back when a call errs: where a caller does roll back, it is as
if the call never ran.

Counts are naturals. `relayer_count` is the number of relayers (`Voting.counted`), so it
fits its 32 bits while there are fewer than 2^32; a nonce fits its 64 bits while fewer than
2^64 transfers to the chain are announced (`XTransfer.Numbered.nonce_lt`).
-/
import Khala.Call
import Khala.Reach
import Khala.StorageMap

namespace Khala.Bridge

abbrev BridgeChainId : Type := UInt8

abbrev DepositNonce : Type := ℕ

abbrev ResourceId : Type := Vector UInt8 32

variable {A P X : Type}

/-! ## Proposals -/

inductive ProposalStatus
  | initiated | approved | rejected
deriving DecidableEq, Repr

structure ProposalVotes (A : Type) where
  votesFor : List A
  votesAgainst : List A
  status : ProposalStatus
  expiry : ℕ
deriving DecidableEq, Repr

namespace ProposalVotes

/-- The `default`, with its expiry. -/
def new (expiry : ℕ) : ProposalVotes A := ⟨[], [], .initiated, expiry⟩

def tryToComplete (votes : ProposalVotes A) (threshold total : ℕ) : ProposalStatus × ProposalVotes A :=
  if votes.votesFor.length ≥ threshold then (.approved, { votes with status := .approved })
  else if total ≥ threshold ∧ votes.votesAgainst.length + threshold > total then
    (.rejected, { votes with status := .rejected })
  else (.initiated, votes)

def isComplete (votes : ProposalVotes A) : Bool := votes.status ≠ .initiated

def hasVoted [DecidableEq A] (votes : ProposalVotes A) (who : A) : Bool :=
  votes.votesFor.contains who || votes.votesAgainst.contains who

def isExpired (votes : ProposalVotes A) (now : ℕ) : Bool := votes.expiry ≤ now

/-- With one more vote. -/
def push (votes : ProposalVotes A) (who : A) (inFavour : Bool) : ProposalVotes A :=
  if inFavour = true then { votes with votesFor := votes.votesFor ++ [who] }
  else { votes with votesAgainst := votes.votesAgainst ++ [who] }

end ProposalVotes

/-- The source chain, the nonce and the call. -/
abbrev Key (P : Type) : Type := BridgeChainId × DepositNonce × P

/-! ## Storage -/

inductive Error
  | badOrigin
  | invalidChainId | invalidThreshold | chainNotWhitelisted | chainAlreadyWhitelisted
  | relayerAlreadyExists | relayerInvalid | mustBeRelayer | relayerAlreadyVoted
  | proposalDoesNotExist | proposalAlreadyComplete | proposalExpired
  | tooDeep
  /-- An error of another pallet. -/
  | other (code : ℕ)
deriving DecidableEq, Repr

inductive Origin (A : Type)
  | signed (who : A)
  /-- `BridgeCommitteeOrigin` -/
  | committee
  | other

inductive BridgeEvent
  | fungibleTransfer (destId : BridgeChainId) (nonce : DepositNonce) (resourceId : ResourceId) (amount : ℕ)
    (recipient : List UInt8)
  | nonFungibleTransfer (destId : BridgeChainId) (nonce : DepositNonce) (resourceId : ResourceId)
    (tokenId recipient metadata : List UInt8)
  | genericTransfer (destId : BridgeChainId) (nonce : DepositNonce)
    (resourceId : ResourceId) (metadata : List UInt8)
deriving DecidableEq, Repr

namespace BridgeEvent

def destId : BridgeEvent → BridgeChainId
  | fungibleTransfer destId _ _ _ _ => destId
  | nonFungibleTransfer destId _ _ _ _ _ => destId
  | genericTransfer destId _ _ _ => destId

def nonce : BridgeEvent → DepositNonce
  | fungibleTransfer _ nonce _ _ _ => nonce
  | nonFungibleTransfer _ nonce _ _ _ _ => nonce
  | genericTransfer _ nonce _ _ => nonce

def resourceId : BridgeEvent → ResourceId
  | fungibleTransfer _ _ resourceId _ _ => resourceId
  | nonFungibleTransfer _ _ resourceId _ _ _ => resourceId
  | genericTransfer _ _ resourceId _ => resourceId

/-- Of a fungible asset. -/
def amount : BridgeEvent → ℕ
  | fungibleTransfer _ _ _ amount _ => amount
  | _ => 0

end BridgeEvent

structure Storage (A P : Type) where
  chainNonces : StorageMap BridgeChainId DepositNonce
  relayerThreshold : ℕ
  relayers : StorageMap A Bool
  relayerCount : ℕ
  votes : StorageMap (Key P) (ProposalVotes A)
  /-- The transfers out of the chain in this block. -/
  bridgeEvents : List BridgeEvent

namespace Storage

/-- The threshold is one by default. -/
def default : Storage A P := ⟨∅, 1, ∅, 0, ∅, []⟩

variable [DecidableEq A]

def isRelayer (st : Storage A P) (who : A) : Bool := (st.relayers.lookup who).getD false

def chainWhitelisted (st : Storage A P) (id : BridgeChainId) : Bool := (st.chainNonces.lookup id).isSome

def nextNonce (st : Storage A P) (id : BridgeChainId) : DepositNonce := (st.chainNonces.lookup id).getD 0 + 1

end Storage

/-- What happened, for the history. -/
inductive Event (A P : Type)
  /-- A vote, and whether the voter was a relayer. -/
  | voted (key : Key P) (who : A) (inFavour relayer : Bool)
  /-- `Votes` is written; the storage after that. -/
  | stored (key : Key P) (votes : ProposalVotes A) (st : Storage A P)
  /-- The call of the proposal is dispatched in the block `now`. -/
  | dispatched (key : Key P) (st : Storage A P) (now : ℕ)

structure Chain (A P X : Type) where
  bridge : Storage A P
  blockNumber : ℕ
  /-- What the pallet neither reads nor writes. -/
  rest : X
  /-- History, the newest event first. -/
  trace : List (Event A P)

namespace Chain

def record (c : Chain A P X) (e : Event A P) : Chain A P X := { c with trace := e :: c.trace }

variable [DecidableEq P]

def insertVotes (c : Chain A P X) (key : Key P) (votes : ProposalVotes A) : Chain A P X :=
  let bridge := { c.bridge with votes := c.bridge.votes.insert key votes }
  { c with bridge, trace := .stored key votes bridge :: c.trace }

end Chain

/-! ## The calls -/

/-- The entry points: the dispatchables, and what other pallets call. -/
inductive Entry (A P : Type)
  | setThreshold (threshold : ℕ)
  | whitelistChain (id : BridgeChainId)
  | addRelayer (v : A)
  | removeRelayer (v : A)
  | acknowledgeProposal (nonce : DepositNonce) (srcId : BridgeChainId) (call : P)
  | rejectProposal (nonce : DepositNonce) (srcId : BridgeChainId) (call : P)
  | evalVoteState (nonce : DepositNonce) (srcId : BridgeChainId) (prop : P)
  | transferFungible (destId : BridgeChainId) (resourceId : ResourceId) (recipient : List UInt8) (amount : ℕ)
  | transferNonfungible (destId : BridgeChainId) (resourceId : ResourceId)
    (tokenId recipient metadata : List UInt8)
  | transferGeneric (destId : BridgeChainId) (resourceId : ResourceId) (metadata : List UInt8)

/-- What a call does: it ends, writes the rest of the chain, or calls the pallet
and goes on from how that ended. -/
inductive Script (A P X : Type)
  | finish (result : Except Error Unit)
  | other (rest : X) (next : Script A P X)
  | call (origin : Origin A) (entry : Entry A P) (next : Except Error Unit → Chain A P X → Script A P X)

/-- What the pallet takes from the runtime. -/
structure Config (A P X : Type) where
  bridgeChainId : BridgeChainId
  proposalLifetime : ℕ
  /-- What a call does that is dispatched on the given state by the pallet's account. -/
  behaviour : P → Chain A P X → Script A P X
  depth : ℕ

def ensureSigned {S : Type} : Origin A → Call S Error A
  | .signed who => pure who
  | _ => throw .badOrigin

def ensureCommittee {S : Type} : Origin A → Call S Error Unit
  | .committee => pure ()
  | _ => throw .badOrigin

section Pallet

variable [DecidableEq A] [DecidableEq P] (cfg : Config A P X)

/-- A change of the pallet's storage only. -/
def put (f : Storage A P → Storage A P) : Call (Chain A P X) Error Unit :=
  Call.write fun c => { c with bridge := f c.bridge }

def setRelayerThreshold (threshold : ℕ) : Call (Chain A P X) Error Unit := do
  Call.ensure (threshold > 0) .invalidThreshold
  put fun st => { st with relayerThreshold := threshold }

def whitelist (id : BridgeChainId) : Call (Chain A P X) Error Unit := do
  Call.ensure (id ≠ cfg.bridgeChainId) .invalidChainId
  let c ← Call.read
  Call.ensure (c.bridge.chainWhitelisted id = false) .chainAlreadyWhitelisted
  put fun st => { st with chainNonces := st.chainNonces.insert id 0 }

def registerRelayer (relayer : A) : Call (Chain A P X) Error Unit := do
  let c ← Call.read
  Call.ensure (c.bridge.isRelayer relayer = false) .relayerAlreadyExists
  put fun st => { st with relayers := st.relayers.insert relayer true }
  put fun st => { st with relayerCount := st.relayerCount + 1 }

def unregisterRelayer (relayer : A) : Call (Chain A P X) Error Unit := do
  let c ← Call.read
  Call.ensure (c.bridge.isRelayer relayer = true) .relayerInvalid
  put fun st => { st with relayers := st.relayers.erase relayer }
  put fun st => { st with relayerCount := st.relayerCount - 1 }

/-- Commits a vote for a proposal. If the proposal doesn't exist it will be created. -/
def commitVote (who : A) (nonce : DepositNonce) (srcId : BridgeChainId) (prop : P) (inFavour : Bool) :
    Call (Chain A P X) Error Unit := do
  let c ← Call.read
  let now := c.blockNumber
  let votes := (c.bridge.votes.lookup (srcId, nonce, prop)).getD (.new (now + cfg.proposalLifetime))
  Call.ensure (votes.isComplete = false) .proposalAlreadyComplete
  Call.ensure (votes.isExpired now = false) .proposalExpired
  Call.ensure (votes.hasVoted who = false) .relayerAlreadyVoted
  Call.write fun c => c.record (.voted (srcId, nonce, prop) who inFavour (c.bridge.isRelayer who))
  Call.write fun c => c.insertVotes (srcId, nonce, prop) (votes.push who inFavour)

section Open

variable (dispatch : P → Call (Chain A P X) Error Unit)

/-- Execute the proposal. -/
def finalizeExecution (srcId : BridgeChainId) (nonce : DepositNonce) (call : P) :
    Call (Chain A P X) Error Unit := do
  Call.write fun c => c.record (.dispatched (srcId, nonce, call) c.bridge c.blockNumber)
  dispatch call

/-- Attempts to finalize or cancel the proposal if the vote count allows. -/
def tryResolveProposal (nonce : DepositNonce) (srcId : BridgeChainId) (prop : P) :
    Call (Chain A P X) Error Unit := do
  let c ← Call.read
  let votes ← Call.unwrap (c.bridge.votes.lookup (srcId, nonce, prop)) .proposalDoesNotExist
  let now := c.blockNumber
  Call.ensure (votes.isComplete = false) .proposalAlreadyComplete
  Call.ensure (votes.isExpired now = false) .proposalExpired
  let completed := votes.tryToComplete c.bridge.relayerThreshold c.bridge.relayerCount
  Call.write fun c => c.insertVotes (srcId, nonce, prop) completed.2
  match completed.1 with
  | .approved => finalizeExecution dispatch srcId nonce prop
  | .rejected => pure ()
  | .initiated => pure ()

def voteFor (who : A) (nonce : DepositNonce) (srcId : BridgeChainId) (prop : P) :
    Call (Chain A P X) Error Unit := do
  commitVote cfg who nonce srcId prop true
  tryResolveProposal dispatch nonce srcId prop

def voteAgainst (who : A) (nonce : DepositNonce) (srcId : BridgeChainId) (prop : P) :
    Call (Chain A P X) Error Unit := do
  commitVote cfg who nonce srcId prop false
  tryResolveProposal dispatch nonce srcId prop

/-- Who may vote, for or against. -/
def ensureMayVote (origin : Origin A) (srcId : BridgeChainId) : Call (Chain A P X) Error A := do
  let who ← ensureSigned origin
  let c ← Call.read
  Call.ensure (c.bridge.isRelayer who = true) .mustBeRelayer
  Call.ensure (c.bridge.chainWhitelisted srcId = true) .chainNotWhitelisted
  pure who

/-- Increments the deposit nonce for the specified chain ID. -/
def bumpNonce (id : BridgeChainId) : Call (Storage A P) Error DepositNonce := do
  let st ← Call.read
  let nonce := st.nextNonce id
  Call.write fun st => { st with chainNonces := st.chainNonces.insert id nonce }
  pure nonce

/-- Initiates a transfer out of the chain, with the event of its nonce. -/
def deposit (destId : BridgeChainId) (event : DepositNonce → BridgeEvent) : Call (Storage A P) Error Unit := do
  let st ← Call.read
  Call.ensure (st.chainWhitelisted destId = true) .chainNotWhitelisted
  let nonce ← bumpNonce destId
  Call.write fun st => { st with bridgeEvents := st.bridgeEvents ++ [event nonce] }

omit [DecidableEq A] [DecidableEq P] in
theorem deposit_eq (destId : BridgeChainId) (event : DepositNonce → BridgeEvent) (st : Storage A P) :
    deposit destId event st = if st.chainWhitelisted destId = true then
      (.ok (), { st with
        chainNonces := st.chainNonces.insert destId (st.nextNonce destId)
        bridgeEvents := st.bridgeEvents ++ [event (st.nextNonce destId)] })
    else (.error .chainNotWhitelisted, st) := by
  change (Call.ensure _ _ >>= fun _ => _) st = _
  split
  · next h => rw [Call.bind_ok (Call.ensure_of h)]; rfl
  · next h => rw [Call.bind_error (Call.ensure_not h)]

/-- `BridgeTransact::transfer_fungible` -/
def transferFungible (destId : BridgeChainId) (resourceId : ResourceId) (recipient : List UInt8) (amount : ℕ) :
    Call (Storage A P) Error Unit :=
  deposit destId fun nonce => .fungibleTransfer destId nonce resourceId amount recipient

/-- `BridgeTransact::transfer_nonfungible` -/
def transferNonfungible (destId : BridgeChainId) (resourceId : ResourceId)
    (tokenId recipient metadata : List UInt8) :
    Call (Storage A P) Error Unit :=
  deposit destId fun nonce => .nonFungibleTransfer destId nonce resourceId tokenId recipient metadata

/-- `BridgeTransact::transfer_generic` -/
def transferGeneric (destId : BridgeChainId) (resourceId : ResourceId) (metadata : List UInt8) :
    Call (Storage A P) Error Unit :=
  deposit destId fun nonce => .genericTransfer destId nonce resourceId metadata

/-- A call of another pallet, on the pallet's storage. -/
def onStorage (x : Call (Storage A P) Error Unit) : Call (Chain A P X) Error Unit :=
  Call.zoom Chain.bridge (fun c st => { c with bridge := st }) x

def enter (origin : Origin A) : Entry A P → Call (Chain A P X) Error Unit
  | .setThreshold threshold => do
    ensureCommittee origin
    setRelayerThreshold threshold
  | .whitelistChain id => do
    ensureCommittee origin
    whitelist cfg id
  | .addRelayer v => do
    ensureCommittee origin
    registerRelayer v
  | .removeRelayer v => do
    ensureCommittee origin
    unregisterRelayer v
  | .acknowledgeProposal nonce srcId call => do
    let who ← ensureMayVote origin srcId
    voteFor cfg dispatch who nonce srcId call
  | .rejectProposal nonce srcId call => do
    let who ← ensureMayVote origin srcId
    voteAgainst cfg dispatch who nonce srcId call
  | .evalVoteState nonce srcId prop => do
    let _ ← ensureSigned origin
    tryResolveProposal dispatch nonce srcId prop
  | .transferFungible destId resourceId recipient amount =>
    onStorage (transferFungible destId resourceId recipient amount)
  | .transferNonfungible destId resourceId tokenId recipient metadata =>
    onStorage (transferNonfungible destId resourceId tokenId recipient metadata)
  | .transferGeneric destId resourceId metadata =>
    onStorage (transferGeneric destId resourceId metadata)

def Script.run : Script A P X → Call (Chain A P X) Error Unit
  | .finish result => Call.lift result
  | .other rest next => fun c => next.run { c with rest }
  | .call origin entry next => fun c =>
    let ended := enter cfg dispatch origin entry c
    (next ended.1 ended.2).run ended.2

end Open

/-- `call.dispatch(..)`, with dispatches below it nested to the given depth. -/
def dispatch : ℕ → P → Call (Chain A P X) Error Unit
  | 0, _ => throw .tooDeep
  | depth + 1, call => fun c => (cfg.behaviour call c).run cfg (dispatch depth) c

/-! ## Runs -/

inductive Op (A P X : Type)
  | call (origin : Origin A) (entry : Entry A P)
  | nextBlock
  | other (rest : X)

def exec (c : Chain A P X) : Op A P X → Chain A P X
  | .call origin entry => (enter cfg (dispatch cfg cfg.depth) origin entry c).2
  | .nextBlock => { c with blockNumber := c.blockNumber + 1, bridge := { c.bridge with bridgeEvents := [] } }
  | .other rest => { c with rest }

/-- At any block number, before the first call. -/
structure Genesis (c : Chain A P X) : Prop where
  bridge : c.bridge = .default
  trace : c.trace = []

abbrev Reachable : Chain A P X → Prop := ReachWhere Genesis (fun c op c' => c' = exec cfg c op) fun _ _ => True

end Pallet

end Khala.Bridge
