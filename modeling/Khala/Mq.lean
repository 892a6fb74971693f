/-
The off-chain message queue: the sender's side (`phala-mq`, `send_queue.rs`)
and the chain's (`pallets/phala/src/mq.rs`, with `check_seq.rs` and the
registry's `check_message`).

A sender numbers its messages and keeps them until they are purged. The chain
accepts a message whose number it expects next of its sender. Anybody may
submit anything, any number of times.

What is signed is a message with its number; `verify` stands for sr25519.
Numbers are naturals. They fit their 64 bits as long as the sender has sent
fewer than 2^64 messages (`Delivering.numbers_lt`).
-/
import Khala.Call
import Khala.Reach
import Khala.StorageMap

namespace Khala.Mq

abbrev Bytes : Type := List UInt8

/-! ## Messages -/

inductive MessageOrigin
  | pallet (name : Bytes)
  | contract (id : Bytes)
  | worker (pubkey : Bytes)
  | accountId (id : Bytes)
  | multiLocation (location : Bytes)
  | gatekeeper
deriving DecidableEq

/-- `is_offchain` -/
def MessageOrigin.isOffchain : MessageOrigin → Bool
  | .contract _ | .worker _ | .gatekeeper => true
  | _ => false

structure Topic where
  path : Bytes
deriving DecidableEq

namespace Topic

/-- `~!@#$%&*_+-=|<>?,./;:'` -/
def reservedBytes : Bytes :=
  [126, 33, 64, 35, 36, 37, 38, 42, 95, 43, 45, 61, 124, 60, 62, 63, 44, 46, 47, 59, 58, 39]

def isValid (t : Topic) : Bool :=
  match t.path with
  | [] => false
  | b :: _ => !reservedBytes.contains b

/-- Topics that start with `^` have on-chain subscribers only. -/
def isOffchain (t : Topic) : Bool := t.isValid && t.path.head? != some 94

end Topic

structure Message where
  sender : MessageOrigin
  destination : Topic
  payload : Bytes
deriving DecidableEq

structure SignedMessage where
  message : Message
  sequence : ℕ
  signature : Bytes
deriving DecidableEq

/-! ## The sender -/

structure Channel where
  sequence : ℕ
  messages : List SignedMessage
  dummy : Bool

/-- The queue of each sender; a sender without an entry has the default one. -/
abbrev MessageSendQueue : Type := MessageOrigin → Channel

namespace MessageSendQueue

def empty : MessageSendQueue := fun _ => ⟨0, [], false⟩

def enqueueMessage (queue : MessageSendQueue) (sender : MessageOrigin) (constructor : ℕ → SignedMessage) :
    MessageSendQueue := fun k =>
  if k = sender then
    let entry := queue sender
    { entry with
      sequence := entry.sequence + 1
      messages := if entry.dummy = true then entry.messages else entry.messages ++ [constructor entry.sequence] }
  else queue k

/-- Drops the messages that are accepted on chain already. -/
def purge (queue : MessageSendQueue) (nextSequenceFor : MessageOrigin → ℕ) : MessageSendQueue := fun k =>
  { queue k with messages := (queue k).messages.filter fun msg => msg.sequence ≥ nextSequenceFor k }

end MessageSendQueue

/-! ## The chain -/

inductive Error
  | badOrigin | badSender | badDestination | badSequence
  | unknownContract | masterKeyUninitialized | cannotHandleUnknownMessage
  | invalidSignatureLength | invalidSignature
deriving DecidableEq, Repr

/-- What the message queue takes from elsewhere. `X` is the rest of the chain's state. -/
structure Config (X : Type) where
  contractKeys : X → Bytes → Option Bytes
  gatekeeperMasterPubkey : X → Option Bytes
  verify : Bytes → Message × ℕ → Bytes → Bool
  /-- What the handlers do to the rest of the chain, and what they push to the
  outbound messages; their errors are dropped. -/
  onMessageReceived : X → Message → X × List Message

structure Chain (X : Type) where
  offchainIngress : StorageMap MessageOrigin ℕ
  outboundMessages : List Message
  rest : X
  /-- History: the off-chain messages handed to `dispatch_message`. -/
  dispatched : List Message

variable {X : Type}

namespace Chain

/-- The next expected sequence of a sender. -/
def expectedSeq (c : Chain X) (sender : MessageOrigin) : ℕ := (c.offchainIngress.lookup sender).getD 0

def insertIngress (c : Chain X) (sender : MessageOrigin) (seq : ℕ) : Chain X :=
  { c with offchainIngress := c.offchainIngress.insert sender seq }

variable (cfg : Config X)

def dispatchMessage (c : Chain X) (message : Message) : Chain X :=
  let (rest, pushed) := cfg.onMessageReceived c.rest message
  { c with
    rest
    outboundMessages :=
      c.outboundMessages ++ pushed ++ if message.destination.isOffchain = true then [message] else []
    dispatched := c.dispatched ++ [message] }

def verifySignature (pubkey : Bytes) (message : SignedMessage) : Except Error Unit :=
  if message.signature.length ≠ 64 then throw .invalidSignatureLength
  else if cfg.verify message.signature (message.message, message.sequence) pubkey = true then pure ()
  else throw .invalidSignature

/-- The registry's `check_message`. -/
def checkMessage (c : Chain X) (message : SignedMessage) : Except Error Unit :=
  match message.message.sender with
  | .worker pubkey => verifySignature cfg pubkey message
  | .contract id =>
    match cfg.contractKeys c.rest id with
    | some pubkey => verifySignature cfg pubkey message
    | none => throw .unknownContract
  | .gatekeeper =>
    match cfg.gatekeeperMasterPubkey c.rest with
    | some pubkey => verifySignature cfg pubkey message
    | none => throw .masterKeyUninitialized
  | _ => throw .cannotHandleUnknownMessage

end Chain

/-- The call, of a signed account or (`none`) of another origin. -/
def syncOffchainMessage (cfg : Config X) (origin : Option Bytes) (signedMessage : SignedMessage) :
    Call (Chain X) Error Unit := do
  Call.ensure (origin ≠ none) .badOrigin
  let sender := signedMessage.message.sender
  Call.ensure (sender.isOffchain = true) .badSender
  Call.ensure (signedMessage.message.destination.isValid = true) .badDestination
  let chain ← Call.read
  let expectedSeq := chain.expectedSeq sender
  Call.ensure (signedMessage.sequence = expectedSeq) .badSequence
  Call.lift (chain.checkMessage cfg signedMessage)
  Call.write fun c => c.insertIngress sender (expectedSeq + 1)
  Call.write fun c => c.dispatchMessage cfg signedMessage.message

/-! ## The transaction extension -/

inductive Invalid
  | stale | future
deriving DecidableEq, Repr

/-- `CheckMqSequence::pre_dispatch` of the call. -/
def preDispatch (c : Chain X) (signedMessage : SignedMessage) : Except Invalid Unit :=
  let expectedSeq := c.expectedSeq signedMessage.message.sender
  if signedMessage.sequence ≠ expectedSeq then
    throw (if signedMessage.sequence < expectedSeq then .stale else .future)
  else pure ()

/-- `CheckMqSequence::validate` of the call: the tags that it provides and requires. -/
def validate (c : Chain X) (signedMessage : SignedMessage) :
    Except Invalid (List (MessageOrigin × ℕ) × List (MessageOrigin × ℕ)) :=
  let sender := signedMessage.message.sender
  let expectedSeq := c.expectedSeq sender
  if signedMessage.sequence < expectedSeq then throw .stale
  else pure ([(sender, signedMessage.sequence)],
    if signedMessage.sequence > expectedSeq then [(sender, signedMessage.sequence - 1)] else [])

/-- What a submitted transaction comes to: `invalid` ones are not included in a block. -/
inductive Refusal
  | invalid (i : Invalid)
  | dispatch (e : Error)
deriving DecidableEq, Repr

/-- A transaction with the call. -/
def submitTransaction (cfg : Config X) (origin : Option Bytes) (signedMessage : SignedMessage) :
    Call (Chain X) Refusal Unit := fun c =>
  match preDispatch c signedMessage with
  | .error i => (.error (.invalid i), c)
  | .ok () =>
    match syncOffchainMessage cfg origin signedMessage c with
    | (.ok (), c') => (.ok (), c')
    | (.error e, c') => (.error (.dispatch e), c')

/-! ## The system -/

structure System (X : Type) where
  queue : MessageSendQueue
  chain : Chain X
  /-- History: what each sender enqueued. -/
  enqueued : MessageOrigin → List SignedMessage

inductive Op (X : Type)
  /-- `MessageChannel::push_data`, whose signer signed so. -/
  | pushData (sender : MessageOrigin) (payload toPath signature : Bytes)
  | submit (origin : Option Bytes) (signedMessage : SignedMessage)
  /-- The call inside of another one, which the transaction extension does not see. -/
  | nested (origin : Option Bytes) (signedMessage : SignedMessage)
  | purge (next : MessageOrigin → ℕ)
  /-- Whatever else happens on chain. -/
  | other (rest : X) (outboundMessages : List Message)

/-- `SigningMessage::sign` -/
def signing (sender : MessageOrigin) (payload toPath signature : Bytes) (sequence : ℕ) : SignedMessage :=
  ⟨⟨sender, ⟨toPath⟩, payload⟩, sequence, signature⟩

def exec (cfg : Config X) (s : System X) : Op X → System X
  | .pushData sender payload toPath signature =>
    let constructor := signing sender payload toPath signature
    { s with
      queue := s.queue.enqueueMessage sender constructor
      enqueued := fun k =>
        if k = sender then s.enqueued k ++ [constructor (s.queue sender).sequence] else s.enqueued k }
  | .submit origin signedMessage => { s with chain := (submitTransaction cfg origin signedMessage s.chain).2 }
  | .nested origin signedMessage => { s with chain := (syncOffchainMessage cfg origin signedMessage s.chain).2 }
  | .purge next => { s with queue := s.queue.purge next }
  | .other rest outboundMessages => { s with chain := { s.chain with rest, outboundMessages } }

/-- Nothing is sent and nothing is accepted yet. -/
structure Genesis (s : System X) : Prop where
  queue : s.queue = .empty
  enqueued : s.enqueued = fun _ => []
  chain : s.chain.offchainIngress = ∅ ∧ s.chain.dispatched = []

/-- The signature of a message that the chain takes for its sender's is of one that the sender sent. -/
def Unforged (cfg : Config X) (s : System X) (signedMessage : SignedMessage) : Prop :=
  s.chain.checkMessage cfg signedMessage = .ok () →
    ∃ sent ∈ s.enqueued signedMessage.message.sender,
      sent.message = signedMessage.message ∧ sent.sequence = signedMessage.sequence

/-- Signatures are not forged, and a purge takes numbers that the chain gave out
at some time: they are never above the present ones (`expectedSeq_mono`). -/
def Admissible (cfg : Config X) (s : System X) : Op X → Prop
  | .submit _ signedMessage => Unforged cfg s signedMessage
  | .nested _ signedMessage => Unforged cfg s signedMessage
  | .purge next => ∀ sender, next sender ≤ s.chain.expectedSeq sender
  | _ => True

abbrev Reachable (cfg : Config X) : System X → Prop :=
  ReachWhere Genesis (fun s op s' => s' = exec cfg s op) (Admissible cfg)

end Khala.Mq
