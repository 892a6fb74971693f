/-
The message dispatcher of `phala-mq` (`dispatcher.rs`, over `simple_mpsc.rs`).

Receivers subscribe to paths. A dispatched message goes to every receiver of its
path, through a channel of its own; a sender whose receiver has gone is removed
as the dispatcher comes across it. Channels are shared between their two ends:
they are kept apart, by their ids. An end that has been dropped is used no more.

Indices are naturals. They fit their 64 bits as long as fewer than 2^64 messages
have been dispatched (`System.Reachable.indices_lt`).
-/
import Khala.Mq
import Khala.Reach

namespace Khala.Dispatcher

open Mq (Bytes Message)

abbrev Path : Type := Bytes

/-! ## Channels -/

inductive SendError
  | receiverGone
deriving DecidableEq

inductive ReceiveError
  | senderGone
deriving DecidableEq

structure Channel (T : Type) where
  deque : List T
  senderCount : ℕ
  receiverGone : Bool

namespace Channel

variable {T : Type}

def new : Channel T := ⟨[], 1, false⟩

def send (ch : Channel T) (value : T) : Except SendError Unit × Channel T :=
  if ch.receiverGone = true then (.error .receiverGone, ch) else (.ok (), { ch with deque := ch.deque ++ [value] })

def clear (ch : Channel T) : ℕ × Channel T := (ch.deque.length, { ch with deque := [] })

/-- `Drop` of the sender -/
def dropSender (ch : Channel T) : Channel T := { ch with senderCount := ch.senderCount - 1 }

/-- `Drop` of the receiver -/
def dropReceiver (ch : Channel T) : Channel T := { ch with receiverGone := true }

def tryNext (ch : Channel T) : Except ReceiveError (Option T) × Channel T :=
  match ch.deque with
  | value :: deque => (.ok (some value), { ch with deque })
  | [] => if ch.senderCount = 0 then (.error .senderGone, ch) else (.ok none, ch)

def peekInd (seq : T → ℕ) (ch : Channel T) : Except ReceiveError (Option ℕ) :=
  match ch.deque.head? with
  | some value => .ok (some (seq value))
  | none => if ch.senderCount = 0 then .error .senderGone else .ok none

end Channel

/-! ## The dispatcher -/

abbrev ChannelId : Type := ℕ

/-- A message with its index. -/
abbrev Item : Type := ℕ × Message

structure MessageDispatcher where
  subscribers : StorageMap Path (List ChannelId)
  localIndex : ℕ

structure System where
  dispatcher : MessageDispatcher
  channels : ChannelId → Channel Item
  nextChannel : ChannelId
  /-- The topic of a receiver. -/
  topic : ChannelId → Path
  /-- History -/
  dispatched : List Item
  /-- History: how many had been dispatched when the receiver subscribed. -/
  since : ChannelId → ℕ
  /-- History: what the receiver has received. -/
  obtained : ChannelId → List Item

def MessageDispatcher.senders (d : MessageDispatcher) (path : Path) : List ChannelId :=
  (d.subscribers.lookup path).getD []

namespace System

def empty : System where
  dispatcher := ⟨∅, 0⟩
  channels _ := .new
  nextChannel := 0
  topic _ := []
  dispatched := []
  since _ := 0
  obtained _ := []

/-- The receiver has been handed out, and is not dropped. -/
def Live (s : System) (id : ChannelId) : Prop := id < s.nextChannel ∧ (s.channels id).receiverGone = false

instance (s : System) (id : ChannelId) : Decidable (s.Live id) := inferInstanceAs (Decidable (_ ∧ _))

def subscribe (s : System) (path : Path) : System where
  dispatcher := { s.dispatcher with
    subscribers := s.dispatcher.subscribers.insert path (s.dispatcher.senders path ++ [s.nextChannel]) }
  channels := Function.update s.channels s.nextChannel .new
  nextChannel := s.nextChannel + 1
  topic := Function.update s.topic s.nextChannel path
  dispatched := s.dispatched
  since := Function.update s.since s.nextChannel s.dispatched.length
  obtained := Function.update s.obtained s.nextChannel []

@[simp] theorem subscribe_channels (s : System) (path : Path) :
    (s.subscribe path).channels = Function.update s.channels s.nextChannel .new := rfl

@[simp] theorem subscribe_nextChannel (s : System) (path : Path) :
    (s.subscribe path).nextChannel = s.nextChannel + 1 := rfl

@[simp] theorem subscribe_topic (s : System) (path : Path) :
    (s.subscribe path).topic = Function.update s.topic s.nextChannel path := rfl

@[simp] theorem subscribe_since (s : System) (path : Path) :
    (s.subscribe path).since = Function.update s.since s.nextChannel s.dispatched.length := rfl

@[simp] theorem subscribe_obtained (s : System) (path : Path) :
    (s.subscribe path).obtained = Function.update s.obtained s.nextChannel [] := rfl

/-- `receivers.retain(..)`: the senders that stay, how often the message was sent, and the channels. -/
def sendAll (item : Item) : List ChannelId → (ChannelId → Channel Item) →
    List ChannelId × ℕ × (ChannelId → Channel Item)
  | [], channels => ([], 0, channels)
  | id :: ids, channels =>
    let sent := (channels id).send item
    match sent.1 with
    | .error .receiverGone => sendAll item ids (Function.update channels id sent.2.dropSender)
    | .ok () =>
      let rest := sendAll item ids (Function.update channels id sent.2)
      (id :: rest.1, rest.2.1 + 1, rest.2.2)

/-- How many receivers the message is dispatched to, and the system then. -/
def dispatch (s : System) (message : Message) : ℕ × System :=
  let sn := s.dispatcher.localIndex
  let path := message.destination.path
  let s := { s with
    dispatcher := { s.dispatcher with localIndex := sn + 1 }
    dispatched := s.dispatched ++ [(sn, message)] }
  match s.dispatcher.subscribers.lookup path with
  | some receivers =>
    let sent := sendAll (sn, message) receivers s.channels
    (sent.2.1, { s with
      dispatcher := { s.dispatcher with subscribers := s.dispatcher.subscribers.insert path sent.1 }
      channels := sent.2.2 })
  | none => (0, s)

def resetLocalIndex (s : System) : System := { s with dispatcher := { s.dispatcher with localIndex := 0 } }

/-- Drop all unhandled messages. -/
def clear (s : System) : ℕ × System :=
  let ids := s.dispatcher.subscribers.entries.flatMap fun entry => entry.2
  let cleared := ids.foldl (fun acc id =>
    (acc.1 + ((acc.2 id).clear).1, Function.update acc.2 id ((acc.2 id).clear).2)) (0, s.channels)
  (cleared.1, { s with channels := cleared.2 })

def dropReceiver (s : System) (id : ChannelId) : System :=
  { s with channels := Function.update s.channels id (s.channels id).dropReceiver }

def tryNext (s : System) (id : ChannelId) : Except ReceiveError (Option Item) × System :=
  let next := (s.channels id).tryNext
  let received := match next.1 with
    | .ok (some item) => [item]
    | _ => []
  (next.1, { s with
    channels := Function.update s.channels id next.2
    obtained := Function.update s.obtained id (s.obtained id ++ received) })

/-! ## Runs -/

inductive Op
  | subscribe (path : Path)
  | dispatch (message : Message)
  | dropReceiver (id : ChannelId)
  | tryNext (id : ChannelId)
  | resetLocalIndex
  | clear

/-- Only a live receiver can be dropped or asked. -/
def exec (s : System) : Op → System
  | .subscribe path => s.subscribe path
  | .dispatch message => (s.dispatch message).2
  | .dropReceiver id => if s.Live id then s.dropReceiver id else s
  | .tryNext id => if s.Live id then (s.tryNext id).2 else s
  | .resetLocalIndex => s.resetLocalIndex
  | .clear => s.clear.2

/-- No message is pending. -/
def Idle (s : System) : Prop := ∀ id < s.nextChannel, (s.channels id).receiverGone = false →
    (s.channels id).deque = []

instance (s : System) : Decidable s.Idle := inferInstanceAs (Decidable (∀ id < _, _ → _))

/-- Indices are reset, and messages are cleared, while none is pending. -/
def Keeps (s : System) : Op → Prop
  | .resetLocalIndex | .clear => s.Idle
  | _ => True

instance (s : System) : (op : Op) → Decidable (s.Keeps op)
  | .resetLocalIndex | .clear => inferInstanceAs (Decidable s.Idle)
  | .subscribe _ | .dispatch _ | .dropReceiver _ | .tryNext _ => isTrue trivial

abbrev Reachable : System → Prop := ReachWhere (· = empty) (fun s op s' => s' = s.exec op) Keeps

end System

end Khala.Dispatcher
