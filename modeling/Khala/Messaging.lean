/-
The messages of the queue and their payloads, with their formats
(`phala-mq`, `types.rs`; `phala-types`, `lib.rs`; the event of `registry.rs`).

A field stands where it is declared, and a variant starts with its place. Keys
and hashes have 32 bytes.
-/
import Khala.ScaleFormats
import Khala.SignedBytes

namespace Khala

/-! ## Senders and messages -/

namespace Mq

namespace MessageOrigin

def parts : MessageOrigin → Format.Part UInt8
  | .pallet name => Scale.bytes.part name
  | .contract id => Scale.hash.part id
  | .worker pubkey => Scale.hash.part pubkey
  | .accountId id => Scale.hash.part id
  | .multiLocation location => Scale.bytes.part location
  | .gatekeeper => Format.unit.part ()

def branches : List (Bytes → Option (MessageOrigin × Bytes)) :=
  [Scale.bytes.fields .pallet, Scale.hash.fields .contract, Scale.hash.fields .worker,
    Scale.hash.fields .accountId,
    Scale.bytes.fields .multiLocation, Format.unit.fields fun _ => .gatekeeper]

theorem branch_iff (i : ℕ) (d : Bytes → Option (MessageOrigin × Bytes)) (hd : branches[i]? = some d)
    (input : Bytes) (origin : MessageOrigin) (rest : Bytes) : d input = some (origin, rest) ↔
      origin.index = i ∧ origin.parts.valid ∧ input = origin.parts.tokens ++ rest := by
  rcases i with _ | _ | _ | _ | _ | _ | i
  case succ.succ.succ.succ.succ.succ => cases hd
  all_goals
    cases hd
    rw [Format.fields_iff]
    cases origin <;> simp [index, parts, Unique.exists_iff]

def format : Format UInt8 MessageOrigin :=
  .variant Scale.u8 index parts branches
    (fun origin => ⟨origin.index_lt.trans (by decide), origin.index_lt⟩) branch_iff

theorem encode_eq_format {origin : MessageOrigin} (h : format.valid origin) :
    origin.encode = some (format.encode origin) := by
  have hbytes : ∀ {index : ℕ} {string : Bytes}, Scale.bytes.valid string →
      Scale.encodeVariant index (Scale.encodeBytes string) = some (leBytes 1 index ++ Scale.bytes.encode string) :=
    fun hvalid => by
      rw [Scale.encodeBytes_eq hvalid]
      rfl
  cases origin with
  | pallet name => exact hbytes h
  | multiLocation location => exact hbytes h
  | contract | worker | accountId | gatekeeper => rfl

end MessageOrigin

theorem MessageOrigin.valid_iff {origin : MessageOrigin} :
    format.valid origin ↔ origin.Sized ∧ origin.field.length < 2 ^ 32 := by
  have hkey : ∀ {string : Bytes}, Scale.hash.valid string ↔ string.length = 32 ∧ string.length < 2 ^ 32 :=
    ⟨fun h => ⟨h, h.trans_lt (by decide)⟩, fun h => h.1⟩
  cases origin with
  | pallet name => exact ⟨fun h => ⟨trivial, h⟩, fun h => h.2⟩
  | contract id => exact hkey
  | worker pubkey => exact hkey
  | accountId id => exact hkey
  | multiLocation location => exact ⟨fun h => ⟨trivial, h⟩, fun h => h.2⟩
  | gatekeeper => exact ⟨fun _ => ⟨trivial, by decide⟩, fun _ => trivial⟩

/-- Three fields, as a message. -/
def Message.fields : MessageOrigin × Bytes × Bytes ≃ Message where
  toFun p := ⟨p.1, ⟨p.2.1⟩, p.2.2⟩
  invFun message := (message.sender, message.destination.path, message.payload)
  left_inv _ := rfl
  right_inv _ := rfl

def Message.format : Format UInt8 Message :=
  (MessageOrigin.format.pair (Scale.bytes.pair Scale.bytes)).iso Message.fields

def SignedMessage.fields : Message × ℕ × Bytes ≃ SignedMessage where
  toFun p := ⟨p.1, p.2.1, p.2.2⟩
  invFun signed := (signed.message, signed.sequence, signed.signature)
  left_inv _ := rfl
  right_inv _ := rfl

def SignedMessage.format : Format UInt8 SignedMessage :=
  (Message.format.pair (Scale.u64.pair Scale.bytes)).iso SignedMessage.fields

namespace SignedMessage

/-- A message that can be encoded. -/
structure Encodable (signed : SignedMessage) : Prop where
  sender : signed.message.sender.Sized ∧ signed.message.sender.field.length < 2 ^ 32
  destination : signed.message.destination.path.length < 2 ^ 32
  payload : signed.message.payload.length < 2 ^ 32
  sequence : signed.sequence < 2 ^ 64
  signature : signed.signature.length < 2 ^ 32

theorem valid_iff {signed : SignedMessage} : format.valid signed ↔ signed.Encodable := by
  constructor
  · intro ⟨⟨hsender, hdestination, hpayload⟩, hsequence, hsignature⟩
    exact ⟨MessageOrigin.valid_iff.mp hsender, hdestination, hpayload, hsequence, hsignature⟩
  · intro ⟨hsender, hdestination, hpayload, hsequence, hsignature⟩
    exact ⟨⟨MessageOrigin.valid_iff.mpr hsender, hdestination, hpayload⟩, hsequence, hsignature⟩

/-- The bytes that are signed are the message without its signature. -/
theorem encode_eq_format {signed : SignedMessage} (h : format.valid signed) : ∃ data signature,
    signed.dataBeSigned = some data ∧ Scale.encodeBytes signed.signature = some signature ∧
      format.encode signed = data ++ signature := by
  obtain ⟨⟨hsender, hdestination, hpayload⟩, hsequence, hsignature⟩ := h
  refine ⟨Message.format.encode signed.message ++ Scale.u64.encode signed.sequence, _, ?_,
    Scale.encodeBytes_eq hsignature, (List.append_assoc _ _ _).symm⟩
  refine Scale.encodePair_eq_some.mpr ⟨_, _, ?_, rfl, rfl⟩
  refine Scale.encodePair_eq_some.mpr ⟨_, _, MessageOrigin.encode_eq_format hsender, ?_, rfl⟩
  exact Scale.encodePair_eq_some.mpr ⟨_, _, Scale.encodeBytes_eq hdestination, Scale.encodeBytes_eq hpayload, rfl⟩

end SignedMessage

/-- **What is read is what was signed.** A signed message is read off exactly the
bytes that its sender has signed, with the signature after them: nothing else
reads as that message, and whatever follows is left alone. -/
theorem signedMessage_read_iff (input rest : Bytes) (signed : SignedMessage) :
    SignedMessage.format.decode input = some (signed, rest) ↔ signed.Encodable ∧ ∃ data signature,
      signed.dataBeSigned = some data ∧ Scale.encodeBytes signed.signature = some signature ∧
        input = data ++ signature ++ rest := by
  rw [SignedMessage.format.decode_iff, ← SignedMessage.valid_iff]
  refine and_congr_right fun hvalid => ?_
  obtain ⟨data, signature, hdata, hsignature, hencode⟩ := SignedMessage.encode_eq_format hvalid
  rw [hencode]
  constructor
  · rintro rfl
    exact ⟨data, signature, hdata, hsignature, rfl⟩
  · rintro ⟨_, _, hdata', hsignature', rfl⟩
    cases hdata.symm.trans hdata'
    cases hsignature.symm.trans hsignature'
    rfl

/-- `decode_payload` -/
def Message.decodePayload {α : Type} (message : Message) (f : Format UInt8 α) : Option α :=
  f.decodeFirst message.payload

end Mq

/-! ## Payloads -/

namespace Messaging

abbrev Bytes : Type := List UInt8

/-- A public key or a hash has 32 bytes. -/
abbrev Key : Type := {bytes : Bytes // bytes.length = 32}

/-- The bytes of a string. -/
def utf8 (s : String) : Bytes := s.toUTF8.data.toList

/-! ### From workers and gatekeepers -/

inductive RegistryEvent
  | benchReport (startTime iterations : ℕ)
  | masterPubkey (pubkey : Key)
deriving DecidableEq, Repr

namespace RegistryEvent

def topic : Bytes := utf8 "^phala/registry/event"

def index : RegistryEvent → ℕ
  | .benchReport .. => 0
  | .masterPubkey _ => 1

def parts : RegistryEvent → Format.Part UInt8
  | .benchReport startTime iterations => (Scale.u64.pair Scale.u64).part (startTime, iterations)
  | .masterPubkey pubkey => Scale.key.part pubkey

def branches : List (Bytes → Option (RegistryEvent × Bytes)) :=
  [(Scale.u64.pair Scale.u64).fields fun p => .benchReport p.1 p.2, Scale.key.fields .masterPubkey]

theorem branch_iff (i : ℕ) (d : Bytes → Option (RegistryEvent × Bytes)) (hd : branches[i]? = some d)
    (input : Bytes) (event : RegistryEvent) (rest : Bytes) : d input = some (event, rest) ↔
      event.index = i ∧ event.parts.valid ∧ input = event.parts.tokens ++ rest := by
  rcases i with _ | _ | i
  case succ.succ => cases hd
  all_goals
    cases hd
    rw [Format.fields_iff]
    cases event <;> simp [index, parts, Format.pair]

def format : Format UInt8 RegistryEvent :=
  .variant Scale.u8 index parts branches
    (fun event => by cases event <;> simp [index, branches, Scale.u8, Scale.nat])
    branch_iff

end RegistryEvent

/-- An event of a worker, on the topic of the mining pallet. -/
structure MiningReportEvent where
  sessionId : ℕ
  challengeBlock : ℕ
  challengeTime : ℕ
  iterations : ℕ
deriving DecidableEq, Repr

namespace MiningReportEvent

def topic : Bytes := utf8 "phala/mining/report"

/-- `Heartbeat`, the only variant. -/
def heartbeat : ℕ × ℕ × ℕ × ℕ ≃ MiningReportEvent where
  toFun p := ⟨p.1, p.2.1, p.2.2.1, p.2.2.2⟩
  invFun event := (event.sessionId, event.challengeBlock, event.challengeTime, event.iterations)
  left_inv _ := rfl
  right_inv _ := rfl

def fields : Format UInt8 MiningReportEvent :=
  (Scale.u32.pair (Scale.u32.pair (Scale.u64.pair Scale.u64))).iso heartbeat

theorem branch_iff (i : ℕ) (d : Bytes → Option (MiningReportEvent × Bytes)) (hd : [fields.fields id][i]? = some d)
    (input : Bytes) (event : MiningReportEvent) (rest : Bytes) : d input = some (event, rest) ↔
      0 = i ∧ (fields.part event).valid ∧ input = (fields.part event).tokens ++ rest := by
  rcases i with _ | i
  case succ => cases hd
  cases hd
  rw [Format.fields_iff]
  simp

def format : Format UInt8 MiningReportEvent :=
  .variant Scale.u8 (fun _ => 0) fields.part [fields.fields id] (fun _ => by simp [Scale.u8, Scale.nat]) branch_iff

end MiningReportEvent

structure SettleInfo where
  pubkey : Key
  v : ℕ
  payout : ℕ
  treasury : ℕ
deriving DecidableEq, Repr

def SettleInfo.fields : Key × ℕ × ℕ × ℕ ≃ SettleInfo where
  toFun p := ⟨p.1, p.2.1, p.2.2.1, p.2.2.2⟩
  invFun info := (info.pubkey, info.v, info.payout, info.treasury)
  left_inv _ := rfl
  right_inv _ := rfl

def SettleInfo.format : Format UInt8 SettleInfo :=
  (Scale.key.pair (Scale.u128.pair (Scale.u128.pair Scale.u128))).iso fields

/-- The gatekeepers' report on a block. -/
structure MiningInfoUpdateEvent where
  blockNumber : ℕ
  timestampMs : ℕ
  offline : List Key
  recoveredToOnline : List Key
  settle : List SettleInfo
deriving DecidableEq, Repr

namespace MiningInfoUpdateEvent

def topic : Bytes := utf8 "^phala/mining/update"

def fields : ℕ × ℕ × List Key × List Key × List SettleInfo ≃ MiningInfoUpdateEvent where
  toFun p := ⟨p.1, p.2.1, p.2.2.1, p.2.2.2.1, p.2.2.2.2⟩
  invFun event := (event.blockNumber, event.timestampMs, event.offline, event.recoveredToOnline, event.settle)
  left_inv _ := rfl
  right_inv _ := rfl

def format : Format UInt8 MiningInfoUpdateEvent :=
  (Scale.u32.pair (Scale.u64.pair ((Scale.key.list Scale.compact).pair ((Scale.key.list Scale.compact).pair
    (SettleInfo.format.list Scale.compact))))).iso fields

end MiningInfoUpdateEvent

/-! ### From the chain -/

inductive WorkerEvent
  | registered (confidenceLevel : ℕ)
  | benchStart (duration : ℕ)
  | benchScore (score : ℕ)
  | miningStart (sessionId initV initP : ℕ)
  | miningStop
  | miningEnterUnresponsive
  | miningExitUnresponsive
deriving DecidableEq, Repr

namespace WorkerEvent

def index : WorkerEvent → ℕ
  | .registered _ => 0
  | .benchStart _ => 1
  | .benchScore _ => 2
  | .miningStart .. => 3
  | .miningStop => 4
  | .miningEnterUnresponsive => 5
  | .miningExitUnresponsive => 6

def parts : WorkerEvent → Format.Part UInt8
  | .registered confidenceLevel => Scale.u8.part confidenceLevel
  | .benchStart duration => Scale.u32.part duration
  | .benchScore score => Scale.u32.part score
  | .miningStart sessionId initV initP =>
    (Scale.u32.pair (Scale.u128.pair Scale.u32)).part (sessionId, initV, initP)
  | .miningStop => Format.unit.part ()
  | .miningEnterUnresponsive => Format.unit.part ()
  | .miningExitUnresponsive => Format.unit.part ()

def branches : List (Bytes → Option (WorkerEvent × Bytes)) :=
  [Scale.u8.fields .registered, Scale.u32.fields .benchStart, Scale.u32.fields .benchScore,
    (Scale.u32.pair (Scale.u128.pair Scale.u32)).fields fun p => .miningStart p.1 p.2.1 p.2.2,
    Format.unit.fields fun _ => .miningStop, Format.unit.fields fun _ => .miningEnterUnresponsive,
    Format.unit.fields fun _ => .miningExitUnresponsive]

theorem branch_iff (i : ℕ) (d : Bytes → Option (WorkerEvent × Bytes)) (hd : branches[i]? = some d) (input : Bytes)
    (event : WorkerEvent) (rest : Bytes) : d input = some (event, rest) ↔
      event.index = i ∧ event.parts.valid ∧ input = event.parts.tokens ++ rest := by
  rcases i with _ | _ | _ | _ | _ | _ | _ | i
  case succ.succ.succ.succ.succ.succ.succ => cases hd
  all_goals
    cases hd
    rw [Format.fields_iff]
    cases event <;> simp [index, parts, Format.pair, Unique.exists_iff]

def format : Format UInt8 WorkerEvent :=
  .variant Scale.u8 index parts branches
    (fun event => by cases event <;> simp [index, branches, Scale.u8, Scale.nat])
    branch_iff

end WorkerEvent

inductive SystemEvent
  | workerEvent (pubkey : Key) (event : WorkerEvent)
  | heartbeatChallenge (seed onlineTarget : ℕ)
deriving DecidableEq, Repr

namespace SystemEvent

def topic : Bytes := utf8 "phala/system/event"

def index : SystemEvent → ℕ
  | .workerEvent .. => 0
  | .heartbeatChallenge .. => 1

def parts : SystemEvent → Format.Part UInt8
  | .workerEvent pubkey event => (Scale.key.pair WorkerEvent.format).part (pubkey, event)
  | .heartbeatChallenge seed onlineTarget => (Scale.u256.pair Scale.u256).part (seed, onlineTarget)

def branches : List (Bytes → Option (SystemEvent × Bytes)) :=
  [(Scale.key.pair WorkerEvent.format).fields fun p => .workerEvent p.1 p.2,
    (Scale.u256.pair Scale.u256).fields fun p => .heartbeatChallenge p.1 p.2]

theorem branch_iff (i : ℕ) (d : Bytes → Option (SystemEvent × Bytes)) (hd : branches[i]? = some d) (input : Bytes)
    (event : SystemEvent) (rest : Bytes) : d input = some (event, rest) ↔
      event.index = i ∧ event.parts.valid ∧ input = event.parts.tokens ++ rest := by
  rcases i with _ | _ | i
  case succ.succ => cases hd
  all_goals
    cases hd
    rw [Format.fields_iff]
    cases event <;> simp [index, parts, Format.pair]

def format : Format UInt8 SystemEvent :=
  .variant Scale.u8 index parts branches
    (fun event => by cases event <;> simp [index, branches, Scale.u8, Scale.nat])
    branch_iff

end SystemEvent

structure NewGatekeeperEvent where
  pubkey : Key
  ecdhPubkey : Key
deriving DecidableEq, Repr

def NewGatekeeperEvent.fields : Key × Key ≃ NewGatekeeperEvent where
  toFun p := ⟨p.1, p.2⟩
  invFun event := (event.pubkey, event.ecdhPubkey)
  left_inv _ := rfl
  right_inv _ := rfl

def NewGatekeeperEvent.format : Format UInt8 NewGatekeeperEvent := (Scale.key.pair Scale.key).iso fields

inductive GatekeeperLaunch
  | firstGatekeeper (event : NewGatekeeperEvent)
  | masterPubkeyOnChain (masterPubkey : Key)
deriving DecidableEq, Repr

namespace GatekeeperLaunch

def topic : Bytes := utf8 "phala/gatekeeper/launch"

def index : GatekeeperLaunch → ℕ
  | .firstGatekeeper _ => 0
  | .masterPubkeyOnChain _ => 1

def parts : GatekeeperLaunch → Format.Part UInt8
  | .firstGatekeeper event => NewGatekeeperEvent.format.part event
  | .masterPubkeyOnChain masterPubkey => Scale.key.part masterPubkey

def branches : List (Bytes → Option (GatekeeperLaunch × Bytes)) :=
  [NewGatekeeperEvent.format.fields .firstGatekeeper, Scale.key.fields .masterPubkeyOnChain]

theorem branch_iff (i : ℕ) (d : Bytes → Option (GatekeeperLaunch × Bytes)) (hd : branches[i]? = some d)
    (input : Bytes) (event : GatekeeperLaunch) (rest : Bytes) : d input = some (event, rest) ↔
      event.index = i ∧ event.parts.valid ∧ input = event.parts.tokens ++ rest := by
  rcases i with _ | _ | i
  case succ.succ => cases hd
  all_goals
    cases hd
    rw [Format.fields_iff]
    cases event <;> simp [index, parts]

def format : Format UInt8 GatekeeperLaunch :=
  .variant Scale.u8 index parts branches
    (fun event => by cases event <;> simp [index, branches, Scale.u8, Scale.nat])
    branch_iff

end GatekeeperLaunch

/-- `GatekeeperRegistered`, the only variant. -/
structure GatekeeperChange where
  registered : NewGatekeeperEvent
deriving DecidableEq, Repr

namespace GatekeeperChange

def topic : Bytes := utf8 "phala/gatekeeper/change"

def fields : NewGatekeeperEvent ≃ GatekeeperChange where
  toFun event := ⟨event⟩
  invFun event := event.registered
  left_inv _ := rfl
  right_inv _ := rfl

def fieldFormat : Format UInt8 GatekeeperChange := NewGatekeeperEvent.format.iso fields

theorem branch_iff (i : ℕ) (d : Bytes → Option (GatekeeperChange × Bytes))
    (hd : [fieldFormat.fields id][i]? = some d) (input : Bytes) (event : GatekeeperChange) (rest : Bytes) :
    d input = some (event, rest) ↔
      0 = i ∧ (fieldFormat.part event).valid ∧ input = (fieldFormat.part event).tokens ++ rest := by
  rcases i with _ | i
  case succ => cases hd
  cases hd
  rw [Format.fields_iff]
  simp

def format : Format UInt8 GatekeeperChange :=
  .variant Scale.u8 (fun _ => 0) fieldFormat.part [fieldFormat.fields id] (fun _ => by simp [Scale.u8, Scale.nat])
    branch_iff

end GatekeeperChange

end Messaging

end Khala
