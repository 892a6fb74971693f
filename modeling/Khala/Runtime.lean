/-
The runtime around the message queue: the routing of messages to the pallets
(`msg_routing.rs`, the same in every runtime) and the chain that the queue, the
registry, the mining and the stake pool pallet make up.

A message is handled when it is dispatched, and what its handler returns is
dropped. A panic anywhere undoes the call or the block that it is in. The mining
and the stake pool pallet read the registry's own workers (`World.state`); what
they push in their calls, and every other pallet, is a step of its own.
-/
import Khala.MqDelivery
import Khala.PhalaRegistry
import Khala.StakePool

namespace Khala.Runtime

open Messaging

variable {A : Type}

/-! ## The state -/

structure World (A : Type) where
  registry : PhalaRegistry.Storage A
  /-- The mining and the stake pool pallet, with a registry that nobody reads. -/
  pallets : State A Key
  panicked : Bool

/-- What the mining and the stake pool pallet read of a worker. -/
def record (info : PhalaRegistry.WorkerInfo A) : WorkerInfo A :=
  ⟨info.lastUpdated, info.operator, info.confidenceLevel, info.initialScore⟩

/-- The two pallets' state, over the registry's workers. -/
def World.state (w : World A) : State A Key :=
  { w.pallets with registry := StorageMap.mapVal record w.registry.workers }

structure Node (A : Type) where
  mq : Mq.Chain (World A)
  queuedOutboundMessage : List Mq.Message
  /-- History: the outbound messages of the blocks before. -/
  archive : List Mq.Message

def Node.world (n : Node A) : World A := n.mq.rest

inductive Fault
  | messageCodecError
  | registry (e : PhalaRegistry.Error)
  | mq (e : Mq.Error)
  | pallets (e : Error)
  | panic

/-- The runtime's choices, and what it takes from elsewhere. -/
structure Config (A : Type) where
  pallets : Khala.Config A Key
  ias : Sgx.Ias
  verifyPRuntime : Bool
  verifyRelaychainGenesisBlockHash : Bool
  governanceOrigin : PhalaRegistry.Origin A → Bool
  runtimeInfoHash : PhalaRegistry.WorkerRegistrationInfo A → Bytes
  verify : Bytes → Mq.Message × ℕ → Bytes → Bool
  intoH256 : A → Bytes

/-- The registry's part; the profile is one for all pallets. -/
def Config.registry (cfg : Config A) : PhalaRegistry.Config A where
  governanceOrigin := cfg.governanceOrigin
  verifyPRuntime := cfg.verifyPRuntime
  verifyRelaychainGenesisBlockHash := cfg.verifyRelaychainGenesisBlockHash
  runtimeInfoHash := cfg.runtimeInfoHash
  validate := Sgx.validate cfg.ias
  overflowChecks := cfg.pallets.checks .benchScore

/-! ## What the pallets push -/

def phalaRegistry : Bytes := utf8 "PhalaRegistry"

def phalaMining : Bytes := utf8 "PhalaMining"

/-- `push_bound_message` of an event of the system. -/
def systemMessage (name : Bytes) (event : SystemEvent) : Mq.Message :=
  ⟨.pallet name, ⟨SystemEvent.topic⟩, SystemEvent.format.encode event⟩

/-- `push_bound_message` of the registry. -/
def registryMessage : PhalaRegistry.Event → Mq.Message
  | .system event => systemMessage phalaRegistry event
  | .launch event => ⟨.pallet phalaRegistry, ⟨GatekeeperLaunch.topic⟩, GatekeeperLaunch.format.encode event⟩
  | .change event => ⟨.pallet phalaRegistry, ⟨GatekeeperChange.topic⟩, GatekeeperChange.format.encode event⟩

section Routing

variable [DecidableEq A]

/-! ## Handlers -/

/-- A handler acts on the world, and on what is pushed in the meantime. -/
abbrev Handler (A : Type) : Type → Type := Call (World A × List Mq.Message) Fault

variable (cfg : Config A)

/-- The registry's `on_message_received`. -/
def registryReceived (sender : Mq.MessageOrigin) (payload : RegistryEvent) : Handler A Unit := fun s =>
  match s.1.registry.onMessageReceived cfg.registry s.1.pallets.now sender payload with
  | .ok (registry, events) => (.ok (), { s.1 with registry }, s.2 ++ events.map registryMessage)
  | .error (.dispatch e) => (.error (.registry e), s)
  | .error .panic => (.error .panic, s)

/-- The event as the mining pallet computes with it. -/
def settling (event : Messaging.MiningInfoUpdateEvent) : Khala.MiningInfoUpdateEvent Key where
  offline := event.offline
  recoveredToOnline := event.recoveredToOnline
  settle := event.settle.map fun info =>
    ⟨info.pubkey, U64F64.ofBits info.v, U64F64.ofBits info.payout, U64F64.ofBits info.treasury⟩

/-- Whether the worker's miner is mining. -/
def isMining (s : State A Key) (worker : Key) : Bool :=
  match s.mining.workerBindings.lookup worker with
  | none => false
  | some account => ((s.mining.miners.lookup account).map fun info => info.state.isMining).getD false

/-- What is pushed while the workers' miners are moved to `state`, each that is mining. -/
def responsiveEvents (state : MinerState) (event : WorkerEvent) : State A Key → List Key → List SystemEvent
  | _, [] => []
  | s, worker :: rest =>
    (if isMining s worker = true then [.workerEvent worker event] else []) ++
      responsiveEvents state event (s.setResponsive state worker) rest

def gkEvents (s : State A Key) (event : Messaging.MiningInfoUpdateEvent) : List SystemEvent :=
  responsiveEvents .miningUnresponsive .miningEnterUnresponsive s event.offline ++
    responsiveEvents .miningIdle .miningExitUnresponsive
      (event.offline.foldl (State.setResponsive .miningUnresponsive) s) event.recoveredToOnline

/-- `on_gk_message_received` -/
def onGkMessageReceived (sender : Mq.MessageOrigin) (payload : Messaging.MiningInfoUpdateEvent) :
    Handler A Unit := fun s =>
  if sender ≠ .gatekeeper then (.error (.pallets .badSender), s)
  else match s.1.state.gkMessage cfg.pallets (settling payload) with
    | .ok pallets =>
      (.ok (), { s.1 with pallets }, s.2 ++ (gkEvents s.1.state payload).map (systemMessage phalaMining))
    | .error (.dispatch e) => (.error (.pallets e), s)
    | .error _ => (.error .panic, s)

/-- `on_mining_message_received`; a worker's key has 32 bytes. -/
def onMiningMessageReceived (sender : Mq.MessageOrigin) (payload : MiningReportEvent) : Handler A Unit := fun s =>
  match sender with
  | .worker bytes =>
    if h : bytes.length = 32 then
      match s.1.state.heartbeat cfg.pallets ⟨bytes, h⟩ payload.iterations payload.challengeTime with
      | .ok pallets => (.ok (), { s.1 with pallets }, s.2)
      | .error (.dispatch e) => (.error (.pallets e), s)
      | .error _ => (.error .panic, s)
    else (.ok (), s)
  | _ => (.ok (), s)

/-! ## Routing -/

def tryDispatch {M : Type} (topic : Bytes) (format : Format UInt8 M) (func : Mq.MessageOrigin → M → Handler A Unit)
    (message : Mq.Message) : Handler A Unit :=
  if message.destination.path = topic then
    match message.decodePayload format with
    | some payload => func message.sender payload
    | none => throw .messageCodecError
  else pure ()

/-- `MessageRouteConfig::on_message_received` -/
def onMessageReceived (message : Mq.Message) : Handler A Unit := do
  tryDispatch RegistryEvent.topic RegistryEvent.format (registryReceived cfg) message
  tryDispatch MiningInfoUpdateEvent.topic MiningInfoUpdateEvent.format (onGkMessageReceived cfg) message
  tryDispatch MiningReportEvent.topic MiningReportEvent.format (onMiningMessageReceived cfg) message

/-- What handling a message does to the world, and what it pushes. -/
def route (w : World A) (message : Mq.Message) : World A × List Mq.Message :=
  match onMessageReceived cfg message (w, []) with
  | (.error .panic, _) => ({ w with panicked := true }, [])
  | (_, s) => s

def mqConfig : Mq.Config (World A) where
  contractKeys w id := (w.registry.contractKeys.lookup id).map Subtype.val
  gatekeeperMasterPubkey w := w.registry.gatekeeperMasterPubkey.map Subtype.val
  verify := cfg.verify
  onMessageReceived := route cfg

/-! ## The machine -/

/-- `dispatch_message` -/
def Node.dispatch (n : Node A) (message : Mq.Message) : Node A :=
  { n with mq := n.mq.dispatchMessage (mqConfig cfg) message }

def Node.setRegistry (n : Node A) (registry : PhalaRegistry.Storage A) : Node A :=
  { n with mq := { n.mq with rest := { n.mq.rest with registry } } }

def Node.setPallets (n : Node A) (pallets : State A Key) : Node A :=
  { n with mq := { n.mq with rest := { n.mq.rest with pallets } } }

/-- `on_initialize` of the queue. -/
def Node.onInitialize (n : Node A) : Node A :=
  n.queuedOutboundMessage.foldl (Node.dispatch cfg)
    { mq := { n.mq with outboundMessages := [] }, queuedOutboundMessage := [],
      archive := n.archive ++ n.mq.outboundMessages }

/-- A call of the registry, with what it pushes. -/
def Node.registryCall (n : Node A) (origin : PhalaRegistry.Origin A) (call : PhalaRegistry.Call A) :
    Except Fault (Node A) :=
  match PhalaRegistry.exec cfg.registry n.world.registry n.world.pallets.now origin call with
  | .ok (registry, events) =>
    pure ((events.map registryMessage).foldl (Node.dispatch cfg) (n.setRegistry registry))
  | .error (.dispatch e) => throw (.registry e)
  | .error .panic => throw .panic

/-- `sync_offchain_message` of a signed account. -/
def Node.syncOffchainMessage (n : Node A) (who : A) (signedMessage : Mq.SignedMessage) : Except Fault (Node A) :=
  match Mq.syncOffchainMessage (mqConfig cfg) (some (cfg.intoH256 who)) signedMessage n.mq with
  | (.ok (), mq) => pure { n with mq }
  | (.error e, _) => throw (.mq e)

/-- A call or a hook of the mining or the stake pool pallet. -/
def Node.palletsCall (fuel : ℕ) (n : Node A) (op : Khala.Op A Key) : Except Fault (Node A) :=
  match Khala.exec cfg.pallets fuel n.world.state op with
  | .ok pallets => pure (n.setPallets pallets)
  | .error (.dispatch e) => throw (.pallets e)
  | .error _ => throw .panic

end Routing

inductive Op (A : Type)
  | registry (origin : PhalaRegistry.Origin A) (call : PhalaRegistry.Call A)
  | pushMessage (who : A) (destination payload : Bytes)
  | forcePushPalletMessage (destination payload : Bytes)
  | syncOffchainMessage (who : A) (signedMessage : Mq.SignedMessage)
  | pallets (op : Khala.Op A Key)
  /-- What another pallet than the registry pushes, by its name. -/
  | push (name destination payload : Bytes)
  /-- What it queues for the next block. -/
  | queue (name destination payload : Bytes)
  | onInitialize

variable [DecidableEq A] (cfg : Config A)

/-- Nothing stays of what panics. -/
def Node.checked (n : Node A) : Except Fault (Node A) := if n.world.panicked = true then throw .panic else pure n

def exec (fuel : ℕ) (n : Node A) : Op A → Except Fault (Node A)
  | .registry origin call => do (← n.registryCall cfg origin call).checked
  | .pushMessage who destination payload =>
    (n.dispatch cfg ⟨.accountId (cfg.intoH256 who), ⟨destination⟩, payload⟩).checked
  | .forcePushPalletMessage destination payload =>
    (n.dispatch cfg ⟨.pallet (utf8 "ForcePushed"), ⟨destination⟩, payload⟩).checked
  | .syncOffchainMessage who signedMessage => do (← n.syncOffchainMessage cfg who signedMessage).checked
  | .pallets op => do (← n.palletsCall cfg fuel op).checked
  | .push name destination payload => (n.dispatch cfg ⟨.pallet name, ⟨destination⟩, payload⟩).checked
  | .queue name destination payload =>
    pure { n with queuedOutboundMessage := n.queuedOutboundMessage ++ [⟨.pallet name, ⟨destination⟩, payload⟩] }
  | .onInitialize => (n.onInitialize cfg).checked

/-- The operation ends well, whatever fuel that takes. -/
def Step (n : Node A) (op : Op A) (n' : Node A) : Prop := ∃ fuel, exec cfg fuel n op = .ok n'

/-- What the genesis builds: the registry's between those of other pallets. -/
structure Built (config : PhalaRegistry.GenesisConfig A) (n : Node A) : Prop where
  registry : n.world.registry = config.build.1
  pallets : Khala.Genesis n.world.pallets
  running : n.world.panicked = false
  mq : n.mq.offchainIngress = ∅ ∧ n.mq.outboundMessages = [] ∧ n.mq.dispatched = []
  queued : ∃ before after, n.queuedOutboundMessage = before ++ config.build.2.map registryMessage ++ after ∧
    ∀ message ∈ before ++ after, ∃ name, name ≠ phalaRegistry ∧ message.sender = .pallet name
  archive : n.archive = []

/-- The first block has started. -/
def Genesis (config : PhalaRegistry.GenesisConfig A) (n : Node A) : Prop :=
  ∃ built, Built config built ∧ n = built.onInitialize cfg

/-- An operation that only the calls and the hooks of the two pallets are; the
registry's calls and the messages come in their own way. -/
def Direct : Khala.Op A Key → Prop
  | .forceRegisterWorker .. | .registerWorker .. | .benchReport .. | .heartbeat .. | .gkMessage _ => False
  | _ => True

/-- Each pallet pushes in its own name. -/
def Op.Proper : Op A → Prop
  | .pallets op => Direct op
  | .push name _ _ | .queue name _ _ => name ≠ phalaRegistry
  | _ => True

abbrev Reachable (config : PhalaRegistry.GenesisConfig A) : Node A → Prop :=
  ReachWhere (Genesis cfg config) (Step cfg) fun _ op => op.Proper

end Khala.Runtime
