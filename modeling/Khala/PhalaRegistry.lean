/-
The registry pallet (`pallets/phala/src/registry.rs`): the workers, the
gatekeepers with their master key, and the lists of what is allowed.

A call that errs has written nothing yet. What a call pushes to the message
queue is returned with the storage, in order. `now` is in milliseconds; a
registration is dated in seconds, a benchmark in milliseconds.
-/
import Khala.Attestation
import Khala.Messaging
import Khala.StorageMap

namespace Khala.PhalaRegistry

open Messaging

variable {A : Type}

/-! ## Storage -/

structure WorkerInfo (A : Type) where
  pubkey : Key
  ecdhPubkey : Key
  runtimeVersion : ℕ
  lastUpdated : ℕ
  operator : Option A
  confidenceLevel : ℕ
  initialScore : Option ℕ
  features : List ℕ
deriving DecidableEq

structure WorkerRegistrationInfo (A : Type) where
  version : ℕ
  machineId : Bytes
  pubkey : Key
  ecdhPubkey : Key
  genesisBlockHash : Key
  features : List ℕ
  operator : Option A
deriving DecidableEq

/-- What made a worker's record: root (the genesis included), or an attestation at a time, with what was
allowed then. -/
inductive Source (A : Type)
  | root
  | attested (nowSec : ℕ) (info : WorkerRegistrationInfo A) (attestation : Sgx.Attestation)
    (pruntimes : List Bytes)
    (relaychains : List Key) (fields : Sgx.IasFields)

structure Registration (A : Type) where
  pubkey : Key
  operator : Option A
  source : Source A

structure Storage (A : Type) where
  gatekeeper : List Key
  gatekeeperMasterPubkey : Option Key
  workers : StorageMap Key (WorkerInfo A)
  contractKeys : StorageMap Bytes Key
  topicKey : StorageMap Bytes Bytes
  benchmarkDuration : Option ℕ
  pruntimeAllowList : List Bytes
  relaychainGenesisBlockHashAllowList : List Key
  /-- History: the registrations, the latest first. -/
  registrations : List (Registration A)

/-- What the pallet pushes to the message queue. -/
inductive Event
  | system (event : SystemEvent)
  | launch (event : GatekeeperLaunch)
  | change (event : GatekeeperChange)
deriving DecidableEq, Repr

inductive Origin (A : Type)
  | root
  | signed (who : A)
  | unsigned

inductive Error
  | badOrigin
  | attestation (e : Sgx.Error)
  | invalidSender | invalidBenchReport | workerNotFound
  | invalidGatekeeper | masterKeyMismatch | masterKeyUninitialized
  | genesisBlockHashRejected | genesisBlockHashAlreadyExists | genesisBlockHashNotFound
  | pRuntimeAlreadyExists | pRuntimeNotFound
deriving DecidableEq, Repr

inductive Fault
  | dispatch (e : Error)
  | panic
deriving DecidableEq, Repr

structure Config (A : Type) where
  governanceOrigin : Origin A → Bool
  verifyPRuntime : Bool
  verifyRelaychainGenesisBlockHash : Bool
  /-- `blake2_256` of the encoding -/
  runtimeInfoHash : WorkerRegistrationInfo A → Bytes
  /-- `AttestationValidator::validate` -/
  validate : Sgx.Attestation → Bytes → ℕ → Bool → List Bytes → Except Sgx.Fault Sgx.IasFields
  /-- Whether the profile checks arithmetic. -/
  overflowChecks : Bool

namespace Storage

def empty : Storage A := ⟨[], none, ∅, ∅, ∅, none, [], [], []⟩

def putWorker (s : Storage A) (pubkey : Key) (info : WorkerInfo A) : Storage A :=
  { s with workers := s.workers.insert pubkey info }

def recordRegistration (s : Storage A) (registration : Registration A) : Storage A :=
  { s with registrations := registration :: s.registrations }

/-- A record that root writes. -/
def forcedInfo (pubkey ecdhPubkey : Key) (operator : Option A) : WorkerInfo A :=
  { pubkey, ecdhPubkey, runtimeVersion := 0, lastUpdated := 0, operator,
    confidenceLevel := 128, initialScore := none,
    features := [1, 4] }

def workerEvent (pubkey : Key) (event : WorkerEvent) : Event := .system (.workerEvent pubkey event)

/-! ## Calls -/

def ensureRoot : Origin A → Except Fault Unit
  | .root => pure ()
  | _ => throw (.dispatch .badOrigin)

def ensureSigned : Origin A → Except Fault A
  | .signed who => pure who
  | _ => throw (.dispatch .badOrigin)

variable (cfg : Config A) (s : Storage A)

def forceSetBenchmarkDuration (origin : Origin A) (value : ℕ) : Except Fault (Storage A × List Event) := do
  ensureRoot origin
  pure ({ s with benchmarkDuration := some value }, [])

def forceRegisterWorker (origin : Origin A) (pubkey ecdhPubkey : Key) (operator : Option A) :
    Except Fault (Storage A × List Event) := do
  ensureRoot origin
  let workerInfo := forcedInfo pubkey ecdhPubkey operator
  pure ((s.putWorker pubkey workerInfo).recordRegistration ⟨pubkey, operator, .root⟩,
    [workerEvent pubkey (.registered workerInfo.confidenceLevel)])

def forceRegisterTopicPubkey (origin : Origin A) (topic pubkey : Bytes) :
    Except Fault (Storage A × List Event) := do
  ensureRoot origin
  pure ({ s with topicKey := s.topicKey.insert topic pubkey }, [])

def registerGatekeeper (origin : Origin A) (gatekeeper : Key) : Except Fault (Storage A × List Event) := do
  Outcome.require (cfg.governanceOrigin origin = true) (.dispatch .badOrigin)
  let gatekeepers := s.gatekeeper
  -- wait for the lead gatekeeper to upload the master pubkey
  Outcome.require (gatekeepers.isEmpty = true ∨ s.gatekeeperMasterPubkey.isSome = true)
    (.dispatch .masterKeyUninitialized)
  if gatekeeper ∈ gatekeepers then pure (s, [])
  else do
    let workerInfo ← Outcome.get (s.workers.lookup gatekeeper) (.dispatch .workerNotFound)
    let gatekeepers := gatekeepers ++ [gatekeeper]
    let event : NewGatekeeperEvent := ⟨gatekeeper, workerInfo.ecdhPubkey⟩
    pure ({ s with gatekeeper := gatekeepers },
      if gatekeepers.length = 1 then [.launch (.firstGatekeeper event)] else [.change ⟨event⟩])

/-- What the validation of an attestation comes to for a call. -/
def attested : Except Sgx.Fault Sgx.IasFields → Except Fault Sgx.IasFields
  | .ok fields => pure fields
  | .error (.error e) => throw (.dispatch (.attestation e))
  | .error .sliceOutOfRange => throw .panic

/-- A worker's record once it is attested: a known one only gets its operator and its date. -/
def attestedInfo (nowSec : ℕ) (pruntimeInfo : WorkerRegistrationInfo A) (confidenceLevel : ℕ) : WorkerInfo A :=
  match s.workers.lookup pruntimeInfo.pubkey with
  | some workerInfo => { workerInfo with lastUpdated := nowSec, operator := pruntimeInfo.operator }
  | none =>
    { pubkey := pruntimeInfo.pubkey, ecdhPubkey := pruntimeInfo.ecdhPubkey, runtimeVersion := pruntimeInfo.version,
      lastUpdated := nowSec, operator := pruntimeInfo.operator, confidenceLevel, initialScore := none,
      features := pruntimeInfo.features }

def registerWorker (now : ℕ) (origin : Origin A) (pruntimeInfo : WorkerRegistrationInfo A)
    (attestation : Sgx.Attestation) : Except Fault (Storage A × List Event) := do
  let _ ← ensureSigned origin
  let nowSec := now / 1000
  let fields ← attested (cfg.validate attestation (cfg.runtimeInfoHash pruntimeInfo) nowSec cfg.verifyPRuntime
    s.pruntimeAllowList)
  Outcome.require (cfg.verifyRelaychainGenesisBlockHash = true →
    pruntimeInfo.genesisBlockHash ∈ s.relaychainGenesisBlockHashAllowList) (.dispatch .genesisBlockHashRejected)
  let pubkey := pruntimeInfo.pubkey
  let workerInfo := s.attestedInfo nowSec pruntimeInfo fields.confidenceLevel
  let duration := s.benchmarkDuration.getD 0
  pure ((s.putWorker pubkey workerInfo).recordRegistration
      ⟨pubkey, pruntimeInfo.operator, .attested nowSec pruntimeInfo attestation s.pruntimeAllowList
        s.relaychainGenesisBlockHashAllowList fields⟩,
    [workerEvent pubkey (.registered fields.confidenceLevel), workerEvent pubkey (.benchStart duration)])

def addPruntime (origin : Origin A) (pruntimeHash : Bytes) : Except Fault (Storage A × List Event) := do
  Outcome.require (cfg.governanceOrigin origin = true) (.dispatch .badOrigin)
  Outcome.require (s.pruntimeAllowList.contains pruntimeHash = false) (.dispatch .pRuntimeAlreadyExists)
  pure ({ s with pruntimeAllowList := s.pruntimeAllowList ++ [pruntimeHash] }, [])

def removePruntime (origin : Origin A) (pruntimeHash : Bytes) : Except Fault (Storage A × List Event) := do
  Outcome.require (cfg.governanceOrigin origin = true) (.dispatch .badOrigin)
  Outcome.require (s.pruntimeAllowList.contains pruntimeHash = true) (.dispatch .pRuntimeNotFound)
  pure ({ s with pruntimeAllowList := s.pruntimeAllowList.filter fun h => h ≠ pruntimeHash }, [])

def addRelaychainGenesisBlockHash (origin : Origin A) (genesisBlockHash : Key) :
    Except Fault (Storage A × List Event) := do
  Outcome.require (cfg.governanceOrigin origin = true) (.dispatch .badOrigin)
  Outcome.require (s.relaychainGenesisBlockHashAllowList.contains genesisBlockHash = false)
    (.dispatch .genesisBlockHashAlreadyExists)
  pure ({ s with relaychainGenesisBlockHashAllowList := s.relaychainGenesisBlockHashAllowList ++
    [genesisBlockHash] }, [])

def removeRelaychainGenesisBlockHash (origin : Origin A) (genesisBlockHash : Key) :
    Except Fault (Storage A × List Event) := do
  Outcome.require (cfg.governanceOrigin origin = true) (.dispatch .badOrigin)
  Outcome.require (s.relaychainGenesisBlockHashAllowList.contains genesisBlockHash = true)
    (.dispatch .genesisBlockHashNotFound)
  pure ({ s with
    relaychainGenesisBlockHashAllowList :=
      s.relaychainGenesisBlockHashAllowList.filter fun h => h ≠ genesisBlockHash }, [])

/-! ## Messages -/

/-- A benchmark's score: iterations in 6 seconds, capped. A report within a second divides by zero. -/
def benchScore (now startTime iterations : ℕ) : Except Fault ℕ := do
  Outcome.require (startTime < now) (.dispatch .invalidBenchReport)
  Outcome.require ((now - startTime) / 1000 ≠ 0) .panic
  let score := iterations / ((now - startTime) / 1000)
  Outcome.require (score * 6 < 2 ^ 64 ∨ cfg.overflowChecks = false) .panic
  pure (min 6000 (score * 6 % 2 ^ 64 % 2 ^ 32))

/-- A worker's key has 32 bytes. -/
def workerPubkey : Mq.MessageOrigin → Except Fault Key
  | .worker bytes => if h : bytes.length = 32 then pure ⟨bytes, h⟩ else throw (.dispatch .invalidSender)
  | _ => throw (.dispatch .invalidSender)

/-- `on_message_received` of a `BenchReport`. -/
def benchReport (now : ℕ) (workerPubkey : Key) (startTime iterations : ℕ) :
    Except Fault (Storage A × List Event) := do
  let score ← benchScore cfg now startTime iterations
  pure (match s.workers.lookup workerPubkey with
    | some val => s.putWorker workerPubkey { val with initialScore := some score, lastUpdated := now }
    | none => s, [workerEvent workerPubkey (.benchScore score)])

/-- `on_message_received` of a `MasterPubkey`. -/
def uploadMasterPubkey (workerPubkey masterPubkey : Key) : Except Fault (Storage A × List Event) := do
  Outcome.require (workerPubkey ∈ s.gatekeeper) (.dispatch .invalidGatekeeper)
  match s.gatekeeperMasterPubkey with
  | some savedPubkey => do
    Outcome.require (savedPubkey = masterPubkey) (.dispatch .masterKeyMismatch)
    pure (s, [])
  | none =>
    pure ({ s with gatekeeperMasterPubkey := some masterPubkey }, [.launch (.masterPubkeyOnChain masterPubkey)])

def onMessageReceived (now : ℕ) (sender : Mq.MessageOrigin) (payload : RegistryEvent) :
    Except Fault (Storage A × List Event) := do
  let workerPubkey ← workerPubkey sender
  match payload with
  | .benchReport startTime iterations => s.benchReport cfg now workerPubkey startTime iterations
  | .masterPubkey masterPubkey => s.uploadMasterPubkey workerPubkey masterPubkey

end Storage

/-- The pallet's calls; `unregister_gatekeeper` is not implemented and panics. -/
inductive Call (A : Type)
  | forceSetBenchmarkDuration (value : ℕ)
  | forceRegisterWorker (pubkey ecdhPubkey : Key) (operator : Option A)
  | forceRegisterTopicPubkey (topic pubkey : Bytes)
  | registerGatekeeper (gatekeeper : Key)
  | unregisterGatekeeper (gatekeeper : Key) (sig : Bytes)
  | registerWorker (pruntimeInfo : WorkerRegistrationInfo A) (attestation : Sgx.Attestation)
  | addPruntime (pruntimeHash : Bytes)
  | removePruntime (pruntimeHash : Bytes)
  | addRelaychainGenesisBlockHash (genesisBlockHash : Key)
  | removeRelaychainGenesisBlockHash (genesisBlockHash : Key)

/-- The storage after a call, and what it pushed. -/
def exec (cfg : Config A) (s : Storage A) (now : ℕ) (origin : Origin A) :
    Call A → Except Fault (Storage A × List Event)
  | .forceSetBenchmarkDuration value => s.forceSetBenchmarkDuration origin value
  | .forceRegisterWorker pubkey ecdhPubkey operator => s.forceRegisterWorker origin pubkey ecdhPubkey operator
  | .forceRegisterTopicPubkey topic pubkey => s.forceRegisterTopicPubkey origin topic pubkey
  | .registerGatekeeper gatekeeper => s.registerGatekeeper cfg origin gatekeeper
  | .unregisterGatekeeper _ _ => throw .panic
  | .registerWorker pruntimeInfo attestation => s.registerWorker cfg now origin pruntimeInfo attestation
  | .addPruntime pruntimeHash => s.addPruntime cfg origin pruntimeHash
  | .removePruntime pruntimeHash => s.removePruntime cfg origin pruntimeHash
  | .addRelaychainGenesisBlockHash genesisBlockHash => s.addRelaychainGenesisBlockHash cfg origin genesisBlockHash
  | .removeRelaychainGenesisBlockHash genesisBlockHash =>
    s.removeRelaychainGenesisBlockHash cfg origin genesisBlockHash

/-! ## Genesis -/

structure GenesisConfig (A : Type) where
  workers : List (Key × Key × Option A)
  gatekeepers : List Key
  benchmarkDuration : ℕ

namespace GenesisConfig

/-- A worker of the genesis: its identity, its ECDH key and its operator. -/
def addWorker (benchmarkDuration : ℕ) (built : Storage A × List Event) (worker : Key × Key × Option A) :
    Storage A × List Event :=
  let info := Storage.forcedInfo worker.1 worker.2.1 worker.2.2
  let s := (built.1.putWorker worker.1 info).recordRegistration ⟨worker.1, worker.2.2, .root⟩
  ({ s with benchmarkDuration := some benchmarkDuration },
    built.2 ++
    [Storage.workerEvent worker.1 (.registered 128), Storage.workerEvent worker.1 (.benchStart benchmarkDuration)])

/-- A gatekeeper that is a worker of the genesis; any other one is left out. -/
def addGatekeeper (built : Storage A × List Event) (gatekeeper : Key) : Storage A × List Event :=
  match built.1.workers.lookup gatekeeper with
  | none => built
  | some workerInfo =>
    let gatekeepers := built.1.gatekeeper ++ [gatekeeper]
    let event : NewGatekeeperEvent := ⟨gatekeeper, workerInfo.ecdhPubkey⟩
    ({ built.1 with gatekeeper := gatekeepers },
      built.2 ++ if gatekeepers.length = 1 then [.launch (.firstGatekeeper event)] else [.change ⟨event⟩])

/-- The storage of the genesis, and the messages queued for the first block. -/
def build (config : GenesisConfig A) : Storage A × List Event :=
  config.gatekeepers.foldl addGatekeeper (config.workers.foldl (addWorker config.benchmarkDuration) (.empty, []))

end GenesisConfig

end Khala.PhalaRegistry
