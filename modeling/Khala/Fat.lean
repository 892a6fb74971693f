/-
Contracts and their clusters (`pallets/phala/src/fat.rs`).

A contract goes to a cluster of workers, an existing or a new one. A new cluster
takes the next number, before the workers are looked up and before the contract
is known to be new. The call is not transactional.

Hashes are bytes. The events are left out.
-/
import Khala.Bytes
import Khala.Call
import Khala.Reach
import Khala.StorageMap

namespace Khala.Fat

abbrev Bytes : Type := List UInt8

abbrev AccountId : Type := Bytes

abbrev CodeHash : Type := Bytes

abbrev ContractId : Type := Bytes

abbrev ContractClusterId : Type := Bytes

abbrev WorkerPublicKey : Type := Bytes

/-! ## Contracts -/

inductive CodeIndex
  | nativeCode (id : ℕ)
  | wasmCode (codeHash : CodeHash)
deriving DecidableEq, Repr

def CodeIndex.codeHash : CodeIndex → Bytes
  | .nativeCode id => beBytes 4 id
  | .wasmCode codeHash => codeHash

inductive DeployTarget
  | cluster (id : ContractClusterId)
  | newGroup (workers : List WorkerPublicKey)
deriving DecidableEq, Repr

structure ContractInfo where
  deployer : AccountId
  codeIndex : CodeIndex
  salt : Bytes
  clusterId : ContractClusterId
  instantiateData : Bytes
deriving DecidableEq, Repr

def contractIdPreimage (deployer codeHash clusterId salt : Bytes) : Bytes :=
  deployer ++ codeHash ++ clusterId ++ salt

def ContractInfo.contractId (info : ContractInfo) (blake2 : Bytes → Bytes) : ContractId :=
  blake2 (contractIdPreimage info.deployer info.codeIndex.codeHash info.clusterId info.salt)

/-- `H256::from_low_u64_be` -/
def fromLowU64Be (n : ℕ) : ContractClusterId := List.replicate 24 0 ++ beBytes 8 n

/-! ## The storage -/

structure WorkerIdentity where
  pubkey : WorkerPublicKey
  ecdhPubkey : Bytes
deriving DecidableEq, Repr

inductive Message
  | instantiateCode (info : ContractInfo) (deployWorkers : List WorkerIdentity)
  | uploadCodeToCluster (origin : AccountId) (code : Bytes) (clusterId : ContractClusterId)

structure State where
  code : StorageMap CodeHash Bytes
  /-- The contract cluster counter, it always equals to the latest cluster id. -/
  clusterCounter : ℕ
  clusters : StorageMap ContractClusterId (List ContractId)
  contracts : StorageMap ContractId ContractInfo
  clusterWorkers : StorageMap ContractClusterId (List WorkerPublicKey)
  /-- `Workers` of the registry, with the keys that are read here. -/
  workers : StorageMap WorkerPublicKey WorkerIdentity
  /-- The messages pushed to the queue. -/
  messages : List Message
  /-- History: the clusters that calls that ended well have created. -/
  created : List ContractClusterId

inductive Error
  | badOrigin
  | codeNotFound | contractClusterNotFound | duplicatedContract | noWorkerSpecified | workerNotFound
deriving DecidableEq, Repr

/-- The hash functions: the runtime's, and BLAKE2. -/
structure Hashing where
  hash : Bytes → CodeHash
  blake2 : Bytes → Bytes

/-! ## Calls -/

def ensureSigned (origin : Option AccountId) : Call State Error AccountId := Call.unwrap origin .badOrigin

def uploadCode (hashing : Hashing) (origin : Option AccountId) (code : Bytes) : Call State Error Unit := do
  let _ ← ensureSigned origin
  Call.write fun s => { s with code := s.code.insert (hashing.hash code) code }

def pushMessage (message : Message) : Call State Error Unit :=
  Call.write fun s => { s with messages := s.messages ++ [message] }

def uploadCodeToCluster (origin : Option AccountId) (code : Bytes) (clusterId : ContractClusterId) :
    Call State Error Unit := do
  let origin ← ensureSigned origin
  pushMessage (.uploadCodeToCluster origin code clusterId)

def ensureCode : CodeIndex → Call State Error Unit
  | .nativeCode _ => pure ()
  | .wasmCode codeHash => do
    let s ← Call.read
    Call.ensure (s.code.lookup codeHash ≠ none) .codeNotFound

/-- The cluster that the contract goes to, its workers, and whether it is new. -/
def clusterOf : DeployTarget → Call State Error (ContractClusterId × List WorkerPublicKey × Bool)
  | .cluster clusterId => do
    let s ← Call.read
    let workers ← Call.unwrap (s.clusterWorkers.lookup clusterId) .contractClusterNotFound
    pure (clusterId, workers, false)
  | .newGroup deployWorkers => do
    Call.ensure (deployWorkers.length > 0) .noWorkerSpecified
    Call.write fun s => { s with clusterCounter := (s.clusterCounter + 1) % 2 ^ 64 }
    let s ← Call.read
    pure (fromLowU64Be s.clusterCounter, deployWorkers, true)

/-- The identities of the workers, if all are registered. -/
def State.identities (s : State) (deployWorkers : List WorkerPublicKey) : Option (List WorkerIdentity) :=
  deployWorkers.mapM s.workers.lookup

def instantiateContract (hashing : Hashing) (origin : Option AccountId) (codeIndex : CodeIndex) (data salt : Bytes)
    (deployTo : DeployTarget) : Call State Error Unit := do
  let deployer ← ensureSigned origin
  ensureCode codeIndex
  let (clusterId, deployWorkers, newCluster) ← clusterOf deployTo
  let s ← Call.read
  let workers ← Call.unwrap (s.identities deployWorkers) .workerNotFound
  if newCluster = true then
    Call.write fun s => { s with clusterWorkers := s.clusterWorkers.insert clusterId deployWorkers }
  let contractInfo : ContractInfo := ⟨deployer, codeIndex, salt, clusterId, data⟩
  let contractId := contractInfo.contractId hashing.blake2
  Call.ensure (s.contracts.lookup contractId = none) .duplicatedContract
  Call.write fun s => { s with
    contracts := s.contracts.insert contractId contractInfo
    clusters := s.clusters.insert clusterId ((s.clusters.lookup clusterId).getD [] ++ [contractId]) }
  pushMessage (.instantiateCode contractInfo workers)
  if newCluster = true then
    Call.write fun s => { s with created := s.created ++ [clusterId] }

inductive Op
  | uploadCode (origin : Option AccountId) (code : Bytes)
  | uploadCodeToCluster (origin : Option AccountId) (code : Bytes) (clusterId : ContractClusterId)
  | instantiateContract (origin : Option AccountId) (codeIndex : CodeIndex) (data salt : Bytes)
    (deployTo : DeployTarget)
  /-- The registry writes its workers. -/
  | register (workers : StorageMap WorkerPublicKey WorkerIdentity)

/-- The state after an operation: what a call writes before an error stays. -/
def exec (hashing : Hashing) (s : State) : Op → State
  | .uploadCode origin code => (uploadCode hashing origin code s).2
  | .uploadCodeToCluster origin code clusterId => (uploadCodeToCluster origin code clusterId s).2
  | .instantiateContract origin codeIndex data salt deployTo =>
    (instantiateContract hashing origin codeIndex data salt deployTo s).2
  | .register workers => { s with workers }

def State.genesis : State := ⟨∅, 0, ∅, ∅, ∅, ∅, [], []⟩

end Khala.Fat
