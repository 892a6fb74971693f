/-
What a refused instantiation leaves behind.

A call for a new cluster that fails at the workers or at a known contract has
taken the next number already, and stored the workers in the second case. Where
no call fails there, the numbers are exactly those of the clusters.
-/
import Khala.Fat

namespace Khala.Fat

variable {hashing : Hashing} {s s' : State} {op : Op} {origin : Option AccountId} {codeIndex : CodeIndex}
  {data salt : Bytes} {deployTo : DeployTarget} {deployWorkers : List WorkerPublicKey}
  {clusterId id : ContractClusterId}

/-! ## One call -/

namespace State

/-- The storage of clusters and contracts is the same. -/
structure Same (s s' : State) : Prop where
  clusterCounter : s'.clusterCounter = s.clusterCounter
  clusterWorkers : s'.clusterWorkers = s.clusterWorkers
  clusters : s'.clusters = s.clusters
  contracts : s'.contracts = s.contracts

theorem Same.refl (s : State) : s.Same s := ⟨rfl, rfl, rfl, rfl⟩

def CodeFound (s : State) : CodeIndex → Prop
  | .nativeCode _ => True
  | .wasmCode codeHash => s.code.lookup codeHash ≠ none

/-- The number that a new cluster takes. -/
def nextCounter (s : State) : ℕ := (s.clusterCounter + 1) % 2 ^ 64

theorem nextCounter_ne (s : State) : s.nextCounter ≠ s.clusterCounter := by
  unfold nextCounter
  omega

theorem identities_eq_none (s : State) (deployWorkers : List WorkerPublicKey) :
    s.identities deployWorkers = none ↔ ∃ worker ∈ deployWorkers, s.workers.lookup worker = none := by
  unfold identities
  induction deployWorkers with
  | nil => simp
  | cons worker deployWorkers ih =>
    rw [List.mapM_cons]
    cases hworker : s.workers.lookup worker with
    | none => simp [hworker]
    | some identity =>
      cases hrest : deployWorkers.mapM s.workers.lookup with
      | none => simpa [hworker, hrest] using ih
      | some identities => simpa [hworker, hrest] using ih

/-- A call for a new cluster comes to its number, and fails after. -/
def FailsLate (s : State) (hashing : Hashing) (origin : Option AccountId) (codeIndex : CodeIndex)
    (data salt : Bytes) (deployTo : DeployTarget) : Prop :=
  ∃ deployer deployWorkers, origin = some deployer ∧ s.CodeFound codeIndex ∧ deployTo = .newGroup deployWorkers ∧
    deployWorkers ≠ [] ∧ ((∃ worker ∈ deployWorkers, s.workers.lookup worker = none) ∨
      s.contracts.lookup (ContractInfo.contractId ⟨deployer, codeIndex, salt, fromLowU64Be s.nextCounter, data⟩
        hashing.blake2) ≠ none)

/-- The state after an instantiation on a cluster. -/
def instantiated (s : State) (contractId : ContractId) (contractInfo : ContractInfo)
    (workers : List WorkerIdentity) :
    State := { s with
  contracts := s.contracts.insert contractId contractInfo
  clusters := s.clusters.insert contractInfo.clusterId
    ((s.clusters.lookup contractInfo.clusterId).getD [] ++ [contractId])
  messages := s.messages ++ [.instantiateCode contractInfo workers] }

end State

theorem ensureCode_ends (codeIndex : CodeIndex) (s : State) :
    (ensureCode codeIndex).Ends s (fun _ s' => s.CodeFound codeIndex ∧ s' = s)
      fun e s' => s' = s ∧ ¬s.CodeFound codeIndex ∧ e = .codeNotFound := by
  cases codeIndex with
  | nativeCode id => exact Call.Ends.pure ⟨trivial, rfl⟩
  | wasmCode codeHash =>
    unfold ensureCode
    exact Call.Ends.read_then (Call.Ends.ensure fun h => ⟨rfl, h, rfl⟩)

theorem clusterOf_cluster_ends (clusterId : ContractClusterId) (s : State) :
    (clusterOf (.cluster clusterId)).Ends s
      (fun r s' =>
      (∃ workers, s.clusterWorkers.lookup clusterId = some workers ∧ r = (clusterId, workers, false)) ∧ s' = s)
      fun _ s' => s' = s := by
  unfold clusterOf
  refine Call.Ends.read_then (Call.Ends.unwrap_then (fun _ => rfl) fun workers hworkers => ?_)
  exact Call.Ends.pure ⟨⟨workers, hworkers, rfl⟩, rfl⟩

theorem clusterOf_newGroup_ends (deployWorkers : List WorkerPublicKey) (s : State) :
    (clusterOf (.newGroup deployWorkers)).Ends s
      (fun r s' => deployWorkers ≠ [] ∧ r = (fromLowU64Be s.nextCounter, deployWorkers, true) ∧
        s' = { s with clusterCounter := s.nextCounter })
      fun _ s' => s' = s ∧ deployWorkers = [] := by
  unfold clusterOf
  refine Call.Ends.ensure_then (fun h => ⟨rfl, ?_⟩) fun h => ?_
  · exact List.eq_nil_of_length_eq_zero (Nat.eq_zero_of_not_pos h)
  · refine Call.Ends.write_then (Call.Ends.read_then (Call.Ends.pure ⟨?_, rfl, rfl⟩))
    exact List.ne_nil_of_length_pos h

/-- On an existing cluster, a call that errs leaves everything as it was. -/
theorem instantiate_cluster_ends (hashing : Hashing) (origin : Option AccountId) (codeIndex : CodeIndex)
    (data salt : Bytes) (clusterId : ContractClusterId) (s : State) :
    (instantiateContract hashing origin codeIndex data salt (.cluster clusterId)).Ends s
      (fun _ s' => s.clusterWorkers.lookup clusterId ≠ none ∧ ∃ contractId contractInfo workers,
        contractInfo.clusterId = clusterId ∧ s' = s.instantiated contractId contractInfo workers)
      fun _ s' => s' = s := by
  unfold instantiateContract ensureSigned
  refine Call.Ends.unwrap_then (fun _ => rfl) fun deployer _ => ?_
  refine Call.Ends.bind ((ensureCode_ends codeIndex s).mono (fun _ _ h => h) fun _ _ h => h.1) ?_
  rintro _ _ ⟨-, rfl⟩
  refine Call.Ends.bind (clusterOf_cluster_ends clusterId _) ?_
  rintro _ s ⟨⟨deployWorkers, hcluster, rfl⟩, rfl⟩
  dsimp only
  refine Call.Ends.read_then (Call.Ends.unwrap_then (fun _ => rfl) fun workers _ => ?_)
  rw [if_neg Bool.false_ne_true, if_neg Bool.false_ne_true]
  refine Call.Ends.ensure_then (fun _ => rfl) fun _ => Call.Ends.write_then ?_
  have hne : s.clusterWorkers.lookup clusterId ≠ none := by
    rw [hcluster]
    exact Option.some_ne_none _
  exact Call.Ends.write_then (Call.Ends.pure
    ⟨hne, _, ⟨deployer, codeIndex, salt, clusterId, data⟩, workers, rfl, rfl⟩)

/-- For a new cluster, a call that errs late has taken the number at least. -/
theorem instantiate_newGroup_ends (hashing : Hashing) (origin : Option AccountId) (codeIndex : CodeIndex)
    (data salt : Bytes) (deployWorkers : List WorkerPublicKey) (s : State) :
    (instantiateContract hashing origin codeIndex data salt (.newGroup deployWorkers)).Ends s
      (fun _ s' => ¬s.FailsLate hashing origin codeIndex data salt (.newGroup deployWorkers) ∧
        ∃ contractId contractInfo workers, contractInfo.clusterId = fromLowU64Be s.nextCounter ∧
          s' = { State.instantiated
              { s with
                clusterCounter := s.nextCounter
                clusterWorkers := s.clusterWorkers.insert (fromLowU64Be s.nextCounter) deployWorkers }
              contractId contractInfo workers with
            created := s.created ++ [fromLowU64Be s.nextCounter] })
      fun _ s' => s' = s ∧ ¬s.FailsLate hashing origin codeIndex data salt (.newGroup deployWorkers) ∨
        s.FailsLate hashing origin codeIndex data salt (.newGroup deployWorkers) ∧
        s'.clusterCounter = s.nextCounter := by
  unfold instantiateContract ensureSigned
  refine Call.Ends.unwrap_then (fun hnone => .inl ⟨rfl, ?_⟩) fun deployer hdeployer => ?_
  · intro ⟨deployer, _, hsome, _⟩
    rw [hnone] at hsome
    cases hsome
  refine Call.Ends.bind ((ensureCode_ends codeIndex s).mono (fun _ _ h => h) ?_) ?_
  · intro _ s' ⟨hs', hcode, _⟩
    exact .inl ⟨hs', fun ⟨_, _, _, hfound, _⟩ => hcode hfound⟩
  rintro _ s ⟨hcode, rfl⟩
  refine Call.Ends.bind ((clusterOf_newGroup_ends deployWorkers _).mono (fun _ _ h => h) ?_) ?_
  · intro _ s' ⟨hs', hnil⟩
    refine .inl ⟨hs', ?_⟩
    intro ⟨_, _, _, _, heq, hne, _⟩
    cases heq
    exact hne hnil
  rintro _ _ ⟨hne, rfl, rfl⟩
  dsimp only
  refine Call.Ends.read_then (Call.Ends.unwrap_then (fun hnone => .inr ⟨?_, rfl⟩) fun workers hworkers => ?_)
  · have hunknown := (s.identities_eq_none deployWorkers).mp hnone
    exact ⟨deployer, deployWorkers, hdeployer, hcode, rfl, hne, .inl hunknown⟩
  rw [if_pos rfl, if_pos rfl]
  refine Call.Ends.write_then (Call.Ends.ensure_then (fun hdup => .inr ⟨?_, rfl⟩) fun hnew => ?_)
  · exact ⟨deployer, deployWorkers, hdeployer, hcode, rfl, hne, .inr hdup⟩
  refine Call.Ends.write_then (Call.Ends.write_then (Call.Ends.write ⟨?_, ?_⟩))
  · intro ⟨deployer', deployWorkers', hdeployer', _, heq, _, hfails⟩
    rw [hdeployer] at hdeployer'
    cases hdeployer'
    cases heq
    rcases hfails with hunknown | hdup
    · have hnone := (s.identities_eq_none deployWorkers).mpr hunknown
      exact Option.some_ne_none workers (hworkers.symm.trans hnone)
    · exact hdup hnew
  · exact ⟨_, ⟨deployer, codeIndex, salt, fromLowU64Be s.nextCounter, data⟩, workers, rfl, rfl⟩

/-- A call that errs leaves the clusters as they were exactly if it does not fail late. -/
theorem instantiate_same_iff (hashing : Hashing) (origin : Option AccountId) (codeIndex : CodeIndex)
    (data salt : Bytes) (deployTo : DeployTarget) (s : State) :
    (∀ e s', instantiateContract hashing origin codeIndex data salt deployTo s = (.error e, s') → s.Same s') ↔
      ¬s.FailsLate hashing origin codeIndex data salt deployTo := by
  cases deployTo with
  | cluster clusterId =>
    refine iff_of_true ?_ ?_
    · intro e s' herr
      have hs' : s' = s := (instantiate_cluster_ends hashing origin codeIndex data salt clusterId s).error herr
      rw [hs']
      exact State.Same.refl s
    · intro ⟨_, _, _, _, heq, _⟩
      cases heq
  | newGroup deployWorkers =>
    have hends := instantiate_newGroup_ends hashing origin codeIndex data salt deployWorkers s
    constructor
    · intro hsame hlate
      cases hrun : instantiateContract hashing origin codeIndex data salt (.newGroup deployWorkers) s with
      | mk result s' =>
        cases result with
        | ok => exact (hends.ok hrun).1 hlate
        | error e =>
          rcases hends.error hrun with ⟨_, hnot⟩ | ⟨_, hcounter⟩
          · exact hnot hlate
          · have := (hsame e s' hrun).clusterCounter
            exact s.nextCounter_ne (hcounter.symm.trans this)
    · intro hnot e s' herr
      rcases hends.error herr with ⟨hs', _⟩ | ⟨hlate, _⟩
      · rw [hs']
        exact State.Same.refl s
      · exact absurd hlate hnot

/-! ## Runs -/

/-- The counter is the number of the clusters, and each has its workers and a contract. -/
structure State.Sound (s : State) : Prop where
  lt : s.clusterCounter < 2 ^ 64
  created : s.created = (List.range' 1 s.clusterCounter).map fromLowU64Be
  workers : ∀ id, s.clusterWorkers.lookup id ≠ none ↔ id ∈ s.created
  contracts : ∀ id ∈ s.created, ∃ first rest, s.clusters.lookup id = some (first :: rest)

/-- An instantiation does not fail late, and does not come to the end of the numbers. -/
def Op.Fine (hashing : Hashing) (s : State) : Op → Prop
  | .instantiateContract origin codeIndex data salt deployTo =>
    ¬s.FailsLate hashing origin codeIndex data salt deployTo ∧
      ∀ workers, deployTo = .newGroup workers → s.clusterCounter + 1 < 2 ^ 64
  | _ => True

namespace State.Sound

theorem genesis : State.genesis.Sound where
  lt := by decide
  created := rfl
  workers id := by simp [State.genesis]
  contracts id hid := absurd hid List.not_mem_nil

/-- What else is written does not matter. -/
theorem congr (h : s.Sound) (hsame : s.Same s') (hcreated : s'.created = s.created) : s'.Sound where
  lt := hsame.clusterCounter ▸ h.lt
  created := by rw [hcreated, hsame.clusterCounter, h.created]
  workers id := by rw [hcreated, hsame.clusterWorkers, h.workers]
  contracts id hid := by
    rw [hcreated] at hid
    rw [hsame.clusters]
    exact h.contracts id hid

/-- A contract more. -/
theorem instantiated (h : s.Sound) (contractId : ContractId) (contractInfo : ContractInfo)
    (workers : List WorkerIdentity) : (s.instantiated contractId contractInfo workers).Sound where
  lt := h.lt
  created := h.created
  workers := h.workers
  contracts id hid := by
    obtain ⟨first, rest, hlookup⟩ := h.contracts id hid
    unfold State.instantiated
    dsimp only
    rw [StorageMap.lookup_insert_ite]
    split
    · next heq =>
      rw [← heq, hlookup]
      exact ⟨first, rest ++ [contractId], rfl⟩
    · exact ⟨first, rest, hlookup⟩

/-- A cluster more, with its first contract. -/
theorem extended (h : s.Sound) (hlt : s.clusterCounter + 1 < 2 ^ 64) (deployWorkers : List WorkerPublicKey)
    (contractId : ContractId) {contractInfo : ContractInfo} (workers : List WorkerIdentity)
    (hcluster : contractInfo.clusterId = fromLowU64Be s.nextCounter) :
    ({ State.instantiated
        { s with
          clusterCounter := s.nextCounter
          clusterWorkers := s.clusterWorkers.insert (fromLowU64Be s.nextCounter) deployWorkers }
        contractId contractInfo workers with
      created := s.created ++ [fromLowU64Be s.nextCounter] } : State).Sound := by
  have hnext : s.nextCounter = s.clusterCounter + 1 := Nat.mod_eq_of_lt hlt
  refine ⟨?_, ?_, ?_, ?_⟩
  · change s.nextCounter < _
    omega
  · change s.created ++ [fromLowU64Be s.nextCounter] = (List.range' 1 s.nextCounter).map fromLowU64Be
    rw [hnext, List.range'_concat, List.map_append, ← h.created, Nat.one_mul, Nat.add_comm 1, List.map_singleton]
  · intro id
    change (s.clusterWorkers.insert (fromLowU64Be s.nextCounter) deployWorkers).lookup id ≠ none ↔
      id ∈ s.created ++ [fromLowU64Be s.nextCounter]
    rw [StorageMap.lookup_insert_ite, List.mem_append, List.mem_singleton]
    split
    · next heq => exact iff_of_true (Option.some_ne_none _) (.inr heq)
    · next hne => simp [h.workers id, hne]
  · intro id hid
    unfold State.instantiated
    dsimp only
    rw [StorageMap.lookup_insert_ite, hcluster]
    split
    · cases hfound : (s.clusters.lookup (fromLowU64Be s.nextCounter)).getD [] with
      | nil => exact ⟨contractId, [], rfl⟩
      | cons first rest => exact ⟨first, rest ++ [contractId], rfl⟩
    · next hne =>
      change id ∈ s.created ++ [fromLowU64Be s.nextCounter] at hid
      rw [List.mem_append, List.mem_singleton] at hid
      exact h.contracts id (hid.resolve_right hne)

theorem exec (h : s.Sound) (hfine : op.Fine hashing s) : (exec hashing s op).Sound := by
  cases op with
  | uploadCode origin code =>
    have hkeeps : (uploadCode hashing origin code).Keeps State.Sound := by
      unfold uploadCode ensureSigned
      exact (Call.Keeps.unwrap _ _).bind fun _ => Call.Keeps.write fun s hs => hs.congr ⟨rfl, rfl, rfl, rfl⟩ rfl
    exact hkeeps.state h
  | uploadCodeToCluster origin code clusterId =>
    have hkeeps : (uploadCodeToCluster origin code clusterId).Keeps State.Sound := by
      unfold uploadCodeToCluster ensureSigned pushMessage
      exact (Call.Keeps.unwrap _ _).bind fun _ => Call.Keeps.write fun s hs => hs.congr ⟨rfl, rfl, rfl, rfl⟩ rfl
    exact hkeeps.state h
  | register workers => exact h.congr ⟨rfl, rfl, rfl, rfl⟩ rfl
  | instantiateContract origin codeIndex data salt deployTo =>
    obtain ⟨hnot, hroom⟩ := hfine
    cases deployTo with
    | cluster clusterId =>
      refine ((instantiate_cluster_ends hashing origin codeIndex data salt clusterId s).mono ?_ ?_).state
      · rintro _ _ ⟨-, contractId, contractInfo, workers, -, rfl⟩
        exact h.instantiated contractId contractInfo workers
      · rintro _ _ rfl
        exact h
    | newGroup deployWorkers =>
      refine ((instantiate_newGroup_ends hashing origin codeIndex data salt deployWorkers s).mono ?_ ?_).state
      · rintro _ _ ⟨-, contractId, contractInfo, workers, hcluster, rfl⟩
        exact h.extended (hroom deployWorkers rfl) deployWorkers contractId workers hcluster
      · rintro _ s' (⟨rfl, -⟩ | ⟨hlate, -⟩)
        · exact h
        · exact absurd hlate hnot

end State.Sound

/-- **A refused instantiation leaves no trace** exactly if it does not fail late.
In a run without such calls, and short of `2^64` clusters, the counter is the id
of the latest cluster, and the clusters from 1 to it are those with workers, each
with a contract. -/
theorem instantiate_traceless_iff (hashing : Hashing) :
    (∀ s origin codeIndex data salt deployTo,
      (∀ e s', instantiateContract hashing origin codeIndex data salt deployTo s = (.error e, s') → s.Same s') ↔
        ¬s.FailsLate hashing origin codeIndex data salt deployTo) ∧
    ∀ s, ReachWhere (· = State.genesis) (fun s op s' => s' = exec hashing s op) (fun s op => op.Fine hashing s) s →
      s.created = (List.range' 1 s.clusterCounter).map fromLowU64Be ∧
      (∀ id, s.clusterWorkers.lookup id ≠ none ↔ ∃ i, 1 ≤ i ∧ i ≤ s.clusterCounter ∧ id = fromLowU64Be i) ∧
      ∀ id, s.clusterWorkers.lookup id ≠ none → ∃ first rest, s.clusters.lookup id = some (first :: rest) := by
  constructor
  · intro s origin codeIndex data salt deployTo
    exact instantiate_same_iff hashing origin codeIndex data salt deployTo s
  · intro s hreach
    have hsound : s.Sound := by
      refine hreach.invariant State.Sound ?_ ?_
      · rintro _ rfl
        exact State.Sound.genesis
      · rintro s op _ hs hfine rfl
        exact hs.exec hfine
    refine ⟨hsound.created, ?_, fun id hid => hsound.contracts id ((hsound.workers id).mp hid)⟩
    intro id
    rw [hsound.workers, hsound.created, List.mem_map]
    constructor
    · intro ⟨i, hi, heq⟩
      rw [List.mem_range'_1] at hi
      exact ⟨i, hi.1, by omega, heq.symm⟩
    · intro ⟨i, hone, hle, heq⟩
      exact ⟨i, List.mem_range'_1.mpr ⟨hone, by omega⟩, heq.symm⟩

/-! ## A contract of one worker -/

namespace Demo

def deployer : AccountId := List.replicate 32 1

def worker : WorkerPublicKey := List.replicate 32 2

/-- BLAKE2 of the preimage of the first contract. -/
def hashes : Hashing where
  hash _ := []
  blake2 bytes := if bytes = contractIdPreimage deployer (beBytes 4 0) (fromLowU64Be 1) [] then
    [151, 54, 21, 10, 138, 11, 23, 123, 67, 113, 231, 131, 79, 9, 169, 110,
      253, 246, 219, 116, 7, 98, 159, 210, 48, 255, 235, 62, 111, 52, 175, 229]
    else []

def registered : State :=
  exec hashes .genesis (.register ((∅ : StorageMap WorkerPublicKey WorkerIdentity).insert worker
  ⟨worker, [3]⟩))

def deploy : Op := .instantiateContract (some deployer) (.nativeCode 0) [] [] (.newGroup [worker])

theorem deploy_fine : deploy.Fine hashes registered := by
  refine ⟨?_, fun _ _ => by decide⟩
  intro ⟨deployer', deployWorkers, hdeployer, _, hto, _, hfails⟩
  cases hdeployer
  cases hto
  rcases hfails with ⟨worker', hmem, hnone⟩ | hdup
  · rcases List.mem_singleton.mp hmem with rfl
    exact absurd hnone (by decide +kernel)
  · exact hdup (by decide +kernel)

end Demo

theorem instantiate_traceless_demo : (exec Demo.hashes Demo.registered Demo.deploy).clusterCounter = 1 ∧
    (exec Demo.hashes Demo.registered Demo.deploy).clusterWorkers.lookup (fromLowU64Be 1) ≠ none := by
  have hregistered : ReachWhere (· = State.genesis) (fun s op s' => s' = exec Demo.hashes s op)
      (fun s op => op.Fine Demo.hashes s) Demo.registered := by
    refine .step (o := .register _) (.init rfl) ?_ rfl
    trivial
  have hrun : ReachWhere (· = State.genesis) (fun s op s' => s' = exec Demo.hashes s op)
      (fun s op => op.Fine Demo.hashes s) (exec Demo.hashes Demo.registered Demo.deploy) :=
    .step hregistered Demo.deploy_fine rfl
  have hcounter : (exec Demo.hashes Demo.registered Demo.deploy).clusterCounter = 1 := by decide +kernel
  obtain ⟨-, hkeys, -⟩ := (instantiate_traceless_iff Demo.hashes).2 _ hrun
  exact ⟨hcounter, (hkeys (fromLowU64Be 1)).mpr ⟨1, le_rfl, hcounter.ge, rfl⟩⟩

/-- The worker is not registered: the call errs, and the number 1 is taken by no cluster. -/
theorem instantiate_leaves_trace : ∃ s',
    instantiateContract Demo.hashes (some Demo.deployer) (.nativeCode 0) [] [] (.newGroup [Demo.worker]) .genesis =
      (.error .workerNotFound, s') ∧
      State.genesis.clusterCounter = 0 ∧ s'.clusterCounter = 1 ∧
        s'.clusterWorkers.lookup (fromLowU64Be 1) = none :=
  ⟨_, rfl, rfl, by decide +kernel, by decide +kernel⟩

end Khala.Fat
