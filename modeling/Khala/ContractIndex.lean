/-
The contracts and where they are filed: under their id, in their cluster, and in
the message that deploys them.

Unlike the clusters' numbers (`Khala.Clusters`), these agree over every run, also
with calls that fail late: such a call writes none of them.
-/
import Khala.Clusters

namespace Khala.Fat

variable {hashing : Hashing} {s s' : State} {op : Op} {origin : Option AccountId} {codeIndex : CodeIndex}
  {data salt : Bytes} {deployTo : DeployTarget} {info : ContractInfo}

/-! ## One call -/

namespace State

/-- The contracts that messages deploy, in order. -/
def deployments (s : State) : List ContractInfo :=
  s.messages.filterMap fun
    | .instantiateCode info _ => some info
    | .uploadCodeToCluster .. => none

/-- Every cluster's list of workers names one. -/
def WorkersNamed (s : State) : Prop := ∀ clusterId, s.clusterWorkers.lookup clusterId ≠ some []

/-- A call that deploys nothing: it may have taken a number, and named workers. -/
structure Unfiled (s s' : State) : Prop where
  code : s'.code = s.code
  clusters : s'.clusters = s.clusters
  contracts : s'.contracts = s.contracts
  messages : s'.messages = s.messages
  named : s.WorkersNamed → s'.WorkersNamed
  workers : ∀ clusterId, s.clusterWorkers.lookup clusterId ≠ none → s'.clusterWorkers.lookup clusterId ≠ none

theorem Unfiled.refl (s : State) : s.Unfiled s := ⟨rfl, rfl, rfl, rfl, id, fun _ => id⟩

theorem Unfiled.trans {s'' : State} (h : s.Unfiled s') (h' : s'.Unfiled s'') : s.Unfiled s'' where
  code := h'.code.trans h.code
  clusters := h'.clusters.trans h.clusters
  contracts := h'.contracts.trans h.contracts
  messages := h'.messages.trans h.messages
  named hs := h'.named (h.named hs)
  workers clusterId hne := h'.workers clusterId (h.workers clusterId hne)

theorem Unfiled.counted (s : State) (clusterCounter : ℕ) : s.Unfiled { s with clusterCounter } :=
  ⟨rfl, rfl, rfl, rfl, id, fun _ => id⟩

theorem Unfiled.staffed (s : State) (clusterId : ContractClusterId)
    {workers : List WorkerPublicKey} (hne : workers ≠ []) :
    s.Unfiled { s with clusterWorkers := s.clusterWorkers.insert clusterId workers } where
  code := rfl
  clusters := rfl
  contracts := rfl
  messages := rfl
  named hs id := by
    rw [StorageMap.lookup_insert_ite]
    split
    · simpa using hne
    · exact hs id
  workers id hid := by
    rw [StorageMap.lookup_insert_ite]
    split
    · exact Option.some_ne_none _
    · exact hid

/-- A new contract is filed. -/
inductive Filed (hashing : Hashing) (s s' : State) : Prop
  | mk {s₁ : State} (info : ContractInfo) {identities : List WorkerIdentity} {created : List ContractClusterId} :
      s.Unfiled s₁ → s₁.CodeFound info.codeIndex → s₁.clusterWorkers.lookup info.clusterId ≠ none →
      s₁.contracts.lookup (info.contractId hashing.blake2) = none →
      s' = { s₁.instantiated (info.contractId hashing.blake2) info identities with created } → Filed hashing s s'

end State

theorem instantiate_ends (hashing : Hashing) (origin : Option AccountId) (codeIndex : CodeIndex)
    (data salt : Bytes) (deployTo : DeployTarget) (s : State) :
    (instantiateContract hashing origin codeIndex data salt deployTo).Ends s
      (fun _ s' => State.Filed hashing s s') fun _ s' => s.Unfiled s' := by
  unfold instantiateContract ensureSigned
  refine Call.Ends.unwrap_then (fun _ => .refl s) fun deployer _ => ?_
  refine Call.Ends.bind ((ensureCode_ends codeIndex s).mono (fun _ _ h => h) fun _ s' h => h.1 ▸ .refl s) ?_
  rintro _ s ⟨hcode, rfl⟩
  cases deployTo with
  | cluster clusterId =>
    refine Call.Ends.bind ((clusterOf_cluster_ends clusterId s).mono (fun _ _ h => h) fun _ _ h => h ▸ .refl s) ?_
    rintro _ s ⟨⟨deployWorkers, hcluster, rfl⟩, rfl⟩
    dsimp only
    refine Call.Ends.read_then (Call.Ends.unwrap_then (fun _ => .refl s) fun workers _ => ?_)
    rw [if_neg Bool.false_ne_true, if_neg Bool.false_ne_true]
    refine Call.Ends.ensure_then (fun _ => .refl s) fun hnew => Call.Ends.write_then ?_
    exact Call.Ends.write_then (Call.Ends.pure (.mk ⟨deployer, codeIndex, salt, clusterId, data⟩ (.refl s) hcode
      (hcluster ▸ Option.some_ne_none _) hnew rfl))
  | newGroup deployWorkers =>
    refine Call.Ends.bind
      ((clusterOf_newGroup_ends deployWorkers s).mono (fun _ _ h => h) fun _ _ h => h.1 ▸ .refl s) ?_
    rintro _ _ ⟨hne, rfl, rfl⟩
    dsimp only
    have hcounted : s.Unfiled { s with clusterCounter := s.nextCounter } := .counted s _
    refine Call.Ends.read_then (Call.Ends.unwrap_then (fun _ => hcounted) fun workers _ => ?_)
    rw [if_pos rfl, if_pos rfl]
    have hstaffed := hcounted.trans (.staffed _ (fromLowU64Be s.nextCounter) hne)
    refine Call.Ends.write_then (Call.Ends.ensure_then (fun _ => hstaffed) fun hnew => ?_)
    refine Call.Ends.write_then (Call.Ends.write_then (Call.Ends.write ?_))
    refine .mk ⟨deployer, codeIndex, salt, fromLowU64Be s.nextCounter, data⟩ hstaffed ?_ ?_ hnew rfl
    · cases codeIndex <;> exact hcode
    · change (s.clusterWorkers.insert (fromLowU64Be s.nextCounter) deployWorkers).lookup _ ≠ none
      simp

/-! ## Runs -/

/-- The contracts under their ids, in their clusters and in the messages are the same ones. -/
structure State.Indexed (hashing : Hashing) (s : State) : Prop where
  contracts : ∀ id info, s.contracts.lookup id = some info ↔ info ∈ s.deployments ∧
    id = info.contractId hashing.blake2
  once : (s.deployments.map fun info => info.contractId hashing.blake2).Nodup
  clusters : ∀ clusterId, (s.clusters.lookup clusterId).getD [] =
    (s.deployments.filter fun info => info.clusterId = clusterId).map fun info => info.contractId hashing.blake2
  found : ∀ info ∈ s.deployments, s.CodeFound info.codeIndex
  code : ∀ codeHash code, s.code.lookup codeHash = some code → codeHash = hashing.hash code
  named : s.WorkersNamed
  staffed : ∀ info ∈ s.deployments, s.clusterWorkers.lookup info.clusterId ≠ none

namespace State.Indexed

theorem genesis (hashing : Hashing) : State.genesis.Indexed hashing where
  contracts id info := by simp [State.genesis, deployments]
  once := by simp [State.genesis, deployments]
  clusters clusterId := by simp [State.genesis, deployments]
  found info h := absurd h List.not_mem_nil
  code codeHash code h := by simp [State.genesis] at h
  named clusterId := by simp [State.genesis]
  staffed info h := absurd h List.not_mem_nil

theorem codeFound_congr {codeIndex : CodeIndex} (hcode : s'.code = s.code) (h : s.CodeFound codeIndex) :
    s'.CodeFound codeIndex := by
  cases codeIndex with
  | nativeCode => trivial
  | wasmCode codeHash =>
    unfold CodeFound
    rw [hcode]
    exact h

theorem unfiled (h : s.Indexed hashing) (hs : s.Unfiled s') : s'.Indexed hashing := by
  have hdeployments : s'.deployments = s.deployments := by rw [deployments, hs.messages]; rfl
  exact {
    contracts := fun id info => by rw [hs.contracts, hdeployments]; exact h.contracts id info
    once := by rw [hdeployments]; exact h.once
    clusters := fun clusterId => by rw [hs.clusters, hdeployments]; exact h.clusters clusterId
    found := fun info hmem => codeFound_congr hs.code (h.found info (hdeployments ▸ hmem))
    code := fun codeHash code hcode => h.code codeHash code (hs.code ▸ hcode)
    named := hs.named h.named
    staffed := fun info hmem => hs.workers _ (h.staffed info (hdeployments ▸ hmem)) }

theorem filed (h : s.Indexed hashing) (hs : State.Filed hashing s s') : s'.Indexed hashing := by
  obtain ⟨info, hunfiled, hcode, hstaffed, hnew, rfl⟩ := hs
  next s₁ identities created =>
  replace h := h.unfiled hunfiled
  have hdeployments :
      ({ s₁.instantiated (info.contractId hashing.blake2) info identities with created } : State).deployments =
      s₁.deployments ++ [info] := by
    change List.filterMap _ (s₁.messages ++ [_]) = _
    rw [List.filterMap_append]
    rfl
  have hunknown : ∀ other ∈ s₁.deployments, other.contractId hashing.blake2 ≠ info.contractId hashing.blake2 := by
    intro other hmem heq
    have hother := (h.contracts _ other).mpr ⟨hmem, rfl⟩
    rw [heq, hnew] at hother
    cases hother
  refine ⟨?_, ?_, ?_, ?_, h.code, h.named, ?_⟩
  · intro id other
    rw [hdeployments, List.mem_append, List.mem_singleton]
    change (s₁.contracts.insert _ info).lookup id = some other ↔ _
    rw [StorageMap.lookup_insert_ite]
    split
    · next heq =>
      subst heq
      rw [Option.some.injEq]
      constructor
      · rintro rfl
        exact ⟨.inr rfl, rfl⟩
      · rintro ⟨hmem | rfl, heq⟩
        · exact absurd heq.symm (hunknown other hmem)
        · rfl
    · next hne =>
      rw [h.contracts]
      constructor
      · exact fun ⟨hmem, heq⟩ => ⟨.inl hmem, heq⟩
      · rintro ⟨hmem | rfl, heq⟩
        · exact ⟨hmem, heq⟩
        · exact absurd heq hne
  · rw [hdeployments, List.map_append]
    refine List.nodup_append.mpr ⟨h.once, List.nodup_singleton _, ?_⟩
    intro id hid id' hid'
    obtain ⟨other, hother, rfl⟩ := List.mem_map.mp hid
    rw [List.mem_singleton.mp hid']
    exact hunknown other hother
  · intro clusterId
    rw [hdeployments, List.filter_append, List.map_append, ← h.clusters]
    change ((s₁.clusters.insert info.clusterId _).lookup clusterId).getD [] = _
    rw [StorageMap.lookup_insert_ite]
    split
    · next heq =>
      rw [heq]
      simp
    · next hne => simp [Ne.symm hne]
  · intro other hmem
    rw [hdeployments, List.mem_append, List.mem_singleton] at hmem
    rcases hmem with hmem | rfl
    · exact codeFound_congr rfl (h.found other hmem)
    · exact codeFound_congr rfl hcode
  · intro other hmem
    rw [hdeployments, List.mem_append, List.mem_singleton] at hmem
    rcases hmem with hmem | rfl
    · exact h.staffed other hmem
    · exact hstaffed

theorem exec (h : s.Indexed hashing) : (exec hashing s op).Indexed hashing := by
  cases op with
  | uploadCode origin code =>
    have hkeeps : (uploadCode hashing origin code).Keeps (State.Indexed hashing) := by
      unfold uploadCode ensureSigned
      refine (Call.Keeps.unwrap _ _).bind fun _ => Call.Keeps.write fun s hs => ?_
      have hfound (codeIndex : CodeIndex) (hcode : s.CodeFound codeIndex) :
          ({ s with code := s.code.insert (hashing.hash code) code } : State).CodeFound codeIndex := by
        cases codeIndex with
        | nativeCode => trivial
        | wasmCode codeHash =>
          change (s.code.insert (hashing.hash code) code).lookup codeHash ≠ none
          rw [StorageMap.lookup_insert_ite]
          split
          · exact Option.some_ne_none _
          · exact hcode
      refine ⟨hs.contracts, hs.once, hs.clusters, fun info hmem =>
        hfound _ (hs.found info hmem), ?_, hs.named, hs.staffed⟩
      intro codeHash code' hcode
      change (s.code.insert (hashing.hash code) code).lookup codeHash = some code' at hcode
      rw [StorageMap.lookup_insert_ite] at hcode
      split at hcode
      · next heq => rw [heq, Option.some.inj hcode]
      · exact hs.code codeHash code' hcode
    exact hkeeps.state h
  | uploadCodeToCluster origin code clusterId =>
    have hkeeps : (uploadCodeToCluster origin code clusterId).Keeps (State.Indexed hashing) := by
      unfold uploadCodeToCluster ensureSigned pushMessage
      refine (Call.Keeps.unwrap _ _).bind fun origin => Call.Keeps.write fun s hs => ?_
      have hdeployments :
          ({ s with messages := s.messages ++ [.uploadCodeToCluster origin code clusterId] } : State).deployments =
          s.deployments := by
        change List.filterMap _ (s.messages ++ [_]) = _
        rw [List.filterMap_append]
        exact List.append_nil _
      refine ⟨?_, ?_, ?_, ?_, hs.code, hs.named, ?_⟩
      · rw [hdeployments]; exact hs.contracts
      · rw [hdeployments]; exact hs.once
      · rw [hdeployments]; exact hs.clusters
      · rw [hdeployments]; exact fun info hmem => codeFound_congr rfl (hs.found info hmem)
      · rw [hdeployments]; exact hs.staffed
    exact hkeeps.state h
  | register workers => exact h.unfiled ⟨rfl, rfl, rfl, rfl, id, fun _ => id⟩
  | instantiateContract origin codeIndex data salt deployTo =>
    exact ((instantiate_ends hashing origin codeIndex data salt deployTo s).mono (fun _ _ => h.filed)
      fun _ _ => h.unfiled).state

end State.Indexed

/-- **A contract is filed once everywhere.** Over every run, whichever calls fail and
however late: a contract stands under its own id, exactly if one message has deployed it,
and in its cluster's list alone, which has its contracts in the order of their messages; its
code was uploaded, under its hash, and its cluster names workers. -/
theorem contracts_indexed (hashing : Hashing)
    (h : ReachWhere (· = State.genesis) (fun s op s' => s' = exec hashing s op) (fun _ _ => True) s) :
    (∀ id info, s.contracts.lookup id = some info ↔ info ∈ s.deployments ∧ id = info.contractId hashing.blake2) ∧
    (s.deployments.map fun info => info.contractId hashing.blake2).Nodup ∧
    (∀ clusterId, (s.clusters.lookup clusterId).getD [] =
      (s.deployments.filter fun info => info.clusterId = clusterId).map fun info =>
      info.contractId hashing.blake2) ∧
    ∀ info ∈ s.deployments,
      (∀ codeHash, info.codeIndex = .wasmCode codeHash →
        ∃ code, s.code.lookup codeHash = some code ∧ codeHash = hashing.hash code) ∧
      ∃ worker workers, s.clusterWorkers.lookup info.clusterId = some (worker :: workers) := by
  have hs : s.Indexed hashing := by
    refine h.invariant (State.Indexed hashing) ?_ fun s op s' hs _ heq => ?_
    · rintro _ rfl
      exact .genesis hashing
    · rw [show s' = exec hashing s op from heq]
      exact hs.exec
  refine ⟨hs.contracts, hs.once, hs.clusters, fun info hmem => ⟨fun codeHash heq => ?_, ?_⟩⟩
  · have hfound := hs.found info hmem
    rw [heq] at hfound
    obtain ⟨code, hcode⟩ := Option.ne_none_iff_exists'.mp hfound
    exact ⟨code, hcode, hs.code codeHash code hcode⟩
  · have hnamed := hs.named info.clusterId
    have hstaffed := hs.staffed info hmem
    cases hworkers : s.clusterWorkers.lookup info.clusterId with
    | none => exact absurd hworkers hstaffed
    | some workers =>
      cases workers with
      | nil => exact absurd hworkers hnamed
      | cons worker workers => exact ⟨worker, workers, rfl⟩

namespace Demo

/-- A contract more, and a call that fails late. -/
def filing : List Op :=
  [.register ((∅ : StorageMap WorkerPublicKey WorkerIdentity).insert worker ⟨worker, []⟩), deploy,
  .instantiateContract (some deployer) (.nativeCode 1) [] [] (.cluster (fromLowU64Be 1)),
  .instantiateContract (some deployer) (.nativeCode 2) [] [] (.newGroup [deployer])]

def filed : State := filing.foldl (exec hashes) .genesis

end Demo

theorem contracts_indexed_demo : (Demo.filed.clusters.lookup (fromLowU64Be 1)).getD [] =
      (Demo.filed.deployments.filter fun info => info.clusterId = fromLowU64Be 1).map
        (fun info => info.contractId Demo.hashes.blake2) ∧
    Demo.filed.deployments.length = 2 ∧ Demo.filed.clusterCounter = 2 :=
  ⟨(contracts_indexed Demo.hashes (.foldl (.init rfl) (by decide +kernel))).2.2.1 _, by
    decide +kernel, by decide +kernel⟩

end Khala.Fat
