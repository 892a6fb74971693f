/-
What a contract's id binds (`crates/phala-types/src/contract.rs`).

The id is the hash of four parts put together without lengths or tags: the
deployer, the code, the cluster and the salt. The deployer and the cluster have
32 bytes, but the code has four where it is plain and 32 where it is a hash. So
an id binds its parts among contracts of one kind, and a native one may have the
id of another whose parts begin 28 bytes further on.
-/
import Khala.Clusters

namespace Khala.Fat

variable {hashing : Hashing} {s s' : State} {op : Op} {info plain hashed a b : ContractInfo}
  {clusterId : ContractClusterId} {deployTo : DeployTarget}

/-! ## Preimages -/

/-- `u32` and 32-byte hashes. -/
def CodeIndex.Sized : CodeIndex → Prop
  | .nativeCode id => id < 2 ^ 32
  | .wasmCode codeHash => codeHash.length = 32

instance (codeIndex : CodeIndex) : Decidable codeIndex.Sized :=
  match codeIndex with
  | .nativeCode _ => inferInstanceAs (Decidable (_ < _))
  | .wasmCode _ => inferInstanceAs (Decidable (_ = _))

namespace ContractInfo

/-- The parts have the sizes of their types. -/
structure Sized (info : ContractInfo) : Prop where
  deployer : info.deployer.length = 32
  codeIndex : info.codeIndex.Sized
  clusterId : info.clusterId.length = 32

def preimage (info : ContractInfo) : Bytes :=
  contractIdPreimage info.deployer info.codeIndex.codeHash info.clusterId info.salt

/-- The same deployer, code, cluster and salt. -/
structure SameChoice (a b : ContractInfo) : Prop where
  deployer : a.deployer = b.deployer
  codeIndex : a.codeIndex = b.codeIndex
  clusterId : a.clusterId = b.clusterId
  salt : a.salt = b.salt

/-- One deployer's contracts, of native code and of code with a hash: the hash is the
native id with the first 28 bytes of the native one's cluster, the cluster is the rest of
that with the first 28 bytes of the salt, and the salt is the rest of that. -/
def Overlaps (plain hashed : ContractInfo) : Prop :=
  ∃ id, plain.codeIndex = .nativeCode id ∧ plain.deployer = hashed.deployer ∧
    hashed.codeIndex = .wasmCode (beBytes 4 id ++ plain.clusterId.take 28) ∧
    hashed.clusterId = plain.clusterId.drop 28 ++ plain.salt.take 28 ∧ hashed.salt = plain.salt.drop 28

theorem preimage_eq (info : ContractInfo) :
    info.preimage = info.deployer ++ (info.codeIndex.codeHash ++ (info.clusterId ++ info.salt)) := by
  simp only [preimage, contractIdPreimage, List.append_assoc]

theorem SameChoice.preimage_eq (h : a.SameChoice b) : a.preimage = b.preimage := by
  rw [preimage, h.deployer, h.codeIndex, h.clusterId, h.salt]
  rfl

theorem Overlaps.preimage_eq (h : plain.Overlaps hashed) : plain.preimage = hashed.preimage := by
  obtain ⟨id, hnative, hdeployer, hwasm, hcluster, hsalt⟩ := h
  have hparts : plain.clusterId ++ plain.salt =
      plain.clusterId.take 28 ++ (plain.clusterId.drop 28 ++ (plain.salt.take 28 ++ plain.salt.drop 28)) := by
    rw [List.take_append_drop, ← List.append_assoc, List.take_append_drop]
  rw [ContractInfo.preimage_eq, ContractInfo.preimage_eq, hnative, hwasm, hdeployer, hcluster, hsalt]
  simp only [CodeIndex.codeHash, List.append_assoc, hparts]

/-- Codes of one kind have one length. -/
theorem sameChoice_of_length (ha : a.Sized) (hb : b.Sized)
    (hlength : a.codeIndex.codeHash.length = b.codeIndex.codeHash.length)
    (hcode : a.codeIndex.codeHash = b.codeIndex.codeHash → a.codeIndex = b.codeIndex)
    (h : a.preimage = b.preimage) : a.SameChoice b := by
  rw [preimage_eq, preimage_eq] at h
  obtain ⟨hdeployer, h⟩ := List.append_inj h (ha.deployer.trans hb.deployer.symm)
  obtain ⟨hhash, h⟩ := List.append_inj h hlength
  obtain ⟨hcluster, hsalt⟩ := List.append_inj h (ha.clusterId.trans hb.clusterId.symm)
  exact ⟨hdeployer, hcode hhash, hcluster, hsalt⟩

theorem overlaps_of_preimage {id : ℕ} {codeHash : CodeHash} (ha : plain.Sized) (hb : hashed.Sized)
    (hnative : plain.codeIndex = .nativeCode id) (hwasm : hashed.codeIndex = .wasmCode codeHash)
    (h : plain.preimage = hashed.preimage) : plain.Overlaps hashed := by
  have hhash : codeHash.length = 32 := by
    have := hb.codeIndex
    rwa [hwasm] at this
  have hcluster := ha.clusterId
  have hcluster' := hb.clusterId
  rw [preimage_eq, preimage_eq, hnative, hwasm] at h
  obtain ⟨hdeployer, h⟩ := List.append_inj h (ha.deployer.trans hb.deployer.symm)
  simp only [CodeIndex.codeHash] at h
  have hid : (beBytes 4 id).length = 4 := length_beBytes 4 id
  have hsalt : plain.salt.length = 28 + hashed.salt.length := by
    have := congrArg List.length h
    simp only [List.length_append] at this
    omega
  -- both sides cut after 32 bytes, and after 32 more
  have hcut : (beBytes 4 id ++ plain.clusterId.take 28) ++
      ((plain.clusterId.drop 28 ++ plain.salt.take 28) ++ plain.salt.drop 28) =
        codeHash ++ (hashed.clusterId ++ hashed.salt) := by
    rw [← h, List.append_assoc, List.append_assoc (plain.clusterId.drop 28), List.take_append_drop,
      ← List.append_assoc (plain.clusterId.take 28), List.take_append_drop]
  obtain ⟨hfirst, hrest⟩ := List.append_inj hcut (by simp only [List.length_append, List.length_take]; omega)
  obtain ⟨hsecond, hthird⟩ := List.append_inj hrest
    (by simp only [List.length_append, List.length_take, List.length_drop]; omega)
  exact ⟨id, hnative, hdeployer, by rw [hwasm, hfirst], hsecond.symm, hthird.symm⟩

/-- Preimages bind their parts, but for an overlap. -/
theorem sameChoice_or_overlaps (ha : a.Sized) (hb : b.Sized) (h : a.preimage = b.preimage) :
    a.SameChoice b ∨ a.Overlaps b ∨ b.Overlaps a := by
  cases hcode : a.codeIndex with
  | nativeCode id =>
    cases hcode' : b.codeIndex with
    | nativeCode id' =>
      refine .inl (sameChoice_of_length ha hb ?_ ?_ h)
      · rw [hcode, hcode']
        exact (length_beBytes 4 id).trans (length_beBytes 4 id').symm
      · have hid := ha.codeIndex
        have hid' := hb.codeIndex
        rw [hcode] at hid ⊢
        rw [hcode'] at hid' ⊢
        intro hbytes
        rw [beBytes_inj hid hid' hbytes]
    | wasmCode codeHash => exact .inr (.inl (overlaps_of_preimage ha hb hcode hcode' h))
  | wasmCode codeHash =>
    cases hcode' : b.codeIndex with
    | nativeCode id => exact .inr (.inr (overlaps_of_preimage hb ha hcode' hcode h.symm))
    | wasmCode codeHash' =>
      refine .inl (sameChoice_of_length ha hb ?_ ?_ h)
      · have hlength := ha.codeIndex
        have hlength' := hb.codeIndex
        rw [hcode] at hlength ⊢
        rw [hcode'] at hlength' ⊢
        exact Eq.trans hlength hlength'.symm
      · rw [hcode, hcode']
        intro hbytes
        exact congrArg _ hbytes

end ContractInfo

/-! ## The pallet -/

/-- The accounts and hashes of a call have the sizes of their types. -/
def Op.Sized : Op → Prop
  | .instantiateContract origin codeIndex _ _ _ => (∀ deployer ∈ origin, deployer.length = 32) ∧ codeIndex.Sized
  | _ => True

/-- No call comes to the end of 32-bit numbers. -/
def Op.HasRoom (s : State) : Op → Prop
  | .instantiateContract _ _ _ _ (.newGroup _) => s.clusterCounter + 1 < 2 ^ 32
  | _ => True

/-- The id of one of the clusters so far. -/
def State.Numbers (s : State) (clusterId : ContractClusterId) : Prop :=
  ∃ n, 1 ≤ n ∧ n ≤ s.clusterCounter ∧ clusterId = fromLowU64Be n

/-- Contracts are stored under their ids, in clusters that are numbered. -/
structure State.Numbered (hashing : Hashing) (s : State) : Prop where
  lt : s.clusterCounter < 2 ^ 32
  clusterWorkers : ∀ clusterId, s.clusterWorkers.lookup clusterId ≠ none → s.Numbers clusterId
  contracts : ∀ id info, s.contracts.lookup id = some info →
    id = hashing.blake2 info.preimage ∧ info.Sized ∧ s.Numbers info.clusterId

theorem length_fromLowU64Be (n : ℕ) : (fromLowU64Be n).length = 32 := by
  rw [fromLowU64Be, List.length_append, List.length_replicate, length_beBytes]

/-- A 32-bit number is in the last four bytes, behind zeros. -/
theorem fromLowU64Be_eq {n : ℕ} (h : n < 2 ^ 32) : fromLowU64Be n = List.replicate 28 0 ++ beBytes 4 n := by
  have hle : leBytes 8 n = leBytes 4 n ++ leBytes 4 (n / 256 / 256 / 256 / 256) := by
    simp only [leBytes, List.cons_append, List.nil_append]
  have hzero : n / 256 / 256 / 256 / 256 = 0 := by omega
  rw [fromLowU64Be, beBytes, hle, hzero, List.reverse_append, ← List.append_assoc]
  rfl

/-- Numbered clusters of 32 bits do not overlap: the number of one is where the other has zeros. -/
theorem ContractInfo.not_overlaps {m n : ℕ} (hm : plain.clusterId = fromLowU64Be m)
    (hn : hashed.clusterId = fromLowU64Be n) (hone : 1 ≤ m) (hlt : m < 2 ^ 32) : ¬plain.Overlaps hashed := by
  rintro ⟨id, -, -, -, hcluster, -⟩
  rw [hm, hn, fromLowU64Be_eq hlt, List.drop_left' (by simp)] at hcluster
  have hfirst := congrArg (List.take 4) hcluster
  rw [List.take_left' (length_beBytes 4 m)] at hfirst
  have hzero : (fromLowU64Be n).take 4 = beBytes 4 0 := by
    unfold fromLowU64Be
    rw [List.take_append_of_le_length (by simp), List.take_replicate]
    rfl
  have hbytes : beBytes 4 0 = beBytes 4 m := hzero.symm.trans hfirst
  have := beBytes_inj (by norm_num) (by simpa using hlt) hbytes
  omega

/-! ## Runs -/

namespace State

/-- The cluster that a call is for. -/
def clusterFor (s : State) : DeployTarget → ContractClusterId
  | .cluster clusterId => clusterId
  | .newGroup _ => fromLowU64Be s.nextCounter

namespace Numbered

theorem genesis (hashing : Hashing) : State.genesis.Numbered hashing where
  lt := by decide
  clusterWorkers clusterId h := absurd rfl h
  contracts id info h := nomatch h

/-- What else is written does not matter. -/
theorem congr (h : s.Numbered hashing) (hsame : s.Same s') : s'.Numbered hashing where
  lt := hsame.clusterCounter ▸ h.lt
  clusterWorkers clusterId hworkers := by
    rw [hsame.clusterWorkers] at hworkers
    unfold Numbers
    rw [hsame.clusterCounter]
    exact h.clusterWorkers clusterId hworkers
  contracts id info hstored := by
    rw [hsame.contracts] at hstored
    unfold Numbers
    rw [hsame.clusterCounter]
    exact h.contracts id info hstored

theorem next (h : s.Numbered hashing) (hlt : s.clusterCounter + 1 < 2 ^ 32) :
    State.Numbered hashing { s with clusterCounter := s.nextCounter } := by
  have hnext : s.nextCounter = s.clusterCounter + 1 := Nat.mod_eq_of_lt (by omega)
  have hnumbers : ∀ {clusterId}, s.Numbers clusterId →
      Numbers { s with clusterCounter := s.nextCounter } clusterId := by
    intro clusterId ⟨n, hone, hle, heq⟩
    refine ⟨n, hone, ?_, heq⟩
    dsimp only
    omega
  refine ⟨?_, fun clusterId hworkers => hnumbers (h.clusterWorkers clusterId hworkers), fun id info hstored => ?_⟩
  · dsimp only
    omega
  · obtain ⟨hid, hsized, hcluster⟩ := h.contracts id info hstored
    exact ⟨hid, hsized, hnumbers hcluster⟩

theorem worked (h : s.Numbered hashing) (hcluster : s.Numbers clusterId) (deployWorkers : List WorkerPublicKey) :
    State.Numbered hashing { s with clusterWorkers := s.clusterWorkers.insert clusterId deployWorkers } where
  lt := h.lt
  clusterWorkers clusterId' hworkers := by
    rw [StorageMap.lookup_insert_ite] at hworkers
    split at hworkers
    · next heq => exact heq ▸ hcluster
    · exact h.clusterWorkers clusterId' hworkers
  contracts := h.contracts

theorem stored (h : s.Numbered hashing) (hsized : info.Sized) (hcluster : s.Numbers info.clusterId)
    (clusters : StorageMap ContractClusterId (List ContractId)) :
    State.Numbered hashing
      { s with contracts := s.contracts.insert (info.contractId hashing.blake2) info, clusters } where
  lt := h.lt
  clusterWorkers := h.clusterWorkers
  contracts id info' hstored := by
    rw [StorageMap.lookup_insert_ite] at hstored
    split at hstored
    · next heq =>
      cases hstored
      exact ⟨heq, hsized, hcluster⟩
    · exact h.contracts id info' hstored

end Numbered

end State

theorem clusterOf_numbered_ends (h : s.Numbered hashing)
    (hroom : ∀ workers, deployTo = .newGroup workers → s.clusterCounter + 1 < 2 ^ 32) :
    (clusterOf deployTo).Ends s
      (fun r s' => r.1 = s.clusterFor deployTo ∧ s'.Numbers r.1 ∧ s'.Numbered hashing ∧ s'.contracts = s.contracts)
      fun e s' => s'.Numbered hashing ∧ e ≠ .duplicatedContract := by
  cases deployTo with
  | cluster clusterId =>
    unfold clusterOf
    refine Call.Ends.read_then (Call.Ends.unwrap_then (fun _ => ⟨h, nofun⟩) fun workers hworkers => ?_)
    have hne : s.clusterWorkers.lookup clusterId ≠ none := by
      rw [hworkers]
      exact Option.some_ne_none _
    exact Call.Ends.pure ⟨rfl, h.clusterWorkers clusterId hne, h, rfl⟩
  | newGroup deployWorkers =>
    have hlt := hroom deployWorkers rfl
    have hnext : s.nextCounter = s.clusterCounter + 1 := Nat.mod_eq_of_lt (by omega)
    unfold clusterOf
    refine Call.Ends.ensure_then (fun _ => ⟨h, nofun⟩) fun _ => ?_
    refine Call.Ends.write_then (Call.Ends.read_then (Call.Ends.pure ⟨rfl, ?_, h.next hlt, rfl⟩))
    exact ⟨s.nextCounter, by omega, le_rfl, rfl⟩

/-- A refused contract was stored before, under its id. -/
theorem instantiate_numbered_ends (h : s.Numbered hashing) {origin : Option AccountId} {codeIndex : CodeIndex}
    (data salt : Bytes) (hsized : Op.Sized (.instantiateContract origin codeIndex data salt deployTo))
    (hroom : Op.HasRoom s (.instantiateContract origin codeIndex data salt deployTo)) :
    (instantiateContract hashing origin codeIndex data salt deployTo).Ends s (fun _ s' => s'.Numbered hashing)
      fun e s' => s'.Numbered hashing ∧ (e = .duplicatedContract → ∃ deployer, origin = some deployer ∧
        let info : ContractInfo := ⟨deployer, codeIndex, salt, s.clusterFor deployTo, data⟩
        info.Sized ∧ s'.Numbers info.clusterId ∧ s'.contracts = s.contracts ∧
          s.contracts.lookup (info.contractId hashing.blake2) ≠ none) := by
  obtain ⟨hdeployer, hcode⟩ := hsized
  have hroom' : ∀ workers, deployTo = .newGroup workers → s.clusterCounter + 1 < 2 ^ 32 := by
    rintro workers rfl
    exact hroom
  unfold instantiateContract ensureSigned
  refine Call.Ends.unwrap_then (fun _ => ⟨h, nofun⟩) fun deployer horigin => ?_
  refine Call.Ends.bind ((ensureCode_ends codeIndex s).mono (fun _ _ h => h) ?_) ?_
  · rintro _ _ ⟨rfl, -, rfl⟩
    exact ⟨h, nofun⟩
  rintro _ s ⟨-, rfl⟩
  refine Call.Ends.bind ((clusterOf_numbered_ends h hroom').mono (fun _ _ h => h) fun e s' he => ?_) ?_
  · exact ⟨he.1, fun heq => absurd heq he.2⟩
  rintro ⟨clusterId, deployWorkers, newCluster⟩ t ⟨rfl, hcluster, ht, hcontracts⟩
  have hinfo : ContractInfo.Sized ⟨deployer, codeIndex, salt, s.clusterFor deployTo, data⟩ := by
    obtain ⟨n, -, -, heq⟩ := hcluster
    exact ⟨hdeployer deployer horigin, hcode, (congrArg List.length heq).trans (length_fromLowU64Be n)⟩
  refine Call.Ends.read_then (Call.Ends.unwrap_then (fun _ => ⟨ht, nofun⟩) fun workers _ => ?_)
  cases newCluster with
  | false =>
    rw [if_neg Bool.false_ne_true, if_neg Bool.false_ne_true]
    refine Call.Ends.ensure_then (fun hdup => ⟨ht, fun _ => ?_⟩) fun _ => ?_
    · exact ⟨deployer, horigin, hinfo, hcluster, hcontracts, hcontracts ▸ hdup⟩
    · exact Call.Ends.write_then (Call.Ends.write ((ht.stored hinfo hcluster _).congr ⟨rfl, rfl, rfl, rfl⟩))
  | true =>
    have hworked := ht.worked hcluster deployWorkers
    rw [if_pos rfl, if_pos rfl]
    refine Call.Ends.write_then (Call.Ends.ensure_then (fun hdup => ⟨hworked, fun _ => ?_⟩) fun _ => ?_)
    · exact ⟨deployer, horigin, hinfo, hcluster, hcontracts, hcontracts ▸ hdup⟩
    · refine Call.Ends.write_then (Call.Ends.write_then (Call.Ends.write ?_))
      exact (hworked.stored hinfo hcluster _).congr ⟨rfl, rfl, rfl, rfl⟩

theorem State.Numbered.exec (h : s.Numbered hashing) (hsized : op.Sized) (hroom : op.HasRoom s) :
    (exec hashing s op).Numbered hashing := by
  cases op with
  | uploadCode origin code =>
    have hkeeps : (uploadCode hashing origin code).Keeps (State.Numbered hashing) := by
      unfold uploadCode ensureSigned
      exact (Call.Keeps.unwrap _ _).bind fun _ => Call.Keeps.write fun s hs => hs.congr ⟨rfl, rfl, rfl, rfl⟩
    exact hkeeps.state h
  | uploadCodeToCluster origin code clusterId =>
    have hkeeps : (uploadCodeToCluster origin code clusterId).Keeps (State.Numbered hashing) := by
      unfold uploadCodeToCluster ensureSigned pushMessage
      exact (Call.Keeps.unwrap _ _).bind fun _ => Call.Keeps.write fun s hs => hs.congr ⟨rfl, rfl, rfl, rfl⟩
    exact hkeeps.state h
  | register workers => exact h.congr ⟨rfl, rfl, rfl, rfl⟩
  | instantiateContract origin codeIndex data salt deployTo =>
    exact ((instantiate_numbered_ends h data salt hsized hroom).mono (fun _ _ h => h) fun _ _ h => h.1).state

/-- A state of a run with sized calls, of fewer than `2^32` clusters. -/
def NumberedRun (hashing : Hashing) (s : State) : Prop :=
  ReachWhere (· = State.genesis) (fun s op s' => s' = exec hashing s op) (fun s op => op.Sized ∧ op.HasRoom s) s

theorem NumberedRun.numbered (h : NumberedRun hashing s) : s.Numbered hashing := by
  refine h.invariant (State.Numbered hashing) ?_ ?_
  · rintro _ rfl
    exact State.Numbered.genesis hashing
  · rintro s op _ hs ⟨hsized, hroom⟩ rfl
    exact hs.exec hsized hroom

/-- `DuplicatedContract` is for a contract of the same parts, unless the hash collides. -/
theorem duplicated_sameChoice (h : s.Numbered hashing) {deployer : AccountId} {codeIndex : CodeIndex}
    {data salt : Bytes} (hsized : Op.Sized (.instantiateContract (some deployer) codeIndex data salt deployTo))
    (hroom : Op.HasRoom s (.instantiateContract (some deployer) codeIndex data salt deployTo))
    (hhash : ∀ id info, s.contracts.lookup id = some info →
      let new : ContractInfo := ⟨deployer, codeIndex, salt, s.clusterFor deployTo, data⟩
      hashing.blake2 new.preimage = hashing.blake2 info.preimage → new.preimage = info.preimage)
    (hrun : instantiateContract hashing (some deployer) codeIndex data salt deployTo s =
      (.error .duplicatedContract, s')) :
    ∃ id info, s.contracts.lookup id = some info ∧
      ContractInfo.SameChoice ⟨deployer, codeIndex, salt, s.clusterFor deployTo, data⟩ info := by
  obtain ⟨hs', hdup⟩ := (instantiate_numbered_ends h data salt hsized hroom).error hrun
  obtain ⟨deployer', hdeployer, hinfo, hcluster, hcontracts, hstored⟩ := hdup rfl
  cases hdeployer
  obtain ⟨info, hstored⟩ := Option.ne_none_iff_exists'.mp hstored
  obtain ⟨hid, hsized', hcluster'⟩ := hs'.contracts _ info (hcontracts ▸ hstored)
  refine ⟨_, info, hstored, ?_⟩
  obtain ⟨m, hm, hmle, hmeq⟩ := hcluster
  obtain ⟨n, hn, hnle, hneq⟩ := hcluster'
  have hlt := hs'.lt
  rcases ContractInfo.sameChoice_or_overlaps hinfo hsized' (hhash _ info hstored hid) with hsame | hover | hover
  · exact hsame
  · exact absurd hover (ContractInfo.not_overlaps hmeq hneq hm (by omega))
  · exact absurd hover (ContractInfo.not_overlaps hneq hmeq hn (by omega))

/-- **A contract's id binds its parts, but for overlaps**, which take a native code and a
code with a hash, and clusters of other numbers than the pallet's. In every run of
fewer than `2^32` clusters `DuplicatedContract` is for a stored contract of the same
deployer, code, cluster and salt. -/
theorem contractId_binds (hashing : Hashing) :
    (∀ a b : ContractInfo, a.Sized → b.Sized →
      (a.preimage = b.preimage ↔ a.SameChoice b ∨ a.Overlaps b ∨ b.Overlaps a)) ∧
    (∀ (a b : ContractInfo) (m n : ℕ), a.Sized → b.Sized → a.clusterId = fromLowU64Be m →
      b.clusterId = fromLowU64Be n →
      1 ≤ m → m < 2 ^ 32 → 1 ≤ n → n < 2 ^ 32 → a.preimage = b.preimage → a.SameChoice b) ∧
    ∀ s, NumberedRun hashing s → ∀ deployer codeIndex data salt deployTo s',
      Op.Sized (.instantiateContract (some deployer) codeIndex data salt deployTo) →
      Op.HasRoom s (.instantiateContract (some deployer) codeIndex data salt deployTo) →
      (∀ id info, s.contracts.lookup id = some info →
        let new : ContractInfo := ⟨deployer, codeIndex, salt, s.clusterFor deployTo, data⟩
        hashing.blake2 new.preimage = hashing.blake2 info.preimage → new.preimage = info.preimage) →
      instantiateContract hashing (some deployer) codeIndex data salt deployTo s =
        (.error .duplicatedContract, s') →
      ∃ id info, s.contracts.lookup id = some info ∧
        ContractInfo.SameChoice ⟨deployer, codeIndex, salt, s.clusterFor deployTo, data⟩ info := by
  refine ⟨?_, ?_, ?_⟩
  · intro a b ha hb
    refine ⟨ContractInfo.sameChoice_or_overlaps ha hb, ?_⟩
    rintro (hsame | hover | hover)
    · exact hsame.preimage_eq
    · exact hover.preimage_eq
    · exact hover.preimage_eq.symm
  · intro a b m n ha hb hm hn hmone hmlt hnone hnlt hpreimage
    rcases ContractInfo.sameChoice_or_overlaps ha hb hpreimage with hsame | hover | hover
    · exact hsame
    · exact absurd hover (ContractInfo.not_overlaps hm hn hmone hmlt)
    · exact absurd hover (ContractInfo.not_overlaps hn hm hnone hnlt)
  · intro s hs deployer codeIndex data salt deployTo s' hsized hroom hhash hrun
    exact duplicated_sameChoice hs.numbered hsized hroom hhash hrun

/-! ## The same contract again, and a native contract with the id of another -/

namespace Demo

def deployed : State := exec hashes registered deploy

theorem deployed_run : NumberedRun hashes deployed := by
  have hregistered : NumberedRun hashes registered := by
    refine .step (o := .register _) (.init rfl) ?_ rfl
    exact ⟨trivial, trivial⟩
  refine .step hregistered (o := deploy) ⟨⟨?_, ?_⟩, ?_⟩ rfl
  · rintro _ ⟨⟩
    decide
  · exact (by decide : (0 : ℕ) < 2 ^ 32)
  · exact (by decide : (0 + 1 : ℕ) < 2 ^ 32)

def nativeInfo : ContractInfo := ⟨deployer, .nativeCode 0, List.replicate 28 0, fromLowU64Be 1, []⟩

def wasmInfo : ContractInfo :=
  ⟨deployer, .wasmCode (List.replicate 32 0), [], [0, 0, 0, 1] ++ List.replicate 28 0, []⟩

end Demo

theorem contractId_binds_demo : ∃ id info, Demo.deployed.contracts.lookup id = some info ∧
    ContractInfo.SameChoice ⟨Demo.deployer, .nativeCode 0, [], fromLowU64Be 1, []⟩ info := by
  refine (contractId_binds Demo.hashes).2.2 Demo.deployed Demo.deployed_run Demo.deployer (.nativeCode 0) [] []
    (.cluster (fromLowU64Be 1)) Demo.deployed ⟨?_, ?_⟩ trivial ?_ ?_
  · rintro _ ⟨⟩
    decide
  · exact (by decide : (0 : ℕ) < 2 ^ 32)
  · intro id info hstored
    have hcontracts : Demo.deployed.contracts.entries = [⟨ContractInfo.contractId
        ⟨Demo.deployer, .nativeCode 0, [], fromLowU64Be 1, []⟩ Demo.hashes.blake2,
        ⟨Demo.deployer, .nativeCode 0, [], fromLowU64Be 1, []⟩⟩] := by decide +kernel
    have hmem := AList.mem_lookup_iff.mp hstored
    rw [hcontracts, List.mem_singleton] at hmem
    cases hmem
    exact fun _ => rfl
  · rfl

theorem contractId_overlaps : Demo.nativeInfo.Sized ∧ Demo.wasmInfo.Sized ∧
    Demo.nativeInfo.preimage = Demo.wasmInfo.preimage ∧
    Demo.nativeInfo.codeIndex ≠ Demo.wasmInfo.codeIndex ∧ Demo.nativeInfo.clusterId ≠ Demo.wasmInfo.clusterId ∧
    Demo.nativeInfo.salt ≠ Demo.wasmInfo.salt := by
  refine ⟨⟨?_, ?_, ?_⟩, ⟨?_, ?_, ?_⟩, ?_, ?_, ?_, ?_⟩ <;> decide +kernel

end Khala.Fat
