/-
The trie storage of a worker, and its checkpoints (`crates/phala-trie-storage/src/lib.rs`).

A storage is a root and the nodes below it, with reference counts. Changes give a
new root and a transaction, a store of what is to be added to the counts. A
checkpoint has the root and the nodes with their counts, but not the keys; it is
read by inserting each node as often as its count says, which is never for a count
below zero. A transaction may owe references: a child that changes name twice has
its old nodes removed twice.

The tries themselves are a parameter: what they read goes through `get`, and what
they write is inserts and removals. Counts are unbounded.
-/
import Khala.MemoryDb
import Khala.Reach

namespace Khala.Trie

abbrev Bytes : Type := List UInt8

abbrev StorageKey : Type := Bytes

abbrev StorageValue : Type := Bytes

abbrev StorageCollection : Type := List (StorageKey × Option StorageValue)

abbrev ChildStorageCollection : Type := List (StorageKey × StorageCollection)

/-- The hasher, and the tries over it. Nodes are read by `Out → Option Bytes`, from a root. -/
structure TrieCode (Out : Type) where
  hash : Bytes → Out
  /-- The pairs are inserted into an empty trie: the root, and what is written. -/
  insertAll : List (StorageKey × StorageValue) → Out × List (MemoryDb.Write Out)
  /-- The changes of the children and of the main trie: the root, and what is written
  to the transaction of each of them. -/
  fullStorageRoot : (Out → Option Bytes) → Out → StorageCollection → ChildStorageCollection →
    Out × List (List (MemoryDb.Write Out))
  storage : (Out → Option Bytes) → Out → StorageKey → Option StorageValue
  keys : (Out → Option Bytes) → Out → Bytes → List StorageKey

structure TrieStorage (Out : Type) where
  root : Out
  db : MemoryDb Out

variable {Out : Type} [DecidableEq Out] (code : TrieCode Out)

namespace TrieStorage

/-! ## Operations -/

def load (pairs : List (StorageKey × StorageValue)) : TrieStorage Out :=
  let trie := code.insertAll pairs
  ⟨trie.1, trie.2.foldl (MemoryDb.write code.hash) .empty⟩

def calcRootIfChanges (s : TrieStorage Out) (delta : StorageCollection) (childDeltas : ChildStorageCollection) :
    Out × MemoryDb Out :=
  let full := code.fullStorageRoot (s.db.get code.hash) s.root delta childDeltas
  (full.1,
    full.2.foldl (fun txs writes => txs.consolidate (writes.foldl (MemoryDb.write code.hash) .empty)) .empty)

def applyChanges (s : TrieStorage Out) (root : Out) (transaction : MemoryDb Out) : TrieStorage Out :=
  ⟨root, (s.db.consolidate transaction).purge⟩

def get (s : TrieStorage Out) (key : StorageKey) : Option StorageValue :=
  code.storage (s.db.get code.hash) s.root key

/-- `none` where a key has no value, which panics. -/
def pairs (s : TrieStorage Out) (keyPrefix : Bytes) : Option (List (StorageKey × StorageValue)) :=
  (code.keys (s.db.get code.hash) s.root keyPrefix).mapM fun key => (s.get code key).map fun value => (key, value)

/-- The root, and the nodes in the order of the store. -/
def serialize (s : TrieStorage Out) : Out × List MemoryDb.CountedNode := (s.root, s.db.drain.map fun it => it.2)

/-- Each node is inserted as often as its count says. -/
def deserialize (hash : Bytes → Out) (data : Out × List MemoryDb.CountedNode) : TrieStorage Out :=
  ⟨data.1, data.2.foldl (fun mdb value => MemoryDb.insertTimes hash value.2.toNat mdb value.1) .empty⟩

/-- `calc_root_if_changes`, and `apply_changes` of what it returns. -/
def change (s : TrieStorage Out) (deltas : StorageCollection × ChildStorageCollection) : TrieStorage Out :=
  let calculated := s.calcRootIfChanges code deltas.1 deltas.2
  s.applyChanges calculated.1 calculated.2

/-- Loaded, and changed any number of times. -/
def Reached (s : TrieStorage Out) : Prop :=
  ReachWhere (fun s => ∃ pairs, s = load code pairs)
    (fun s deltas s' => s' = s.change code deltas) (fun _ _ => True) s

/-- All nodes have references. -/
def Positive (s : TrieStorage Out) : Prop := ∀ key node, s.db.entry key = some node → 0 < node.2

theorem positive_iff_drain (s : TrieStorage Out) : s.Positive ↔ ∀ it ∈ s.db.drain, 0 < it.2.2 := by
  constructor
  · intro h it hit
    exact h it.1 it.2 (MemoryDb.mem_drain.mp hit)
  · intro h key node hentry
    exact h (key, node) (MemoryDb.mem_drain.mpr hentry)

instance (s : TrieStorage Out) : Decidable s.Positive := decidable_of_iff _ s.positive_iff_drain.symm

variable {code} {s s' : TrieStorage Out} {hash : Bytes → Out} {kvs : List MemoryDb.CountedNode} {db : MemoryDb Out}
  {node : MemoryDb.CountedNode} {key : Out}

/-! ## Nodes stay under their hashes -/

theorem transaction_sound (s : TrieStorage Out) (delta : StorageCollection)
    (childDeltas : ChildStorageCollection) :
    (s.calcRootIfChanges code delta childDeltas).2.Sound code.hash := by
  unfold calcRootIfChanges
  dsimp only
  generalize (code.fullStorageRoot (s.db.get code.hash) s.root delta childDeltas).2 = txs
  have hfold : ∀ db : MemoryDb Out, db.Sound code.hash →
      (txs.foldl (fun txs writes => txs.consolidate (writes.foldl (MemoryDb.write code.hash) .empty)) db).Sound
      code.hash := by
    induction txs with
    | nil => exact fun _ h => h
    | cons writes txs ih => exact fun db h => ih _ (h.consolidate (MemoryDb.Sound.empty.foldl_write writes))
  exact hfold _ MemoryDb.Sound.empty

theorem Reached.sound (h : s.Reached code) : s.db.Sound code.hash := by
  refine h.invariant (fun s => s.db.Sound code.hash) ?_ ?_
  · rintro _ ⟨pairs, rfl⟩
    exact MemoryDb.Sound.empty.foldl_write _
  · rintro s deltas _ hs - rfl
    exact (hs.consolidate (transaction_sound s deltas.1 deltas.2)).purge

/-! ## What a checkpoint restores -/

/-- The nodes with references have their own hashes. -/
def Apart (hash : Bytes → Out) (kvs : List MemoryDb.CountedNode) : Prop :=
  kvs.Pairwise fun a b => 0 < a.2 → 0 < b.2 → hash a.1 ≠ hash b.1

theorem entry_restore_of_ne (h : ∀ a ∈ kvs, 0 < a.2 → hash a.1 ≠ key) (db : MemoryDb Out) :
    (kvs.foldl (fun mdb value => MemoryDb.insertTimes hash value.2.toNat mdb value.1) db).entry key =
    db.entry key := by
  induction kvs generalizing db with
  | nil => rfl
  | cons a kvs ih =>
    rw [List.foldl_cons, ih fun b hb => h b (List.mem_cons_of_mem _ hb)]
    by_cases hpos : 0 < a.2
    · exact MemoryDb.entry_insertTimes_of_ne db (h a List.mem_cons_self hpos).symm _
    · rw [Int.toNat_of_nonpos (by omega)]
      rfl

theorem entry_restore_of_mem (hapart : Apart hash kvs) (hnode : node ∈ kvs) (hpos : 0 < node.2)
    (hnull : node.1 ≠ MemoryDb.nullNodeData) (hnone : db.entry (hash node.1) = none) :
    (kvs.foldl (fun mdb value => MemoryDb.insertTimes hash value.2.toNat mdb value.1) db).entry (hash node.1) =
      some node := by
  induction kvs generalizing db with
  | nil => cases hnode
  | cons a kvs ih =>
    obtain ⟨hfirst, hrest⟩ := List.pairwise_cons.mp hapart
    rw [List.foldl_cons]
    rcases List.mem_cons.mp hnode with rfl | hmem
    · rw [entry_restore_of_ne fun b hb hb' => (hfirst b hb hpos hb').symm]
      obtain ⟨n, hn⟩ : ∃ n : ℕ, node.2.toNat = n + 1 := ⟨node.2.toNat - 1, by omega⟩
      rw [hn, MemoryDb.entry_insertTimes_of_none hnull hnone]
      exact congrArg some (Prod.ext rfl (by dsimp only; omega))
    · refine ih hrest hmem ?_
      by_cases ha : 0 < a.2
      · rw [MemoryDb.entry_insertTimes_of_ne db (hfirst node hmem ha hpos).symm, hnone]
      · rw [Int.toNat_of_nonpos (by omega)]
        exact hnone

/-- What is restored is what has references. -/
theorem entry_deserialize (hs : s.db.Sound hash) (hkvs : kvs.Perm s.serialize.2) (root : Out) (key : Out) :
    (deserialize hash (root, kvs)).db.entry key = (s.db.entry key).filter fun node => 0 < node.2 := by
  have hgood : ∀ {node : MemoryDb.CountedNode}, 0 < node.2 → ∀ {key}, s.db.entry key = some node →
      hash node.1 = key ∧ node.1 ≠ MemoryDb.nullNodeData :=
    fun hpos key hentry => (hs key _ hentry).resolve_left (by omega)
  have hmem : ∀ {node}, node ∈ kvs ↔ ∃ key, s.db.entry key = some node := by
    intro node
    rw [hkvs.mem_iff]
    unfold serialize
    rw [List.mem_map]
    constructor
    · rintro ⟨⟨key, _⟩, hdrain, rfl⟩
      exact ⟨key, MemoryDb.mem_drain.mp hdrain⟩
    · rintro ⟨key, hentry⟩
      exact ⟨(key, node), MemoryDb.mem_drain.mpr hentry, rfl⟩
  have hapart : Apart hash kvs := by
    refine (List.Perm.pairwise_iff (fun h ha hb => (h hb ha).symm) hkvs).mpr ?_
    unfold serialize
    rw [List.pairwise_map]
    refine (MemoryDb.drain_pairwise s.db).imp_of_mem ?_
    intro a b ha hb hne hpos hpos' heq
    have hkey := (hgood hpos (MemoryDb.mem_drain.mp ha)).1
    have hkey' := (hgood hpos' (MemoryDb.mem_drain.mp hb)).1
    exact hne (hkey.symm.trans (heq.trans hkey'))
  have hnot : (∀ node, s.db.entry key = some node → ¬0 < node.2) →
      (deserialize hash (root, kvs)).db.entry key = none := by
    intro hno
    refine entry_restore_of_ne (fun a ha hpos heq => ?_) .empty
    obtain ⟨key', hentry⟩ := hmem.mp ha
    rw [(hgood hpos hentry).1] at heq
    exact hno a (heq ▸ hentry) hpos
  cases hentry : s.db.entry key with
  | none => exact hnot fun node h => absurd (hentry.symm.trans h) (by simp)
  | some node =>
    by_cases hpos : 0 < node.2
    · obtain ⟨hkey, hnull⟩ := hgood hpos hentry
      have hnone : MemoryDb.empty.entry (hash node.1) = none := rfl
      have hrestored := entry_restore_of_mem hapart (hmem.mpr ⟨key, hentry⟩) hpos hnull hnone
      rw [hkey] at hrestored
      exact hrestored.trans (by simp [Option.filter, hpos])
    · rw [hnot fun node' h => Option.some.inj (hentry.symm.trans h) ▸ hpos]
      simp [Option.filter, hpos]

/-- Nodes are read if they have references. -/
theorem get_deserialize (hs : s.db.Sound hash) (hkvs : kvs.Perm s.serialize.2) (root : Out) :
    (deserialize hash (root, kvs)).db.get hash = s.db.get hash := by
  funext key
  unfold MemoryDb.get
  rw [entry_deserialize hs hkvs]
  split
  · rfl
  · cases s.db.entry key with
    | none => rfl
    | some node =>
      by_cases hpos : 0 < node.2
      · simp [Option.filter, hpos]
      · simp [Option.filter, hpos]

theorem entry_deserialize_iff (hs : s.db.Sound hash) (hkvs : kvs.Perm s.serialize.2) (root : Out) :
    (∀ key, (deserialize hash (root, kvs)).db.entry key = s.db.entry key) ↔ s.Positive := by
  constructor
  · intro hsame key node hentry
    have hfilter := hsame key
    rw [entry_deserialize hs hkvs, hentry, Option.filter_eq_some_iff] at hfilter
    exact of_decide_eq_true hfilter.2
  · intro hpos key
    rw [entry_deserialize hs hkvs]
    cases hentry : s.db.entry key with
    | none => rfl
    | some node => simp [Option.filter, hpos key node hentry]

/-! ## Further changes -/

/-- The same root and the same nodes, with their counts. -/
structure Alike (s s' : TrieStorage Out) : Prop where
  root : s'.root = s.root
  entry : ∀ key, s'.db.entry key = s.db.entry key

namespace Alike

theorem db_get (h : s.Alike s') (hash : Bytes → Out) : s'.db.get hash = s.db.get hash := by
  funext key
  unfold MemoryDb.get
  rw [h.entry]

theorem calcRootIfChanges (h : s.Alike s') (delta : StorageCollection) (childDeltas : ChildStorageCollection) :
    s'.calcRootIfChanges code delta childDeltas = s.calcRootIfChanges code delta childDeltas := by
  unfold TrieStorage.calcRootIfChanges
  rw [h.db_get, h.root]

theorem get (h : s.Alike s') (key : StorageKey) : s'.get code key = s.get code key := by
  unfold TrieStorage.get
  rw [h.db_get, h.root]

theorem pairs (h : s.Alike s') (keyPrefix : Bytes) : s'.pairs code keyPrefix = s.pairs code keyPrefix := by
  unfold TrieStorage.pairs
  simp only [h.db_get, h.root, h.get]

theorem applyChanges (h : s.Alike s') (root : Out) (transaction : MemoryDb Out) :
    (s.applyChanges root transaction).Alike (s'.applyChanges root transaction) where
  root := rfl
  entry key := by
    unfold TrieStorage.applyChanges
    dsimp only
    rw [MemoryDb.entry_purge, MemoryDb.entry_purge, MemoryDb.entry_consolidate,
      MemoryDb.entry_consolidate, h.entry]

theorem change (h : s.Alike s') (deltas : StorageCollection × ChildStorageCollection) :
    (s.change code deltas).Alike (s'.change code deltas) := by
  unfold TrieStorage.change
  rw [h.calcRootIfChanges]
  exact h.applyChanges _ _

theorem foldl_change (h : s.Alike s') (changes : List (StorageCollection × ChildStorageCollection)) :
    (changes.foldl (TrieStorage.change code) s).Alike (changes.foldl (TrieStorage.change code) s') := by
  induction changes generalizing s s' with
  | nil => exact h
  | cons deltas changes ih => exact ih (h.change deltas)

end Alike

/-- A change leaves all counts positive exactly if it owes no references. -/
theorem change_positive_iff (s : TrieStorage Out) (deltas : StorageCollection × ChildStorageCollection) :
    (s.change code deltas).Positive ↔
      ∀ key, 0 ≤ s.db.count key + (s.calcRootIfChanges code deltas.1 deltas.2).2.count key := by
  unfold change applyChanges Positive
  dsimp only
  generalize (s.calcRootIfChanges code deltas.1 deltas.2).2 = transaction
  have hentry : ∀ {key node}, (s.db.consolidate transaction).purge.entry key = some node ↔
      (s.db.consolidate transaction).entry key = some node ∧ node.2 ≠ 0 := by
    intro key node
    rw [MemoryDb.entry_purge, Option.filter_eq_some_iff, decide_eq_true_iff]
  have hcount : ∀ key, s.db.count key + transaction.count key = (s.db.consolidate transaction).count key :=
    fun key => (MemoryDb.count_consolidate _ _ key).symm
  constructor
  · intro hpos key
    rw [hcount, MemoryDb.count]
    cases hnode : (s.db.consolidate transaction).entry key with
    | none => exact le_rfl
    | some node =>
      change 0 ≤ node.2
      by_cases hzero : node.2 = 0
      · omega
      · exact (hpos key node (hentry.mpr ⟨hnode, hzero⟩)).le
  · intro hle key node hnode
    obtain ⟨hnode, hzero⟩ := hentry.mp hnode
    have hnonneg := hle key
    rw [hcount, MemoryDb.count, hnode] at hnonneg
    change 0 ≤ node.2 at hnonneg
    omega

/-- A node that is counted below zero is told apart by the next transaction with it. -/
theorem get_applyChanges_of_neg (hs : s.db.Sound hash) (hkvs : kvs.Perm s.serialize.2) {value : Bytes}
    (hneg : s.db.count (hash value) < 0) (hvalue : value ≠ MemoryDb.nullNodeData)
    (hkey : hash value ≠ hash MemoryDb.nullNodeData) (root : Out) :
    let transaction := MemoryDb.empty.insert hash value
    (s.applyChanges root transaction).db.get hash (hash value) = none ∧
      ((deserialize hash (s.root, kvs)).applyChanges root transaction).db.get hash (hash value) = some value := by
  have hinsert : (MemoryDb.empty.insert hash value).entry (hash value) = some (value, 1) :=
    MemoryDb.entry_insert_of_none hvalue rfl
  have hrestored := entry_deserialize hs hkvs s.root (hash value)
  cases hentry : s.db.entry (hash value) with
  | none =>
    rw [MemoryDb.count, hentry] at hneg
    exact absurd hneg (by decide)
  | some node =>
    rw [MemoryDb.count, hentry] at hneg
    change node.2 < 0 at hneg
    have hnone : (deserialize hash (s.root, kvs)).db.entry (hash value) = none := by
      rw [hrestored, hentry]
      simp [Option.filter, hneg.le]
    unfold applyChanges MemoryDb.get
    dsimp only
    rw [if_neg hkey, if_neg hkey, MemoryDb.entry_purge, MemoryDb.entry_purge, MemoryDb.entry_consolidate,
      MemoryDb.entry_consolidate, hinsert, hentry, hnone]
    constructor
    · simp only [MemoryDb.merge, Option.elim_some, Option.filter, Option.bind_eq_none_iff,
        ite_eq_right_iff, reduceCtorEq]
      simp
      omega
    · simp [MemoryDb.merge, Option.filter]

/-- **A checkpoint restores the root and the values**, and the counts exactly if all are
positive. Then whatever changes follow, the restored storage has the roots and the values
of the one that was saved. A node that is counted below zero is told apart once it comes
back, and changes that owe no references lead to no such node. -/
theorem checkpoint_transparent (code : TrieCode Out) (s : TrieStorage Out) (h : s.Reached code)
    (kvs : List MemoryDb.CountedNode) (hkvs : kvs.Perm s.serialize.2) :
    let restored := deserialize code.hash (s.root, kvs)
    restored.root = s.root ∧ (∀ key, restored.get code key = s.get code key) ∧
      ((∀ key, restored.db.entry key = s.db.entry key) ↔ s.Positive) ∧
      (s.Positive → ∀ changes : List (StorageCollection × ChildStorageCollection),
        let t := changes.foldl (change code) s
        let t' := changes.foldl (change code) restored
        t'.root = t.root ∧ (∀ key, t'.get code key = t.get code key) ∧
          (∀ keyPrefix, t'.pairs code keyPrefix = t.pairs code keyPrefix) ∧
          (∀ delta childDeltas, t'.calcRootIfChanges code delta childDeltas =
            t.calcRootIfChanges code delta childDeltas) ∧
          ∀ key, t'.db.entry key = t.db.entry key) ∧
      (∀ value root, s.db.count (code.hash value) < 0 → value ≠ MemoryDb.nullNodeData →
        code.hash value ≠ code.hash MemoryDb.nullNodeData →
        let transaction := MemoryDb.empty.insert code.hash value
        (s.applyChanges root transaction).db.get code.hash (code.hash value) = none ∧
          (restored.applyChanges root transaction).db.get code.hash (code.hash value) = some value) ∧
      ∀ deltas, (s.change code deltas).Positive ↔
        ∀ key, 0 ≤ s.db.count key + (s.calcRootIfChanges code deltas.1 deltas.2).2.count key := by
  have hiff := entry_deserialize_iff h.sound hkvs s.root
  refine ⟨rfl, ?_, hiff, ?_, ?_, fun deltas => change_positive_iff s deltas⟩
  · intro key
    unfold get
    rw [get_deserialize h.sound hkvs]
    rfl
  · intro hpos changes
    have halike : s.Alike (deserialize code.hash (s.root, kvs)) := ⟨rfl, hiff.mpr hpos⟩
    have hafter : (changes.foldl (change code) s).Alike
        (changes.foldl (change code) (deserialize code.hash (s.root, kvs))) :=
      halike.foldl_change changes
    exact ⟨hafter.root, hafter.get, hafter.pairs, hafter.calcRootIfChanges, hafter.entry⟩
  · intro value root hneg hvalue hkey
    exact get_applyChanges_of_neg h.sound hkvs hneg hvalue hkey root

/-! ## A child that changes name twice -/

namespace Demo

/-- The pairs one after the other, behind their lengths. -/
def encodeNode (pairs : List (StorageKey × StorageValue)) : Bytes :=
  1 :: pairs.flatMap fun p => UInt8.ofNat p.1.length :: p.1 ++ UInt8.ofNat p.2.length :: p.2

def decodePairs : ℕ → Bytes → List (StorageKey × StorageValue)
  | 0, _ => []
  | _ + 1, [] => []
  | fuel + 1, keyLen :: rest =>
    match rest.drop keyLen.toNat with
    | [] => []
    | valueLen :: rest' =>
      (rest.take keyLen.toNat, rest'.take valueLen.toNat) :: decodePairs fuel (rest'.drop valueLen.toNat)

/-- The pairs below a root, or `none` where its node is missing. -/
def pairsBelow (get : Bytes → Option Bytes) (root : Bytes) : Option (List (StorageKey × StorageValue)) :=
  (get root).map fun node => if node = MemoryDb.nullNodeData then [] else decodePairs node.length node.tail

def setPair (pairs : List (StorageKey × StorageValue)) (delta : StorageKey × Option StorageValue) :
    List (StorageKey × StorageValue) :=
  pairs.filter (fun p => p.1 ≠ delta.1) ++ delta.2.toList.map fun value => (delta.1, value)

/-- The old node is removed and the new one inserted. Without the old node nothing changes. -/
def deltaTrieRoot (get : Bytes → Option Bytes) (root : Bytes) (delta : StorageCollection) :
    Bytes × List (MemoryDb.Write Bytes) :=
  match pairsBelow get root with
  | none => (root, [])
  | some pairs =>
    let pairs' := delta.foldl setPair pairs
    if pairs' = pairs then (root, [])
    else if pairs' = [] then (MemoryDb.nullNodeData, [.remove root])
    else (encodeNode pairs', [.remove root, .insert (encodeNode pairs')])

def storage (get : Bytes → Option Bytes) (root : Bytes) (key : StorageKey) : Option StorageValue :=
  (pairsBelow get root).bind fun pairs => pairs.lookup key

/-- Each child starts from the storage as it is, and its root is a value of the main trie. -/
def fullStorageRoot (get : Bytes → Option Bytes) (root : Bytes) (delta : StorageCollection)
    (childDeltas : ChildStorageCollection) : Bytes × List (List (MemoryDb.Write Bytes)) :=
  let children := childDeltas.map fun child =>
    (child.1, deltaTrieRoot get ((storage get root child.1).getD MemoryDb.nullNodeData) child.2)
  let childRoots := children.map fun child =>
    (child.1, if child.2.1 = MemoryDb.nullNodeData then none else some child.2.1)
  let main := deltaTrieRoot get root (delta ++ childRoots)
  (main.1, children.map (fun child => child.2.2) ++ [main.2])

/-- Tries of one node, which is its own hash. -/
def tries : TrieCode Bytes where
  hash := id
  insertAll pairs := deltaTrieRoot (fun _ => some MemoryDb.nullNodeData) MemoryDb.nullNodeData
    (pairs.map fun p => (p.1, some p.2))
  fullStorageRoot := fullStorageRoot
  storage := storage
  keys get root keyPrefix := (((pairsBelow get root).getD []).map fun p => p.1).filter keyPrefix.isPrefixOf

/-- The child `a` has the value 1 at `k`. -/
def made : TrieStorage Bytes := (load tries []).change tries ([], [([97], [([107], some [1])])])

/-- The child is named twice, with the values 2 and 3. -/
def twice : TrieStorage Bytes := made.change tries ([], [([97], [([107], some [2])]), ([97], [([107], some [3])])])

def restored : TrieStorage Bytes := deserialize tries.hash twice.serialize

/-- The value 1 again, then the value 2. -/
def next : List (StorageCollection × ChildStorageCollection) :=
  [([], [([97], [([107], some [1])])]), ([], [([97], [([107], some [2])])])]

theorem made_reached : made.Reached tries := .step (.init ⟨[], rfl⟩) trivial rfl

theorem twice_reached : twice.Reached tries := .step made_reached trivial rfl

end Demo

/-- The count is restored, and the changes of the child are followed. -/
theorem checkpoint_transparent_demo :
    (deserialize Demo.tries.hash Demo.made.serialize).db.count (Demo.encodeNode [([107], [1])]) = 1 ∧
      (Demo.next.foldl (change Demo.tries) (deserialize Demo.tries.hash Demo.made.serialize)).root =
        (Demo.next.foldl (change Demo.tries) Demo.made).root := by
  have hpos : Demo.made.Positive := by decide +kernel
  obtain ⟨-, -, hcounts, hlater, -⟩ :=
    checkpoint_transparent Demo.tries Demo.made Demo.made_reached Demo.made.serialize.2 (List.Perm.refl _)
  refine ⟨?_, (hlater hpos Demo.next).1⟩
  have hcount : (deserialize Demo.tries.hash Demo.made.serialize).db.count (Demo.encodeNode [([107], [1])]) =
      Demo.made.db.count (Demo.encodeNode [([107], [1])]) := by
    unfold MemoryDb.count
    exact congrArg (fun entry : Option MemoryDb.CountedNode => entry.elim 0 fun node => node.2)
      (hcounts.mpr hpos _)
  rw [hcount]
  decide +kernel

/-- The old node of the child is counted once below zero, and the checkpoint leaves it out:
when the value comes back, the node is there in the restored storage only, and the roots differ. -/
theorem checkpoint_loses_debt : Demo.twice.Reached Demo.tries ∧
    Demo.twice.db.count (Demo.encodeNode [([107], [1])]) = -1 ∧
    Demo.restored.db.count (Demo.encodeNode [([107], [1])]) = 0 ∧
    (Demo.next.foldl (change Demo.tries) Demo.restored).root ≠
    (Demo.next.foldl (change Demo.tries) Demo.twice).root :=
  ⟨Demo.twice_reached, by decide +kernel, by decide +kernel, by decide +kernel⟩

end TrieStorage
end Khala.Trie
