/-
A store of nodes by their hashes, with signed reference counts (`MemoryDB` of
the crate `memory-db`, keyed by the hash alone).

Inserting a node adds a reference, and removing takes one, also of a node that
is not there: its entry then has a negative count, and no bytes until somebody
inserts them. Entries of two stores are added up. The empty node is not stored.
-/
import Khala.StorageMap

namespace Khala

/-- The bytes of a node, and the references to it. -/
abbrev MemoryDb.CountedNode : Type := List UInt8 × ℤ

structure MemoryDb (Out : Type) where
  data : StorageMap Out MemoryDb.CountedNode

namespace MemoryDb

variable {Out : Type} [DecidableEq Out] (hash : List UInt8 → Out)

/-! ## Operations -/

def empty : MemoryDb Out := ⟨∅⟩

def nullNodeData : List UInt8 := [0]

def entry (db : MemoryDb Out) (key : Out) : Option CountedNode := db.data.lookup key

def setEntry (db : MemoryDb Out) (key : Out) (node : CountedNode) : MemoryDb Out := ⟨db.data.insert key node⟩

/-- A node with references, or the empty node. -/
def get (db : MemoryDb Out) (key : Out) : Option (List UInt8) :=
  if key = hash nullNodeData then some nullNodeData
  else (db.entry key).bind fun node => if 0 < node.2 then some node.1 else none

/-- A reference more. Bytes without references are replaced. -/
def emplace (db : MemoryDb Out) (key : Out) (value : List UInt8) : MemoryDb Out :=
  if value = nullNodeData then db
  else match db.entry key with
    | some node => db.setEntry key (if node.2 ≤ 0 then value else node.1, node.2 + 1)
    | none => db.setEntry key (value, 1)

def insert (db : MemoryDb Out) (value : List UInt8) : MemoryDb Out := db.emplace (hash value) value

/-- A reference less. -/
def remove (db : MemoryDb Out) (key : Out) : MemoryDb Out :=
  if key = hash nullNodeData then db
  else match db.entry key with
    | some node => db.setEntry key (node.1, node.2 - 1)
    | none => db.setEntry key ([], -1)

/-- The entry that comes from an entry and that of another store. -/
def merge : Option CountedNode → CountedNode → CountedNode
  | some node, other => (if node.2 < 0 then other.1 else node.1, node.2 + other.2)
  | none, other => other

/-- All entries of the other store are added. -/
def consolidate (db other : MemoryDb Out) : MemoryDb Out :=
  other.data.entries.foldl (fun db e => db.setEntry e.1 (merge (db.entry e.1) e.2)) db

/-- Entries without references are dropped. -/
def purge (db : MemoryDb Out) : MemoryDb Out :=
  ⟨⟨db.data.entries.filter fun e => e.2.2 ≠ 0, db.data.nodupKeys.sublist List.filter_sublist⟩⟩

def drain (db : MemoryDb Out) : List (Out × CountedNode) := db.data.entries.map fun e => (e.1, e.2)

/-- What a trie does to its store. -/
inductive Write (Out : Type)
  | insert (value : List UInt8)
  | remove (key : Out)
deriving Repr

def write (db : MemoryDb Out) : Write Out → MemoryDb Out
  | .insert value => db.insert hash value
  | .remove key => db.remove hash key

/-! ## Entries -/

variable {db other : MemoryDb Out} {key key' : Out} {node : CountedNode} {value : List UInt8}

theorem entry_setEntry (db : MemoryDb Out) (key key' : Out) (node : CountedNode) :
    (db.setEntry key node).entry key' = if key' = key then some node else db.entry key' :=
  StorageMap.lookup_insert_ite db.data key key' node

theorem mem_drain : (key, node) ∈ db.drain ↔ db.entry key = some node := by
  unfold drain entry
  rw [List.mem_map, ← Option.mem_def, AList.mem_lookup_iff]
  constructor
  · rintro ⟨e, he, heq⟩
    cases heq
    exact he
  · intro h
    exact ⟨_, h, rfl⟩

omit [DecidableEq Out] in
/-- Keys are drained once. -/
theorem drain_pairwise (db : MemoryDb Out) : db.drain.Pairwise fun a b => a.1 ≠ b.1 := by
  unfold drain
  rw [List.pairwise_map]
  exact List.pairwise_map.mp (List.nodup_iff_pairwise_ne.mp db.data.nodupKeys)

theorem entry_purge (db : MemoryDb Out) (key : Out) :
    db.purge.entry key = (db.entry key).filter fun node => node.2 ≠ 0 := by
  refine Option.ext fun node => ?_
  rw [Option.filter_eq_some_iff]
  unfold entry purge
  rw [← Option.mem_def, ← Option.mem_def, AList.mem_lookup_iff, AList.mem_lookup_iff, List.mem_filter]

theorem entry_foldl_merge {l : List (Sigma fun _ : Out => CountedNode)} (hl : l.NodupKeys)
    (db : MemoryDb Out) (key : Out) :
    (l.foldl (fun db e => db.setEntry e.1 (merge (db.entry e.1) e.2)) db).entry key =
      (l.dlookup key).elim (db.entry key) fun node => some (merge (db.entry key) node) := by
  induction l generalizing db with
  | nil => rfl
  | cons e l ih =>
    obtain ⟨key', node⟩ := e
    obtain ⟨hnotin, hl⟩ := List.nodupKeys_cons.mp hl
    rw [List.foldl_cons, ih hl, entry_setEntry]
    by_cases h : key = key'
    · subst h
      rw [List.dlookup_cons_eq, List.dlookup_eq_none.mpr hnotin, if_pos rfl]
      rfl
    · rw [List.dlookup_cons_ne _ _ h, if_neg h]

theorem entry_consolidate (db other : MemoryDb Out) (key : Out) : (db.consolidate other).entry key =
    (other.entry key).elim (db.entry key) fun node => some (merge (db.entry key) node) :=
  entry_foldl_merge other.data.nodupKeys db key

/-! ## Nodes are under their hashes -/

/-- The bytes belong to the key, unless references are owed. -/
def Good (key : Out) (node : CountedNode) : Prop := node.2 < 0 ∨ hash node.1 = key ∧ node.1 ≠ nullNodeData

def Sound (db : MemoryDb Out) : Prop := ∀ key node, db.entry key = some node → Good hash key node

variable {hash}

omit [DecidableEq Out] in
theorem Good.merge {old : Option CountedNode} (hold : ∀ node, old = some node → Good hash key node)
    (h : Good hash key node) :
    Good hash key (merge old node) := by
  cases old with
  | none => exact h
  | some node' =>
    have hgood := hold node' rfl
    unfold Good MemoryDb.merge at *
    dsimp only
    split
    · next hneg =>
      rcases h with hnode | hnode
      · exact .inl (by omega)
      · exact .inr hnode
    · next hnonneg => exact .inr (hgood.resolve_left hnonneg)

namespace Sound

theorem empty : (empty : MemoryDb Out).Sound hash := by
  intro key node h
  cases h

theorem setEntry (h : db.Sound hash) (hnode : Good hash key node) : (db.setEntry key node).Sound hash := by
  intro key' node' hentry
  rw [entry_setEntry] at hentry
  split at hentry
  · next heq =>
    cases hentry
    exact heq ▸ hnode
  · exact h key' node' hentry

theorem insert (h : db.Sound hash) (value : List UInt8) : (db.insert hash value).Sound hash := by
  unfold MemoryDb.insert emplace
  split
  · exact h
  · next hne =>
    split
    · next node hentry =>
      refine h.setEntry (.inr ?_)
      dsimp only
      split
      · exact ⟨rfl, hne⟩
      · next hpos => exact (h _ _ hentry).resolve_left (by omega)
    · exact h.setEntry (.inr ⟨rfl, hne⟩)

theorem remove (h : db.Sound hash) (key : Out) : (db.remove hash key).Sound hash := by
  unfold MemoryDb.remove
  split
  · exact h
  · split
    · next node hentry =>
      refine h.setEntry ?_
      rcases h _ _ hentry with hneg | hgood
      · refine .inl ?_
        dsimp only
        omega
      · exact .inr hgood
    · exact h.setEntry (.inl (by norm_num))

theorem write (h : db.Sound hash) (w : Write Out) : (db.write hash w).Sound hash := by
  cases w with
  | insert value => exact h.insert value
  | remove key => exact h.remove key

theorem consolidate (h : db.Sound hash) (hother : other.Sound hash) : (db.consolidate other).Sound hash := by
  intro key node hentry
  rw [entry_consolidate] at hentry
  cases hnode : other.entry key with
  | none =>
    rw [hnode] at hentry
    exact h key node hentry
  | some node' =>
    rw [hnode] at hentry
    cases hentry
    exact Good.merge (h key) (hother key node' hnode)

theorem purge (h : db.Sound hash) : db.purge.Sound hash := by
  intro key node hentry
  rw [entry_purge] at hentry
  exact h key node (Option.eq_some_of_filter_eq_some hentry)

theorem foldl_write (h : db.Sound hash) (writes : List (Write Out)) :
    (writes.foldl (MemoryDb.write hash) db).Sound hash := by
  induction writes generalizing db with
  | nil => exact h
  | cons w writes ih => exact ih (h.write w)

end Sound

/-! ## Counts -/

/-- The references to a node. -/
def count (db : MemoryDb Out) (key : Out) : ℤ := (db.entry key).elim 0 fun node => node.2

theorem count_consolidate (db other : MemoryDb Out) (key : Out) :
    (db.consolidate other).count key = db.count key + other.count key := by
  unfold count
  rw [entry_consolidate]
  cases other.entry key with
  | none => simp
  | some node =>
    cases db.entry key with
    | none => simp [merge]
    | some node' => simp [merge]

/-! ## A node inserted a number of times -/

theorem entry_insert_of_ne (db : MemoryDb Out) (hkey : key ≠ hash value) :
    (db.insert hash value).entry key = db.entry key := by
  unfold MemoryDb.insert emplace
  split
  · rfl
  · split
    · rw [entry_setEntry, if_neg hkey]
    · rw [entry_setEntry, if_neg hkey]

theorem entry_insert_of_none (hvalue : value ≠ nullNodeData) (h : db.entry (hash value) = none) :
    (db.insert hash value).entry (hash value) = some (value, 1) := by
  unfold MemoryDb.insert emplace
  rw [if_neg hvalue, h, entry_setEntry, if_pos rfl]

theorem entry_insert_of_pos (hvalue : value ≠ nullNodeData)
    (h : db.entry (hash value) = some node) (hpos : 0 < node.2) :
    (db.insert hash value).entry (hash value) = some (node.1, node.2 + 1) := by
  unfold MemoryDb.insert emplace
  rw [if_neg hvalue, h, entry_setEntry, if_pos rfl, if_neg (by omega)]

/-- The node is inserted `n` times. -/
def insertTimes (hash : List UInt8 → Out) (n : ℕ) (db : MemoryDb Out) (value : List UInt8) : MemoryDb Out :=
  (fun db => MemoryDb.insert hash db value)^[n] db

theorem insertTimes_succ (n : ℕ) (db : MemoryDb Out) (value : List UInt8) :
    insertTimes hash (n + 1) db value = MemoryDb.insert hash (insertTimes hash n db value) value :=
  Function.iterate_succ_apply' _ n db

theorem entry_insertTimes_of_none (hvalue : value ≠ nullNodeData) (hnone : db.entry (hash value) = none) (n : ℕ) :
    (insertTimes hash (n + 1) db value).entry (hash value) = some (value, (n : ℤ) + 1) := by
  induction n with
  | zero => exact entry_insert_of_none hvalue hnone
  | succ n ih =>
    rw [insertTimes_succ, entry_insert_of_pos hvalue ih (by dsimp only; omega)]
    push_cast
    rfl

theorem entry_insertTimes_of_ne (db : MemoryDb Out) (hkey : key ≠ hash value) (n : ℕ) :
    (insertTimes hash n db value).entry key = db.entry key := by
  induction n with
  | zero => rfl
  | succ n ih => rw [insertTimes_succ, entry_insert_of_ne _ hkey, ih]

end MemoryDb

end Khala
