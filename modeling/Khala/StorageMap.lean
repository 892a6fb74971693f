/-
Finite maps with a total: `AList` as a key-value store, and the sum of a
quantity over its entries.

A store's total depends only on what its keys look up to
(`total_eq_of_lookup`), so an update is accounted for by the entry it
replaces (`total_insert`, `total_erase`), whatever the order of the entries.
-/
import Mathlib

namespace Khala

/-- A finite map from keys to values. -/
abbrev StorageMap (K V : Type) := AList fun _ : K => V

namespace StorageMap

variable {K V M : Type}

/-- The sum of `f` over the entries. -/
def total [AddCommMonoid M] (f : K → V → M) (m : StorageMap K V) : M :=
  (m.entries.map fun e => f e.1 e.2).sum

@[simp] theorem total_empty [AddCommMonoid M] (f : K → V → M) : total f (∅ : StorageMap K V) = 0 := rfl

theorem total_add [AddCommMonoid M] (f g : K → V → M) (m : StorageMap K V) :
    total (fun k v => f k v + g k v) m = total f m + total g m := by
  simp [total, List.sum_map_add]

variable [DecidableEq K]

theorem lookup_insert_ite (m : StorageMap K V) (k k' : K) (v : V) :
    (m.insert k v).lookup k' = if k' = k then some v else m.lookup k' := by
  split
  · next h => subst h; exact AList.lookup_insert m
  · next h => exact AList.lookup_insert_ne h

theorem lookup_erase_ite (m : StorageMap K V) (k k' : K) :
    (m.erase k).lookup k' = if k' = k then none else m.lookup k' := by
  split
  · next h => subst h; exact AList.lookup_erase k' m
  · next h => exact AList.lookup_erase_ne h

section Total

variable [AddCommMonoid M]

/-- What `f` counts for a key: nothing when it is absent. -/
def count (f : K → V → M) (m : StorageMap K V) (k : K) : M := (m.lookup k).elim 0 (f k)

theorem count_of_lookup {f : K → V → M} {m : StorageMap K V} {k v} (h : m.lookup k = some v) :
    count f m k = f k v := by simp [count, h]

theorem count_of_none {f : K → V → M} {m : StorageMap K V} {k} (h : m.lookup k = none) :
    count f m k = 0 := by simp [count, h]

theorem total_erase (f : K → V → M) (m : StorageMap K V) (k : K) :
    total f (m.erase k) + count f m k = total f m := by
  obtain ⟨l, hl⟩ := m
  simp only [total, count, AList.erase, AList.lookup]
  induction l with
  | nil => simp
  | cons e l ih =>
    obtain ⟨k', v⟩ := e
    have hl' := (List.nodupKeys_cons.mp hl).2
    by_cases h : k = k'
    · subst h
      simp [List.kerase_cons_eq, add_comm]
    · rw [List.kerase_cons_ne h, List.dlookup_cons_ne _ _ h, List.map_cons, List.map_cons,
        List.sum_cons, List.sum_cons, add_assoc, ih hl']

theorem total_insert (f : K → V → M) (m : StorageMap K V) (k : K) (v : V) :
    total f (m.insert k v) + count f m k = total f m + f k v := by
  have h : total f (m.insert k v) = f k v + total f (m.erase k) := by
    simp [total, AList.entries_insert, AList.erase]
  rw [h, add_assoc, total_erase, add_comm]

/-- The total, key by key over any finite set of keys that covers the map. -/
theorem total_eq_sum (f : K → V → M) (m : StorageMap K V) {s : Finset K}
    (hs : ∀ k ∉ s, m.lookup k = none) : total f m = ∑ k ∈ s, count f m k := by
  obtain ⟨l, hl⟩ := m
  induction l generalizing s with
  | nil =>
    refine (Finset.sum_eq_zero fun k _ => ?_).symm
    rfl
  | cons e l ih =>
    obtain ⟨k, v⟩ := e
    obtain ⟨hk, hl'⟩ := List.nodupKeys_cons.mp hl
    have hmem : k ∈ s := by
      by_contra hn
      have := hs k hn
      simp [AList.lookup] at this
    have hnone : (AList.lookup k ⟨l, hl'⟩ : Option V) = none := List.dlookup_eq_none.mpr hk
    have hrest : ∀ k' ∉ s.erase k, (AList.lookup k' ⟨l, hl'⟩ : Option V) = none := by
      intro k' hk'
      by_cases h : k' = k
      · rw [h]; exact hnone
      · have := hs k' fun hm => hk' (Finset.mem_erase.mpr ⟨h, hm⟩)
        simpa only [AList.lookup, List.dlookup_cons_ne l ⟨k, v⟩ h] using this
    rw [← Finset.add_sum_erase s _ hmem]
    refine congrArg₂ (· + ·) (by simp [count, AList.lookup]) ?_
    refine (ih hl' hrest).trans (Finset.sum_congr rfl fun k' hk' => ?_)
    simp only [count, AList.lookup, List.dlookup_cons_ne l ⟨k, v⟩ (Finset.ne_of_mem_erase hk')]

/-- Two maps whose keys count the same have the same total. -/
theorem total_eq_of_count {V' : Type} {f : K → V → M} {g : K → V' → M} {m : StorageMap K V}
    {n : StorageMap K V'} (h : ∀ k, count f m k = count g n k) : total f m = total g n := by
  have hm : ∀ k ∉ m.keys.toFinset ∪ n.keys.toFinset, m.lookup k = none := fun k hk =>
    AList.lookup_eq_none.mpr fun hm => hk (by simp [← AList.mem_keys, hm])
  have hn : ∀ k ∉ m.keys.toFinset ∪ n.keys.toFinset, n.lookup k = none := fun k hk =>
    AList.lookup_eq_none.mpr fun hm => hk (by simp [← AList.mem_keys, hm])
  rw [total_eq_sum f m hm, total_eq_sum g n hn]
  exact Finset.sum_congr rfl fun k _ => h k

theorem total_congr {f g : K → V → M} {m : StorageMap K V}
    (h : ∀ k v, m.lookup k = some v → f k v = g k v) : total f m = total g m := by
  refine total_eq_of_count fun k => ?_
  cases hk : m.lookup k with
  | none => rw [count_of_none hk, count_of_none hk]
  | some v => rw [count_of_lookup hk, count_of_lookup hk, h k v hk]

theorem total_eq_zero {f : K → V → M} {m : StorageMap K V}
    (h : ∀ k v, m.lookup k = some v → f k v = 0) : total f m = 0 := by
  refine (total_eq_of_count (n := (∅ : StorageMap K V)) (g := f) fun k => ?_).trans (total_empty f)
  rw [count_of_none (m := (∅ : StorageMap K V)) (AList.lookup_empty k)]
  cases hk : m.lookup k with
  | none => exact count_of_none hk
  | some v => rw [count_of_lookup hk, h k v hk]

end Total

section Order

variable [AddCommMonoid M] [PartialOrder M] [IsOrderedAddMonoid M]

theorem total_mono {f g : K → V → M} {m : StorageMap K V}
    (h : ∀ k v, m.lookup k = some v → f k v ≤ g k v) : total f m ≤ total g m := by
  have hm : ∀ k ∉ m.keys.toFinset, m.lookup k = none := fun k hk =>
    AList.lookup_eq_none.mpr fun hm => hk (by simp [← AList.mem_keys, hm])
  rw [total_eq_sum f m hm, total_eq_sum g m hm]
  refine Finset.sum_le_sum fun k _ => ?_
  cases hk : m.lookup k with
  | none => rw [count_of_none hk, count_of_none hk]
  | some v => rw [count_of_lookup hk, count_of_lookup hk]; exact h k v hk

theorem total_nonneg {f : K → V → M} {m : StorageMap K V}
    (h : ∀ k v, m.lookup k = some v → 0 ≤ f k v) : 0 ≤ total f m := by
  have := total_mono (f := fun _ _ => (0 : M)) h
  simpa [total] using this

/-- An entry's share of a total of nonnegative terms. -/
theorem le_total {f : K → V → M} {m : StorageMap K V} (hf : ∀ k v, m.lookup k = some v → 0 ≤ f k v)
    {k : K} {v : V} (h : m.lookup k = some v) : f k v ≤ total f m := by
  rw [← total_erase f m k, count_of_lookup h]
  refine le_add_of_nonneg_left (total_nonneg fun k' v' h' => ?_)
  rw [lookup_erase_ite] at h'
  split at h'
  · cases h'
  · exact hf k' v' h'

end Order

/-- What vanishes away from some of a map's keys has finitely many terms. -/
theorem finite_support_of_lookup {ι : Type} {m : StorageMap K V} {key : ι → K} (hkey : Function.Injective key)
    {f : ι → ℕ} (h : ∀ i, m.lookup (key i) = none → f i = 0) : f.support.Finite := by
  refine (m.keys.toFinset.finite_toSet.preimage hkey.injOn).subset fun i hi => ?_
  rw [Set.mem_preimage, Finset.mem_coe, List.mem_toFinset, ← AList.mem_keys]
  by_contra hn
  exact hi (h i (AList.lookup_eq_none.mpr hn))

/-! ## Another map of the same keys -/

section MapVal

variable {V' : Type}

/-- Every value mapped. -/
def mapVal (f : V → V') (m : StorageMap K V) : StorageMap K V' :=
  ⟨m.entries.map fun e => ⟨e.1, f e.2⟩, by
    have hkeys : (m.entries.map fun e => (⟨e.1, f e.2⟩ : Sigma fun _ : K => V')).keys = m.entries.keys := by
      simp [List.keys]
    rw [List.NodupKeys, hkeys]
    exact m.nodupKeys⟩

theorem lookup_mapVal (f : V → V') (m : StorageMap K V) (k : K) : (mapVal f m).lookup k = (m.lookup k).map f := by
  obtain ⟨l, hl⟩ := m
  change (l.map fun e => (⟨e.1, f e.2⟩ : Sigma fun _ : K => V')).dlookup k = (l.dlookup k).map f
  clear hl
  induction l with
  | nil => rfl
  | cons e l ih =>
    obtain ⟨k', v⟩ := e
    rw [List.map_cons]
    by_cases h : k = k'
    · subst h
      simp
    · rw [List.dlookup_cons_ne _ _ h, List.dlookup_cons_ne _ _ h, ih]

theorem mapVal_insert (f : V → V') (m : StorageMap K V) (k : K) (v : V) :
    mapVal f (m.insert k v) = (mapVal f m).insert k (f v) := by
  obtain ⟨l, hl⟩ := m
  have hkerase : (l.kerase k).map (fun e => (⟨e.1, f e.2⟩ : Sigma fun _ : K => V')) =
      (l.map fun e => (⟨e.1, f e.2⟩ : Sigma fun _ : K => V')).kerase k := by
    clear hl
    induction l with
    | nil => rfl
    | cons e l ih =>
      obtain ⟨k', v'⟩ := e
      by_cases h : k = k'
      · subst h
        simp [List.kerase_cons_eq]
      · rw [List.kerase_cons_ne h, List.map_cons, List.map_cons, List.kerase_cons_ne h, ih]
  refine AList.ext ?_
  simp only [mapVal, AList.entries_insert, List.map_cons, hkerase]

end MapVal

/-! ## Rewriting every entry -/

/-- `m'` is `m` with the entries rewritten by `f`, but for those of `rest`, the end of the entries of `m`. -/
structure Translated (f : K → V → V) (m : StorageMap K V) (rest : List (Sigma fun _ : K => V))
    (m' : StorageMap K V) : Prop where
  suffix : rest <:+ m.entries
  lookup : ∀ k, m'.lookup k = if k ∈ rest.keys then m.lookup k else (m.lookup k).map (f k)

namespace Translated

variable {f : K → V → V} {m m' : StorageMap K V} {rest : List (Sigma fun _ : K => V)} {k : K} {v : V}

theorem start (f : K → V → V) (m : StorageMap K V) : Translated f m m.entries m where
  suffix := List.suffix_refl _
  lookup k := by
    split
    · rfl
    · next h =>
      have hn : m.lookup k = none := AList.lookup_eq_none.mpr h
      rw [hn]
      rfl

/-- The next entry, as it was. -/
theorem head (h : Translated f m (⟨k, v⟩ :: rest) m') : m.lookup k = some v ∧ m'.lookup k = some v := by
  have hmem : (⟨k, v⟩ : Sigma fun _ : K => V) ∈ m.entries := h.suffix.subset List.mem_cons_self
  have hv : m.lookup k = some v := AList.mem_lookup_iff.mpr hmem
  refine ⟨hv, ?_⟩
  rw [h.lookup, if_pos (by simp [List.keys]), hv]

theorem insert (h : Translated f m (⟨k, v⟩ :: rest) m') : Translated f m rest (m'.insert k (f k v)) where
  suffix := (List.suffix_cons _ _).trans h.suffix
  lookup k' := by
    have hnodup : (⟨k, v⟩ :: rest : List (Sigma fun _ : K => V)).NodupKeys := m.nodupKeys.sublist h.suffix.sublist
    have hk : k ∉ rest.keys := (List.nodupKeys_cons.mp hnodup).1
    rw [lookup_insert_ite, h.lookup]
    by_cases he : k' = k
    · subst he
      rw [if_pos rfl, if_neg hk, h.head.1]
      rfl
    · have hkeys : k' ∈ List.keys (⟨k, v⟩ :: rest) ↔ k' ∈ rest.keys := by simp [List.keys_cons, he]
      rw [if_neg he]
      by_cases hr : k' ∈ rest.keys
      · rw [if_pos (hkeys.mpr hr), if_pos hr]
      · rw [if_neg (mt hkeys.mp hr), if_neg hr]

theorem done (h : Translated f m [] m') (k : K) : m'.lookup k = (m.lookup k).map (f k) := by
  rw [h.lookup, if_neg (by simp [List.keys])]

/-- A total after every entry was rewritten. -/
theorem total [AddCommMonoid M] (h : Translated f m [] m') (g : K → V → M) :
    total g m' = StorageMap.total (fun k v => g k (f k v)) m := by
  refine total_eq_of_count fun k => ?_
  unfold count
  rw [h.done]
  cases m.lookup k <;> rfl

end Translated

end StorageMap

/-- Two sums that differ in one term. -/
theorem finsum_add_of_eq {ι : Type} {f g : ι → ℕ} (hf : f.support.Finite) (i : ι) (h : ∀ j ≠ i, g j = f j) :
    ∑ᶠ j, g j + f i = ∑ᶠ j, f j + g i := by
  classical
  let t : Finset ι := insert i hf.toFinset
  have hft : f.support ⊆ t := fun j hj => by simp [t, Function.mem_support.mp hj]
  have hgt : g.support ⊆ t := fun j hj => by
    by_cases hji : j = i
    · simp [t, hji]
    · exact hft (by rwa [Function.mem_support, ← h j hji])
  rw [finsum_eq_sum_of_support_subset f hft, finsum_eq_sum_of_support_subset g hgt,
    ← Finset.add_sum_erase t f (Finset.mem_insert_self i _),
    ← Finset.add_sum_erase t g (Finset.mem_insert_self i _)]
  have hrest : ∑ j ∈ t.erase i, g j = ∑ j ∈ t.erase i, f j :=
    Finset.sum_congr rfl fun j hj => h j (Finset.ne_of_mem_erase hj)
  omega

end Khala
