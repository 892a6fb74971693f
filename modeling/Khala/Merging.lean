/-
Merging queues by a key.

What comes next is the head of a queue, and no head has a lesser key (`Merges`);
which of several, and how it is found, is left open. Each queue comes out in its
order, and the keys come out sorted if they are so in each queue.
-/
import Mathlib

namespace Khala

variable {ι α : Type} {key : α → ℕ} {arms : List ι} {queues : ι → List α} {i : ι} {a : α}

/-- `a` heads the queue of an arm, and no arm has a head with a lesser key. -/
structure IsLeastHead (key : α → ℕ) (arms : List ι) (queues : ι → List α) (i : ι) (a : α) : Prop where
  mem : i ∈ arms
  head : (queues i).head? = some a
  least : ∀ j ∈ arms, ∀ b, (queues j).head? = some b → key a ≤ key b

namespace IsLeastHead

theorem cons (h : IsLeastHead key arms queues i a) : queues i = a :: (queues i).tail :=
  List.eq_cons_of_mem_head? h.head

/-- One more arm whose head is no less. -/
theorem snoc (h : IsLeastHead key arms queues i a) {j : ι} (hj : ∀ b, (queues j).head? = some b → key a ≤ key b) :
    IsLeastHead key (arms ++ [j]) queues i a := by
  refine ⟨List.mem_append_left _ h.mem, h.head, fun k hk b hb => ?_⟩
  rcases List.mem_append.mp hk with hold | hnew
  · exact h.least k hold b hb
  · rw [List.mem_singleton.mp hnew] at hb
    exact hj b hb

/-- Where the queues are sorted, the least head is before everything. -/
theorem key_le (h : IsLeastHead key arms queues i a) {j : ι} (hj : j ∈ arms)
    (hsorted : (queues j).Pairwise fun x y => key x ≤ key y) {b : α} (hb : b ∈ queues j) : key a ≤ key b := by
  cases hq : queues j with
  | nil =>
    rw [hq] at hb
    cases hb
  | cons c q =>
    rw [hq] at hb hsorted
    have hc : key a ≤ key c := h.least j hj c (by rw [hq]; rfl)
    rcases List.mem_cons.mp hb with rfl | hmem
    · exact hc
    · exact hc.trans ((List.pairwise_cons.mp hsorted).1 b hmem)

end IsLeastHead

/-- What is left to merge. -/
def pendingOf (arms : List ι) (queues : ι → List α) : ℕ := (arms.map fun i => (queues i).length).sum

variable [DecidableEq ι]

/-- A queue without its head. -/
def popped (queues : ι → List α) (i : ι) : ι → List α := Function.update queues i (queues i).tail

/-- The queues of the arms, merged until they are empty. -/
inductive Merges (key : α → ℕ) (arms : List ι) : (ι → List α) → List (ι × α) → Prop
  | done {queues : ι → List α} : (∀ i ∈ arms, queues i = []) → Merges key arms queues []
  | next {queues : ι → List α} {i : ι} {a : α} {out : List (ι × α)} : IsLeastHead key arms queues i a →
      Merges key arms (popped queues i) out → Merges key arms queues ((i, a) :: out)

theorem popped_self : popped queues i i = (queues i).tail := Function.update_self ..

theorem popped_of_ne {j : ι} (h : j ≠ i) : popped queues i j = queues j := Function.update_of_ne h ..

theorem popped_sublist (j : ι) : (popped queues i j).Sublist (queues j) := by
  by_cases hj : j = i
  · subst hj
    rw [popped_self]
    exact List.tail_sublist _
  · rw [popped_of_ne hj]

theorem popped_pairwise {R : α → α → Prop} (h : ∀ j ∈ arms, (queues j).Pairwise R) :
    ∀ j ∈ arms, (popped queues i j).Pairwise R := fun j hj => (h j hj).sublist (popped_sublist j)

/-- One less in its queue, and no more in the others. -/
theorem IsLeastHead.pending_lt (h : IsLeastHead key arms queues i a) :
    pendingOf arms (popped queues i) < pendingOf arms queues := by
  refine List.sum_lt_sum _ _ (fun j _ => (popped_sublist j).length_le) ⟨i, h.mem, ?_⟩
  rw [popped_self, h.cons, List.tail_cons, List.length_cons]
  exact Nat.lt_succ_self _

namespace Merges

variable {out : List (ι × α)}

/-- Nothing comes out that was not in. -/
theorem mem (h : Merges key arms queues out) {x : ι × α} (hx : x ∈ out) : x.1 ∈ arms ∧ x.2 ∈ queues x.1 := by
  induction h with
  | done => cases hx
  | next hleast _ ih =>
    rcases List.mem_cons.mp hx with rfl | hmem
    · exact ⟨hleast.mem, List.mem_of_mem_head? hleast.head⟩
    · exact ⟨(ih hmem).1, (popped_sublist x.1).subset (ih hmem).2⟩

/-- Each queue comes out, in its order. -/
theorem of_arm (h : Merges key arms queues out) {j : ι} (hj : j ∈ arms) :
    (out.filter fun x => x.1 = j).map Prod.snd = queues j := by
  induction h with
  | done hempty => exact (hempty j hj).symm
  | @next queues i a out hleast _ ih =>
    by_cases he : i = j
    · subst he
      rw [List.filter_cons_of_pos (by simp), List.map_cons, ih, popped_self]
      exact hleast.cons.symm
    · rw [List.filter_cons_of_neg (by simpa using he), ih, popped_of_ne (Ne.symm he)]

/-- **A merge of sorted queues is sorted.** -/
theorem sorted (h : Merges key arms queues out)
    (hsorted : ∀ i ∈ arms, (queues i).Pairwise fun x y => key x ≤ key y) :
    out.Pairwise fun x y => key x.2 ≤ key y.2 := by
  induction h with
  | done => exact .nil
  | next hleast hrest ih =>
    refine List.pairwise_cons.mpr ⟨fun x hx => ?_, ih (popped_pairwise hsorted)⟩
    obtain ⟨harm, hmem⟩ := hrest.mem hx
    exact hleast.key_le harm (hsorted _ harm) ((popped_sublist x.1).subset hmem)

/-- Strictly, where no two queues share a key. -/
theorem strictly_sorted (h : Merges key arms queues out)
    (hsorted : ∀ i ∈ arms, (queues i).Pairwise fun x y => key x < key y)
    (hapart : ∀ i ∈ arms, ∀ j ∈ arms, ∀ x ∈ queues i, ∀ y ∈ queues j, key x = key y → i = j) :
    out.Pairwise fun x y => key x.2 < key y.2 := by
  induction h with
  | done => exact .nil
  | @next queues i a out hleast hrest ih =>
    refine List.pairwise_cons.mpr ⟨fun x hx => ?_, ih (popped_pairwise hsorted) fun j hj k hk y hy z hz => ?_⟩
    · obtain ⟨harm, hmem⟩ := hrest.mem hx
      have hin := (popped_sublist x.1).subset hmem
      refine lt_of_le_of_ne (hleast.key_le harm ((hsorted _ harm).imp fun hlt => hlt.le) hin) fun he => ?_
      -- an equal key is of the same queue, and behind its head
      have hsame := hapart i hleast.mem _ harm a (List.mem_of_mem_head? hleast.head) _ hin he
      rw [← hsame, popped_self] at hmem
      have hown := hsorted i hleast.mem
      rw [hleast.cons] at hown
      exact ((List.pairwise_cons.mp hown).1 _ hmem).ne he
    · exact hapart j hj k hk y ((popped_sublist j).subset hy) z ((popped_sublist k).subset hz)

end Merges

end Khala
