/-
The `select!` macro of `phala-mq` (`dispatcher.rs`), and what its receivers get.

Each arm is peeked, and the arm with the least index is received from. Run until
nothing is pending, this merges what the receivers have; the indices come out
sorted, since the dispatcher counts for all paths.
-/
import Khala.Merging
import Khala.Receivers

namespace Khala.Dispatcher

open Mq (Bytes Message)

/-! ## The macro -/

/-- The least index so far, the arm that has it, and the next arm. -/
structure Scan where
  min : Option ℕ
  minInd : ℕ
  ind : ℕ

def Scan.arm (scan : Scan) (peeked : Except ReceiveError (Option ℕ)) : Scan :=
  match peeked with
  | .ok (some sn) => match scan.min with
    | none => ⟨some sn, scan.ind, scan.ind + 1⟩
    | some old => if sn < old then ⟨some sn, scan.ind, scan.ind + 1⟩ else { scan with ind := scan.ind + 1 }
  | .error _ => ⟨some 0, scan.ind, scan.ind + 1⟩
  | .ok none => { scan with ind := scan.ind + 1 }

/-- `Result::transpose` -/
def transpose {E T : Type} : Except E (Option T) → Option (Except E T)
  | .ok none => none
  | .ok (some value) => some (.ok value)
  | .error e => some (.error e)

namespace System

def scan (s : System) (arms : List ChannelId) : Scan :=
  arms.foldl (fun scan id => scan.arm ((s.channels id).peekInd Prod.fst)) ⟨none, 0, 0⟩

/-- The arm that is run, with what it receives. -/
def select (s : System) (arms : List ChannelId) : Option (ChannelId × Except ReceiveError Item) × System :=
  let scan := s.scan arms
  if scan.min.isSome = true then
    match arms[scan.minInd]? with
    | some id =>
      let next := s.tryNext id
      ((transpose next.1).map fun msg => (id, msg), next.2)
    | none => (none, s)
  else (none, s)

/-- `select!`, until no arm is run. -/
def selectAll (arms : List ChannelId) : ℕ → System → Option (List (ChannelId × Except ReceiveError Item) × System)
  | 0, _ => none
  | fuel + 1, s =>
    match s.select arms with
    | (none, s') => some ([], s')
    | (some msg, s') => (selectAll arms fuel s').map fun ended => (msg :: ended.1, ended.2)

/-! ## One selection -/

variable {s s' : System} {arms : List ChannelId} {id : ChannelId} {item : Item}

theorem peekInd_live (h : Delivering s) (hlive : s.Live id) :
    (s.channels id).peekInd Prod.fst = .ok ((s.pending id).head?.map Prod.fst) := by
  unfold Channel.peekInd pending
  cases (s.channels id).deque.head? with
  | none => simp [h.held id hlive]
  | some item => rfl

/-- What the scan says of the arms it has seen. -/
structure Scanned (s : System) (arms : List ChannelId) (scan : Scan) : Prop where
  ind : scan.ind = arms.length
  empty : scan.min = none → ∀ id ∈ arms, s.pending id = []
  least : ∀ sn, scan.min = some sn → ∃ id item, arms[scan.minInd]? = some id ∧ item.1 = sn ∧
    IsLeastHead Prod.fst arms s.pending id item

theorem Scanned.arm {scan : Scan} (h : Scanned s arms scan) (id : ChannelId) :
    Scanned s (arms ++ [id]) (scan.arm (.ok ((s.pending id).head?.map Prod.fst))) := by
  have hind : (arms ++ [id])[scan.ind]? = some id := by
    rw [h.ind, List.getElem?_append_right (le_refl _), Nat.sub_self]
    rfl
  have hold {n : ℕ} {i : ChannelId} (hi : arms[n]? = some i) : (arms ++ [id])[n]? = some i := by
    obtain ⟨hlt, -⟩ := List.getElem?_eq_some_iff.mp hi
    exact (List.getElem?_append_left hlt).trans hi
  have hlength : (arms ++ [id]).length = scan.ind + 1 := by rw [List.length_append, h.ind]; rfl
  cases hp : (s.pending id).head? with
  | none =>
    have hempty := List.head?_eq_none_iff.mp hp
    refine ⟨hlength.symm, fun hmin j hj => ?_, fun sn hsn => ?_⟩
    · rcases List.mem_append.mp hj with hj | hnew
      · exact h.empty hmin j hj
      · rw [List.mem_singleton.mp hnew, hempty]
    · obtain ⟨i, item, hi, hitem, hleast⟩ := h.least sn hsn
      refine ⟨i, item, hold hi, hitem, hleast.snoc fun x hx => ?_⟩
      rw [hp] at hx
      cases hx
  | some item =>
    -- the arm has the least index if there was none, or only greater ones
    have hnew (hall : ∀ j ∈ arms, ∀ x, (s.pending j).head? = some x → item.1 ≤ x.1) :
        Scanned s (arms ++ [id]) ⟨some item.1, scan.ind, scan.ind + 1⟩ := by
      refine ⟨hlength.symm, nofun, fun sn hsn => ?_⟩
      cases hsn
      refine ⟨id, item, hind, rfl, List.mem_append_right _ (List.mem_singleton_self _), hp, fun j hj x hx => ?_⟩
      rcases List.mem_append.mp hj with hj | hlast
      · exact hall j hj x hx
      · rw [List.mem_singleton.mp hlast, hp] at hx
        cases hx
        exact le_refl _
    rw [Option.map_some]
    cases hmin : scan.min with
    | none =>
      unfold Scan.arm
      rw [hmin]
      refine hnew fun j hj x hx => ?_
      rw [h.empty hmin j hj] at hx
      cases hx
    | some old =>
      obtain ⟨i, least, hi, rfl, hleast⟩ := h.least old hmin
      unfold Scan.arm
      rw [hmin]
      dsimp only
      split
      · next hlt => exact hnew fun j hj x hx => hlt.le.trans (hleast.least j hj x hx)
      · next hge =>
        refine ⟨hlength.symm, fun hnone => ?_, fun sn hsn => ?_⟩
        · cases hnone
        · cases hsn
          refine ⟨i, least, hold hi, rfl, hleast.snoc fun x hx => ?_⟩
          rw [hp] at hx
          cases hx
          exact not_lt.mp hge

theorem scan_scanned (h : Delivering s) (hlive : ∀ id ∈ arms, s.Live id) : Scanned s arms (s.scan arms) := by
  induction arms using List.reverseRecOn with
  | nil => exact ⟨rfl, fun _ _ hid => (List.not_mem_nil hid).elim, nofun⟩
  | append_singleton arms id ih =>
    rw [scan, List.foldl_append, List.foldl_cons, List.foldl_nil,
      peekInd_live h (hlive id (List.mem_append_right _ (List.mem_singleton_self _)))]
    exact (ih fun j hj => hlive j (List.mem_append_left _ hj)).arm id

/-- Where no arm has a message, none is run. -/
theorem select_none (h : Delivering s) (hlive : ∀ id ∈ arms, s.Live id) (hempty : ∀ id ∈ arms, s.pending id = []) :
    s.select arms = (none, s) := by
  unfold select
  dsimp only
  rw [if_neg]
  intro hsome
  obtain ⟨sn, hsn⟩ := Option.isSome_iff_exists.mp hsome
  obtain ⟨id, item, -, -, hleast⟩ := (scan_scanned h hlive).least sn hsn
  have := hleast.head
  rw [hempty id hleast.mem] at this
  cases this

/-- Where one has, the arm with the least index is. -/
theorem select_some (h : Delivering s) (hlive : ∀ id ∈ arms, s.Live id) (hsome : ∃ id ∈ arms, s.pending id ≠ []) :
    ∃ id item, IsLeastHead Prod.fst arms s.pending id item ∧
      s.select arms = (some (id, .ok item), s.received id item (s.pending id).tail) := by
  have hscan := scan_scanned h hlive
  cases hmin : (s.scan arms).min with
  | none =>
    obtain ⟨id, hid, hne⟩ := hsome
    exact absurd (hscan.empty hmin id hid) hne
  | some sn =>
    obtain ⟨id, item, harm, -, hleast⟩ := hscan.least sn hmin
    refine ⟨id, item, hleast, ?_⟩
    unfold select
    dsimp only
    rw [if_pos (by rw [hmin]; rfl), harm]
    dsimp only
    rw [tryNext_cons hleast.cons]
    rfl

theorem received_popped (s : System) (id : ChannelId) (item : Item) :
    (s.received id item (s.pending id).tail).pending = popped s.pending id := by
  funext j
  by_cases hj : j = id
  · subst hj
    rw [received_pending_self, popped_self]
  · rw [received_pending_of_ne hj, popped_of_ne hj]

/-! ## Until nothing is pending -/

/-- With fuel for what is pending, the selections end, and merge it. The induction is on the fuel. -/
theorem selectAll_merges (h : Delivering s) (hlive : ∀ id ∈ arms, s.Live id) {fuel : ℕ}
    (hfuel : pendingOf arms s.pending < fuel) : ∃ out s',
    selectAll arms fuel s = some (out.map fun x => (x.1, .ok x.2), s') ∧ Merges Prod.fst arms s.pending out ∧
      Delivering s' ∧ (∀ id, s'.Live id ↔ s.Live id) ∧ (∀ id ∈ arms, s'.pending id = []) ∧ ∀ id,
      s'.sentTo id = s.sentTo id := by
  induction fuel generalizing s with
  | zero => omega
  | succ fuel ih =>
    by_cases hempty : ∀ id ∈ arms, s.pending id = []
    · refine ⟨[], s, ?_, .done hempty, h, fun _ => Iff.rfl, hempty, fun _ => rfl⟩
      rw [selectAll, select_none h hlive hempty]
      rfl
    · have hsome : ∃ id ∈ arms, s.pending id ≠ [] := by
        push Not at hempty
        exact hempty
      obtain ⟨id, item, hleast, hselect⟩ := select_some h hlive hsome
      have hpopped := received_popped s id item
      have hless := hleast.pending_lt
      rw [← hpopped] at hless
      obtain ⟨out, s', hall, hmerges, hs', hlive', hdone, hsent⟩ := ih (h.received hleast.cons)
        (fun j hj => received_live.mpr (hlive j hj)) (by omega)
      refine ⟨(id, item) :: out, s', ?_, .next hleast (hpopped ▸ hmerges), hs', fun j =>
        (hlive' j).trans received_live,
        hdone, hsent⟩
      rw [selectAll, hselect]
      dsimp only
      rw [hall]
      rfl

/-- What is pending was dispatched to the receiver's path. -/
theorem path_of_pending (h : Delivering s) (hlive : s.Live id) (hitem : item ∈ s.pending id) :
    item.2.destination.path = s.topic id := by
  have hsent : item ∈ s.sentTo id := by
    rw [← h.exact id hlive]
    exact List.mem_append_right _ hitem
  simpa using (List.mem_filter.mp hsent).2

/-- Receivers of different paths have no index in common. -/
theorem apart_of_topics (h : Delivering s) (hlive : ∀ id ∈ arms, s.Live id)
    (htopics : ∀ id ∈ arms, ∀ id' ∈ arms, s.topic id = s.topic id' → id = id') :
    ∀ id ∈ arms, ∀ id' ∈ arms, ∀ x ∈ s.pending id, ∀ y ∈ s.pending id', x.1 = y.1 → id = id' := by
  intro id hid id' hid' x hx y hy he
  have hxy := h.agree id id' (hlive id hid) (hlive id' hid') x hx y hy he
  subst hxy
  exact htopics id hid id' hid'
    ((path_of_pending h (hlive id hid) hx).symm.trans (path_of_pending h (hlive id' hid') hy))

end System

/-- **Messages are received in the order in which they are dispatched.** A live receiver has received, and
has pending, exactly what was dispatched to its path since it subscribed, in this order, and receives the
first that is pending. To select until nothing is pending yields what each arm has pending, once and in its
order, with ascending indices, which ascend strictly where no two arms are of one path; every arm has then
received whatever was sent to it. A receiver that is dropped changes nothing for the others, however the run
goes on. -/
theorem received_in_order {s : System} (h : System.Reachable s) :
    (∀ id, s.Live id → s.obtained id ++ s.pending id = s.sentTo id ∧
      (s.tryNext id).1 = .ok (s.pending id).head? ∧
      (s.tryNext id).2.obtained id = s.obtained id ++ (s.pending id).head?.toList) ∧
    (∀ arms, (∀ id ∈ arms, s.Live id) → ∀ fuel > pendingOf arms s.pending,
      ∃ (out : List (ChannelId × Item)) (s' : System),
      System.selectAll arms fuel s = some (out.map fun x => (x.1, .ok x.2), s') ∧
      (∀ x ∈ out, x.1 ∈ arms) ∧
      (∀ id ∈ arms, (out.filter fun x => x.1 = id).map Prod.snd = s.pending id ∧
        s'.pending id = [] ∧ s'.obtained id = s.sentTo id) ∧
      (out.Pairwise fun x y => x.2.1 ≤ y.2.1) ∧
      ((∀ id ∈ arms, ∀ id' ∈ arms, s.topic id = s.topic id' → id = id') → out.Pairwise fun x y => x.2.1 < y.2.1)) ∧
    ∀ id, s.Live id → ∀ ops, ReachWhere.okAlong System.exec System.Keeps s ops = true → ∀ j ≠ id,
      ((ops.foldl System.exec (s.dropReceiver id)).Live j ↔ (ops.foldl System.exec s).Live j) ∧
      (ops.foldl System.exec (s.dropReceiver id)).obtained j = (ops.foldl System.exec s).obtained j ∧
      ((ops.foldl System.exec s).Live j →
        (ops.foldl System.exec (s.dropReceiver id)).pending j = (ops.foldl System.exec s).pending j) := by
  have hs := h.delivering
  refine ⟨fun id hlive => ⟨hs.exact id hlive, ?_⟩, fun arms hlive fuel hfuel => ?_,
    fun id hlive ops hok j hj => ?_⟩
  · cases hp : s.pending id with
    | nil =>
      rw [System.tryNext_nil (hs.held id hlive) hp]
      exact ⟨rfl, (List.append_nil _).symm⟩
    | cons item rest =>
      rw [System.tryNext_cons hp]
      exact ⟨rfl, Function.update_self ..⟩
  · obtain ⟨out, s', hall, hmerges, hs', hlive', hdone, hsent⟩ := System.selectAll_merges hs hlive hfuel
    refine ⟨out, s', hall, fun x hx => (hmerges.mem hx).1, fun id hid => ⟨hmerges.of_arm hid, hdone id hid, ?_⟩,
      hmerges.sorted fun id hid => ?_, fun htopics => ?_⟩
    · have hexact := hs'.exact id ((hlive' id).mpr (hlive id hid))
      rw [hdone id hid, List.append_nil] at hexact
      rw [hexact, hsent]
    · exact (hs.sorted id (hlive id hid)).imp fun hlt => hlt.le
    · exact hmerges.strictly_sorted (fun id hid => hs.sorted id (hlive id hid))
        (System.apart_of_topics hs hlive htopics)
  · have hrun := (System.SameBut.dropReceiver hlive).run hs (hs.dropReceiver id) hok
    exact ⟨hrun.live_iff hj, hrun.obtained j hj, hrun.pending hj⟩

/-! ### Two receivers of one path -/

namespace Demo

def message : Message := ⟨.gatekeeper, ⟨[0x70]⟩, [1]⟩

/-- Two subscribe to `p`, a third to `q`, and a message goes to each path. -/
def both : System := [.subscribe [0x70], .subscribe [0x70], .subscribe [0x71], .dispatch message,
  .dispatch ⟨.gatekeeper, ⟨[0x71]⟩, [2]⟩].foldl System.exec .empty

theorem both_reachable : System.Reachable both := .foldl (.init rfl) (by decide +kernel)

end Demo

/-- Those of different paths get the two messages in turn. -/
theorem received_in_order_demo : ∃ (out : List (ChannelId × Item)) (s' : System),
    System.selectAll [2, 0] 3 Demo.both = some (out.map fun x => (x.1, .ok x.2), s') ∧
    out.Pairwise (fun x y => x.2.1 < y.2.1) ∧ s'.obtained 0 = [(0, Demo.message)] := by
  obtain ⟨out, s', hall, -, harms, -, hstrict⟩ :=
    (received_in_order Demo.both_reachable).2.1 [2, 0] (by decide +kernel) 3 (by decide +kernel)
  refine ⟨out, s', hall, hstrict (by decide +kernel), ?_⟩
  rw [(harms 0 (by decide)).2.2]
  decide +kernel

/-- Those of one path both get its message, under one index. -/
theorem select_repeats : ∃ s, System.Reachable s ∧ (∀ id ∈ [0, 1], s.Live id) ∧
    ∃ (out : List (ChannelId × Item)) (s' : System), System.selectAll [0, 1] 3 s =
    some (out.map fun x => (x.1, .ok x.2), s') ∧ ¬out.Pairwise fun x y => x.2.1 < y.2.1 := by
  refine ⟨Demo.both, Demo.both_reachable, by decide +kernel, [(0, (0, Demo.message)), (1, (0, Demo.message))],
    ((Demo.both.received 0 (0, Demo.message) []).received 1 (0, Demo.message) []), ?_, by simp⟩
  rfl

end Khala.Dispatcher
