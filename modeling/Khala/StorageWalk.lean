/-
What the export of storage changes returns.

The walk goes down the parents of the last block. It meets the first block of
the range if that is an ancestor; if not, it ends at genesis with the changes of
another path, unless a block on the way fails.
-/
import Khala.StorageChanges

namespace Khala.Rpc

namespace Client

variable {H D O : Type} {client : Client H D O} {b b' first last x y : H} {header header' : Header H}
  {blocks blocks' : List H} {rounds : ℕ}

/-! ## One block -/

variable (client) in
/-- What a visit returns. -/
def outcome (b : H) : Except (Error H) (StorageChanges × Option H) := (client.visit b []).1

variable (client) in
/-- Which blocks a visit executes: this one or none. -/
def executes (b : H) : List H := (client.visit b []).2

theorem headerOf_appends (b : H) : (client.headerOf b).Appends :=
  (Call.Appends.lift _).bind fun _ => .unwrap _ _

/-- A visit does the same whatever was executed before. -/
theorem visit_eq (b : H) (log : List H) : client.visit b log = (client.outcome b, log ++ client.executes b) := by
  have happends : (client.visit b).Appends := by
    unfold visit
    refine (headerOf_appends b).bind fun header => (Call.Appends.lift _).bind fun body =>
      (Call.Appends.unwrap _ _).bind fun extrinsics => ?_
    dsimp only
    split
    · exact (Call.Appends.lift _).bind fun state => .pure _
    · exact (Call.Appends.write _).bind fun _ => (Call.Appends.lift _).bind fun written =>
        (Call.Appends.lift _).bind fun state => (Call.Appends.lift _).bind fun changes => .pure _
  exact happends log

theorem headerOf_ends (b : H) (log : List H) : (client.headerOf b).Ends log
    (fun header log' => client.header b = .ok (some header) ∧ log' = log) fun _ log' => log' = log := by
  unfold headerOf
  refine Call.Ends.lift_then (fun _ _ => rfl) fun found hfound => ?_
  refine (Call.Ends.unwrap (R := fun _ log' => log' = log) fun _ => rfl).mono ?_ fun _ _ h => h
  intro header log' ⟨hsome, hlog⟩
  refine ⟨?_, hlog⟩
  cases hb : client.header b with
  | error e =>
    rw [hb] at hfound
    cases hfound
  | ok found' =>
    rw [hb] at hfound
    cases hfound
    rw [hsome]

/-- At genesis nothing is executed; a block with a parent is executed once. -/
theorem visit_ends_nil (b : H) : (client.visit b).Ends []
    (fun visited log => ∃ header, client.header b = .ok (some header) ∧
      (header.number = 0 ∧ visited.2 = none ∧ log = [] ∨
        header.number ≠ 0 ∧ visited.2 = some header.parentHash ∧ log = [b]))
    fun _ log => log.length ≤ 1 := by
  have hnone : ([] : List H).length ≤ 1 := Nat.zero_le 1
  unfold visit
  refine Call.Ends.bind ((headerOf_ends b []).mono (fun _ _ h => h) fun _ _ h => h ▸ hnone) ?_
  rintro header _ ⟨hheader, rfl⟩
  refine Call.Ends.lift_then (fun _ _ => hnone) fun body _ => ?_
  refine Call.Ends.unwrap_then (fun _ => hnone) fun extrinsics _ => ?_
  dsimp only
  split
  · next hzero =>
    refine Call.Ends.lift_then (fun _ _ => hnone) fun state _ => ?_
    exact Call.Ends.pure ⟨header, hheader, .inl ⟨hzero, rfl, rfl⟩⟩
  · next hne =>
    refine Call.Ends.write_then ?_
    refine Call.Ends.lift_then (fun _ _ => le_rfl) fun written _ => ?_
    refine Call.Ends.lift_then (fun _ _ => le_rfl) fun state _ => ?_
    refine Call.Ends.lift_then (fun _ _ => le_rfl) fun changes _ => ?_
    exact Call.Ends.pure ⟨header, hheader, .inr ⟨hne, rfl, rfl⟩⟩

theorem visit_ends (b : H) (log : List H) : (client.visit b).Ends log
    (fun visited log' => client.outcome b = .ok visited ∧ ∃ header, client.header b = .ok (some header) ∧
      (header.number = 0 ∧ visited.2 = none ∧ log' = log ∨
        header.number ≠ 0 ∧ visited.2 = some header.parentHash ∧ log' = log ++ [b]))
    fun e log' => client.outcome b = .error e ∧ log' = log ++ client.executes b ∧
      (client.executes b).length ≤ 1 := by
  have hrun : client.visit b [] = (client.outcome b, client.executes b) := rfl
  refine Call.ends_of ?_ ?_
  · intro visited log' hvisit
    rw [visit_eq] at hvisit
    obtain ⟨hok, rfl⟩ := Prod.ext_iff.mp hvisit
    dsimp only at hok ⊢
    rw [hok] at hrun
    obtain ⟨header, hheader, hcase⟩ := (visit_ends_nil b).ok hrun
    refine ⟨hok, header, hheader, ?_⟩
    rcases hcase with ⟨hzero, hnone, hlog⟩ | ⟨hne, hsome, hlog⟩
    · exact .inl ⟨hzero, hnone, by rw [hlog, List.append_nil]⟩
    · exact .inr ⟨hne, hsome, by rw [hlog]⟩
  · intro e log' hvisit
    rw [visit_eq] at hvisit
    obtain ⟨herr, rfl⟩ := Prod.ext_iff.mp hvisit
    dsimp only at herr ⊢
    rw [herr] at hrun
    exact ⟨herr, rfl, (visit_ends_nil b).error hrun⟩

variable (client) in
/-- The changes of a block. -/
def Changes (b : H) (changes : StorageChanges) : Prop := ∃ parent, client.outcome b = .ok (changes, parent)

variable (client) in
def IsGenesis (b : H) : Prop := ∃ header, client.header b = .ok (some header) ∧ header.number = 0

/-! ## The tree of blocks -/

variable (client) in
/-- A block is one higher than its parent. -/
def IsTree : Prop := ∀ b header parent, client.header b = .ok (some header) → header.number ≠ 0 →
  client.header header.parentHash = .ok (some parent) → header.number = parent.number + 1

variable (client) in
/-- The blocks from a block down to one of its ancestors, both included. -/
inductive Descent : H → List H → H → Prop
  | here (b : H) : Descent b [b] b
  | down {b x : H} {header : Header H} {blocks : List H} :
      client.header b = .ok (some header) → header.number ≠ 0 →
      Descent header.parentHash blocks x → Descent b (b :: blocks) x

namespace Descent

theorem ne_nil (h : client.Descent b blocks x) : blocks ≠ [] := by
  cases h with
  | here => exact List.cons_ne_nil _ _
  | down => exact List.cons_ne_nil _ _

theorem mem (h : client.Descent b blocks x) : x ∈ blocks := by
  induction h with
  | here b => exact List.mem_singleton.mpr rfl
  | down _ _ _ ih => exact List.mem_cons_of_mem _ ih

theorem known (h : client.Descent b blocks x) (hx : client.header x = .ok (some header)) :
    ∃ header', client.header b = .ok (some header') := by
  cases h with
  | here => exact ⟨header, hx⟩
  | down hb _ _ => exact ⟨_, hb⟩

/-- Blocks of one length end in the same block. -/
theorem same (h : client.Descent b blocks x) (h' : client.Descent b blocks' y)
    (hlen : blocks.length = blocks'.length) :
    x = y := by
  induction h generalizing blocks' with
  | here b =>
    cases h' with
    | here => rfl
    | down _ _ hrest =>
      have := List.length_pos_of_ne_nil hrest.ne_nil
      rw [List.length_singleton, List.length_cons] at hlen
      omega
  | down hb _ hrest ih =>
    cases h' with
    | here =>
      have := List.length_pos_of_ne_nil hrest.ne_nil
      rw [List.length_singleton, List.length_cons] at hlen
      omega
    | down hb' _ hrest' =>
      rw [hb] at hb'
      cases hb'
      exact ih hrest' (by simpa using hlen)

/-- The end of a shorter way is a block of the longer one, and not the last. -/
theorem shorter (h : client.Descent b blocks x) (h' : client.Descent b blocks' y)
    (hlen : blocks.length < blocks'.length) :
    x ∈ blocks'.dropLast ∧ ¬client.IsGenesis x := by
  induction h generalizing blocks' with
  | here b =>
    cases h' with
    | here => exact absurd hlen (by simp)
    | down hb hne hrest =>
      rw [List.dropLast_cons_of_ne_nil hrest.ne_nil]
      refine ⟨List.mem_cons_self, ?_⟩
      intro ⟨header, hheader, hzero⟩
      rw [hb] at hheader
      cases hheader
      exact hne hzero
  | down hb _ hrest ih =>
    cases h' with
    | here => exact absurd hlen (by simp)
    | down hb' _ hrest' =>
      rw [hb] at hb'
      cases hb'
      obtain ⟨hmem, hgenesis⟩ := ih hrest' (by simpa using hlen)
      rw [List.dropLast_cons_of_ne_nil hrest'.ne_nil]
      exact ⟨List.mem_cons_of_mem _ hmem, hgenesis⟩

/-- The number of blocks is the difference of the heights. -/
theorem length_eq (htree : client.IsTree) (h : client.Descent b blocks x)
    (hb : client.header b = .ok (some header))
    (hx : client.header x = .ok (some header')) : header.number + 1 = header'.number + blocks.length := by
  induction h generalizing header with
  | here b =>
    rw [hb] at hx
    cases hx
    rfl
  | down hb' hne hrest ih =>
    rw [hb] at hb'
    cases hb'
    obtain ⟨parent, hparent⟩ := hrest.known hx
    have hnumber := htree _ _ _ hb hne hparent
    have := ih hparent hx
    rw [List.length_cons]
    omega

end Descent

/-- A walk that ends well ends at the first block exactly if that is an ancestor,
or if a block beyond the end would fail. -/
theorem ends_first {new : List StorageChanges} (h : client.Descent last blocks x) (hnot : first ∉ blocks.dropLast)
    (hend : x = first ∨ client.IsGenesis x) (hnew : List.Forall₂ client.Changes blocks new)
    (hcase : (∃ blocks, client.Descent last blocks first) ∨
      ∃ blocks b e, client.Descent last blocks b ∧ client.outcome b = .error e) : x = first := by
  rcases hcase with ⟨blocks', h'⟩ | ⟨blocks', y, e, h', herr⟩
  · rcases Nat.lt_trichotomy blocks.length blocks'.length with hlt | heq | hgt
    · exact hend.resolve_right (h.shorter h' hlt).2
    · exact h.same h' heq
    · exact absurd (h'.shorter h hgt).1 hnot
  · have hvisited {y : H} (hy : y ∈ blocks) : ∃ c, client.Changes y c := by
      obtain ⟨i, hi, rfl⟩ := List.getElem_of_mem hy
      exact ⟨_, hnew.get hi (hnew.length_eq ▸ hi)⟩
    have hfails : y ∉ blocks := by
      intro hy
      obtain ⟨c, parent, hok⟩ := hvisited hy
      rw [herr] at hok
      cases hok
    rcases Nat.lt_trichotomy blocks.length blocks'.length with hlt | heq | hgt
    · exact hend.resolve_right (h.shorter h' hlt).2
    · exact absurd h.mem (h.same h' heq ▸ hfails)
    · exact absurd (List.mem_of_mem_dropLast (h'.shorter h hgt).1) hfails

/-- A walk that fails has executed the blocks above the one that fails. -/
theorem fails_in {n : ℕ} {e : Error H} (h : client.Descent last blocks x) (hnot : first ∉ blocks.dropLast)
    (hvisited : ∀ y ∈ blocks.dropLast, ∃ visited, client.outcome y = .ok visited)
    (herr : client.outcome x = .error e) (hone : (client.executes x).length ≤ 1)
    (hfirst : ∀ blocks, client.Descent last blocks first → blocks.length = n) :
    blocks.length + (client.executes x).length ≤ n + 1 ↔
      (∃ blocks, client.Descent last blocks first) ∨ ∃ blocks b e, client.Descent last blocks b ∧
        client.outcome b = .error e ∧ blocks.length + (client.executes b).length ≤ n + 1 := by
  constructor
  · intro hle
    exact .inr ⟨blocks, x, e, h, herr, hle⟩
  · rintro (⟨blocks', h'⟩ | ⟨blocks', y, e', h', herr', hle⟩)
    · have hlen := hfirst blocks' h'
      by_cases hlt : blocks'.length < blocks.length
      · exact absurd (h'.shorter h hlt).1 hnot
      · omega
    · rcases Nat.lt_trichotomy blocks.length blocks'.length with hlt | heq | hgt
      · omega
      · rwa [h.same h' heq, heq]
      · obtain ⟨visited, hok⟩ := hvisited y (h'.shorter h hgt).1
        rw [herr'] at hok
        cases hok

/-! ## The walk -/

variable [DecidableEq H]

/-- What the walk has seen when it ends: the blocks down to the first of the
range or to genesis, or to a block that fails. -/
theorem walk_ends (first b : H) (changes : List StorageChanges) (log : List H) :
    (client.walk first rounds b changes).Ends log
      (fun out log' => ∀ all, out = some all → ∃ blocks x new, client.Descent b blocks x ∧
      first ∉ blocks.dropLast ∧
        (x = first ∨ client.IsGenesis x) ∧ List.Forall₂ client.Changes blocks new ∧ all = changes ++ new ∧
        log'.length ≤ log.length + blocks.length)
      fun _ log' => ∃ blocks x e, client.Descent b blocks x ∧ first ∉ blocks.dropLast ∧
        (∀ y ∈ blocks.dropLast, ∃ visited, client.outcome y = .ok visited) ∧ client.outcome x = .error e ∧
        log'.length + 1 = log.length + blocks.length + (client.executes x).length ∧
          (client.executes x).length ≤ 1 := by
  induction rounds generalizing b changes log with
  | zero =>
    refine Call.Ends.pure ?_
    intro all hall
    cases hall
  | succ rounds ih =>
    unfold walk
    refine Call.Ends.bind ((visit_ends b log).mono (fun _ _ h => h) ?_) ?_
    · rintro e _ ⟨herr, rfl, hone⟩
      refine ⟨[b], b, e, .here b, List.not_mem_nil, fun y hy => absurd hy List.not_mem_nil, herr, ?_, hone⟩
      rw [List.length_append, List.length_singleton]
      omega
    · rintro ⟨c, parent⟩ log' ⟨hok, header, hheader, hcase⟩
      dsimp only at hcase ⊢
      rcases hcase with ⟨hzero, rfl, rfl⟩ | ⟨hne, rfl, rfl⟩
      · refine Call.Ends.pure ?_
        intro all hall
        cases hall
        exact ⟨[b], b, [c], .here b, List.not_mem_nil, .inr ⟨header, hheader, hzero⟩,
          .cons ⟨_, hok⟩ .nil, rfl, Nat.le_add_right _ _⟩
      · dsimp only
        split
        · next hfirst =>
          refine Call.Ends.pure ?_
          intro all hall
          cases hall
          exact ⟨[b], b, [c], .here b, List.not_mem_nil, .inl hfirst, .cons ⟨_, hok⟩ .nil, rfl, by simp⟩
        · next hfirst =>
          refine (ih header.parentHash (changes ++ [c]) (log ++ [b])).mono ?_ ?_
          · intro out log' h all hall
            obtain ⟨blocks, x, new, hdescent, hnot, hend, hnew, rfl, hlen⟩ := h all hall
            refine ⟨b :: blocks, x, c :: new, .down hheader hne hdescent, ?_, hend, .cons ⟨_, hok⟩ hnew,
              List.append_cons changes c new ▸ rfl, ?_⟩
            · rw [List.dropLast_cons_of_ne_nil hdescent.ne_nil, List.mem_cons]
              rintro (rfl | hmem)
              · exact hfirst rfl
              · exact hnot hmem
            · rw [List.length_append, List.length_singleton] at hlen
              rw [List.length_cons]
              omega
          · rintro e log' ⟨blocks, x, e', hdescent, hnot, hvisited, herr, hlen, hone⟩
            refine ⟨b :: blocks, x, e', .down hheader hne hdescent, ?_, ?_, herr, ?_, hone⟩
            · rw [List.dropLast_cons_of_ne_nil hdescent.ne_nil, List.mem_cons]
              rintro (rfl | hmem)
              · exact hfirst rfl
              · exact hnot hmem
            · rw [List.dropLast_cons_of_ne_nil hdescent.ne_nil]
              intro y hy
              rcases List.mem_cons.mp hy with rfl | hy
              · exact ⟨_, hok⟩
              · exact hvisited y hy
            · rw [List.length_append, List.length_singleton] at hlen
              rw [List.length_cons]
              omega

/-- As many rounds as the block is high, and one, do. -/
theorem walk_rounds (htree : client.IsTree) (hpos : 0 < rounds)
    (h : ∀ header, client.header b = .ok (some header) → header.number < rounds) (changes : List StorageChanges)
    (log : List H) : (client.walk first rounds b changes).Ends log (fun out _ => out ≠ none) fun _ _ => True := by
  induction rounds generalizing b changes log with
  | zero => exact absurd hpos (Nat.lt_irrefl 0)
  | succ rounds ih =>
    unfold walk
    refine Call.Ends.bind ((visit_ends b log).mono (fun _ _ h => h) fun _ _ _ => trivial) ?_
    rintro ⟨c, parent⟩ log' ⟨-, header, hheader, hcase⟩
    have hlt := h header hheader
    dsimp only at hcase ⊢
    rcases hcase with ⟨hzero, rfl, rfl⟩ | ⟨hne, rfl, rfl⟩
    · exact Call.Ends.pure (by simp)
    · dsimp only
      split
      · exact Call.Ends.pure (by simp)
      · refine ih (by omega) ?_ _ _
        intro parent hparent
        have hnumber := htree b header parent hheader hne hparent
        omega

/-! ## The call -/

/-- For a range that is not refused, the call is the walk. -/
theorem getStorageChanges_eq (hfirst : client.header first = .ok (some header))
    (hlast : client.header last = .ok (some header')) (hle : header.number ≤ header'.number)
    (hrange : header'.number - header.number ≤ 10000) (rounds : ℕ) :
    client.getStorageChanges rounds first last [] =
      ((client.walk first rounds last [] []).1.map (Option.map List.reverse),
      (client.walk first rounds last [] []).2) := by
  have hread {b : H} {header : Header H} (h : client.header b = .ok (some header)) :
      client.headerOf b [] = (.ok header, []) := by
    unfold headerOf
    rw [h]
    rfl
  unfold getStorageChanges
  rw [Call.bind_ok (hread hfirst), Call.bind_ok (hread hlast), Call.bind_ok (Call.ensure_of hle)]
  refine (Call.bind_ok (Call.ensure_of hrange)).trans ?_
  cases hwalk : client.walk first rounds last [] [] with
  | mk result log =>
    cases result with
    | error e => exact Call.bind_error hwalk
    | ok out => exact Call.bind_ok hwalk

end Client

open Client

/-- **When the export is the range.** For known blocks of a tree, at a distance
that is allowed, the call returns an error or the changes of exactly the blocks
from the first to the last, in ascending order, and executes no more blocks than
these, exactly if the first is an ancestor of the last, or if the walk down from
the last fails at a block before it executes more. -/
theorem getStorageChanges_iff {H D O : Type} [DecidableEq H] {client : Client H D O} {first last : H}
    {header header' : Header H} {rounds : ℕ} (htree : client.IsTree)
    (hfirst : client.header first = .ok (some header))
    (hlast : client.header last = .ok (some header')) (hle : header.number ≤ header'.number)
    (hrange : header'.number - header.number ≤ 10000) (hrounds : header'.number < rounds) :
    (∀ out, (client.getStorageChanges rounds first last []).1 = .ok out → ∃ changes blocks, out = some changes ∧
        client.Descent last blocks first ∧ blocks.length = header'.number - header.number + 1 ∧
        List.Forall₂ client.Changes blocks.reverse changes) ∧
      (client.getStorageChanges rounds first last []).2.length ≤ header'.number - header.number + 1 ↔
    (∃ blocks, client.Descent last blocks first) ∨
      ∃ blocks b e, client.Descent last blocks b ∧ client.outcome b = .error e ∧
        blocks.length + (client.executes b).length ≤ header'.number - header.number + 1 + 1 := by
  have hheight (blocks : List H) (h : client.Descent last blocks first) :
      blocks.length = header'.number - header.number + 1 := by
    have := h.length_eq htree hlast hfirst
    omega
  have hknown : ∀ header, client.header last = .ok (some header) → header.number < rounds := by
    intro header hheader
    rw [hlast] at hheader
    cases hheader
    exact hrounds
  have hends : (client.walk first rounds last []).Ends [] _ _ := walk_ends first last [] []
  have hdone : (client.walk first rounds last []).Ends [] _ _ :=
    walk_rounds htree (Nat.zero_lt_of_lt hrounds) hknown [] []
  rw [getStorageChanges_eq hfirst hlast hle hrange]
  cases hwalk : client.walk first rounds last [] [] with
  | mk result log =>
    cases result with
    | ok out =>
      cases out with
      | none => exact absurd rfl (hdone.ok hwalk)
      | some all =>
        obtain ⟨blocks, x, new, hdescent, hnot, hend, hnew, hall, hlen⟩ := hends.ok hwalk all rfl
        rw [List.nil_append] at hall
        subst hall
        constructor
        · intro ⟨hout, _⟩
          obtain ⟨_, blocks', _, hdescent', _⟩ := hout _ rfl
          exact .inl ⟨blocks', hdescent'⟩
        · intro hcase
          have hx : x = first := ends_first hdescent hnot hend hnew
            (hcase.imp_right fun ⟨blocks', b, e, h, herr, _⟩ => ⟨blocks', b, e, h, herr⟩)
          subst hx
          have hlength := hheight blocks hdescent
          rw [List.length_nil] at hlen
          refine ⟨?_, by dsimp only; omega⟩
          intro out hout
          cases hout
          exact ⟨_, blocks, rfl, hdescent, hlength, List.forall₂_reverse_iff.mpr hnew⟩
    | error e =>
      obtain ⟨blocks, x, e', hdescent, hnot, hvisited, herr, hlen, hone⟩ := hends.error hwalk
      rw [← fails_in hdescent hnot hvisited herr hone hheight]
      rw [List.length_nil] at hlen
      constructor
      · intro ⟨_, hlog⟩
        dsimp only at hlog
        omega
      · intro hle
        refine ⟨?_, by dsimp only; omega⟩
        intro out hout
        cases hout

/-! ## A fork -/

namespace Demo

/-- The blocks 1 and 2 are children of genesis, the block 3 of 1. A block writes its parent. -/
def forked : Client ℕ Unit Unit where
  header
    | 0 => .ok (some ⟨0, 0, []⟩)
    | 1 => .ok (some ⟨1, 0, [.other [1], .seal [2]]⟩)
    | 2 => .ok (some ⟨1, 0, [.other [1], .seal [2]]⟩)
    | 3 => .ok (some ⟨2, 1, []⟩)
    | _ => .ok none
  blockBody _ := .ok (some [])
  executeBlock _ _ := .ok ()
  stateAt _ := .ok ()
  pairs _ := [([0], [0])]
  intoStorageChanges _ _ parentHash := .ok ⟨[([0], some [UInt8.ofNat parentHash])], []⟩

theorem forked_isTree : forked.IsTree := by
  intro b header parent hb hne hparent
  match b with
  | 0 =>
    cases hb
    exact absurd rfl hne
  | 1 =>
    cases hb
    cases hparent
    rfl
  | 2 =>
    cases hb
    cases hparent
    rfl
  | 3 =>
    cases hb
    cases hparent
    rfl
  | b + 4 => cases hb

end Demo

theorem getStorageChanges_demo :
    ∃ blocks, Demo.forked.Descent 3 blocks 1 ∧ blocks.length = 2 ∧
      List.Forall₂ Demo.forked.Changes blocks.reverse [⟨[([0], some [0])], []⟩, ⟨[([0], some [1])], []⟩] := by
  have hheader : Demo.forked.header 3 = .ok (some ⟨2, 1, []⟩) := rfl
  have hdescent : Demo.forked.Descent 3 [3, 1] 1 := .down hheader (by decide) (.here 1)
  have hrun : (Demo.forked.getStorageChanges 3 1 3 []).1 =
      .ok (some [⟨[([0], some [0])], []⟩, ⟨[([0], some [1])], []⟩]) := by rfl
  have hrange := (getStorageChanges_iff Demo.forked_isTree (rfl : Demo.forked.header 1 = _) hheader (by decide)
    (by decide) (by decide : 2 < 3)).mpr (.inl ⟨[3, 1], hdescent⟩)
  obtain ⟨changes, blocks, hout, hblocks, hlength, hchanges⟩ := hrange.1 _ hrun
  cases hout
  exact ⟨blocks, hblocks, hlength, hchanges⟩

/-- From a block to another one of the same height: the changes of genesis, and of the other block. -/
theorem getStorageChanges_forked : Demo.forked.IsTree ∧
    (Demo.forked.getStorageChanges 2 1 2 []).1 =
      .ok (some [⟨[([0], some [0])], []⟩, ⟨[([0], some [0])], []⟩]) ∧
    ¬∃ blocks, Demo.forked.Descent 2 blocks 1 := by
  refine ⟨Demo.forked_isTree, by rfl, ?_⟩
  intro ⟨blocks, hdescent⟩
  cases hdescent with
  | down hheader _ hrest =>
    cases hheader
    cases hrest with
    | down hheader hne _ =>
      cases hheader
      exact hne rfl

end Khala.Rpc
