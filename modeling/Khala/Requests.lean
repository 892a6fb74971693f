/-
Every request waits under its timestamp until a block hook past the grace
period takes it out, and the hook does not panic.
-/
import Khala.Agreement

namespace Khala

open Outcome

variable {A W : Type} [DecidableEq A] [DecidableEq W] {cfg : Config A W} {s s' : State A W} {pid t : ℕ}

/-- The pool is to be checked when the requests of the time `t` expire. -/
def State.Listed (s : State A W) (t pid : ℕ) : Prop :=
  ∃ pids, s.withdrawalQueuedPools.lookup t = some pids ∧ pid ∈ pids

omit [DecidableEq A] [DecidableEq W] in
theorem State.Listed.of_eq (h : s.Listed t pid) (he : s'.withdrawalQueuedPools = s.withdrawalQueuedPools) :
    s'.Listed t pid := by
  obtain ⟨pids, hp, hmem⟩ := h
  exact ⟨pids, he ▸ hp, hmem⟩

omit [DecidableEq A] [DecidableEq W] in
/-- A withdrawal that has to wait is listed under the present time, and nothing is struck off. -/
theorem State.listed_scheduled (s : State A W) {pool : PoolInfo A W} (shares : ℕ) (hf : pool.pid = pid) :
    (0 < Desk.sharesLater pool shares → (s.scheduled pool shares).Listed s.nowSec pid) ∧
      ∀ t pid', s.Listed t pid' → (s.scheduled pool shares).Listed t pid' := by
  unfold scheduled
  split
  · next hlater =>
    refine ⟨fun _ => ?_, fun t pid' ⟨pids, hp, hmem⟩ => ?_⟩
    · refine ⟨_, (lookup_maybeAddWithdrawQueue _ _ _).trans (if_pos rfl), ?_⟩
      rw [hf]
      cases s.withdrawalQueuedPools.lookup s.nowSec with
      | none => exact List.mem_singleton_self pid
      | some pids =>
        rw [Option.elim_some]
        split
        · assumption
        · exact List.mem_append_right _ (List.mem_singleton_self pid)
    · unfold Listed
      rw [lookup_maybeAddWithdrawQueue]
      split
      · next he =>
        rw [← he, hp]
        refine ⟨_, rfl, ?_⟩
        rw [Option.elim_some]
        split
        · exact hmem
        · exact List.mem_append_left _ hmem
      · exact ⟨pids, hp, hmem⟩
  · next hlater => exact ⟨fun h => absurd h hlater, fun _ _ h => h⟩

/-- A listed pool stays listed until a block hook past the grace period. -/
theorem Did.listed {op : Op A W} (hd : Did cfg s op s') (hf : s.WellFiled) (h : s.Listed t pid) :
    s'.Listed t pid ∨ op = .onFinalize ∧ cfg.gracePeriod < s.nowSec - t := by
  cases op with
  | withdraw who pid' shares =>
    cases hd with
    | withdraw hpool => exact .inl ((State.listed_scheduled _ _ (hf.pool _ _ hpool).1).2 t pid h)
    | aside ha => exact .inl (h.of_eq (ha.sameTimetable id).pools)
  | onFinalize =>
    cases hd with
    | @finalize _ processed ha hfin =>
      by_cases ht : t ∈ processed
      · exact .inr ⟨rfl, hfin.expired t ht⟩
      · obtain ⟨pids, hp, hmem⟩ := h
        exact .inl ⟨pids, (hfin.pools t).trans ((if_neg ht).trans hp), hmem⟩
    | aside ha => exact .inl (h.of_eq (ha.sameTimetable id).pools)
  | _ => exact .inl (h.of_eq (hd.sameTimetable nofun nofun).pools)

/-- A request in a queue was there before, or its pool was listed with it. -/
theorem Did.request {op : Op A W} (hd : Did cfg s op s') (hf : s.WellFiled) {pool' : PoolInfo A W}
    {w : WithdrawInfo A} (hpool' : s'.stakePools.lookup pid = some pool') (hw : w ∈ pool'.withdrawQueue) :
    s'.Listed w.startTime pid ∨
      ∃ pool w₀, s.stakePools.lookup pid = some pool ∧ w₀ ∈ pool.withdrawQueue ∧ w.startTime = w₀.startTime := by
  have fewer : s.FewerRequests s' →
      ∃ pool w₀, s.stakePools.lookup pid = some pool ∧ w₀ ∈ pool.withdrawQueue ∧ w.startTime = w₀.startTime := by
    intro hfew
    obtain ⟨pool, hpool, w₀, hw₀, he⟩ := hfew.requests pid pool' hpool' w hw
    exact ⟨pool, w₀, hpool, hw₀, he⟩
  cases op with
  | withdraw who pid' shares =>
    cases hd with
    | @withdraw _ _ _ pool user d user' hpool _ _ _ hwd =>
      obtain ⟨hlist, -⟩ := s.listed_scheduled shares (hf.pool _ _ hpool).1
      have hs := s.scheduled_sameStore pool shares
      have hlookup : (((s.scheduled pool shares).putDesk pid' d).putStaker pid' who user').stakePools.lookup pid =
          if pid = pid' then some d.pool else (s.scheduled pool shares).stakePools.lookup pid :=
        State.lookup_putDesk _ _ _
      have hlisted : ∀ t, (s.scheduled pool shares).Listed t pid →
          (((s.scheduled pool shares).putDesk pid' d).putStaker pid' who user').Listed t pid := fun _ h => h
      generalize s.scheduled pool shares = s₁ at *
      rw [hlookup] at hpool'
      split at hpool'
      · next he =>
        cases hpool'
        subst he
        obtain ⟨user₁, d₁, _, _, rfl⟩ := hwd
        have hw : w ∈ Desk.requestQueue user.user (Desk.sharesLater pool shares) s.nowSec pool.withdrawQueue := hw
        unfold Desk.requestQueue at hw
        split at hw
        · next hlater =>
          rcases List.mem_append.mp hw with hw | hw
          · exact .inr ⟨pool, w, hpool, List.mem_of_mem_filter hw, rfl⟩
          · cases List.mem_singleton.mp hw
            exact .inl (hlisted _ (hlist hlater))
        · exact .inr ⟨pool, w, hpool, hw, rfl⟩
      · exact .inr ⟨pool', w, hs.stakePools ▸ hpool', hw, rfl⟩
    | aside ha => exact .inr (fewer ha.fewerRequests)
  | _ => exact .inr (fewer (hd.fewerRequests nofun))

/-- In the run of `ops`, a block hook past the grace period took out the pool's requests of the time `t`. -/
def Served (cfg : Config A W) (n : ℕ) (s₀ : State A W) (ops : List (Op A W)) (t pid : ℕ) : Prop :=
  ∃ pre post s, ops = pre ++ .onFinalize :: post ∧ run cfg n s₀ pre = .ok s ∧ s.Listed t pid ∧
    cfg.gracePeriod < s.nowSec - t

theorem Served.snoc {n : ℕ} {s₀ : State A W} {ops : List (Op A W)} (h : Served cfg n s₀ ops t pid) (op : Op A W) :
    Served cfg n s₀ (ops ++ [op]) t pid := by
  obtain ⟨pre, post, s, he, hrun, hl, hg⟩ := h
  exact ⟨pre, post ++ [op], s, by simp [he], hrun, hl, hg⟩

/-- Each waiting request's pool is listed, or was served in time. -/
theorem run_requests {n : ℕ} {s₀ : State A W} {ops : List (Op A W)} (h₀ : Genesis s₀)
    (h : run cfg n s₀ ops = .ok s) :
    ∀ pid pool w, s.stakePools.lookup pid = some pool → w ∈ pool.withdrawQueue →
      s.Listed w.startTime pid ∨ Served cfg n s₀ ops w.startTime pid := by
  induction ops using List.reverseRecOn generalizing s with
  | nil =>
    cases h
    intro pid pool w hpool
    rw [h₀.pools.1] at hpool
    cases hpool
  | append_singleton ops op ih =>
    simp only [run, List.foldlM_append, List.foldlM_cons, List.foldlM_nil, bind_pure, bind_ok] at h
    obtain ⟨s₁, hrun, hexec⟩ := h
    have hreach : Reachable cfg s₁ := run_reachable (.init h₀) (fun _ _ _ => trivial) hrun
    have hd := (exec_ends hreach.sound).ok hexec
    intro pid pool' w hpool' hw
    rcases hd.request hreach.sound.filed hpool' hw with hl | ⟨pool, w₀, hpool, hw₀, he⟩
    · exact .inl hl
    rw [he]
    rcases ih hrun pid pool w₀ hpool hw₀ with hl | hs
    · rcases hd.listed hreach.sound.filed hl with hl' | ⟨rfl, hg⟩
      · exact .inl hl'
      · exact .inr ⟨ops, [], s₁, rfl, hrun, hl, hg⟩
    · exact .inr (hs.snoc op)

/-- **The timetable of withdrawals is in order** after every run: the
timestamps increase and are the keys of the pool lists, each listed pool exists
and is listed once, each waiting request is listed or was served past its grace
period, and the block hook's `expect`s and subtractions hold. -/
theorem timetable_in_order {n : ℕ} {s₀ : State A W} {ops : List (Op A W)} (h₀ : Genesis s₀)
    (h : run cfg n s₀ ops = .ok s) :
    s.withdrawalTimestamps.Pairwise (· < ·) ∧
    (∀ x, x ∈ s.withdrawalTimestamps ↔ s.withdrawalQueuedPools.lookup x ≠ none) ∧
    (∀ x pids, s.withdrawalQueuedPools.lookup x = some pids →
      pids.Nodup ∧ ∀ pid ∈ pids, s.stakePools.lookup pid ≠ none) ∧
    (∀ pid pool w, s.stakePools.lookup pid = some pool → w ∈ pool.withdrawQueue →
      s.Listed w.startTime pid ∨ Served cfg n s₀ ops w.startTime pid) ∧
    ∀ checks fuel e, exec (cfg.withChecks checks) fuel s .onFinalize = .error e →
      e ≠ .panic .poolListMustExist ∧ e ≠ .panic .stakePoolMustExist ∧ e ≠ .panic (.check .requestTime) := by
  have hreach : Reachable cfg s := run_reachable (.init h₀) (fun _ _ _ => trivial) h
  have ht := hreach.sound.timed
  refine ⟨ht.increasing, fun x => (ht.listed x).symm, ht.pools, run_requests h₀ h, fun checks fuel e he => ?_⟩
  have hs := hreach.sound.withChecks checks
  have hgrave : e ∉ graveFaults :=
    (State.onFinalize_ends (P := ⟨False, True, fun _ => False⟩) trivial hs.bound hs.timed).error he
  refine ⟨?_, ?_, ?_⟩ <;> rintro rfl <;> exact hgrave (by decide)

/-- A request waits past its grace period. -/
def Demo.overdue : List (Op Account ℕ) :=
  Demo.setup ++ [.contribute (.user 1) 0 1000000000000, .startMining (.user 0) 0 0 1000000000000,
    .withdraw (.user 1) 0 500000000000, .onFinalize, .time 1000000000, .onFinalize]

/-- The second block hook takes its timestamp out and checks the pool, whose miner is stopped. -/
theorem timetable_in_order_demo : ∃ s, run Demo.release 9 Demo.genesis Demo.overdue = .ok s ∧
    (s.stakePools.lookup 0).map PoolInfo.withdrawQueue = some [⟨.user 1, 500000000000, 1⟩] ∧
    (s.mining.miners.lookup (.miner 0 0)).map MinerInfo.state = some .miningCoolingDown ∧
    s.withdrawalTimestamps = [] ∧ Served Demo.release 9 Demo.genesis Demo.overdue 1 0 := by
  obtain ⟨s, hrun, hqueue, hminer, htimes⟩ := ranTo_iff.mp (by decide +kernel :
    ranTo (run Demo.release 9 Demo.genesis Demo.overdue)
      (fun s => (s.stakePools.lookup 0).map PoolInfo.withdrawQueue = some [⟨.user 1, 500000000000, 1⟩] ∧
        (s.mining.miners.lookup (.miner 0 0)).map MinerInfo.state = some .miningCoolingDown ∧
        s.withdrawalTimestamps = []) = true)
  obtain ⟨-, hkeys, -, hserved, -⟩ := timetable_in_order Demo.genesis_spec hrun
  refine ⟨s, hrun, hqueue, hminer, htimes, ?_⟩
  obtain ⟨pool, hpool, hq⟩ := Option.map_eq_some_iff.mp hqueue
  refine (hserved 0 pool _ hpool (hq ▸ List.mem_singleton_self _)).resolve_left fun ⟨pids, hlisted, _⟩ => ?_
  have hkey : 1 ∈ s.withdrawalTimestamps := (hkeys 1).mpr (by rw [hlisted]; exact Option.some_ne_none _)
  rw [htimes] at hkey
  cases hkey

end Khala
