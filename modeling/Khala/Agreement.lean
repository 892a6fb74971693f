/-
Workers, pools and miners agree in every reachable state, so that no
`expect` of the two pallets fires.
-/
import Khala.Sound

namespace Khala

open Outcome

variable {A W : Type} [DecidableEq A] [DecidableEq W] {cfg : Config A W} {s : State A W}

/-- The panics of the `expect`s and `unwrap`s that are said never to fire. -/
def qedFaults : List Fault :=
  [.panic .stakePoolMustExist, .panic .workerMustBeInPool, .panic .stoppingWorkersHaveAssignment,
    .panic .poolListMustExist, .panic .boundMiner, .panic .boundWorker, .panic .minerUnwrap]

omit [DecidableEq W] in
/-- At a desk only checks fail and requests are refused. -/
theorem Stuck.not_qed {d : Desk A W} {e : Fault} (h : Stuck cfg d e) : e ∉ qedFaults := by
  cases h with
  | refuse _ _ hp =>
    rcases hp with rfl | rfl
    · decide
    · decide
  | _ => simp [qedFaults]

omit [DecidableEq W] in
theorem Fails.not_qed {d : Desk A W} {e : Fault} (h : Fails cfg d e) : e ∉ qedFaults := by
  obtain ⟨_, _, hs⟩ := h
  exact hs.not_qed

omit [DecidableEq W] in
theorem queue_not_qed {d : Desk A W} {fuel : ℕ} {e : Fault} (h : d.tryProcessWithdrawQueue cfg fuel = .error e) :
    e ∉ qedFaults := by
  rcases Desk.tryProcessWithdrawQueue_moves.error h with rfl | hf
  · decide
  · exact hf.not_qed

/-- An operation on a state in order meets none of them. -/
theorem State.Sound.exec_not_qed {fuel : ℕ} {op : Op A W} {e : Fault} (hs : s.Sound cfg)
    (he : exec cfg fuel s op = .error e) : e ∉ qedFaults := by
  cases (exec_ends hs).error he with
  | mild he =>
    have hsub : ∀ e ∈ qedFaults, e ∈ graveFaults := by decide
    exact fun h => he (hsub e h)
  | free => decide
  | prepare _ hf => exact hf.not_qed
  | contribute _ _ _ _ hq => exact queue_not_qed hq
  | withdraw _ _ _ hf => exact hf.not_qed
  | slash => decide
  | release => decide
  | reclaim _ _ hq => exact queue_not_qed hq

/-- **Worker, pool and miner bindings agree** in every reachable state, each
worker being in at most one pool, and no `expect` on them fires. -/
theorem bindings_agree (hinj : ∀ pid w pid' w', cfg.poolSubAccount pid w = cfg.poolSubAccount pid' w' →
      pid = pid' ∧ w = w') (h : Reachable cfg s) :
    (∀ w pid, (s.workerAssignments.lookup w = some pid ↔
        ∃ pool, s.stakePools.lookup pid = some pool ∧ w ∈ pool.workers) ∧
      (s.workerAssignments.lookup w = some pid ↔
        s.mining.workerBindings.lookup w = some (cfg.poolSubAccount pid w))) ∧
    (∀ pid pool, s.stakePools.lookup pid = some pool → pool.workers.Nodup) ∧
    (∀ m w, s.mining.minerBindings.lookup m = some w ↔ s.mining.workerBindings.lookup w = some m) ∧
    (∀ w pid pool pid' pool', s.stakePools.lookup pid = some pool → s.stakePools.lookup pid' = some pool' →
      w ∈ pool.workers → w ∈ pool'.workers → pid = pid') ∧
    (∀ m w, s.mining.minerBindings.lookup m = some w →
      s.mining.miners.lookup m ≠ none ∧ s.registry.lookup w ≠ none) ∧
    ∀ checks fuel op e, exec (cfg.withChecks checks) fuel s op = .error e → e ∉ qedFaults := by
  have hb := h.sound.bound
  refine ⟨fun w pid => ⟨hb.assigned w pid, ?_⟩, hb.nodup, hb.inverse, ?_, ?_, ?_⟩
  · rw [hb.bound w, Option.map_eq_some_iff]
    refine ⟨fun ha => ⟨pid, ha, rfl⟩, fun ⟨pid', ha, he⟩ => ?_⟩
    rw [← (hinj pid' w pid w he).1]
    exact ha
  · intro w pid pool pid' pool' hpool hpool' hw hw'
    have ha := (hb.assigned w pid).mpr ⟨pool, hpool, hw⟩
    have ha' := (hb.assigned w pid').mpr ⟨pool', hpool', hw'⟩
    exact Option.some.inj (ha.symm.trans ha')
  · intro m w hm
    exact ⟨hb.miner m (by rw [hm]; nofun), hb.worker_of_binding hm⟩
  · intro checks fuel op e he
    exact (h.sound.withChecks checks).exec_not_qed he

theorem Demo.poolSubAccount_injective (checks : Check → Bool) (pid : ℕ) (w : ℕ) (pid' : ℕ) (w' : ℕ)
    (h : (Demo.cfg checks).poolSubAccount pid w = (Demo.cfg checks).poolSubAccount pid' w') :
    pid = pid' ∧ w = w' := by
  cases h
  exact ⟨rfl, rfl⟩

/-- A worker unbound while its miner cools down, and added to another pool. -/
theorem bindings_agree_demo : ∃ s, Reachable Demo.release s ∧
    s.mining.workerBindings.lookup 0 = some (.miner 1 0) ∧ s.workerAssignments.lookup 0 = some 1 := by
  have hrun := ranTo_iff.mp (by decide +kernel :
    ranTo (run Demo.release 9 Demo.genesis (Demo.setup ++ [.contribute (.user 1) 0 1000000000000,
      .startMining (.user 0) 0 0 1000000000000, .unbind (.user 0) (.miner 0 0), .create (.user 0),
      .addWorker (.user 0) 1 0]))
      (fun s => s.mining.workerBindings.lookup 0 = some (.miner 1 0)) = true)
  obtain ⟨s, hrun, hs⟩ := hrun
  have h := Demo.run_genesis hrun
  obtain ⟨hagree, -⟩ := bindings_agree (Demo.poolSubAccount_injective _) h
  exact ⟨s, h, hs, ((hagree 0 1).2).mpr hs⟩

end Khala
