/-
Workers, pools and miners: five views of who mines for whom, in two pallets.

`Bound` says that they agree, and holds between any two small changes: each
change that binds or releases a worker writes all the views it concerns. It
is what the `expect`s of the two pallets rely on.
-/
import Khala.Changes

namespace Khala

variable {A W : Type} [DecidableEq A] [DecidableEq W] {cfg : Config A W} {s s' : State A W} {P : Permit}

namespace State

/-- The views of workers, pools and miners agree. -/
structure Bound (cfg : Config A W) (s : State A W) : Prop where
  /-- A worker is assigned to the pool that lists it. -/
  assigned : ∀ w pid, s.workerAssignments.lookup w = some pid ↔
    ∃ pool, s.stakePools.lookup pid = some pool ∧ w ∈ pool.workers
  nodup : ∀ pid pool, s.stakePools.lookup pid = some pool → pool.workers.Nodup
  /-- A worker is bound to the sub-account of its pool. -/
  bound : ∀ w, s.mining.workerBindings.lookup w =
    (s.workerAssignments.lookup w).map fun pid => cfg.poolSubAccount pid w
  inverse : ∀ m w, s.mining.minerBindings.lookup m = some w ↔ s.mining.workerBindings.lookup w = some m
  miner : ∀ m, s.mining.minerBindings.lookup m ≠ none → s.mining.miners.lookup m ≠ none
  worker : ∀ w, s.mining.workerBindings.lookup w ≠ none → s.registry.lookup w ≠ none

namespace Bound

variable {m : A} {w : W} {pid : ℕ} {pool pool' : PoolInfo A W}

/-- A bound worker's pool. -/
theorem pool_of_binding (h : s.Bound cfg) (hb : s.mining.minerBindings.lookup m = some w) :
    ∃ pid pool, s.workerAssignments.lookup w = some pid ∧ m = cfg.poolSubAccount pid w ∧
      s.stakePools.lookup pid = some pool ∧ w ∈ pool.workers := by
  have hw := (h.inverse m w).mp hb
  rw [h.bound w] at hw
  obtain ⟨pid, hpid, rfl⟩ := Option.map_eq_some_iff.mp hw
  obtain ⟨pool, hpool, hmem⟩ := (h.assigned w pid).mp hpid
  exact ⟨pid, pool, hpid, rfl, hpool, hmem⟩

/-- The miner of an assigned worker. -/
theorem binding_of_assignment (h : s.Bound cfg) (ha : s.workerAssignments.lookup w = some pid) :
    s.mining.minerBindings.lookup (cfg.poolSubAccount pid w) = some w := by
  refine (h.inverse _ _).mpr ?_
  rw [h.bound w, ha]
  rfl

theorem miner_of_assignment (h : s.Bound cfg) (ha : s.workerAssignments.lookup w = some pid) :
    ∃ info, s.mining.miners.lookup (cfg.poolSubAccount pid w) = some info := by
  refine Option.ne_none_iff_exists'.mp (h.miner _ ?_)
  rw [h.binding_of_assignment ha]
  nofun

theorem pool_of_assignment (h : s.Bound cfg) (ha : s.workerAssignments.lookup w = some pid) :
    ∃ pool, s.stakePools.lookup pid = some pool := by
  obtain ⟨pool, hpool, _⟩ := (h.assigned w pid).mp ha
  exact ⟨pool, hpool⟩

theorem worker_of_binding (h : s.Bound cfg) (hb : s.mining.minerBindings.lookup m = some w) :
    s.registry.lookup w ≠ none := by
  refine h.worker w ?_
  rw [(h.inverse m w).mp hb]
  nofun

/-! ## What keeps it -/

theorem of_eq (h : s.Bound cfg) (hp : s'.stakePools = s.stakePools)
    (ha : s'.workerAssignments = s.workerAssignments) (hm : s'.mining.minerBindings = s.mining.minerBindings)
    (hw : s'.mining.workerBindings = s.mining.workerBindings)
    (hi : ∀ m, s.mining.miners.lookup m ≠ none → s'.mining.miners.lookup m ≠ none)
    (hr : ∀ w, s.registry.lookup w ≠ none → s'.registry.lookup w ≠ none) : s'.Bound cfg where
  assigned w pid := by rw [ha, hp]; exact h.assigned w pid
  nodup pid pool hpool := h.nodup pid pool (hp ▸ hpool)
  bound w := by rw [hw, ha]; exact h.bound w
  inverse m w := by rw [hm, hw]; exact h.inverse m w
  miner m hb := hi m (h.miner m (hm ▸ hb))
  worker w hb := hr w (h.worker w (hw ▸ hb))

/-- Writing a record of a miner. -/
theorem putMiner (h : s.Bound cfg) (m : A) (info : MinerInfo) : (s.putMiner m info).Bound cfg := by
  refine h.of_eq rfl rfl rfl rfl (fun m' hm' => ?_) fun _ hw => hw
  simp only [State.putMiner, StorageMap.lookup_insert_ite]
  split
  · nofun
  · exact hm'

/-- Writing a pool that lists the same workers. -/
theorem putPool (h : s.Bound cfg) (hpool : s.stakePools.lookup pid = some pool)
    (hw : pool'.workers = pool.workers) : (s.putPool pid pool').Bound cfg where
  assigned w pid' := by
    refine (h.assigned w pid').trans ⟨fun ⟨p, hp, hmem⟩ => ?_, fun ⟨p, hp, hmem⟩ => ?_⟩
    · by_cases he : pid' = pid
      · subst he
        refine ⟨pool', (lookup_putPool _ _ _).trans (if_pos rfl), ?_⟩
        rw [hpool] at hp
        cases hp
        exact hw ▸ hmem
      · exact ⟨p, ((lookup_putPool _ _ _).trans (if_neg he)).trans hp, hmem⟩
    · rw [lookup_putPool] at hp
      split at hp
      · next he =>
        cases hp
        exact ⟨pool, he ▸ hpool, hw ▸ hmem⟩
      · exact ⟨p, hp, hmem⟩
  nodup pid' p hp := by
    rw [lookup_putPool] at hp
    split at hp
    · cases hp
      rw [hw]
      exact h.nodup pid pool hpool
    · exact h.nodup pid' p hp
  bound := h.bound
  inverse := h.inverse
  miner := h.miner
  worker := h.worker

/-- A worker without a binding is in no pool. -/
theorem not_mem_of_unbound (h : s.Bound cfg) (hw : s.mining.workerBindings.lookup w = none)
    (hpool : s.stakePools.lookup pid = some pool) : w ∉ pool.workers := by
  intro hmem
  have ha := (h.assigned w pid).mpr ⟨pool, hpool, hmem⟩
  rw [h.bound w, ha] at hw
  cases hw

theorem added (h : s.Bound cfg) {info : MinerInfo} (hm : m = cfg.poolSubAccount pid w)
    (hpool : s.stakePools.lookup pid = some pool) (hr : s.registry.lookup w ≠ none)
    (hmn : s.mining.minerBindings.lookup m = none) (hwn : s.mining.workerBindings.lookup w = none) :
    (s.added m w info pid pool).Bound cfg := by
  have hla : ∀ w', (s.added m w info pid pool).workerAssignments.lookup w' =
      if w' = w then some pid else s.workerAssignments.lookup w' := fun _ => StorageMap.lookup_insert_ite _ _ _ _
  have hlp : ∀ pid', (s.added m w info pid pool).stakePools.lookup pid' =
      if pid' = pid then some { pool with workers := pool.workers ++ [w] }
      else s.stakePools.lookup pid' := fun _ =>
    StorageMap.lookup_insert_ite _ _ _ _
  have hlw : ∀ w', (s.added m w info pid pool).mining.workerBindings.lookup w' =
      if w' = w then some m else s.mining.workerBindings.lookup w' := fun _ => StorageMap.lookup_insert_ite _ _ _ _
  have hlm : ∀ m', (s.added m w info pid pool).mining.minerBindings.lookup m' =
      if m' = m then some w else s.mining.minerBindings.lookup m' := fun _ => StorageMap.lookup_insert_ite _ _ _ _
  have hli : ∀ m', (s.added m w info pid pool).mining.miners.lookup m' =
      if m' = m then some info else s.mining.miners.lookup m' := fun _ => StorageMap.lookup_insert_ite _ _ _ _
  constructor
  · intro w' pid'
    rw [hla, hlp]
    by_cases hw : w' = w <;> by_cases hpid : pid' = pid
    · subst hw hpid
      simp
    · subst hw
      simp only [if_true, Option.some.injEq, if_neg hpid]
      refine ⟨fun he => absurd he.symm hpid, fun ⟨pool', hp', hmem⟩ => ?_⟩
      exact absurd hmem (h.not_mem_of_unbound hwn hp')
    · subst hpid
      simp [hw, h.assigned, hpool]
    · simp only [if_neg hw, if_neg hpid, h.assigned]
  · intro pid' pool' hp'
    rw [hlp] at hp'
    split at hp'
    · cases hp'
      exact (h.nodup pid pool hpool).append (List.nodup_singleton w) (by simp [h.not_mem_of_unbound hwn hpool])
    · exact h.nodup pid' pool' hp'
  · intro w'
    rw [hla, hlw]
    split
    · next he => rw [he, hm]; rfl
    · exact h.bound w'
  · intro m' w'
    rw [hlw, hlm]
    have hinv := h.inverse
    by_cases hw : w' = w <;> by_cases hm' : m' = m
    · simp [hw, hm']
    · have hne : ¬m = m' := fun he => hm' he.symm
      simp [hw, hm', hne, hinv, hwn]
    · have hne : ¬w = w' := fun he => hw he.symm
      simp [hw, hm', hne, ← hinv, hmn]
    · simp only [if_neg hw, if_neg hm', hinv]
  · intro m' hb
    rw [hlm] at hb
    rw [hli]
    split at hb
    · next he => simp [he]
    · next he => simpa [he] using h.miner m' hb
  · intro w' hb
    rw [hlw] at hb
    split at hb
    · next he => exact he ▸ hr
    · exact h.worker w' hb

theorem released (h : s.Bound cfg) (hb : s.mining.minerBindings.lookup m = some w)
    (ha : s.workerAssignments.lookup w = some pid) (hpool : s.stakePools.lookup pid = some pool) :
    (s.released m w pid pool).Bound cfg := by
  have hla : ∀ w', (s.released m w pid pool).workerAssignments.lookup w' =
      if w' = w then none else s.workerAssignments.lookup w' := fun _ => StorageMap.lookup_erase_ite _ _ _
  have hlp : ∀ pid', (s.released m w pid pool).stakePools.lookup pid' =
      if pid' = pid then some (pool.removeWorker w) else s.stakePools.lookup pid' := fun _ =>
    StorageMap.lookup_insert_ite _ _ _ _
  have hlw : ∀ w', (s.released m w pid pool).mining.workerBindings.lookup w' =
      if w' = w then none else s.mining.workerBindings.lookup w' := fun _ => StorageMap.lookup_erase_ite _ _ _
  have hlm : ∀ m', (s.released m w pid pool).mining.minerBindings.lookup m' =
      if m' = m then none else s.mining.minerBindings.lookup m' := fun _ => StorageMap.lookup_erase_ite _ _ _
  constructor
  · intro w' pid'
    rw [hla, hlp]
    by_cases hw : w' = w <;> by_cases hpid : pid' = pid
    · subst hw hpid
      simp [PoolInfo.removeWorker]
    · subst hw
      simp only [if_true, reduceCtorEq, if_neg hpid, false_iff]
      intro ⟨pool', hp', hmem⟩
      have ha' := (h.assigned w' pid').mpr ⟨pool', hp', hmem⟩
      exact hpid (Option.some.inj (ha'.symm.trans ha))
    · subst hpid
      simp [PoolInfo.removeWorker, hw, h.assigned, hpool]
    · simp only [if_neg hw, if_neg hpid, h.assigned]
  · intro pid' pool' hp'
    rw [hlp] at hp'
    split at hp'
    · cases hp'
      exact (h.nodup pid pool hpool).filter _
    · exact h.nodup pid' pool' hp'
  · intro w'
    rw [hla, hlw]
    split
    · rfl
    · exact h.bound w'
  · intro m' w'
    rw [hlm, hlw]
    have hwb := (h.inverse m w).mp hb
    by_cases hw : w' = w <;> by_cases hm' : m' = m
    · simp [hw, hm']
    · subst hw
      simp only [if_neg hm', if_true, reduceCtorEq, iff_false]
      exact fun he => hm' (Option.some.inj (((h.inverse m' w').mp he).symm.trans hwb))
    · subst hm'
      simp only [if_true, if_neg hw, reduceCtorEq, false_iff]
      exact fun he => hw (Option.some.inj (((h.inverse m' w').mpr he).symm.trans hb))
    · simp only [if_neg hw, if_neg hm', h.inverse]
  · intro m' hb'
    rw [hlm] at hb'
    split at hb'
    · exact absurd rfl hb'
    · exact h.miner m' hb'
  · intro w' hb'
    rw [hlw] at hb'
    split at hb'
    · exact absurd rfl hb'
    · exact h.worker w' hb'

theorem stopped {info : MinerInfo} {onlineMiners slashed : ℕ} (h : s.Bound cfg)
    (hpool : s.stakePools.lookup pid = some pool) :
    (s.stopped m info onlineMiners pid pool slashed).Bound cfg := by
  have h₁ : (s.putPool pid { pool with
    releasingStake := pool.releasingStake + (s.stakeOf m - slashed) }).Bound cfg := h.putPool hpool rfl
  exact (h₁.putMiner m (info.coolDown s.nowSec)).of_eq rfl rfl rfl rfl (fun _ hm => hm) fun _ hw => hw

theorem aside (h : s.Bound cfg) (ha : Aside cfg P s s') : s'.Bound cfg := by
  cases ha with
  | other hs =>
    exact h.of_eq hs.stakePools hs.workerAssignments hs.minerBindings hs.workerBindings
      (fun _ hm => hs.miners ▸ hm) hs.registry
  | pool hpool hs => exact h.putPool hpool hs.workers
  | staker => exact h.of_eq rfl rfl rfl rfl (fun _ hm => hm) fun _ hw => hw
  | funds => exact h.of_eq rfl rfl rfl rfl (fun _ hm => hm) fun _ hw => hw
  | miner => exact h.putMiner _ _
  | bind hm hpool hr hmn hwn => exact h.added hm hpool hr hmn hwn
  | release hb ha hpool => exact h.released hb ha hpool
  | stop _ _ _ _ _ _ hpool => exact h.stopped hpool

theorem asides (h : s.Bound cfg) (ha : Asides cfg P s s') : s'.Bound cfg := by
  induction ha with
  | refl => exact h
  | tail _ ha ih => exact ih.aside ha

end Bound

end State

end Khala
