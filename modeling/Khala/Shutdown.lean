/-
What the block hook does to pools with expired withdrawals.

It takes a timestamp out once, and checks the pools listed under it then. A
pool it checks is stopped if a request of it has expired; a pool it does not
check stays as it was.
-/
import Khala.Requests

namespace Khala

open Outcome

variable {A W : Type} [DecidableEq A] [DecidableEq W] {cfg : Config A W} {s s' s₁ : State A W} {pid : ℕ}
  {hit hit' : Prop}

/-! ## What is to hold -/

/-- `stop_mining` is for the states of a settlement. -/
theorem MinerState.canSettle_iff {state : MinerState} :
    state.canSettle = true ↔ state ≠ .ready ∧ state ≠ .miningCoolingDown := by
  cases state <;> decide

namespace State

/-- The miner is in a mining state. -/
def AtWork (s : State A W) (m : A) : Prop :=
  ∃ info, s.mining.miners.lookup m = some info ∧ info.state.canSettle = true

/-- A worker of the pool is in a mining state. -/
def Mines (cfg : Config A W) (s : State A W) (pid : ℕ) : Prop :=
  ∃ pool, s.stakePools.lookup pid = some pool ∧ ∃ w ∈ pool.workers, s.AtWork (cfg.poolSubAccount pid w)

/-- The pool has an expired withdrawal. -/
def Expired (cfg : Config A W) (s : State A W) (pid : ℕ) : Prop :=
  ∃ pool, s.stakePools.lookup pid = some pool ∧
    pool.hasExpiredWithdrawal cfg s.nowSec cfg.gracePeriod = .ok true

instance (s : State A W) (m : A) : Decidable (s.AtWork m) :=
  inferInstanceAs (Decidable (∃ info ∈ s.mining.miners.lookup m, info.state.canSettle = true))

instance (s : State A W) : Decidable (s.Mines cfg pid) :=
  inferInstanceAs (Decidable (∃ pool ∈ s.stakePools.lookup pid,
    ∃ w ∈ pool.workers, s.AtWork (cfg.poolSubAccount pid w)))

instance (s : State A W) : Decidable (s.Expired cfg pid) :=
  inferInstanceAs (Decidable (∃ pool ∈ s.stakePools.lookup pid,
    pool.hasExpiredWithdrawal cfg s.nowSec cfg.gracePeriod = .ok true))

/-- The pool is listed under a time that the block hook takes out now. -/
def Due (cfg : Config A W) (s : State A W) (pid : ℕ) : Prop :=
  ∃ t, s.Listed t pid ∧ cfg.gracePeriod < s.nowSec - t

instance (s : State A W) : Decidable (s.Due cfg pid) :=
  decidable_of_iff (∃ t ∈ s.withdrawalQueuedPools.keys, (∃ pids ∈ s.withdrawalQueuedPools.lookup t, pid ∈ pids) ∧
      cfg.gracePeriod < s.nowSec - t)
    ⟨fun ⟨t, _, hlisted, hage⟩ => ⟨t, hlisted, hage⟩, fun ⟨t, ⟨pids, hpids, hmem⟩, hage⟩ =>
      ⟨t, AList.mem_keys.mpr (AList.lookup_isSome.mp (by rw [hpids]; rfl)), ⟨pids, hpids, hmem⟩, hage⟩⟩

/-! ## What one shutdown changes -/

/-- The pool, its miners and the time are the same. -/
structure Kept (cfg : Config A W) (pid : ℕ) (s s' : State A W) : Prop where
  now : s'.now = s.now
  pool : s'.stakePools.lookup pid = s.stakePools.lookup pid
  miners : ∀ pool, s.stakePools.lookup pid = some pool → ∀ w ∈ pool.workers,
    s'.mining.miners.lookup (cfg.poolSubAccount pid w) = s.mining.miners.lookup (cfg.poolSubAccount pid w)

namespace Kept

omit [DecidableEq W] in
theorem refl : Kept cfg pid s s := ⟨rfl, rfl, fun _ _ _ _ => rfl⟩

omit [DecidableEq W] in
/-- The timetable is not the pool's. -/
theorem rescheduled {pools : StorageMap ℕ (List ℕ)} {timestamps : List ℕ} :
    Kept cfg pid s { s with withdrawalQueuedPools := pools, withdrawalTimestamps := timestamps } :=
  ⟨rfl, rfl, fun _ _ _ _ => rfl⟩

omit [DecidableEq W] in
theorem trans (h : Kept cfg pid s s₁) (h' : Kept cfg pid s₁ s') : Kept cfg pid s s' := by
  refine ⟨h'.now.trans h.now, h'.pool.trans h.pool, fun pool hpool w hw => ?_⟩
  exact (h'.miners pool (h.pool.trans hpool) w hw).trans (h.miners pool hpool w hw)

omit [DecidableEq W] in
theorem expired (h : Kept cfg pid s s') : s'.Expired cfg pid ↔ s.Expired cfg pid := by
  unfold Expired nowSec
  rw [h.pool, h.now]

omit [DecidableEq W] in
theorem mines (h : Kept cfg pid s s') : s'.Mines cfg pid ↔ s.Mines cfg pid := by
  unfold Mines AtWork
  rw [h.pool]
  refine exists_congr fun pool => and_congr_right fun hpool => exists_congr fun w => and_congr_right fun hw => ?_
  rw [h.miners pool hpool w hw]

end Kept

/-- The pool was checked if `hit` holds, and left alone otherwise. -/
structure Checked (cfg : Config A W) (pid : ℕ) (hit : Prop) (s s' : State A W) : Prop where
  stops : hit → s'.Expired cfg pid → ¬s'.Mines cfg pid
  kept : ¬hit → Kept cfg pid s s'

namespace Checked

omit [DecidableEq W] in
theorem refl (h : ¬hit) : Checked cfg pid hit s s := ⟨fun hhit => absurd hhit h, fun _ => .refl⟩

omit [DecidableEq W] in
theorem trans (h : Checked cfg pid hit s s₁) (h' : Checked cfg pid hit' s₁ s') :
    Checked cfg pid (hit ∨ hit') s s' := by
  refine ⟨fun hor => ?_, fun hnot => ?_⟩
  · by_cases hhit' : hit'
    · exact h'.stops hhit'
    · have hkept := h'.kept hhit'
      rw [hkept.expired, hkept.mines]
      exact h.stops (hor.resolve_right hhit')
  · exact (h.kept fun hhit => hnot (.inl hhit)).trans (h'.kept fun hhit' => hnot (.inr hhit'))

omit [DecidableEq W] in
theorem congr (h : Checked cfg pid hit s s') (he : hit ↔ hit') : Checked cfg pid hit' s s' :=
  ⟨fun hhit => h.stops (he.mpr hhit), fun hnot => h.kept fun hhit => hnot (he.mp hhit)⟩

end Checked

/-! ## Stopping one miner -/

/-- An assigned worker's miner is stopped, unless it is not at work. -/
theorem stopMining_of_assigned {w : W} (hb : s.Bound cfg) (ha : s.workerAssignments.lookup w = some pid) :
    Ends (s.stopMining cfg (cfg.poolSubAccount pid w))
      (fun s' => ∃ info onlineMiners pool slashed, s.stakePools.lookup pid = some pool ∧
        s' = s.stopped (cfg.poolSubAccount pid w) info onlineMiners pid pool slashed)
      fun e => ∀ d, e = .dispatch d → ¬s.AtWork (cfg.poolSubAccount pid w) := by
  obtain ⟨info, hinfo⟩ := hb.miner_of_assignment ha
  obtain ⟨pool, hpool⟩ := hb.pool_of_assignment ha
  unfold stopMining
  refine Ends.bind (Ends.get_of (hb.binding_of_assignment ha)) ?_
  rintro _ rfl
  refine Ends.bind (Ends.get_of hinfo) ?_
  rintro info rfl
  refine Ends.bind (Ends.require fun hstate _ _ hwork => ?_) fun _ _ => ?_
  · obtain ⟨info', hinfo', hsettle⟩ := hwork
    rw [hinfo] at hinfo'
    cases hinfo'
    exact hstate (MinerState.canSettle_iff.mp hsettle)
  refine Ends.bind (Q := fun _ => True) ?_ fun onlineMiners _ => ?_
  · unfold lessOnline
    split
    · trivial
    · split
      · exact fun d hd => nomatch hd
      · trivial
  refine Ends.bind (calcFinalStake_ends fun _ => nofun) ?_
  rintro ⟨returned, _⟩ ⟨hle, rfl⟩
  refine Ends.bind (onStopped_ends ha hpool (Nat.sub_le _ _)) ?_
  rintro _ rfl
  exact ⟨info, onlineMiners, pool, _, hpool, rfl⟩

/-- The workers of two pools have miners of their own: one account for two workers would be bound to both. -/
theorem Bound.subAccount_ne {w w' : W} {pid' : ℕ} {pool pool' : PoolInfo A W} (hb : s.Bound cfg)
    (hpool : s.stakePools.lookup pid = some pool) (hw : w ∈ pool.workers)
    (hpool' : s.stakePools.lookup pid' = some pool') (hw' : w' ∈ pool'.workers) (hne : pid' ≠ pid) :
    cfg.poolSubAccount pid' w' ≠ cfg.poolSubAccount pid w := by
  intro he
  have ha := (hb.assigned w pid).mpr ⟨pool, hpool, hw⟩
  have ha' := (hb.assigned w' pid').mpr ⟨pool', hpool', hw'⟩
  have hbinding := hb.binding_of_assignment ha'
  rw [he, hb.binding_of_assignment ha] at hbinding
  cases hbinding
  exact hne (Option.some.inj (ha'.symm.trans ha))

theorem stopped_kept {w : W} {info : MinerInfo} {onlineMiners slashed pid' : ℕ} {pool : PoolInfo A W}
    (hb : s.Bound cfg) (ha : s.workerAssignments.lookup w = some pid) (hne : pid' ≠ pid) :
    Kept cfg pid' s (s.stopped (cfg.poolSubAccount pid w) info onlineMiners pid pool slashed) := by
  refine ⟨rfl, (lookup_putPool _ _ _).trans (if_neg hne), fun pool' hpool' w' hw' => ?_⟩
  obtain ⟨pool₀, hpool₀, hw₀⟩ := (hb.assigned w pid).mp ha
  exact (StorageMap.lookup_insert_ite _ _ _ _).trans (if_neg (hb.subAccount_ne hpool₀ hw₀ hpool' hw' hne))

omit [DecidableEq W] in
theorem atWork_stopped {m m' : A} {info : MinerInfo} {onlineMiners slashed : ℕ} {pool : PoolInfo A W}
    (h : (s.stopped m info onlineMiners pid pool slashed).AtWork m') : m' ≠ m ∧ s.AtWork m' := by
  obtain ⟨info', hinfo', hsettle⟩ := h
  have hinfo' := (StorageMap.lookup_insert_ite _ _ _ _).symm.trans hinfo'
  split at hinfo'
  · cases hinfo'
    cases hsettle
  · next hne => exact ⟨hne, info', hinfo', hsettle⟩

/-- What an attempt to stop an assigned worker's miner leaves. -/
theorem tryStopMining_of_assigned {w : W} (hb : s.Bound cfg) (ha : s.workerAssignments.lookup w = some pid) :
    Ends (s.tryStopMining cfg (cfg.poolSubAccount pid w))
      (fun s' => s'.Bound cfg ∧ s'.workerAssignments = s.workerAssignments ∧ s'.now = s.now ∧
        (∀ pid' ≠ pid, Kept cfg pid' s s') ∧ ∀ m, s'.AtWork m → m ≠ cfg.poolSubAccount pid w ∧ s.AtWork m)
      fun _ => True := by
  have hstop := stopMining_of_assigned hb ha
  unfold tryStopMining
  split
  · next d hd =>
    refine ⟨hb, rfl, rfl, fun _ _ => .refl, fun m hm => ⟨?_, hm⟩⟩
    rintro rfl
    exact hstop.error hd d rfl hm
  · refine hstop.mono (fun s' hs' => ?_) fun _ _ => trivial
    obtain ⟨info, onlineMiners, pool, slashed, hpool, rfl⟩ := hs'
    exact ⟨hb.stopped hpool, rfl, rfl, fun pid' hne => stopped_kept hb ha hne, fun m hm => atWork_stopped hm⟩

/-! ## The check of a pool -/

/-- Stopping all miners of a pool leaves none at work, and the other pools alone. -/
theorem stopAll_stops {pool : PoolInfo A W} (hb : s.Bound cfg) (hpool : s.stakePools.lookup pid = some pool) :
    Ends (pool.workers.foldlM (fun s worker => s.tryStopMining cfg (cfg.poolSubAccount pid worker)) s)
      (fun s' => s'.Bound cfg ∧ s'.now = s.now ∧ ¬s'.Mines cfg pid ∧ ∀ pid' ≠ pid, Kept cfg pid' s s')
      fun _ => True := by
  have hassigned : ∀ w ∈ pool.workers, s.workerAssignments.lookup w = some pid := fun w hw =>
    (hb.assigned w pid).mpr ⟨pool, hpool, hw⟩
  -- A worker of the pool is still to come, or is at work no more.
  let R (rest : List W) (s₁ : State A W) : Prop :=
    s₁.Bound cfg ∧ s₁.workerAssignments = s.workerAssignments ∧ s₁.now = s.now ∧
      (∀ pid' ≠ pid, Kept cfg pid' s s₁) ∧ (∀ w ∈ rest, w ∈ pool.workers) ∧
      ∀ w ∈ pool.workers, w ∈ rest ∨ ¬s₁.AtWork (cfg.poolSubAccount pid w)
  have hloop : Ends (pool.workers.foldlM (fun s worker => s.tryStopMining cfg (cfg.poolSubAccount pid worker)) s)
      (R []) fun _ => True := by
    refine Ends.foldlM_rest (R := R) (fun w rest s₁ hR => ?_)
      ⟨hb, rfl, rfl, fun _ _ => .refl, fun _ hw => hw, fun _ hw => .inl hw⟩
    obtain ⟨hb₁, ha₁, hn₁, hk₁, hmem, hdone⟩ := hR
    have ha : s₁.workerAssignments.lookup w = some pid := ha₁ ▸ hassigned w (hmem w List.mem_cons_self)
    refine (tryStopMining_of_assigned hb₁ ha).mono (fun s₂ h₂ => ?_) fun _ h => h
    obtain ⟨hb₂, ha₂, hn₂, hk₂, hwork⟩ := h₂
    refine ⟨hb₂, ha₂.trans ha₁, hn₂.trans hn₁, fun pid' hne => (hk₁ pid' hne).trans (hk₂ pid' hne),
      fun w' hw' => hmem w' (List.mem_cons_of_mem w hw'), fun w' hw' => ?_⟩
    rcases hdone w' hw' with hin | hidle
    · rcases List.mem_cons.mp hin with rfl | hin
      · exact .inr fun hm => (hwork _ hm).1 rfl
      · exact .inl hin
    · exact .inr fun hm => hidle (hwork _ hm).2
  refine hloop.mono (fun s' hR => ?_) fun _ h => h
  obtain ⟨hb', ha', hn', hk', -, hdone⟩ := hR
  refine ⟨hb', hn', fun hmines => ?_, hk'⟩
  obtain ⟨pool', hpool', w, hw, hwork⟩ := hmines
  have ha : s.workerAssignments.lookup w = some pid := ha' ▸ (hb'.assigned w pid).mpr ⟨pool', hpool', hw⟩
  obtain ⟨pool₀, hpool₀, hw₀⟩ := (hb.assigned w pid).mp ha
  rw [hpool] at hpool₀
  cases hpool₀
  exact (hdone w hw₀).elim nofun fun hidle => hidle hwork

/-- The check of a pool stops it if a withdrawal has expired, and leaves the other pools alone. -/
theorem forceShutdown_checked (pid : ℕ) {pid' : ℕ} (hb : s.Bound cfg) :
    Ends (forceShutdown cfg s.nowSec s pid')
      (fun s' => s'.Bound cfg ∧ s'.now = s.now ∧ Checked cfg pid (pid' = pid) s s') fun _ => True := by
  refine Ends.bind (Ends.get fun _ => trivial) fun pool hpool => ?_
  refine Ends.bind (Q := fun expired => pool.hasExpiredWithdrawal cfg s.nowSec cfg.gracePeriod = .ok expired)
    (ends_iff.mpr ⟨fun _ h => h, fun _ _ => trivial⟩) fun expired hexpired => ?_
  split
  · refine (stopAll_stops hb hpool).mono (fun s' h' => ?_) fun _ h => h
    obtain ⟨hb', hn', hidle, hkept⟩ := h'
    exact ⟨hb', hn', fun he _ => he ▸ hidle, fun hne => hkept pid (Ne.symm hne)⟩
  · next hno =>
    refine ⟨hb, rfl, fun he hexp => ?_, fun _ => .refl⟩
    subst he
    obtain ⟨pool', hpool', hyes⟩ := hexp
    rw [hpool] at hpool'
    cases hpool'
    rw [hexpired] at hyes
    exact absurd (Except.ok.inj hyes) hno

/-- The checks of the pools of one timestamp. -/
theorem forceShutdowns_checked (pid : ℕ) {pids : List ℕ} (hb : s.Bound cfg) :
    Ends (pids.foldlM (forceShutdown cfg s.nowSec) s)
      (fun s' => s'.Bound cfg ∧ s'.now = s.now ∧ Checked cfg pid (pid ∈ pids) s s') fun _ => True := by
  induction pids generalizing s with
  | nil => exact ⟨hb, rfl, .refl List.not_mem_nil⟩
  | cons pid' pids ih =>
    rw [List.foldlM_cons]
    refine Ends.bind (forceShutdown_checked pid hb) fun s₁ h₁ => ?_
    obtain ⟨hb₁, hn₁, hc₁⟩ := h₁
    have hsec : s₁.nowSec = s.nowSec := congrArg (· / 1000) hn₁
    refine (hsec ▸ ih hb₁).mono (fun s' h' => ?_) fun _ h => h
    obtain ⟨hb', hn', hc'⟩ := h'
    refine ⟨hb', hn'.trans hn₁, (hc₁.trans hc').congr ?_⟩
    rw [List.mem_cons, eq_comm]

/-! ## The block hook -/

omit [DecidableEq A] [DecidableEq W] in
/-- A pool is due if it is listed under the timestamp that is taken out, or is due without it. -/
theorem due_iff {x : ℕ} {pids : List ℕ} (hpids : s.withdrawalQueuedPools.lookup x = some pids)
    (hage : cfg.gracePeriod < s.nowSec - x) (hpools : s₁.withdrawalQueuedPools = s.withdrawalQueuedPools.erase x)
    (hsec : s₁.nowSec = s.nowSec) : s.Due cfg pid ↔ pid ∈ pids ∨ s₁.Due cfg pid := by
  unfold Due Listed
  rw [hpools, hsec]
  constructor
  · rintro ⟨y, ⟨pids', hpids', hmem⟩, hy⟩
    by_cases he : y = x
    · subst he
      rw [hpids] at hpids'
      cases hpids'
      exact .inl hmem
    · exact .inr ⟨y, ⟨pids', (StorageMap.lookup_erase_ite _ _ _).trans ((if_neg he).trans hpids'), hmem⟩, hy⟩
  · rintro (hmem | ⟨y, ⟨pids', hpids', hmem⟩, hy⟩)
    · exact ⟨x, ⟨pids, hpids, hmem⟩, hage⟩
    · rw [StorageMap.lookup_erase_ite] at hpids'
      split at hpids'
      · cases hpids'
      · exact ⟨y, ⟨pids', hpids', hmem⟩, hy⟩

omit [DecidableEq A] [DecidableEq W] in
/-- No pool is due where the timestamps from `x` on are within the grace period. -/
theorem not_due {t : List ℕ} (ht : s.Timed s.nowSec t) (h : ∀ x ∈ t, s.nowSec - x ≤ cfg.gracePeriod) :
    ¬s.Due cfg pid := by
  rintro ⟨y, ⟨pids, hpids, -⟩, hage⟩
  have hy : y ∈ t := (ht.listed y).mp (by rw [hpids]; nofun)
  exact absurd (h y hy) (by omega)

/-- The loop over the timestamps checks the pools listed under those past the grace period. -/
theorem forceTimestamps_checked (pid : ℕ) {t : List ℕ} (hb : s.Bound cfg) (ht : s.Timed s.nowSec t) :
    Ends (s.forceTimestamps cfg s.nowSec t) (Checked cfg pid (s.Due cfg pid) s) fun _ => True := by
  induction t generalizing s with
  | nil => exact ⟨fun hdue => absurd hdue (not_due ht nofun), fun _ => .rescheduled⟩
  | cons x t ih =>
    unfold forceTimestamps
    rw [Config.sub64_of_le cfg (ht.past x List.mem_cons_self)]
    refine Ends.bind (Q := fun waiting => waiting = s.nowSec - x) rfl ?_
    rintro _ rfl
    split
    · next hyoung =>
      have hlt : ∀ y ∈ t, x < y := (List.pairwise_cons.mp ht.increasing).1
      refine ⟨fun hdue => absurd hdue (not_due ht fun y hy => ?_), fun _ => .rescheduled⟩
      rcases List.mem_cons.mp hy with rfl | hy
      · exact hyoung
      · have := hlt y hy
        omega
    next hold =>
    refine Ends.bind (Ends.get fun _ => trivial) fun pids hpids => ?_
    have hb₁ : ({ s with withdrawalQueuedPools := s.withdrawalQueuedPools.erase x } : State A W).Bound cfg :=
      hb.of_eq rfl rfl rfl rfl (fun _ h => h) fun _ h => h
    refine Ends.bind (forceShutdowns_checked pid hb₁).result fun s₂ h₂ => ?_
    obtain ⟨hrun, hb₂, hn₂, hc₂⟩ := h₂
    have ha := (forceShutdowns_ends (P := .none) hb₁ (ht.pools x pids hpids).2 ht.tail.requests).ok hrun
    have hsec : s₂.nowSec = s.nowSec := congrArg (· / 1000) hn₂
    have hdue : s.Due cfg pid ↔ pid ∈ pids ∨ s₂.Due cfg pid :=
      due_iff hpids (Nat.not_le.mp hold) (ha.sameTimetable id).pools hsec
    have ht₂ : s₂.Timed s₂.nowSec t := hsec ▸ ht.tail.asides ha id
    have hrest := ih hb₂ ht₂
    rw [hsec] at hrest
    refine hrest.mono (fun s' h' => ?_) fun _ h => h
    exact ((Checked.trans ⟨hc₂.stops, fun hnot => Kept.rescheduled.trans (hc₂.kept hnot)⟩ h').congr hdue.symm)

/-- After the block hook, the pools that were due are stopped if a withdrawal of theirs has expired; the others
are as they were. -/
theorem onFinalize_checked (pid : ℕ) (hb : s.Bound cfg) (ht : s.Timed s.nowSec s.withdrawalTimestamps) :
    Ends (s.onFinalize cfg) (Checked cfg pid (s.Due cfg pid) s) fun _ => True := forceTimestamps_checked pid hb ht

end State

end Khala
