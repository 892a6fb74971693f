/-
What an operation that moves no stake does: a run of small changes, or a
failure that is not grave. That the grave ones do not occur rests on the
bindings and the timetable being in order, between any two changes.
-/
import Khala.Timetable

namespace Khala

open Outcome Relation

variable {A W : Type} [DecidableEq A] [DecidableEq W] {cfg : Config A W} {s s' : State A W} {P : Permit}

/-- The failures of the calls that move stake, which no other operation has,
and those that nothing but a broken record would cause. -/
def graveFaults : List Fault :=
  [.panic (.check .contributeFree), .panic (.check .ledgerReduce), .panic (.check .removeTotal),
    .panic (.check .slashStake), .panic (.check .startFree), .panic (.check .returned),
    .panic (.check .finalStake), .panic (.check .releasing), .panic .removeOnlyWhatWeHave,
    .panic .enoughWithdrawingShares, .outOfFuel,
    .panic .stakePoolMustExist, .panic .workerMustBeInPool, .panic .stoppingWorkersHaveAssignment,
    .panic .poolListMustExist, .panic .boundMiner, .panic .boundWorker, .panic .minerUnwrap,
    .panic (.check .requestTime)]

/-- An operation that moves no stake ends in small changes, or in a failure that is not grave. -/
abbrev EndsAside (cfg : Config A W) (P : Permit) (s : State A W) (x : Except Fault (State A W)) : Prop :=
  Ends x (Asides cfg P s) fun e => e ∉ graveFaults

/-! ## Mining -/

namespace State

omit [DecidableEq A] [DecidableEq W] in
theorem handlePoolNewReward_ends {pool : PoolInfo A W} {rewards : ℕ} :
    Ends (handlePoolNewReward pool rewards) pool.SameRecords fun e => e ∉ graveFaults := by
  unfold handlePoolNewReward
  split
  · split
    · exact .refl pool
    · dsimp only
      split
      · refine (Ends.require fun _ => by decide).bind fun _ _ => ?_
        exact ⟨rfl, rfl, rfl, rfl, rfl, rfl, rfl⟩
      · exact ⟨rfl, rfl, rfl, rfl, rfl, rfl, rfl⟩
  · exact .refl pool

theorem onReward_ends {l : List (SettleInfo W)} {s : State A W} (hb : s.Bound cfg) :
    EndsAside cfg P s (s.onReward l) := by
  induction l generalizing s with
  | nil => exact .refl
  | cons info l ih =>
    unfold onReward
    split
    · exact .refl
    · next pid hpid =>
      obtain ⟨pool, hpool⟩ := hb.pool_of_assignment hpid
      refine Ends.bind (Ends.get_of hpool) ?_
      rintro _ rfl
      refine Ends.bind handlePoolNewReward_ends fun pool' hs => ?_
      exact (ih (hb.putPool hpool hs.workers)).mono (fun _ h => h.head (.pool hpool hs)) fun _ h => h

omit [DecidableEq A] [DecidableEq W] in
theorem lessOnline_ends {n : ℕ} :
    Ends (lessOnline cfg n) (fun n' => lessOnline cfg n = .ok n') fun e => e ∉ graveFaults := by
  refine Ends.mono (Ends.result (Q := fun _ => True) (E := fun e => e ∉ graveFaults) ?_)
    (fun _ h => h.1) fun _ h => h
  unfold lessOnline
  split
  · trivial
  · split
    · exact (by decide : Fault.panic (.check .onlineMiners) ∉ graveFaults)
    · trivial

omit [DecidableEq A] in
/-- The stop of a bound miner is announced to its worker's pool. -/
theorem onStopped_ends {w : W} {pid : ℕ} {pool : PoolInfo A W} {origStake slashed : ℕ} {E : Fault → Prop}
    (hpid : s.workerAssignments.lookup w = some pid) (hpool : s.stakePools.lookup pid = some pool)
    (h : slashed ≤ origStake) :
    Ends (s.onStopped cfg w origStake slashed)
      (fun s' => s' = s.putPool pid
        { pool with releasingStake := pool.releasingStake + (origStake - slashed) }) E := by
  refine Ends.bind (Ends.get_of hpid) ?_
  rintro _ rfl
  refine Ends.bind (Ends.get_of hpool) ?_
  rintro _ rfl
  rw [Config.sub_of_le cfg h]
  rfl

theorem stopMining_ends {m : A} (hb : s.Bound cfg) : Ends (s.stopMining cfg m)
    (fun s' => Aside cfg P s s' ∧ s'.mining.minerBindings = s.mining.minerBindings ∧
      s'.workerAssignments = s.workerAssignments) fun e => e ∉ graveFaults := by
  refine Ends.bind (Ends.get fun _ => by decide) fun w hw => ?_
  refine Ends.bind (Ends.get fun _ => by decide) fun info hinfo => ?_
  refine Ends.bind (Ends.require fun _ => by decide) fun _ hstate => ?_
  refine Ends.bind lessOnline_ends fun onlineMiners honline => ?_
  refine Ends.bind (calcFinalStake_ends fun _ => by decide).result ?_
  rintro ⟨returned, _⟩ ⟨hr, hle, rfl⟩
  obtain ⟨pid, pool, hpid, -, hpool, -⟩ := hb.pool_of_binding hw
  refine Ends.bind (onStopped_ends hpid hpool (Nat.sub_le _ _)) ?_
  rintro _ rfl
  exact ⟨.stop hw hinfo hstate.1 hstate.2 honline hpid hpool ((calcFinalStake_congr rfl rfl _).symm.trans hr),
    rfl, rfl⟩

theorem release_ends {m : A} {w : W} (hb : s.Bound cfg) (hw : s.mining.minerBindings.lookup m = some w) :
    EndsAside cfg P s ((s.removeBinding m w).removeWorkerFromPool w) := by
  obtain ⟨pid, pool, hpid, -, hpool, -⟩ := hb.pool_of_binding hw
  have hpid' : (s.removeBinding m w).workerAssignments.lookup w = some pid := hpid
  have hpool' : ((s.removeBinding m w).removeAssignment w).stakePools.lookup pid = some pool := hpool
  refine Ends.bind (Ends.get_of hpid') ?_
  rintro _ rfl
  dsimp only
  rw [hpool']
  exact .single (.release hw hpid hpool)

/-- Unbinding stops the miner first where it must. -/
theorem unbindMiner_ends {m : A} {notify : Bool} {f : State A W → Except Fault (State A W)} (hb : s.Bound cfg)
    (hf : ∀ s₁ w, s₁.Bound cfg → s₁.mining.minerBindings.lookup m = some w →
      s₁.workerAssignments = s.workerAssignments → EndsAside cfg P s₁
      ((if notify = true then (s₁.removeBinding m w).removeWorkerFromPool w
        else pure (s₁.removeBinding m w)) >>= f)) :
    EndsAside cfg P s (s.unbindMiner cfg m notify >>= f) := by
  unfold unbindMiner
  simp only [bind_assoc]
  refine Ends.bind (Ends.get fun _ => by decide) fun w hw => ?_
  refine Ends.bind (Ends.get fun hn => absurd hn (hb.miner m (by rw [hw]; nofun))) fun info _ => ?_
  split
  · exact hf s w hb hw rfl
  · rw [bind_assoc]
    refine Ends.bind (stopMining_ends (P := P) hb) fun s₁ ⟨h₁, hm, ha⟩ => ?_
    exact (hf s₁ w (hb.aside h₁) (hm ▸ hw) ha).mono (fun _ h => h.head h₁) fun _ h => h

theorem unbind_ends {who m : A} (hb : s.Bound cfg) : EndsAside cfg P s (s.unbind cfg who m) := by
  refine Ends.bind (Ends.get fun _ => by decide) fun w _ => ?_
  refine Ends.bind (Ends.get fun _ => by decide) fun worker _ => ?_
  refine Ends.bind (Ends.require fun _ => by decide) fun _ _ => ?_
  rw [← bind_pure (unbindMiner _ _ _ _)]
  refine unbindMiner_ends hb fun s₁ w hb₁ hw _ => ?_
  simp only [if_true, bind_pure]
  exact release_ends hb₁ hw

theorem removeWorker_ends {who : A} {pid : ℕ} {worker : W} (hb : s.Bound cfg) :
    EndsAside cfg P s (s.removeWorker cfg who pid worker) := by
  refine Ends.bind (Ends.get fun _ => by decide) fun pool _ => ?_
  refine Ends.bind (Ends.require fun _ => by decide) fun _ _ => ?_
  refine Ends.bind (Ends.get fun _ => by decide) fun pid' hpid' => ?_
  refine Ends.bind (Ends.require fun _ => by decide) fun _ hpid => ?_
  subst hpid
  refine unbindMiner_ends hb fun s₁ w hb₁ hw ha => ?_
  -- the sub-account is bound to the worker that is to be removed
  have hworker := hb₁.binding_of_assignment (ha ▸ hpid')
  obtain rfl : w = worker := Option.some.inj (hw.symm.trans hworker)
  exact release_ends hb₁ hw

theorem addWorker_ends {owner : A} {pid : ℕ} {w : W} : EndsAside cfg P s (s.addWorker cfg owner pid w) := by
  refine Ends.bind (Ends.get fun _ => by decide) fun worker hworker => ?_
  refine Ends.bind (Ends.require fun _ => by decide) fun _ _ => ?_
  refine Ends.bind (Ends.require fun _ => by decide) fun _ _ => ?_
  refine Ends.bind (Ends.get fun _ => by decide) fun pool hpool => ?_
  refine Ends.bind (Ends.require fun _ => by decide) fun _ _ => ?_
  refine Ends.bind (Ends.require fun _ => by decide) fun _ _ => ?_
  refine Ends.bind (Ends.require fun _ => by decide) fun _ _ => ?_
  have hbind : Ends (s.bind (cfg.poolSubAccount pid w) w)
      (fun s₁ => ∃ info : MinerInfo, info.state = .ready ∧ info.benchmark.challengeTimeLast = 0 ∧
        s.mining.minerBindings.lookup (cfg.poolSubAccount pid w) = none ∧
        s.mining.workerBindings.lookup w = none ∧
        (∀ old ∈ s.mining.miners.lookup (cfg.poolSubAccount pid w), old.state = .ready) ∧
        s₁ = (s.putBinding (cfg.poolSubAccount pid w) w).putMiner (cfg.poolSubAccount pid w) info)
      fun e => ∃ d, e = .dispatch d := by
    refine Ends.bind (Ends.get fun _ => ⟨_, rfl⟩) fun worker _ => ?_
    refine Ends.bind (Ends.require fun _ => ⟨_, rfl⟩) fun _ _ => ?_
    refine Ends.bind (Ends.require fun _ => ⟨_, rfl⟩) fun _ hm => ?_
    refine Ends.bind (Ends.require fun _ => ⟨_, rfl⟩) fun _ hw => ?_
    refine Ends.bind (Ends.require fun _ => ⟨_, rfl⟩) fun _ hold => ?_
    exact ⟨_, rfl, rfl, hm, hw, hold, rfl⟩
  cases hr : s.bind (cfg.poolSubAccount pid w) w with
  | error e =>
    obtain ⟨d, rfl⟩ := hbind.error hr
    simp only [hr]
    exact (by decide : Fault.dispatch .failedToBindMinerAndWorker ∉ graveFaults)
  | ok s₁ =>
    obtain ⟨info, hready, hnew, hm, hw, hold, rfl⟩ := hbind.ok hr
    simp only [hr]
    exact .single (.bind rfl hpool (by rw [hworker]; nofun) hm hw hold hready hnew)

/-! ## Pool owners -/

theorem setCap_ends {owner : A} {pid cap : ℕ} : EndsAside cfg P s (s.setCap owner pid cap) := by
  refine Ends.bind (Ends.get fun _ => by decide) fun pool hpool => ?_
  refine Ends.bind (Ends.require fun _ => by decide) fun _ _ => ?_
  refine Ends.bind (Ends.require fun _ => by decide) fun _ _ => ?_
  exact .single (.pool hpool ⟨rfl, rfl, rfl, rfl, rfl, rfl, rfl⟩)

theorem setPayoutPref_ends {owner : A} {pid : ℕ} {commission : Permill} :
    EndsAside cfg P s (s.setPayoutPref owner pid commission) := by
  refine Ends.bind (Ends.get fun _ => by decide) fun pool hpool => ?_
  refine Ends.bind (Ends.require fun _ => by decide) fun _ _ => ?_
  exact .single (.pool hpool ⟨rfl, rfl, rfl, rfl, rfl, rfl, rfl⟩)

theorem claimRewards_ends {who : A} {pid : ℕ} {target : A} :
    EndsAside cfg P s (s.claimRewards cfg who pid target) := by
  refine Ends.bind (Ends.get fun _ => by decide) fun pool hpool => ?_
  dsimp only
  have hsame : pool.SameRecords (if who = pool.owner then { pool with ownerReward := 0 } else pool) := by
    split <;> exact ⟨rfl, rfl, rfl, rfl, rfl, rfl, rfl⟩
  generalize (if who = pool.owner then { pool with ownerReward := 0 } else pool) = pool' at hsame ⊢
  refine Ends.bind (Q := fun (r : Option (UserStakeInfo A)) =>
    ∀ user' ∈ r, ∃ user, s.books.poolStakers.lookup (pid, who) = some user ∧
    PoolInfo.SameStake user user') ?_ fun r hr => ?_
  · unfold claimant
    split
    · exact fun _ h => by cases h
    · next user hu =>
      refine Ends.bind (PoolInfo.settleUserPendingReward_ends (by decide)) fun user' ⟨hs, _⟩ => ?_
      exact fun _ h => by cases h; exact ⟨user, hu, hs⟩
  refine Ends.bind (Ends.require fun _ => by decide) fun _ _ => ?_
  refine Ends.bind (Ends.get fun _ => by decide) fun balances hb => ?_
  have hpool' : (s.setBalances balances).stakePools.lookup pid = some pool := hpool
  have hfunds : Asides cfg P s ((s.setBalances balances).putPool pid pool') :=
    ReflTransGen.tail (.single (.funds (.inl ⟨_, _, hb⟩))) (.pool hpool' hsame)
  cases r with
  | none => exact hfunds
  | some user' =>
    obtain ⟨user, hu, a, d, rfl⟩ := hr _ rfl
    have hu' : ((s.setBalances balances).putPool pid pool').books.poolStakers.lookup (pid, who) = some user := hu
    exact hfunds.tail (.staker hu' ⟨_, _, rfl⟩)

/-! ## Messages -/

theorem heartbeat_ends {w : W} {iterations challengeTime : ℕ}
    (hP : P.records (challengeTime / 1000)) (hb : s.Bound cfg) :
    EndsAside cfg P s (s.heartbeat cfg w iterations challengeTime) := by
  refine Ends.bind (Ends.get fun _ => by decide) fun m hm => ?_
  have hw : s.mining.minerBindings.lookup m = some w := (hb.inverse m w).mpr hm
  refine Ends.bind (Ends.get fun hn => absurd hn (hb.miner m (by rw [hw]; nofun))) fun info hinfo => ?_
  refine Ends.bind (Ends.get fun hn => absurd hn (hb.worker_of_binding hw)) fun _ _ => ?_
  refine Ends.bind (Q := fun benchmark => benchmark.challengeTimeLast = challengeTime / 1000) ?_
    fun benchmark hlast => ?_
  · refine Ends.bind (Ends.require fun _ => by decide) fun _ _ => ?_
    refine Ends.bind (cfg.fit_ends (by decide)) fun _ _ => ?_
    exact Ends.bind (cfg.fit_ends (by decide)) fun _ _ => rfl
  exact .single (.miner hinfo ⟨rfl, rfl, .inl rfl, .inl rfl, .inr (hlast ▸ hP)⟩)

theorem setResponsive_asides {state : MinerState} (hstate : state.isMining = true) {s : State A W} {w : W} :
    Asides cfg P s (setResponsive state s w) := by
  unfold setResponsive
  split
  · exact .refl
  · split
    · exact .refl
    · next info hinfo =>
      split
      · next hmining => exact .single (.miner hinfo ⟨rfl, rfl, .inr ⟨hmining, hstate⟩, .inl rfl, .inl rfl⟩)
      · exact .refl

theorem foldl_setResponsive_asides {state : MinerState} (hstate : state.isMining = true) {l : List W}
    {s : State A W} : Asides cfg P s (l.foldl (setResponsive state) s) := by
  induction l generalizing s with
  | nil => exact .refl
  | cons w l ih => exact (setResponsive_asides hstate).trans ih

/-- The worker's bound miner is cooling down. -/
def CoolingDown (s : State A W) (w : W) : Prop :=
  ∃ m info, s.mining.workerBindings.lookup w = some m ∧ s.mining.miners.lookup m = some info ∧
    info.state = .miningCoolingDown

/-- Small changes of the kinds that messages make start no cool down. -/
theorem setResponsive_coolingDown {state : MinerState} (hstate : state.isMining = true) {s : State A W}
    {w w' : W} (h : (setResponsive state s w).CoolingDown w') : s.CoolingDown w' := by
  unfold setResponsive at h
  split at h
  · exact h
  next account _ =>
  split at h
  · exact h
  next info hinfo =>
  split at h
  · obtain ⟨m, info', hm, hl, hc⟩ := h
    simp only [putMiner, StorageMap.lookup_insert_ite] at hl
    split at hl
    · cases hl
      rw [show state = .miningCoolingDown from hc] at hstate
      cases hstate
    · exact ⟨m, info', hm, hl, hc⟩
  · exact h

theorem tryHandleSettle_ends {s : State A W} {info : SettleInfo W}
    (hP : s.CoolingDown info.pubkey → P.settlesLate) :
    Ends (s.tryHandleSettle cfg info)
      (fun s' => Asides cfg P s s' ∧ ∀ w, s'.CoolingDown w → s.CoolingDown w) fun e => e ∉ graveFaults := by
  unfold tryHandleSettle
  split
  · exact ⟨.refl, fun _ h => h⟩
  next account haccount =>
  split
  · exact ⟨.refl, fun _ h => h⟩
  next miner hminer =>
  refine (cfg.debugAssert_ends fun _ => by decide).bind fun _ _ => ?_
  dsimp only
  generalize hs₁ : s.putMiner account _ = s₁
  have h₁ : Aside cfg P s s₁ := by
    rw [← hs₁]
    exact .miner hminer
      ⟨rfl, rfl, .inl rfl, .inr ⟨rfl, fun hc => hP ⟨account, miner, haccount, hminer, hc⟩⟩, .inl rfl⟩
  have hcool : ∀ w, s₁.CoolingDown w → s.CoolingDown w := by
    rintro w ⟨m, info', hm, hl, hc⟩
    subst hs₁
    simp only [putMiner, StorageMap.lookup_insert_ite] at hl
    split at hl
    · next he =>
      cases hl
      exact ⟨m, miner, hm, he ▸ hminer, hc⟩
    · exact ⟨m, info', hm, hl, hc⟩
  split
  · next balances hb => exact ⟨ReflTransGen.tail (.single h₁) (.funds (.inr ⟨_, hb⟩)), hcool⟩
  · exact ⟨.single h₁, hcool⟩

/-- Some entry of the message settles a miner that is cooling down. -/
def SettlesCooling (s : State A W) (event : MiningInfoUpdateEvent W) : Prop :=
  ∃ info ∈ event.settle, s.CoolingDown info.pubkey

theorem gkMessage_ends {event : MiningInfoUpdateEvent W} (hb : s.Bound cfg)
    (hP : s.SettlesCooling event → P.settlesLate) : EndsAside cfg P s (s.gkMessage cfg event) := by
  have hfold : ∀ {state : MinerState} (_ : state.isMining = true) {l : List W} {s : State A W} {w},
      (l.foldl (setResponsive state) s).CoolingDown w → s.CoolingDown w := by
    intro state hstate l
    induction l with
    | nil => exact fun h => h
    | cons w l ih => exact fun h => setResponsive_coolingDown hstate (ih h)
  unfold gkMessage
  dsimp only
  generalize hs₁ : event.offline.foldl (setResponsive .miningUnresponsive) s = s₁
  generalize hs₂ : event.recoveredToOnline.foldl (setResponsive .miningIdle) s₁ = s₂
  have h₂ : Asides cfg P s s₂ := by
    rw [← hs₂, ← hs₁]
    exact (foldl_setResponsive_asides rfl).trans (foldl_setResponsive_asides rfl)
  have hcool : ∀ w, s₂.CoolingDown w → s.CoolingDown w := fun w h => by
    rw [← hs₂, ← hs₁] at h
    exact hfold rfl (hfold rfl h)
  refine Ends.bind (Ends.foldlM (R := fun s₃ => Asides cfg P s s₃ ∧
    ∀ w, s₃.CoolingDown w → s.CoolingDown w) (fun s₃ info hmem ⟨h₃, hc₃⟩ => ?_) ⟨h₂, hcool⟩) ?_
  · exact (tryHandleSettle_ends fun hc => hP ⟨info, hmem, hc₃ _ hc⟩).mono
      (fun s₄ ⟨h₄, hc₄⟩ => ⟨h₃.trans h₄, fun w h => hc₃ w (hc₄ w h)⟩) fun _ h => h
  · rintro s₃ ⟨h₃, -⟩
    exact (onReward_ends (hb.asides h₃)).mono (fun _ h => h₃.trans h) fun _ h => h

/-! ## The block hook -/

theorem tryStopMining_ends {m : A} (hb : s.Bound cfg) : EndsAside cfg P s (s.tryStopMining cfg m) := by
  have h : Ends (s.stopMining cfg m)
    (fun s' => Aside cfg P s s' ∧ s'.mining.minerBindings = s.mining.minerBindings ∧
      s'.workerAssignments = s.workerAssignments) fun e => e ∉ graveFaults := stopMining_ends hb
  unfold tryStopMining
  split
  · exact .refl
  · exact h.mono (fun _ h => .single h.1) fun _ h => h

omit [DecidableEq A] [DecidableEq W] in
theorem hasExpiredWithdrawal_ends {pool : PoolInfo A W} {now gracePeriod : ℕ}
    (hq : ∀ w ∈ pool.withdrawQueue, w.startTime ≤ now) :
    Ends (pool.hasExpiredWithdrawal cfg now gracePeriod) (fun _ => True) fun e => e ∉ graveFaults := by
  have hreq : ∀ price (l : List (WithdrawInfo A)) budget, (∀ w ∈ l, w.startTime ≤ now) →
      Ends (PoolInfo.expiredRequest cfg now gracePeriod price budget l) (fun _ => True)
        fun e => e ∉ graveFaults := by
    intro price l
    induction l with
    | nil => exact fun _ _ => trivial
    | cons w l ih =>
      intro budget hl
      unfold PoolInfo.expiredRequest
      dsimp only
      split
      · have hw := hl w List.mem_cons_self
        exact Ends.bind (cfg.sub64_ends fun hlt => absurd hw (Nat.not_le.mpr hlt)) fun _ _ => trivial
      · exact ih _ fun w hw => hl w (List.mem_cons_of_mem _ hw)
  refine (cfg.debugAssert_ends fun _ => by decide).bind fun _ _ => ?_
  split
  · split
    · exact hreq _ _ _ hq
    · trivial
  · trivial

/-- The shutdown of a listed pool. -/
theorem forceShutdown_ends {now pid : ℕ} {pool : PoolInfo A W} {s : State A W} (hb : s.Bound cfg)
    (hpool : s.stakePools.lookup pid = some pool) (hq : ∀ w ∈ pool.withdrawQueue, w.startTime ≤ now) :
    EndsAside cfg P s (forceShutdown cfg now s pid) := by
  refine Ends.bind (Ends.get_of hpool) ?_
  rintro _ rfl
  refine Ends.bind (hasExpiredWithdrawal_ends hq) fun expired _ => ?_
  split
  · refine Ends.mono (Ends.foldlM (R := fun s₁ => Asides cfg P s s₁ ∧ s₁.Bound cfg)
      (fun s₁ w _ ⟨h₁, hb₁⟩ => ?_) ⟨.refl, hb⟩) (fun _ h => h.1) fun _ h => h
    exact (tryStopMining_ends hb₁).mono (fun _ h => ⟨h₁.trans h, hb₁.asides h⟩) fun _ h => h
  · exact .refl

/-- Of the timestamps `t` the front `processed` was served, and the others are left. -/
structure Finalized (cfg : Config A W) (now : ℕ) (t : List ℕ) (s s' : State A W) (processed : List ℕ) : Prop where
  split : t = processed ++ s'.withdrawalTimestamps
  expired : ∀ x ∈ processed, cfg.gracePeriod < now - x
  pools : ∀ x, s'.withdrawalQueuedPools.lookup x = if x ∈ processed then none else s.withdrawalQueuedPools.lookup x

/-- Shutting the pools down of one timestamp. -/
theorem forceShutdowns_ends {now : ℕ} {pids : List ℕ} {s : State A W} (hb : s.Bound cfg)
    (hp : ∀ pid ∈ pids, s.stakePools.lookup pid ≠ none)
    (hq : ∀ pid pool, s.stakePools.lookup pid = some pool → ∀ w ∈ pool.withdrawQueue, w.startTime ≤ now) :
    EndsAside cfg P s (pids.foldlM (forceShutdown cfg now) s) := by
  refine Ends.mono (Ends.foldlM (R := fun s₁ => Asides cfg P s s₁ ∧ s₁.Bound cfg)
    (fun s₁ pid hmem ⟨h₁, hb₁⟩ => ?_) ⟨.refl, hb⟩) (fun _ h => h.1) fun _ h => h
  obtain ⟨pool, hpool⟩ := Option.ne_none_iff_exists'.mp (h₁.fewerRequests.pools pid (hp pid hmem))
  refine (forceShutdown_ends hb₁ hpool fun w hw => ?_).mono (fun _ h => ⟨h₁.trans h, hb₁.asides h⟩) fun _ h => h
  obtain ⟨pool₀, hpool₀, w₀, hw₀, he⟩ := h₁.fewerRequests.requests pid pool hpool w hw
  exact he ▸ hq pid pool₀ hpool₀ w₀ hw₀

theorem forceTimestamps_ends {t : List ℕ} {s : State A W} {now : ℕ} (hP : P.reschedules) (hb : s.Bound cfg)
    (ht : s.Timed now t) :
    Ends (s.forceTimestamps cfg now t)
      (fun s' => Asides cfg P s s' ∧ ∃ processed, Finalized cfg now t s s' processed)
      fun e => e ∉ graveFaults := by
  induction t generalizing s with
  | nil =>
    refine ⟨.single (.other ⟨rfl, rfl, rfl, rfl, rfl, rfl, rfl, rfl, rfl, rfl, fun _ h => h, rfl⟩ (.inl hP)), [],
      ?_⟩
    exact ⟨rfl, nofun, fun _ => by simp⟩
  | cons x t ih =>
    unfold forceTimestamps
    rw [Config.sub64_of_le cfg (ht.past x List.mem_cons_self)]
    refine Ends.bind (Q := fun waiting => waiting = now - x) rfl ?_
    rintro _ rfl
    split
    · refine ⟨.single (.other ⟨rfl, rfl, rfl, rfl, rfl, rfl, rfl, rfl, rfl, rfl, fun _ h => h, rfl⟩ (.inl hP)), [],
        ?_⟩
      exact ⟨rfl, nofun, fun _ => by simp⟩
    next hw =>
    have hx : s.withdrawalQueuedPools.lookup x ≠ none := (ht.listed x).mpr List.mem_cons_self
    refine Ends.bind (Ends.get fun hn => absurd hn hx) fun pids hpids => ?_
    have hpools := (ht.pools x pids hpids).2
    have h₁ : Aside cfg P s { s with withdrawalQueuedPools := s.withdrawalQueuedPools.erase x } :=
      .other ⟨rfl, rfl, rfl, rfl, rfl, rfl, rfl, rfl, rfl, rfl, fun _ h => h, rfl⟩ (.inl hP)
    have ht₁ := ht.tail
    have hb₁ := hb.aside h₁
    dsimp only
    refine Ends.bind (forceShutdowns_ends (P := .none) hb₁ hpools ht₁.requests) fun s₂ h₂ => ?_
    have htt := h₂.sameTimetable id
    refine (ih (hb₁.asides h₂) (ht₁.asides h₂ id)).mono (fun s' ⟨h₃, processed, hf⟩ => ⟨?_, x :: processed, ?_⟩)
      fun _ h => h
    · exact (h₂.of_none.trans h₃).head h₁
    · refine ⟨congrArg (x :: ·) hf.split, ?_, fun y => ?_⟩
      · intro y hy
        rcases List.mem_cons.mp hy with rfl | hy
        · omega
        · exact hf.expired y hy
      · rw [hf.pools y, htt.pools, StorageMap.lookup_erase_ite]
        by_cases hy : y = x <;> by_cases hy' : y ∈ processed <;> simp [hy, hy']

theorem onFinalize_ends (hP : P.reschedules) (hb : s.Bound cfg) (ht : s.Timed s.nowSec s.withdrawalTimestamps) :
    Ends (s.onFinalize cfg)
      (fun s' => Asides cfg P s s' ∧ ∃ processed, Finalized cfg s.nowSec s.withdrawalTimestamps s s' processed)
      fun e => e ∉ graveFaults := forceTimestamps_ends hP hb ht

end State

end Khala
