/-
A pool's stake is what is free and what its miners work with, as long as no
contribution meets stake-less free stake.

`total_stake` falls at once by a slash or a withdrawal, `free_stake` rises at
a reclaim, and the stake of a miner is taken out of `Stakes` in between; a
rest of dust is dropped from both or, after a slash, from the total alone.
-/
import Khala.Releasing
import Khala.ShareValue

namespace Khala

open Outcome Relation

variable {A W : Type} [DecidableEq A] {cfg : Config A W} {s s' : State A W} {P : Permit}

/-! ## At the desk -/

namespace PoolInfo

variable {pool pool' : PoolInfo A W} {user user' : UserStakeInfo A} {shares amount dust working : ℕ}

/-- The stake is free or at work, or the pool was zeroed. -/
def StakeAccounted (working : ℕ) (pool : PoolInfo A W) : Prop :=
  pool.totalStake = pool.freeStake + working ∨ pool.totalStake = 0 ∧ working = 0 ∧ pool.freeStake ≤ 1000

omit [DecidableEq A] in
theorem SameAmounts.accounted (h : pool.SameAmounts pool') (hp : pool.StakeAccounted working) :
    pool'.StakeAccounted working := by
  unfold StakeAccounted
  rw [h.totalStake, h.freeStake]
  exact hp

omit [DecidableEq A] in
/-- No removal takes more than the whole stake. -/
theorem StakeAccounted.removable_le {price : FixedPoint} (h : pool.StakeAccounted working)
    (hprice : pool.sharePrice = some price) :
    pool.removable user shares price ≤ pool.totalStake := by
  have hfree : pool.removable user shares price ≤ pool.freeStake := removable_le_free
  rcases h with h | ⟨hzero, -, -⟩
  · omega
  · have hworth : pool.worth shares = 0 := worth_of_no_stake hzero
    rw [worth_eq hprice] at hworth
    unfold removable
    omega

omit [DecidableEq A] in
theorem StakeAccounted.removed (h : pool.StakeAccounted working) (hw : working = 0 ∨ 1000 < working)
    (hr : pool.Removed user shares pool' user' amount dust) : pool'.StakeAccounted working := by
  obtain ⟨price, hprice, hamount⟩ := hr.amount_eq
  obtain ⟨rest, hrest, hpool⟩ := hr.pool_eq
  have hle : amount ≤ pool.totalStake := hamount ▸ h.removable_le hprice
  have hfree : amount ≤ pool.freeStake := hamount ▸ removable_le_free
  have hcases := extractDust_fst_cases rest
  rw [hrest hle] at hpool hcases
  unfold StakeAccounted at h ⊢
  rw [hpool]
  dsimp only
  split
  · omega
  · refine .inr ⟨rfl, ?_, Nat.zero_le _⟩
    omega

end PoolInfo

namespace Desk

variable {d d' : Desk A W} {working : ℕ}

theorem accounted_move (h : d.pool.StakeAccounted working)
    (hw : working = 0 ∨ 1000 < working) (hm : Move cfg d d') :
    d'.pool.StakeAccounted working := by
  cases hm with
  | remove _ hr => exact h.removed hw hr
  | _ => exact h

theorem accounted_moves (h : d.pool.StakeAccounted working)
    (hw : working = 0 ∨ 1000 < working) (hm : Moves cfg d d') :
    d'.pool.StakeAccounted working := by
  induction hm with
  | refl => exact h
  | tail _ hm ih => exact accounted_move ih hw hm

end Desk

/-- The subtractions that rely on the accounts. -/
def stakeFaults : List Fault :=
  [.panic (.check .removeTotal), .panic (.check .startFree), .panic (.check .returned),
    .panic (.check .slashStake)]

theorem Fails.not_stake {d : Desk A W} {working : ℕ} {e : Fault} (h : d.pool.StakeAccounted working)
    (hw : working = 0 ∨ 1000 < working) (he : Fails cfg d e) : e ∉ stakeFaults := by
  obtain ⟨d', hm, hs⟩ := he
  have h' := Desk.accounted_moves h hw hm
  cases hs with
  | plain hc =>
    unfold Check.Plain at hc
    rcases hc with rfl | rfl | rfl | rfl | rfl | rfl | rfl
    all_goals decide
  | settle => decide
  | total _ hprice hlt => exact absurd (h'.removable_le hprice) (Nat.not_le.mpr hlt)
  | reduce => decide
  | refuse _ _ hp =>
    rcases hp with rfl | rfl
    · decide
    · decide

theorem queue_not_stake {d : Desk A W} {working fuel : ℕ} {e : Fault} (h : d.pool.StakeAccounted working)
    (hw : working = 0 ∨ 1000 < working) (he : d.tryProcessWithdrawQueue cfg fuel = .error e) :
    e ∉ stakeFaults := by
  rcases Desk.tryProcessWithdrawQueue_moves.error he with rfl | hf
  · decide
  · exact hf.not_stake h hw

/-- Miners are started with more than dust, and none by root. -/
def Op.StartsAbove : Op A W → Prop
  | .startMining _ _ _ stake => 1000 < stake
  | .forceStartMining _ _ => False
  | _ => True

instance (op : Op A W) : Decidable op.StartsAbove :=
  match op with
  | .startMining .. => inferInstanceAs (Decidable (_ < _))
  | .forceStartMining .. => inferInstanceAs (Decidable False)
  | .contribute .. | .create _ | .addWorker .. | .removeWorker .. | .setCap ..
    | .setPayoutPref .. | .setMiningEnable _
  | .claimRewards .. | .withdraw .. | .reconcileWithdrawQueue .. | .stopMining ..
    | .reclaimPoolWorker .. | .onFinalize
  | .unbind .. | .forceStopMining _ | .heartbeat .. | .gkMessage _ | .setCoolDownExpiration _ | .updateTokenomic _
  | .finalizeMining | .forceRegisterWorker .. | .registerWorker .. | .benchReport .. | .time _ | .balances _ =>
    inferInstanceAs (Decidable True)

/-! ## The stake at work -/

variable [DecidableEq W]

theorem Aside.stakes_eq (h : Aside cfg P s s') : s'.mining.stakes = s.mining.stakes := by
  cases h with
  | other hs => exact hs.stakes
  | _ => rfl

theorem Asides.stakes_eq (h : Asides cfg P s s') : s'.mining.stakes = s.mining.stakes := by
  induction h with
  | refl => rfl
  | tail _ h ih => rw [h.stakes_eq, ih]

namespace State

/-- The stake of a miner that mines or cools down. -/
def workingOf (s : State A W) (m : A) : ℕ :=
  (s.stateOf m).elim 0 fun state => if state.isMining = true ∨ state = .miningCoolingDown then s.stakeOf m else 0

/-- The stake that a pool's miners work with. -/
noncomputable def working (cfg : Config A W) (s : State A W) (pid : ℕ) : ℕ :=
  ∑ᶠ w, s.workingOf (cfg.poolSubAccount pid w)

/-- All stakes filed under a pool's sub-accounts. -/
noncomputable def staked (cfg : Config A W) (s : State A W) (pid : ℕ) : ℕ :=
  ∑ᶠ w, s.stakeOf (cfg.poolSubAccount pid w)

variable {m : A} {pid : ℕ} {w : W}

omit [DecidableEq W] in
theorem stakeOf_of_none (h : s.mining.stakes.lookup m = none) : s.stakeOf m = 0 := by rw [stakeOf, h]; rfl

omit [DecidableEq W] in
theorem Cycling.workingOf_eq (h : s.Cycling cfg) (m : A) : s.workingOf m = s.stakeOf m := by
  unfold workingOf
  cases hstate : s.stateOf m with
  | none =>
    refine (stakeOf_of_none ?_).symm
    by_contra hn
    obtain ⟨state, hs, -⟩ := (h.staked m).mp hn
    rw [hstate] at hs
    cases hs
  | some state =>
    rw [Option.elim_some]
    split
    · rfl
    · next hidle =>
      refine (stakeOf_of_none ?_).symm
      by_contra hn
      obtain ⟨state', hs, hready⟩ := (h.staked m).mp hn
      obtain rfl := Option.some.inj (hstate.symm.trans hs)
      have hactive := h.active m
      rw [hstate] at hactive
      cases state with
      | ready => exact hready rfl
      | miningActive => exact hactive rfl
      | _ => exact hidle (by decide)

omit [DecidableEq W] in
theorem Cycling.working_eq (h : s.Cycling cfg) : s.working cfg pid = s.staked cfg pid :=
  finsum_congr fun _ => h.workingOf_eq _

omit [DecidableEq W] in
theorem staked_congr (h : s'.mining.stakes = s.mining.stakes) : s'.staked cfg pid = s.staked cfg pid :=
  finsum_congr fun w => by rw [stakeOf, stakeOf, h]

omit [DecidableEq W] in
theorem stakeOf_finite (hinj : cfg.SubAccountsDiffer) (s : State A W) (pid : ℕ) :
    (fun w => s.stakeOf (cfg.poolSubAccount pid w)).support.Finite :=
  StorageMap.finite_support_of_lookup (m := s.mining.stakes) (hinj.injective pid) fun _ hw => stakeOf_of_none hw

omit [DecidableEq W] in
theorem stakeOf_le_staked (hinj : cfg.SubAccountsDiffer) :
    s.stakeOf (cfg.poolSubAccount pid w) ≤ s.staked cfg pid :=
  single_le_finsum w (stakeOf_finite hinj s pid) fun _ => Nat.zero_le _

omit [DecidableEq W] in
/-- The stake of one miner changes: its pool's sum changes by as much. -/
theorem staked_put (hinj : cfg.SubAccountsDiffer)
    (h : ∀ m ≠ cfg.poolSubAccount pid w, s'.mining.stakes.lookup m = s.mining.stakes.lookup m) (pid' : ℕ) :
    s'.staked cfg pid' + (if pid' = pid then s.stakeOf (cfg.poolSubAccount pid w) else 0) =
      s.staked cfg pid' + if pid' = pid then s'.stakeOf (cfg.poolSubAccount pid w) else 0 := by
  split
  · next he =>
    subst he
    refine finsum_add_of_eq (stakeOf_finite hinj s pid') w fun w' hne => ?_
    rw [stakeOf, stakeOf, h _ fun he => hne (hinj _ _ _ _ he).2]
  · next hne =>
    rw [Nat.add_zero, Nat.add_zero]
    refine finsum_congr fun w' => ?_
    rw [stakeOf, stakeOf, h _ fun he => hne (hinj _ _ _ _ he).1]

/-! ## Along a run -/

/-- No contribution goes to a pool that has free stake left and no stake. -/
def NoneLeft (s : State A W) : Op A W → Prop
  | .contribute _ pid _ => ∀ pool ∈ s.stakePools.lookup pid, pool.totalStake = 0 → pool.freeStake = 0
  | _ => True

instance (s : State A W) (op : Op A W) : Decidable (s.NoneLeft op) :=
  match op with
  | .contribute .. => inferInstanceAs (Decidable (∀ pool ∈ _, _ → _))
  | .startMining .. | .forceStartMining .. | .create _ | .addWorker .. | .removeWorker ..
    | .setCap .. | .setPayoutPref ..
  | .setMiningEnable _ | .claimRewards .. | .withdraw .. | .reconcileWithdrawQueue .. | .stopMining ..
  | .reclaimPoolWorker .. | .onFinalize | .unbind .. | .forceStopMining _ | .heartbeat .. | .gkMessage _
  | .setCoolDownExpiration _ | .updateTokenomic _ | .finalizeMining | .forceRegisterWorker .. | .registerWorker ..
  | .benchReport .. | .time _ | .balances _ => inferInstanceAs (Decidable True)

/-- Every pool's stake is accounted for, by stakes of existing pools that are more than dust. -/
structure StakeAccounted (cfg : Config A W) (s : State A W) : Prop where
  nondust : ∀ m stake, s.mining.stakes.lookup m = some stake → 1000 < stake
  filed : ∀ pid w, s.mining.stakes.lookup (cfg.poolSubAccount pid w) ≠ none → s.stakePools.lookup pid ≠ none
  pools : ∀ pid pool, s.stakePools.lookup pid = some pool → pool.StakeAccounted (s.staked cfg pid)

omit [DecidableEq W] in
/-- A sum of stakes is nothing or more than dust. -/
theorem staked_cases (hinj : cfg.SubAccountsDiffer)
    (hnondust : ∀ m stake, s.mining.stakes.lookup m = some stake → 1000 < stake) (pid : ℕ) :
    s.staked cfg pid = 0 ∨ 1000 < s.staked cfg pid := by
  by_cases hall : ∀ w, s.stakeOf (cfg.poolSubAccount pid w) = 0
  · exact .inl (finsum_eq_zero_of_forall_eq_zero hall)
  · obtain ⟨w, hw⟩ := not_forall.mp hall
    have hle : s.stakeOf (cfg.poolSubAccount pid w) ≤ s.staked cfg pid := stakeOf_le_staked hinj
    cases hl : s.mining.stakes.lookup (cfg.poolSubAccount pid w) with
    | none => exact absurd (stakeOf_of_none hl) hw
    | some stake =>
      have hstake : s.stakeOf (cfg.poolSubAccount pid w) = stake := by rw [stakeOf, hl]; rfl
      have := hnondust _ _ hl
      exact .inr (by omega)

namespace StakeAccounted

omit [DecidableEq W] in
/-- No stake is written, and each pool has the stake it had. -/
theorem of_same (h : s.StakeAccounted cfg) (hs : s'.mining.stakes = s.mining.stakes)
    (hp : ∀ pid, s.stakePools.lookup pid ≠ none → s'.stakePools.lookup pid ≠ none)
    (hpools : ∀ pid pool', s'.stakePools.lookup pid = some pool' → pool'.StakeAccounted (s.staked cfg pid)) :
    s'.StakeAccounted cfg where
  nondust m stake hm := h.nondust m stake (hs ▸ hm)
  filed pid w hw := hp pid (h.filed pid w (hs ▸ hw))
  pools pid pool' hpool' := by
    rw [staked_congr hs]
    exact hpools pid pool' hpool'

omit [DecidableEq W] in
/-- One pool is stored anew, its stake accounted for. -/
theorem put (h : s.StakeAccounted cfg) {pid : ℕ} {pool' : PoolInfo A W} (hs : s'.mining.stakes = s.mining.stakes)
    (hput : s'.stakePools = s.stakePools.insert pid pool') (ha : pool'.StakeAccounted (s.staked cfg pid)) :
    s'.StakeAccounted cfg := by
  have hl : ∀ pid', s'.stakePools.lookup pid' = if pid' = pid then some pool' else s.stakePools.lookup pid' :=
    fun pid' => by
    rw [hput]
    exact StorageMap.lookup_insert_ite _ _ _ _
  refine h.of_same hs (fun pid' hp => ?_) fun pid' p hp => ?_
  · rw [hl]
    split
    · nofun
    · exact hp
  · rw [hl] at hp
    split at hp
    · next he =>
      cases hp
      exact he ▸ ha
    · exact h.pools pid' p hp

theorem asides (h : s.StakeAccounted cfg) (ha : Asides cfg P s s') : s'.StakeAccounted cfg := by
  refine h.of_same ha.stakes_eq ha.fewerRequests.pools fun pid pool' hpool' => ?_
  obtain ⟨pool, hpool, hsame⟩ := ha.pool_of_lookup hpool'
  exact hsame.accounted (h.pools pid pool hpool)

omit [DecidableEq W] in
/-- The stake of one miner changes with its pool's record. -/
theorem put_stake (h : s.StakeAccounted cfg) (hinj : cfg.SubAccountsDiffer) {pid : ℕ}
    {w : W} {pool' : PoolInfo A W}
    (hother : ∀ m ≠ cfg.poolSubAccount pid w, s'.mining.stakes.lookup m = s.mining.stakes.lookup m)
    (hput : s'.stakePools = s.stakePools.insert pid pool')
    (hnondust : ∀ stake, s'.mining.stakes.lookup (cfg.poolSubAccount pid w) = some stake → 1000 < stake)
    (ha : pool'.StakeAccounted (s'.staked cfg pid)) : s'.StakeAccounted cfg := by
  have hl : ∀ pid', s'.stakePools.lookup pid' = if pid' = pid then some pool' else s.stakePools.lookup pid' :=
    fun pid' => by
    rw [hput]
    exact StorageMap.lookup_insert_ite _ _ _ _
  refine ⟨fun m stake hm => ?_, fun pid' w' hw' => ?_, fun pid' p hp => ?_⟩
  · by_cases he : m = cfg.poolSubAccount pid w
    · exact hnondust stake (he ▸ hm)
    · exact h.nondust m stake (hother m he ▸ hm)
  · rw [hl]
    split
    · nofun
    · next hne =>
      rw [hother _ fun he => hne (hinj _ _ _ _ he).1] at hw'
      exact h.filed pid' w' hw'
  · rw [hl] at hp
    split at hp
    · next he =>
      cases hp
      exact he ▸ ha
    · next hne =>
      have hsum := staked_put hinj hother pid'
      rw [if_neg hne, if_neg hne, Nat.add_zero, Nat.add_zero] at hsum
      rw [hsum]
      exact h.pools pid' p hp

omit [DecidableEq W] in
theorem create (h : s.StakeAccounted cfg) (hf : s.WellFiled) (owner : A) :
    (s.create owner).StakeAccounted cfg := by
  refine h.put rfl rfl (.inl ?_)
  -- nobody mines for a pool that was not there
  have hnone : s.staked cfg s.poolCount = 0 := by
    refine finsum_eq_zero_of_forall_eq_zero fun w => stakeOf_of_none ?_
    by_contra hn
    exact h.filed _ _ hn hf.fresh
  rw [hnone]

omit [DecidableEq W] in
/-- A contribution is free, where the pool's free stake is accounted for. -/
theorem contributed (h : s.StakeAccounted cfg) {pid : ℕ} {pool : PoolInfo A W}
    (hpool : s.stakePools.lookup pid = some pool)
    (hfree : pool.totalStake = 0 → pool.freeStake = 0) (amount : ℕ) :
    (pool.added amount).StakeAccounted (s.staked cfg pid) := by
  have hacc := h.pools pid pool hpool
  unfold PoolInfo.StakeAccounted at hacc
  refine .inl ?_
  change pool.totalStake + amount = pool.freeStake + amount + _
  omega

omit [DecidableEq W] in
theorem started (h : s.StakeAccounted cfg) (hinj : cfg.SubAccountsDiffer) {pid stake : ℕ} {w : W}
    {pool : PoolInfo A W} (hpool : s.stakePools.lookup pid = some pool) (hle : stake ≤ pool.freeStake)
    (hstake : 1000 < stake) {s₁ : State A W} (hs : Started cfg s (cfg.poolSubAccount pid w) stake s₁) :
    (s₁.putPool pid { pool with freeStake := pool.freeStake - stake }).StakeAccounted cfg := by
  obtain ⟨_, info, info', onlineMiners, nextSessionId, -, -, -, hnone, -, -, -, rfl⟩ := hs.result
  generalize hs' : State.putPool (s.started (cfg.poolSubAccount pid w) stake info' onlineMiners nextSessionId) pid
    { pool with freeStake := pool.freeStake - stake } = s'
  have hstakes : s'.mining.stakes = s.mining.stakes.insert (cfg.poolSubAccount pid w) stake := by rw [← hs']; rfl
  have hother : ∀ m ≠ cfg.poolSubAccount pid w, s'.mining.stakes.lookup m = s.mining.stakes.lookup m :=
    fun m hne => by
    rw [hstakes, AList.lookup_insert_ne hne]
  have hnew : s'.mining.stakes.lookup (cfg.poolSubAccount pid w) = some stake := by
    rw [hstakes, AList.lookup_insert]
  have hsum := staked_put hinj hother pid
  have hzero : s.stakeOf (cfg.poolSubAccount pid w) = 0 := stakeOf_of_none hnone
  have hmine : s'.stakeOf (cfg.poolSubAccount pid w) = stake := by rw [stakeOf, hnew]; rfl
  rw [if_pos rfl, if_pos rfl, hzero, hmine] at hsum
  have hacc := h.pools pid pool hpool
  refine h.put_stake hinj hother (by rw [← hs']; rfl) (fun stake' he => ?_) (.inl ?_)
  · obtain rfl := Option.some.inj (hnew.symm.trans he)
    exact hstake
  · dsimp only
    rcases hacc with hacc | ⟨_, _, hdust⟩
    · omega
    · omega

omit [DecidableEq W] in
/-- The slash of a reclaimed stake is part of the pool's; the rest of the stake is free. -/
theorem reclaimed (h : s.StakeAccounted cfg) (hinj : cfg.SubAccountsDiffer) {pid returned slashed : ℕ} {w : W}
    {pool : PoolInfo A W} {info : MinerInfo} (hpool : s.stakePools.lookup pid = some pool)
    (hr : Reclaimable cfg s (cfg.poolSubAccount pid w) info returned slashed)
    (hs' : s'.mining.stakes = s.mining.stakes.erase (cfg.poolSubAccount pid w)) :
    slashed ≤ pool.totalStake ∧ (pool.givenBack returned slashed).StakeAccounted (s'.staked cfg pid) ∧
      (s'.staked cfg pid = 0 ∨ 1000 < s'.staked cfg pid) := by
  obtain ⟨hle, hslashed⟩ := calcFinalStake_ok hr.final
  have hcases : s'.staked cfg pid = 0 ∨ 1000 < s'.staked cfg pid := by
    refine staked_cases hinj (fun m stake hm => ?_) pid
    rw [hs', StorageMap.lookup_erase_ite] at hm
    split at hm
    · cases hm
    · exact h.nondust m stake hm
  have hnone : s'.stakeOf (cfg.poolSubAccount pid w) = 0 := stakeOf_of_none (by rw [hs', AList.lookup_erase])
  have hother : ∀ m ≠ cfg.poolSubAccount pid w, s'.mining.stakes.lookup m = s.mining.stakes.lookup m :=
    fun m hne => by
    rw [hs', AList.lookup_erase_ne hne]
  have hsum := staked_put hinj hother pid
  rw [if_pos rfl, if_pos rfl, hnone] at hsum
  have hacc := h.pools pid pool hpool
  have hdust := extractDust_fst_cases (pool.totalStake - slashed)
  unfold PoolInfo.StakeAccounted at hacc ⊢
  refine ⟨by omega, ?_, hcases⟩
  rw [PoolInfo.givenBack_freeStake]
  by_cases hzero : slashed = 0
  · rw [hzero, PoolInfo.givenBack_totalStake_zero]
    omega
  · rw [PoolInfo.givenBack_totalStake hzero]
    omega

theorem did {op : Op A W} (h : s.StakeAccounted cfg) (hinj : cfg.SubAccountsDiffer) (hs : s.Sound cfg)
    (hop : op.StartsAbove) (hok : s.NoneLeft op) (hd : Did cfg s op s') : s'.StakeAccounted cfg := by
  have hcases := staked_cases hinj h.nondust
  cases hd with
  | create => exact h.create hs.filed _
  | @contribute who pid amount pool books user fuel d hpool _ _ hq =>
    have hm := Desk.tryProcessWithdrawQueue_moves.ok hq
    exact h.put rfl rfl (Desk.accounted_moves (h.contributed hpool (hok pool hpool) amount) (hcases pid) hm)
  | @withdraw who pid shares pool user d user' hpool hu _ _ hw =>
    obtain ⟨rfl, -⟩ := hs.filed.pool pid pool hpool
    have hm : Moves cfg ⟨pool, s.books⟩ ⟨d.pool, d.books.putStaker pool.pid who user'⟩ := hw.moves hu
    have hacc : (⟨d.pool, d.books.putStaker pool.pid who user'⟩ : Desk A W).pool.StakeAccounted
        (s.staked cfg pool.pid) :=
      Desk.accounted_moves (h.pools _ _ hpool) (hcases _) hm
    have hss := s.scheduled_sameStore pool shares
    refine h.put hss.stakes ?_ hacc
    change (s.scheduled pool shares).stakePools.insert pool.pid d.pool = _
    rw [hss.stakePools]
  | @reconcile pid account pool user idx hpool => exact h.put rfl rfl (h.pools pid pool hpool)
  | start hpool hle _ hst => exact h.started hinj hpool hle hop hst
  | forceStart => exact hop.elim
  | @reclaim pid w pool info returned slashed fuel d hpool hr hq =>
    have hm := Desk.tryProcessWithdrawQueue_moves.ok hq
    generalize hs' : (s.reclaimedMiner (cfg.poolSubAccount pid w) info slashed).putDesk pid d = s'
    have hstakes : s'.mining.stakes = s.mining.stakes.erase (cfg.poolSubAccount pid w) := by rw [← hs']; rfl
    obtain ⟨-, hacc, hleft⟩ := h.reclaimed hinj hpool hr hstakes
    refine h.put_stake hinj (w := w) (fun m hne => by rw [hstakes, AList.lookup_erase_ne hne]) (by rw [← hs']; rfl)
      (fun stake he => ?_) (Desk.accounted_moves hacc hleft hm)
    rw [hstakes, AList.lookup_erase] at he
    cases he
  | balances => exact h.of_same rfl (fun _ hp => hp) h.pools
  | time => exact h.of_same rfl (fun _ hp => hp) h.pools
  | finalize ha => exact h.asides ha
  | aside ha => exact h.asides ha

omit [DecidableEq W] in
theorem genesis (h : Genesis s) : s.StakeAccounted cfg := by
  refine ⟨fun m stake hm => ?_, fun pid w hw => ?_, fun pid pool hp => ?_⟩
  · simp [h.mining.2.2.2.2.2.2] at hm
  · simp [h.mining.2.2.2.2.2.2] at hw
  · simp [h.pools.1] at hp

/-- No operation that keeps the accounts underflows where it relies on them. -/
theorem exec_not_stake (h : s.StakeAccounted cfg) (hinj : cfg.SubAccountsDiffer) (hs : s.Sound cfg)
    {op : Op A W} {fuel : ℕ}
    {e : Fault} (hok : s.NoneLeft op) (he : exec cfg fuel s op = .error e) : e ∉ stakeFaults := by
  have hcases := staked_cases hinj h.nondust
  cases (exec_ends hs).error he with
  | mild he =>
    have hsub : ∀ e ∈ stakeFaults, e ∈ graveFaults := by decide
    exact fun h => he (hsub e h)
  | free => decide
  | prepare hpool hf => exact hf.not_stake (h.pools _ _ hpool) (hcases _)
  | @contribute who pid amount pool books user e hpool _ _ _ hq =>
    exact queue_not_stake (h.contributed hpool (hok pool hpool) amount) (hcases pid) hq
  | withdraw hpool _ _ hf => exact hf.not_stake (h.pools _ _ hpool) (hcases _)
  | @slash pid w pool info returned slashed hpool hr hlt =>
    have hstakes : (s.reclaimedMiner (cfg.poolSubAccount pid w) info slashed).mining.stakes = _ := rfl
    obtain ⟨hle, -, -⟩ := h.reclaimed hinj hpool hr hstakes
    exact absurd hle (Nat.not_le.mpr hlt)
  | release => decide
  | @reclaim pid w pool info returned slashed e hpool hr hq =>
    have hstakes : (s.reclaimedMiner (cfg.poolSubAccount pid w) info slashed).mining.stakes = _ := rfl
    obtain ⟨-, hacc, hleft⟩ := h.reclaimed hinj hpool hr hstakes
    exact queue_not_stake hacc hleft hq

omit [DecidableEq W] in
theorem withChecks (h : s.StakeAccounted cfg) (checks : Check → Bool) : s.StakeAccounted (cfg.withChecks checks) :=
  ⟨h.nondust, h.filed, h.pools⟩

end StakeAccounted

end State

theorem ReachWhere.stakeAccounted (hinj : cfg.SubAccountsDiffer)
    (h : RunWhere cfg (fun s op => op.StartsAbove ∧ s.NoneLeft op) s) : s.StakeAccounted cfg :=
  h.did_invariant _ (fun _ => State.StakeAccounted.genesis) fun _ _ _ hs hi hok hd => hi.did hinj hs hok.1 hok.2 hd

/-- **Pool stake bookkeeping.** In every run without a contribution to a pool
that has free stake left and no stake, a pool's stake is free or at work, or the
pool was zeroed; and no operation that goes on so underflows where it relies on it. -/
theorem stake_accounted (hinj : cfg.SubAccountsDiffer)
    (h : RunWhere cfg (fun s op => op.StartsAbove ∧ s.NoneLeft op) s) :
    (∀ pid pool, s.stakePools.lookup pid = some pool →
      pool.totalStake = pool.freeStake + s.working cfg pid ∨
        pool.totalStake = 0 ∧ (∀ w, s.mining.stakes.lookup (cfg.poolSubAccount pid w) = none) ∧
        pool.freeStake ≤ 1000) ∧
    (∀ checks fuel op e, s.NoneLeft op → exec (cfg.withChecks checks) fuel s op = .error e → e ∉ stakeFaults) ∧
    ∀ (pool : PoolInfo A W) user shares price, pool.removable user shares price ≤ pool.freeStake := by
  have hacc := h.stakeAccounted hinj
  refine ⟨fun pid pool hpool => ?_, fun checks fuel op e hok he => ?_, fun pool user shares price =>
    PoolInfo.removable_le_free⟩
  · rw [h.cycling.working_eq]
    rcases hacc.pools pid pool hpool with h | ⟨hzero, hnone, hdust⟩
    · exact .inl h
    · refine .inr ⟨hzero, fun w => ?_, hdust⟩
      cases hl : s.mining.stakes.lookup (cfg.poolSubAccount pid w) with
      | none => rfl
      | some stake =>
        have hle : s.stakeOf (cfg.poolSubAccount pid w) ≤ s.staked cfg pid := State.stakeOf_le_staked hinj
        have hstake : s.stakeOf (cfg.poolSubAccount pid w) = stake := by rw [State.stakeOf, hl]; rfl
        have := hacc.nondust _ _ hl
        omega
  · exact (hacc.withChecks checks).exec_not_stake hinj (h.sound.withChecks checks) hok he

namespace Demo

/-- The last staker's shares are worth more than the locked stake that leaves with
them. What stays is mined with and slashed, but for a rest of dust. -/
def emptied : List (Op Account ℕ) :=
  setup ++ [.updateTokenomic ⟨U64F64.fromNum 30000, 0, 0, U64F64.fromNum 1, U64F64.ofBits (2 ^ 64 / 10 ^ 9)⟩,
    .finalizeMining, .contribute (.user 1) 0 10000000000, .withdraw (.user 1) 0 9999998900,
    -- another one leaves dust shares behind four times
    .contribute (.user 2) 0 10000000000, .withdraw (.user 2) 0 9990916347,
    .contribute (.user 2) 0 10000000000, .withdraw (.user 2) 0 5233110322,
    .contribute (.user 2) 0 10000000000, .withdraw (.user 2) 0 2741090452,
    .contribute (.user 2) 0 10000000000, .withdraw (.user 2) 0 1435655486,
    .withdraw (.user 1) 0 1100, .startMining (.user 0) 0 0 13528,
    .gkMessage ⟨[], [], [⟨0, U64F64.ofBits (2 ^ 33), 0, 0⟩]⟩, .stopMining (.user 0) 0 0, .time 10000,
    .reclaimPoolWorker 0 0]

end Demo

/-- A pool zeroed by a slash, with free dust. -/
theorem stake_accounted_demo : ∃ s pool,
    RunWhere Demo.release (fun s op => op.StartsAbove ∧ s.NoneLeft op) s ∧ s.stakePools.lookup 0 = some pool ∧
    pool.totalStake = 0 ∧ pool.freeStake = 465 ∧ ∀ w, s.mining.stakes.lookup
    (Demo.release.poolSubAccount 0 w) = none := by
  obtain ⟨s, hrun, hs⟩ := ranTo_iff.mp (by decide +kernel :
    ranTo (runWhere Demo.release (fun s op => op.StartsAbove ∧ s.NoneLeft op) 9 Demo.genesis Demo.emptied)
      (fun s => (s.stakePools.lookup 0).map (fun pool => (pool.totalStake, pool.freeStake)) = some (0, 465)) =
      true)
  have h := runWhere_reachable (.init Demo.genesis_spec) hrun
  obtain ⟨pool, hpool, hstake⟩ := Option.map_eq_some_iff.mp hs
  obtain ⟨htotal, hfree⟩ := Prod.mk.inj hstake
  obtain ⟨haccounted, -, -⟩ := stake_accounted (Demo.poolSubAccount_injective _) h
  refine ⟨s, pool, h, hpool, htotal, hfree, ?_⟩
  rcases haccounted 0 pool hpool with hsum | ⟨_, hnone, _⟩
  · omega
  · exact hnone

/-- A contribution to that pool leaves more free than there is. -/
theorem stake_not_accounted : ∃ s pool, RunWhere Demo.release (fun _ op => op.StartsAbove) s ∧
    s.stakePools.lookup 0 = some pool ∧ pool.totalStake = 10000000000 ∧ pool.freeStake = 10000000465 ∧
    pool.totalStake ≠ pool.freeStake + s.working Demo.release 0 := by
  obtain ⟨s, hrun, hs⟩ := ranTo_iff.mp (by decide +kernel :
    ranTo (runWhere Demo.release (fun _ op => op.StartsAbove) 9 Demo.genesis
      (Demo.emptied ++ [.contribute (.user 3) 0 10000000000]))
      (fun s => (s.stakePools.lookup 0).map (fun pool => (pool.totalStake, pool.freeStake)) =
        some (10000000000, 10000000465)) = true)
  obtain ⟨pool, hpool, hstake⟩ := Option.map_eq_some_iff.mp hs
  obtain ⟨htotal, hfree⟩ := Prod.mk.inj hstake
  exact ⟨s, pool, runWhere_reachable (.init Demo.genesis_spec) hrun, hpool, htotal, hfree, by omega⟩

end Khala
