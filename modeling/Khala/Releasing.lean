/-
What a stop announces is what the reclaim returns, as long as nothing settles
a miner that cools down.

Between its stop and its reclaim a miner's final stake is fixed by its record
and its stake; `Announced` says that it is still the one announced, and that a
pool's `releasingStake` is the sum of what its cooling miners will return.
-/
import Khala.Agreement
import Khala.Lifecycle

namespace Khala

open Outcome Relation

variable {A W : Type} [DecidableEq A] [DecidableEq W] {cfg : Config A W} {s s' : State A W} {P : Permit}

omit [DecidableEq W] in
theorem Move.releasing_eq {d d' : Desk A W} (h : Move cfg d d') :
    d'.pool.releasingStake = d.pool.releasingStake := by
  cases h with
  | remove _ hr => exact hr.unchanged.2.2.2.1
  | _ => rfl

omit [DecidableEq W] in
theorem Moves.releasing_eq {d d' : Desk A W} (h : Moves cfg d d') :
    d'.pool.releasingStake = d.pool.releasingStake := by
  induction h with
  | refl => rfl
  | tail _ h ih => rw [h.releasing_eq, ih]

/-! ## Notices -/

def Notice.miner : Notice A → A
  | .stopped m _ _ => m
  | .reclaimed m _ _ => m

/-- The last notice about a miner. -/
def lastNotice (m : A) (notices : List (Notice A)) : Option (Notice A) := notices.find? fun n => n.miner = m

/-- Each reclaim returned what the stop before it had announced. -/
def Paired : List (Notice A) → Prop
  | [] => True
  | .stopped _ _ _ :: older => Paired older
  | .reclaimed m origStake slashed :: older =>
    lastNotice m older = some (.stopped m origStake slashed) ∧ Paired older

theorem Paired.reclaimed {newer older : List (Notice A)} {m : A} {origStake slashed : ℕ}
    (h : Paired (newer ++ .reclaimed m origStake slashed :: older)) :
    lastNotice m older = some (.stopped m origStake slashed) := by
  induction newer with
  | nil => exact h.1
  | cons n newer ih =>
    cases n with
    | stopped => exact ih h
    | reclaimed => exact ih h.2

theorem lastNotice_cons (m : A) (n : Notice A) (older : List (Notice A)) :
    lastNotice m (n :: older) = if n.miner = m then some n else lastNotice m older := by
  simp only [lastNotice, List.find?_cons]
  split
  · next h => simp [of_decide_eq_true h]
  · next h => simp [of_decide_eq_false h]

/-! ## What reclaims will return -/

/-- The sub-accounts of different pools or workers differ. -/
def Config.SubAccountsDiffer (cfg : Config A W) : Prop :=
  ∀ pid w pid' w', cfg.poolSubAccount pid w = cfg.poolSubAccount pid' w' → pid = pid' ∧ w = w'

omit [DecidableEq A] [DecidableEq W] in
theorem Config.SubAccountsDiffer.injective (h : cfg.SubAccountsDiffer) (pid : ℕ) :
    Function.Injective (cfg.poolSubAccount pid) := fun w w' he => (h pid w pid w' he).2

namespace State

/-- What the reclaim of a miner that cools down will return, and slash. -/
def finalStakeOf (cfg : Config A W) (s : State A W) (m : A) : Option (ℕ × ℕ) :=
  (s.mining.miners.lookup m).bind fun info =>
    if info.state = .miningCoolingDown then (info.calcFinalStake cfg (s.stakeOf m)).toOption else none

def returnedOf (cfg : Config A W) (s : State A W) (m : A) : ℕ := (s.finalStakeOf cfg m).elim 0 Prod.fst

/-- What the reclaims of a pool's miners that cool down will return. -/
noncomputable def releasing (cfg : Config A W) (s : State A W) (pid : ℕ) : ℕ :=
  ∑ᶠ w, s.returnedOf cfg (cfg.poolSubAccount pid w)

variable {m m' : A} {info info' : MinerInfo}

omit [DecidableEq W] in
theorem finalStakeOf_of_lookup (h : s.mining.miners.lookup m = some info) (hc : info.state = .miningCoolingDown)
    {returned slashed : ℕ} (hf : info.calcFinalStake cfg (s.stakeOf m) = .ok (returned, slashed)) :
    s.finalStakeOf cfg m = some (returned, slashed) := by
  rw [finalStakeOf, h, Option.bind_some, if_pos hc, hf]
  rfl

omit [DecidableEq W] in
theorem finalStakeOf_of_state (h : s.mining.miners.lookup m = some info) (hc : info.state ≠ .miningCoolingDown) :
    s.finalStakeOf cfg m = none := by
  rw [finalStakeOf, h, Option.bind_some, if_neg hc]

omit [DecidableEq W] in
theorem finalStakeOf_congr (hm : s'.mining.miners = s.mining.miners) (hs : s'.mining.stakes = s.mining.stakes) :
    s'.finalStakeOf cfg m = s.finalStakeOf cfg m := by
  simp only [finalStakeOf, stakeOf, hm, hs]

omit [DecidableEq W] in
/-- Another miner's record and stake do not matter. -/
theorem finalStakeOf_other (hne : m' ≠ m) (hm : s'.mining.miners = s.mining.miners.insert m info')
    (hs : s'.mining.stakes.lookup m' = s.mining.stakes.lookup m') :
    s'.finalStakeOf cfg m' = s.finalStakeOf cfg m' := by
  simp only [finalStakeOf, stakeOf, hm, hs, StorageMap.lookup_insert_ite, if_neg hne]

omit [DecidableEq W] in
theorem returnedOf_of_none (h : s.mining.miners.lookup m = none) : s.returnedOf cfg m = 0 := by
  rw [returnedOf, finalStakeOf, h]
  rfl

omit [DecidableEq W] in
theorem releasing_congr {pid : ℕ} (h : ∀ m, s'.finalStakeOf cfg m = s.finalStakeOf cfg m) :
    s'.releasing cfg pid = s.releasing cfg pid :=
  finsum_congr fun w => by rw [returnedOf, returnedOf, h]

omit [DecidableEq W] in
/-- One miner's final stake changes: its pool's sum changes by as much. -/
theorem releasing_put {pid : ℕ} {w : W} (hinj : cfg.SubAccountsDiffer) (hm : m = cfg.poolSubAccount pid w)
    (h : ∀ m' ≠ m, s'.finalStakeOf cfg m' = s.finalStakeOf cfg m') (pid' : ℕ) :
    s'.releasing cfg pid' + (if pid' = pid then s.returnedOf cfg m else 0) =
      s.releasing cfg pid' + if pid' = pid then s'.returnedOf cfg m else 0 := by
  subst hm
  split
  · next he =>
    subst he
    have hfinite := StorageMap.finite_support_of_lookup (m := s.mining.miners) (hinj.injective pid')
      (fun w' hw' => (returnedOf_of_none hw' : s.returnedOf cfg _ = 0))
    refine finsum_add_of_eq hfinite w fun w' hne => ?_
    rw [returnedOf, returnedOf, h _ fun he => hne (hinj _ _ _ _ he).2]
  · next hne =>
    rw [Nat.add_zero, Nat.add_zero]
    refine finsum_congr fun w' => ?_
    rw [returnedOf, returnedOf, h _ fun he => hne (hinj _ _ _ _ he).1]

/-- Only workers of existing pools have miners. -/
def MinersFiled (cfg : Config A W) (s : State A W) : Prop :=
  ∀ pid w, s.mining.miners.lookup (cfg.poolSubAccount pid w) ≠ none → s.stakePools.lookup pid ≠ none

namespace MinersFiled

omit [DecidableEq W] in
theorem of_eq (h : s.MinersFiled cfg)
    (hm : ∀ m, s'.mining.miners.lookup m ≠ none → s.mining.miners.lookup m ≠ none)
    (hp : ∀ pid, s.stakePools.lookup pid ≠ none → s'.stakePools.lookup pid ≠ none) : s'.MinersFiled cfg :=
  fun pid w hw => hp pid (h pid w (hm _ hw))

omit [DecidableEq W] in
theorem lookup_of_put {m' : A} (hi : s.mining.miners.lookup m = some info)
    (h : (s.mining.miners.insert m info').lookup m' ≠ none) : s.mining.miners.lookup m' ≠ none := by
  rw [StorageMap.lookup_insert_ite] at h
  split at h
  · next he =>
    rw [he, hi]
    nofun
  · exact h

theorem aside (h : s.MinersFiled cfg) (hinj : cfg.SubAccountsDiffer) (ha : Aside cfg P s s') :
    s'.MinersFiled cfg := by
  have hpools := ha.fewerRequests.pools
  cases ha with
  | other hs => exact h.of_eq (fun _ hm => hs.miners ▸ hm) hpools
  | miner hi => exact h.of_eq (fun _ hm => lookup_of_put hi hm) hpools
  | @bind m w pid pool info hm hpool =>
    intro pid' w' hw'
    have hl : (s.added m w info pid pool).mining.miners.lookup (cfg.poolSubAccount pid' w') = _ :=
      StorageMap.lookup_insert_ite _ _ _ _
    rw [hl] at hw'
    split at hw'
    · next he =>
      obtain ⟨rfl, -⟩ := hinj _ _ _ _ (he.trans hm)
      exact hpools pid' (by rw [hpool]; nofun)
    · exact hpools pid' (h pid' w' hw')
  | stop _ hi => exact h.of_eq (fun _ hm => lookup_of_put hi hm) hpools
  | _ => exact h.of_eq (fun _ hm => hm) hpools

theorem asides (h : s.MinersFiled cfg) (hinj : cfg.SubAccountsDiffer) (ha : Asides cfg P s s') :
    s'.MinersFiled cfg := by
  induction ha with
  | refl => exact h
  | tail _ ha ih => exact ih.aside hinj ha

theorem did {op : Op A W} (h : s.MinersFiled cfg) (hinj : cfg.SubAccountsDiffer) (hd : Did cfg s op s') :
    s'.MinersFiled cfg := by
  have lookup_put : ∀ pid (pool : PoolInfo A W) pid', s.stakePools.lookup pid' ≠ none →
      (s.stakePools.insert pid pool).lookup pid' ≠ none := by
    intro pid pool pid' hp
    rw [StorageMap.lookup_insert_ite]
    split
    · nofun
    · exact hp
  cases hd with
  | create => exact h.of_eq (fun _ hm => hm) (lookup_put _ _)
  | contribute => exact h.of_eq (fun _ hm => hm) (lookup_put _ _)
  | @withdraw who pid shares pool user d user' =>
    have hs := s.scheduled_sameStore pool shares
    refine h.of_eq (fun _ hm => hs.miners ▸ hm) fun pid' hp => ?_
    change ((s.scheduled pool shares).stakePools.insert pid d.pool).lookup pid' ≠ none
    rw [hs.stakePools]
    exact lookup_put _ _ _ hp
  | reconcile => exact h.of_eq (fun _ hm => hm) (lookup_put _ _)
  | start _ _ _ hs =>
    obtain ⟨w, info, info', onlineMiners, nextSessionId, -, hi, -, -, -, -, -, rfl⟩ := hs.result
    exact h.of_eq (fun _ hm => lookup_of_put hi hm) (lookup_put _ _)
  | forceStart hs =>
    obtain ⟨w, info, info', onlineMiners, nextSessionId, -, hi, -, -, -, -, -, rfl⟩ := hs.result
    exact h.of_eq (fun _ hm => lookup_of_put hi hm) fun _ hp => hp
  | reclaim _ hr => exact h.of_eq (fun _ hm => lookup_of_put hr.miner hm) (lookup_put _ _)
  | balances => exact h
  | time => exact h
  | finalize ha => exact h.asides hinj ha
  | aside ha => exact h.asides hinj ha

end MinersFiled

/-- The stops that are still to be reclaimed are as they were announced. -/
structure Announced (cfg : Config A W) (s : State A W) : Prop where
  stopped : ∀ m, s.stateOf m = some .miningCoolingDown → ∃ returned slashed,
    s.finalStakeOf cfg m = some (returned, slashed) ∧
      lastNotice m s.notices = some (.stopped m (s.stakeOf m) slashed)
  paired : Paired s.notices
  releasing : ∀ pid pool, s.stakePools.lookup pid = some pool → pool.releasingStake = s.releasing cfg pid

namespace Announced

omit [DecidableEq W] in
/-- No cool down starts or ends, and none is changed. -/
theorem of_eq (h : s.Announced cfg)
    (hcool : ∀ m, s'.stateOf m = some .miningCoolingDown →
      s.stateOf m = some .miningCoolingDown ∧ s'.stakeOf m = s.stakeOf m)
    (hf : ∀ m, s'.finalStakeOf cfg m = s.finalStakeOf cfg m) (hn : s'.notices = s.notices)
    (hp : ∀ pid pool', s'.stakePools.lookup pid = some pool' →
      ∃ pool, s.stakePools.lookup pid = some pool ∧ pool'.releasingStake = pool.releasingStake)
    :
      s'.Announced cfg where
  stopped m hm := by
    obtain ⟨hm, hstake⟩ := hcool m hm
    rw [hf, hn, hstake]
    exact h.stopped m hm
  paired := hn ▸ h.paired
  releasing pid pool' hpool' := by
    rw [releasing_congr hf]
    obtain ⟨pool, hpool, he⟩ := hp pid pool' hpool'
    rw [he, h.releasing pid pool hpool]

omit [DecidableEq A] [DecidableEq W] in
/-- Another record of a pool, releasing as much. -/
theorem pool_of_put {pid : ℕ} {pool pool' : PoolInfo A W} (hpool : s.stakePools.lookup pid = some pool)
    (hs : s'.stakePools = s.stakePools.insert pid pool') (hr : pool'.releasingStake = pool.releasingStake) :
    ∀ pid' p', s'.stakePools.lookup pid' = some p' →
      ∃ p, s.stakePools.lookup pid' = some p ∧ p'.releasingStake = p.releasingStake := by
  intro pid' p' hp'
  rw [hs, StorageMap.lookup_insert_ite] at hp'
  split at hp'
  · next he =>
    cases hp'
    exact ⟨pool, he ▸ hpool, hr⟩
  · exact ⟨p', hp', rfl⟩

omit [DecidableEq W] in
/-- One miner's record is written, that neither cooled down nor does so now. -/
theorem rewrite (h : s.Announced cfg) (hm : s'.mining.miners = s.mining.miners.insert m info')
    (hold : s.stateOf m ≠ some .miningCoolingDown) (hnew : info'.state ≠ .miningCoolingDown)
    (hs : ∀ m' ≠ m, s'.mining.stakes.lookup m' = s.mining.stakes.lookup m') (hn : s'.notices = s.notices)
    (hp : ∀ pid pool', s'.stakePools.lookup pid = some pool' →
      ∃ pool, s.stakePools.lookup pid = some pool ∧ pool'.releasingStake = pool.releasingStake) :
      s'.Announced cfg := by
  refine h.of_eq (fun m' hm' => ?_) (fun m' => ?_) hn hp
  · rw [stateOf_put _ hm] at hm'
    split at hm'
    · exact absurd (Option.some.inj hm') hnew
    · next hne => exact ⟨hm', by rw [stakeOf, stakeOf, hs m' hne]⟩
  · by_cases he : m' = m
    · subst he
      have hnone : s'.finalStakeOf cfg m' = none :=
        finalStakeOf_of_state (by rw [hm, StorageMap.lookup_insert_ite, if_pos rfl]) hnew
      rw [hnone, finalStakeOf]
      unfold stateOf at hold
      cases hi : s.mining.miners.lookup m' with
      | none => rfl
      | some info =>
        rw [hi] at hold
        rw [Option.bind_some, if_neg fun hc => hold (congrArg some hc)]
    · exact finalStakeOf_other he hm (hs m' he)

theorem aside (h : s.Announced cfg) (hinj : cfg.SubAccountsDiffer) (hb : s.Bound cfg) (hP : ¬P.settlesLate)
    (ha : Aside cfg P s s') : s'.Announced cfg := by
  have same : ∀ m, s'.mining.miners = s.mining.miners → s'.mining.stakes = s.mining.stakes →
      s'.stateOf m = some .miningCoolingDown → s.stateOf m = some .miningCoolingDown ∧
      s'.stakeOf m = s.stakeOf m := by
    intro m hm hs hc
    rw [stateOf, hm] at hc
    exact ⟨hc, by rw [stakeOf, stakeOf, hs]⟩
  cases ha with
  | other hs =>
    exact h.of_eq (fun m => same m hs.miners hs.stakes)
      (fun m => finalStakeOf_congr hs.miners hs.stakes) hs.notices
      fun pid pool' hp => ⟨pool', hs.stakePools ▸ hp, rfl⟩
  | pool hpool hs =>
    exact h.of_eq (fun m => same m rfl rfl) (fun m => rfl) rfl (pool_of_put hpool rfl hs.releasingStake)
  | @miner m info info' hi hu =>
    have hput : (s.putMiner m info').mining.miners = s.mining.miners.insert m info' := rfl
    by_cases hc : info'.state = .miningCoolingDown
    · -- the same final stake
      have hold : info.state = .miningCoolingDown := by
        rcases hu.state with he | ⟨_, h₂⟩
        · rw [← he, hc]
        · rw [hc] at h₂
          cases h₂
      have hv : info'.v = info.v := hu.v.resolve_right fun hr => hP (hr.2 hold)
      refine h.of_eq (fun m' hm' => ?_) (fun m' => ?_) rfl fun pid pool' hp => ⟨pool', hp, rfl⟩
      · rw [stateOf_put _ hput] at hm'
        split at hm'
        · next he => exact ⟨by rw [he, stateOf_eq hi, hold], rfl⟩
        · exact ⟨hm', rfl⟩
      · by_cases he : m' = m
        · subst he
          have hlookup : (s.putMiner m' info').mining.miners.lookup m' = some info' := AList.lookup_insert _
          simp only [finalStakeOf, hlookup, hi, Option.bind_some, hc, hold, if_true]
          rw [calcFinalStake_congr hv hu.ve]
          rfl
        · exact finalStakeOf_other he hput rfl
    · refine h.rewrite hput ?_ hc (fun _ _ => rfl) rfl fun pid pool' hp => ⟨pool', hp, rfl⟩
      rw [stateOf_eq hi]
      intro hold
      rcases hu.state with he | ⟨h₁, _⟩
      · exact hc (he.trans (Option.some.inj hold))
      · rw [Option.some.inj hold] at h₁
        cases h₁
  | @bind m w pid pool info _ hpool _ _ _ hold hready =>
    have hput : (s.added m w info pid pool).mining.miners = s.mining.miners.insert m info := rfl
    refine h.rewrite hput ?_ (by rw [hready]; simp) (fun _ _ => rfl) rfl (pool_of_put hpool rfl rfl)
    unfold stateOf
    cases ho : s.mining.miners.lookup m with
    | none => simp
    | some old =>
      rw [Option.map_some, hold old ho]
      simp
  | release _ _ hpool =>
    exact h.of_eq (fun m => same m rfl rfl) (fun m => rfl) rfl (pool_of_put hpool rfl rfl)
  | @stop m w info onlineMiners pid pool returned slashed hbind hi hr hcool _ hpid hpool hf =>
    -- the stopped miner is the sub-account of its worker in this pool
    obtain ⟨pid', _, hpid', hm, -, -⟩ := hb.pool_of_binding hbind
    obtain rfl := Option.some.inj (hpid'.symm.trans hpid)
    generalize hs' : s.stopped m info onlineMiners pid' pool slashed = s'
    have hput : s'.mining.miners = s.mining.miners.insert m (info.coolDown s.nowSec) := by rw [← hs']; rfl
    have hpools : s'.stakePools = s.stakePools.insert pid' { pool with
      releasingStake := pool.releasingStake + (s.stakeOf m - slashed) } := by rw [← hs']; rfl
    have hstakes : s'.mining.stakes = s.mining.stakes := by rw [← hs']; rfl
    have hnotices : s'.notices = .stopped m (s.stakeOf m) slashed :: s.notices := by rw [← hs']; rfl
    have hstake : ∀ m', s'.stakeOf m' = s.stakeOf m' := fun m' => by rw [stakeOf, stakeOf, hstakes]
    have hother : ∀ m' ≠ m, s'.finalStakeOf cfg m' = s.finalStakeOf cfg m' := fun m' hne =>
      finalStakeOf_other hne hput (by rw [hstakes])
    have hlookup : s'.mining.miners.lookup m = some (info.coolDown s.nowSec) := by rw [hput, AList.lookup_insert]
    rw [← hstake] at hf
    have hfinal : s'.finalStakeOf cfg m = some (returned, slashed) :=
      finalStakeOf_of_lookup hlookup rfl ((calcFinalStake_congr rfl rfl _).trans hf)
    have hold : s.returnedOf cfg m = 0 := by
      rw [returnedOf, finalStakeOf_of_state hi hcool]
      rfl
    have hnew : s'.returnedOf cfg m = returned := by
      rw [returnedOf, hfinal]
      rfl
    have hsum := releasing_put hinj hm hother
    obtain ⟨hle, hslashed⟩ := calcFinalStake_ok hf
    rw [hstake] at hle hslashed
    refine ⟨fun m' hm' => ?_, ?_, fun pid₁ pool₁ hpool₁ => ?_⟩
    · rw [hnotices, lastNotice_cons, hstake]
      by_cases he : m' = m
      · subst he
        exact ⟨returned, slashed, hfinal, if_pos rfl⟩
      · rw [stateOf_put _ hput, if_neg he] at hm'
        obtain ⟨returned', slashed', hf', hn'⟩ := h.stopped m' hm'
        exact ⟨returned', slashed', (hother m' he).trans hf', (if_neg fun h => he h.symm).trans hn'⟩
    · rw [hnotices]
      exact h.paired
    · have hsum := hsum pid₁
      rw [hold, hnew] at hsum
      rw [hpools, StorageMap.lookup_insert_ite] at hpool₁
      split at hpool₁
      · next he =>
        subst he
        cases hpool₁
        have hrel := h.releasing pid₁ pool hpool
        simp only [if_true] at hsum
        change pool.releasingStake + (s.stakeOf m - slashed) = _
        omega
      · next hne =>
        rw [if_neg hne, if_neg hne] at hsum
        rw [h.releasing pid₁ pool₁ hpool₁]
        omega
  | _ => exact h.of_eq (fun m => same m rfl rfl) (fun m => rfl) rfl fun pid pool' hp => ⟨pool', hp, rfl⟩

theorem asides (h : s.Announced cfg) (hinj : cfg.SubAccountsDiffer) (hb : s.Bound cfg) (hP : ¬P.settlesLate)
    (ha : Asides cfg P s s') : s'.Announced cfg := by
  induction ha with
  | refl => exact h
  | tail ha h' ih => exact ih.aside hinj (hb.asides ha) hP h'

omit [DecidableEq W] in
theorem create (h : s.Announced cfg) (hf : s.WellFiled) (hm : s.MinersFiled cfg) (owner : A) :
    (s.create owner).Announced cfg := by
  refine ⟨h.stopped, h.paired, fun pid pool hpool => ?_⟩
  have hl : (s.create owner).stakePools.lookup pid = _ := StorageMap.lookup_insert_ite _ _ _ _
  rw [hl] at hpool
  split at hpool
  · next he =>
    cases hpool
    subst he
    -- nobody mines for a pool that was not there
    refine (finsum_eq_zero_of_forall_eq_zero fun w => ?_).symm
    have hnone : s.mining.miners.lookup (cfg.poolSubAccount s.poolCount w) = none := by
      by_contra hn
      exact hm _ _ hn hf.fresh
    exact returnedOf_of_none (s := s.create owner) hnone
  · exact h.releasing pid pool hpool

omit [DecidableEq W] in
theorem started (h : s.Announced cfg) {stake : ℕ} (hs : Started cfg s m stake s') : s'.Announced cfg := by
  obtain ⟨w, info, info', onlineMiners, nextSessionId, -, hi, hready, -, hidle, -, -, rfl⟩ := hs.result
  have hput : (s.started m stake info' onlineMiners nextSessionId).mining.miners =
      s.mining.miners.insert m info' := rfl
  refine h.rewrite hput (by rw [stateOf_eq hi, hready]; nofun) (by rw [hidle]; nofun) (fun m' hne => ?_) rfl
    fun pid pool' hp => ⟨pool', hp, rfl⟩
  exact AList.lookup_insert_ne hne

omit [DecidableEq W] in
/-- The reclaimed stake leaves the pool's sum, and the pool's record. -/
theorem reclaimed (h : s.Announced cfg) (hinj : cfg.SubAccountsDiffer) {pid returned slashed : ℕ} {w : W}
    {pool pool' : PoolInfo A W} (hpool : s.stakePools.lookup pid = some pool)
    (hr : Reclaimable cfg s (cfg.poolSubAccount pid w) info returned slashed)
    (hp : pool'.releasingStake = pool.releasingStake - returned) :
    returned ≤ pool.releasingStake ∧
      ((s.reclaimedMiner (cfg.poolSubAccount pid w) info slashed).putPool pid pool').Announced cfg := by
  generalize hm : cfg.poolSubAccount pid w = m at hr ⊢
  generalize hs' : (s.reclaimedMiner m info slashed).putPool pid pool' = s'
  have hput : s'.mining.miners = s.mining.miners.insert m { info with state := .ready, coolDownStart := 0 } := by
    rw [← hs']
    rfl
  have hpools : s'.stakePools = s.stakePools.insert pid pool' := by rw [← hs']; rfl
  have hstakes : s'.mining.stakes = s.mining.stakes.erase m := by rw [← hs']; rfl
  have hnotices : s'.notices = .reclaimed m (s.stakeOf m) slashed :: s.notices := by rw [← hs']; rfl
  have hstake : ∀ m' ≠ m, s'.stakeOf m' = s.stakeOf m' := fun m' hne => by
    rw [stakeOf, stakeOf, hstakes, AList.lookup_erase_ne hne]
  have hother : ∀ m' ≠ m, s'.finalStakeOf cfg m' = s.finalStakeOf cfg m' := fun m' hne =>
    finalStakeOf_other hne hput (by rw [hstakes, AList.lookup_erase_ne hne])
  have hlookup : s'.mining.miners.lookup m = some { info with state := .ready, coolDownStart := 0 } := by
    rw [hput, AList.lookup_insert]
  have hfinal : s.finalStakeOf cfg m = some (returned, slashed) :=
    finalStakeOf_of_lookup hr.miner hr.state hr.final
  have hold : s.returnedOf cfg m = returned := by
    rw [returnedOf, hfinal]
    rfl
  have hnew : s'.returnedOf cfg m = 0 := by
    rw [returnedOf, finalStakeOf_of_state hlookup (by simp)]
    rfl
  have hsum := releasing_put hinj hm.symm hother
  have hrel := h.releasing pid pool hpool
  have hpid := hsum pid
  rw [if_pos rfl, if_pos rfl, hold, hnew] at hpid
  refine ⟨by omega, fun m' hm' => ?_, ?_, fun pid₁ pool₁ hpool₁ => ?_⟩
  · rw [stateOf_put _ hput] at hm'
    split at hm'
    · cases hm'
    · next hne =>
      obtain ⟨returned', slashed', hf', hn'⟩ := h.stopped m' hm'
      refine ⟨returned', slashed', (hother m' hne).trans hf', ?_⟩
      rw [hnotices, lastNotice_cons, hstake m' hne]
      exact (if_neg fun he => hne he.symm).trans hn'
  · obtain ⟨returned', slashed', hf', hn'⟩ := h.stopped m (by rw [stateOf_eq hr.miner, hr.state])
    rw [hfinal] at hf'
    cases hf'
    rw [hnotices]
    exact ⟨hn', h.paired⟩
  · have hsum₁ := hsum pid₁
    rw [hold, hnew] at hsum₁
    rw [hpools, StorageMap.lookup_insert_ite] at hpool₁
    split at hpool₁
    · next he =>
      subst he
      cases hpool₁
      rw [hp]
      simp only [if_true] at hsum₁
      omega
    · next hne =>
      rw [if_neg hne, if_neg hne] at hsum₁
      rw [h.releasing pid₁ pool₁ hpool₁]
      omega

omit [DecidableEq W] in
/-- The books do not matter. -/
theorem of_books (h : s.Announced cfg) (books : Books A W) : ({ s with books } : State A W).Announced cfg :=
  ⟨h.stopped, h.paired, h.releasing⟩

theorem did {op : Op A W} (h : s.Announced cfg) (hinj : cfg.SubAccountsDiffer) (hs : s.Sound cfg)
    (hm : s.MinersFiled cfg) (hP : ¬s.SettlesLate op) (hd : Did cfg s op s') : s'.Announced cfg := by
  cases hd with
  | create => exact h.create hs.filed hm _
  | contribute hpool _ _ hq =>
    have hr := (Desk.tryProcessWithdrawQueue_moves.ok hq).releasing_eq
    exact h.of_eq (fun _ hm => ⟨hm, rfl⟩) (fun _ => rfl) rfl (pool_of_put hpool rfl hr)
  | @withdraw who pid shares pool user d user' hpool hu _ _ hw =>
    obtain ⟨rfl, -⟩ := hs.filed.pool pid pool hpool
    have hr : d.pool.releasingStake = pool.releasingStake := (hw.moves (u := who) hu).releasing_eq
    have hss := s.scheduled_sameStore pool shares
    generalize s.scheduled pool shares = s₁ at hss ⊢
    have h₁ : s₁.Announced cfg := h.of_eq
      (fun m hm => ⟨by rwa [stateOf, hss.miners] at hm, by rw [stakeOf, stakeOf, hss.stakes]⟩)
      (fun m => finalStakeOf_congr hss.miners hss.stakes) hss.notices
      fun pid pool' hp => ⟨pool', hss.stakePools ▸ hp, rfl⟩
    exact h₁.of_eq (fun _ hm => ⟨hm, rfl⟩) (fun _ => rfl) rfl (pool_of_put (hss.stakePools ▸ hpool) rfl hr)
  | reconcile hpool => exact h.of_eq (fun _ hm => ⟨hm, rfl⟩) (fun _ => rfl) rfl (pool_of_put hpool rfl rfl)
  | @start owner pid w stake pool s₁ hpool _ _ hst =>
    have h₁ := h.started hst
    have hpool₁ : s₁.stakePools.lookup pid = some pool := by
      obtain ⟨_, _, _, _, _, _, _, _, _, _, _, _, rfl⟩ := hst.result
      exact hpool
    exact h₁.of_eq (fun _ hm => ⟨hm, rfl⟩) (fun _ => rfl) rfl (pool_of_put hpool₁ rfl rfl)
  | forceStart hst => exact h.started hst
  | @reclaim pid w pool info returned slashed fuel d hpool hr hq =>
    have hrel : d.pool.releasingStake = (pool.givenBack returned slashed).releasingStake :=
      (Desk.tryProcessWithdrawQueue_moves.ok hq).releasing_eq
    exact (h.reclaimed hinj hpool hr hrel).2.of_books d.books
  | balances => exact h.of_books _
  | time => exact ⟨h.stopped, h.paired, h.releasing⟩
  | finalize ha => exact h.asides hinj hs.bound id ha
  | aside ha => exact h.asides hinj hs.bound hP ha

omit [DecidableEq W] in
theorem genesis (h : Genesis s) : s.Announced cfg := by
  refine ⟨fun m hm => ?_, ?_, fun pid pool hp => ?_⟩
  · simp [stateOf, h.mining.2.2.1] at hm
  · rw [h.notices]
    trivial
  · simp [h.pools.1] at hp

end Announced

omit [DecidableEq W] in
theorem MinersFiled.genesis (h : Genesis s) : s.MinersFiled cfg := by
  intro pid w hw
  simp [h.mining.2.2.1] at hw

omit [DecidableEq W] in
/-- The call takes the stake that the miner's record and stake make. -/
theorem Announced.reclaim_le (h : s.Announced cfg) (hinj : cfg.SubAccountsDiffer) {pid origStake slashed : ℕ}
    {w : W} {pool : PoolInfo A W} (hpool : s.stakePools.lookup pid = some pool)
    (hr : s.reclaim cfg (cfg.poolSubAccount pid w) = .ok (s', origStake, slashed)) :
    origStake - slashed ≤ pool.releasingStake := by
  obtain ⟨info, returned, hrec, rfl, -⟩ :=
    (reclaim_ends (E := fun _ => True) ⟨trivial, trivial, trivial, trivial⟩).ok hr
  obtain ⟨hle, he⟩ := calcFinalStake_ok hrec.final
  have hcover := (h.reclaimed hinj hpool hrec (rfl : (pool.givenBack returned slashed).releasingStake = _)).1
  omega

end State

theorem ReachWhere.announced (hinj : cfg.SubAccountsDiffer) (h : RunWhere cfg (fun s op => ¬s.SettlesLate op) s) :
    s.Announced cfg := by
  have hI : s.Announced cfg ∧ s.MinersFiled cfg := by
    refine h.did_invariant (fun s => s.Announced cfg ∧ s.MinersFiled cfg)
      (fun s hs => ⟨State.Announced.genesis hs, State.MinersFiled.genesis hs⟩) ?_
    rintro s op s' hs ⟨ha, hm⟩ hok hd
    exact ⟨ha.did hinj hs hm hok hd, hm.did hinj hd⟩
  exact hI.1

/-- **The slash announced at a stop is the slash of the reclaim**, and each pool
is releasing what its cooling miners will return, in every run whose messages
settle no miner that cools down. -/
theorem reclaim_as_announced (hinj : cfg.SubAccountsDiffer) (h : RunWhere cfg (fun s op => ¬s.SettlesLate op) s) :
    (∀ newer older m origStake slashed, s.notices = newer ++ .reclaimed m origStake slashed :: older →
      lastNotice m older = some (.stopped m origStake slashed)) ∧
    (∀ pid pool, s.stakePools.lookup pid = some pool → pool.releasingStake = s.releasing cfg pid) ∧
    ∀ pid pool w s' origStake slashed, s.stakePools.lookup pid = some pool →
      s.reclaim cfg (cfg.poolSubAccount pid w) = .ok (s', origStake, slashed) →
      origStake - slashed ≤ pool.releasingStake := by
  have ha := h.announced hinj
  refine ⟨fun newer older m origStake slashed hn => ?_, ha.releasing,
    fun pid pool w s' origStake slashed hpool hr => ?_⟩
  · have hp : Paired s.notices := ha.paired
    rw [hn] at hp
    exact hp.reclaimed
  · exact ha.reclaim_le hinj hpool hr

/-- A worker goes offline, is stopped and reclaimed. -/
theorem reclaim_as_announced_demo : ∃ s, RunWhere Demo.release (fun s op => ¬s.SettlesLate op) s ∧
    s.notices = [.reclaimed (.miner 0 0) 1000000000000 0, .stopped (.miner 0 0) 1000000000000 0] ∧
    lastNotice (.miner 0 0) s.notices.tail = some (.stopped (.miner 0 0) 1000000000000 0) := by
  have hrun := ranTo_iff.mp (by decide +kernel :
    ranTo (run Demo.release 9 Demo.genesis (Demo.setup ++ [.contribute (.user 1) 0 1000000000000,
      .startMining (.user 0) 0 0 1000000000000, .gkMessage ⟨[0], [], []⟩, .stopMining (.user 0) 0 0, .time 10000,
      .reclaimPoolWorker 0 0]))
      (fun s => s.notices =
        [.reclaimed (.miner 0 0) 1000000000000 0, .stopped (.miner 0 0) 1000000000000 0]) = true)
  obtain ⟨s, hrun, hs⟩ := hrun
  have h : RunWhere Demo.release (fun s op => ¬s.SettlesLate op) s := by
    refine run_reachable (.init Demo.genesis_spec) ?_ hrun
    rintro s op hop ⟨event, rfl, info, hinfo, -⟩
    simp only [Demo.setup, List.mem_append, List.mem_cons, List.not_mem_nil, or_false, reduceCtorEq, false_or,
      Op.gkMessage.injEq] at hop
    subst hop
    cases hinfo
  obtain ⟨hpaired, -, -⟩ := reclaim_as_announced (Demo.poolSubAccount_injective _) h
  refine ⟨s, h, hs, ?_⟩
  rw [hs]
  exact hpaired [] _ _ _ _ hs

/-- A miner that is settled at half its `v` while it cools down returns half of
the stake whose full return its stop announced. -/
theorem reclaim_not_as_announced : ∃ s, Reachable Demo.release s ∧
    s.notices = [.reclaimed (.miner 0 0) 1000000000000 500000000000, .stopped (.miner 0 0) 1000000000000 0] ∧
    lastNotice (.miner 0 0) s.notices.tail ≠ some (.stopped (.miner 0 0) 1000000000000 500000000000) := by
  have hrun := ranTo_iff.mp (by decide +kernel :
    ranTo (run Demo.release 9 Demo.genesis (Demo.setup ++ [.contribute (.user 1) 0 1000000000000,
      .startMining (.user 0) 0 0 1000000000000, .stopMining (.user 0) 0 0,
      .gkMessage ⟨[], [], [⟨0, U64F64.ofBits (2 ^ 63), 0, 0⟩]⟩, .time 10000, .reclaimPoolWorker 0 0]))
      (fun s => s.notices =
        [.reclaimed (.miner 0 0) 1000000000000 500000000000, .stopped (.miner 0 0) 1000000000000 0]) = true)
  obtain ⟨s, hrun, hs⟩ := hrun
  refine ⟨s, Demo.run_genesis hrun, hs, ?_⟩
  rw [hs]
  decide

end Khala
