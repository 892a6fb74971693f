/-
The life cycle of a miner: which states follow which, what is counted and
staked in each, and how long a miner cools down.

A cool down is told by its start: an operation starts one, leaves it alone,
or ends one that has lasted long enough (`Did.coolDown`).
-/
import Khala.Sound

namespace Khala

open Outcome

variable {A W : Type} [DecidableEq A] [DecidableEq W] {cfg : Config A W} {s s' : State A W} {P : Permit}

namespace State

def stateOf (s : State A W) (m : A) : Option MinerState := (s.mining.miners.lookup m).map fun info => info.state

/-- When the miner began to cool down, if it does. -/
def coolDownOf (s : State A W) (m : A) : Option ℕ :=
  (s.mining.miners.lookup m).bind fun info =>
    if info.state = .miningCoolingDown then some info.coolDownStart else none

/-- The number of miners in `MiningIdle` or `MiningUnresponsive`. -/
def onlineCount (s : State A W) : ℕ :=
  StorageMap.total (fun _ info => if info.state.isMining = true then 1 else 0) s.mining.miners

/-- What the miners' records, stakes and counter have to do with each other. -/
structure Cycling (cfg : Config A W) (s : State A W) : Prop where
  online : s.mining.onlineMiners = s.onlineCount % 2 ^ 32
  /-- Where the counter is checked it does not wrap. -/
  checked : cfg.checks .onlineMiners = true → s.mining.onlineMiners = s.onlineCount
  staked : ∀ m, s.mining.stakes.lookup m ≠ none ↔ ∃ state ∈ s.stateOf m, state ≠ .ready
  active : ∀ m, s.stateOf m ≠ some .miningActive
  past : ∀ m t, s.coolDownOf m = some t → t ≤ s.nowSec

variable {m m' : A} {info info' : MinerInfo}

omit [DecidableEq W] in
theorem stateOf_eq (h : s.mining.miners.lookup m = some info) : s.stateOf m = some info.state := by
  rw [stateOf, h]
  rfl

omit [DecidableEq W] in
theorem stateOf_put (m' : A) (h : s'.mining.miners = s.mining.miners.insert m info') :
    s'.stateOf m' = if m' = m then some info'.state else s.stateOf m' := by
  rw [stateOf, h, StorageMap.lookup_insert_ite]
  split <;> rfl

omit [DecidableEq W] in
theorem coolDownOf_put (h : s'.mining.miners = s.mining.miners.insert m info') :
    s'.coolDownOf m' =
      if m' = m then (if info'.state = .miningCoolingDown then some info'.coolDownStart else none)
      else s.coolDownOf m' := by
  rw [coolDownOf, h, StorageMap.lookup_insert_ite]
  split <;> rfl

/-- The miner's part in the count. -/
def onlineOf (s : State A W) (m : A) : ℕ :=
  (s.stateOf m).elim 0 fun state => if state.isMining = true then 1 else 0

omit [DecidableEq W] in
theorem onlineCount_put (h : s'.mining.miners = s.mining.miners.insert m info') :
    s'.onlineCount + s.onlineOf m = s.onlineCount + if info'.state.isMining = true then 1 else 0 := by
  have ht :=
    StorageMap.total_insert (fun (_ : A) (info : MinerInfo) => if info.state.isMining = true then 1 else 0)
    s.mining.miners m info'
  have hc : StorageMap.count (fun (_ : A) (info : MinerInfo) => if info.state.isMining = true then 1 else 0)
      s.mining.miners m = s.onlineOf m := by
    unfold StorageMap.count onlineOf stateOf
    cases s.mining.miners.lookup m <;> rfl
  rw [hc] at ht
  rw [onlineCount, h]
  exact ht

namespace Cycling

omit [DecidableEq W] in
theorem of_eq (h : s.Cycling cfg) (hm : s'.mining.miners = s.mining.miners)
    (hs : s'.mining.stakes = s.mining.stakes) (ho : s'.mining.onlineMiners = s.mining.onlineMiners)
    (hn : s.now ≤ s'.now) : s'.Cycling cfg where
  online := by rw [ho, onlineCount, hm]; exact h.online
  checked hc := by rw [ho, onlineCount, hm]; exact h.checked hc
  staked m := by rw [hs, stateOf, hm]; exact h.staked m
  active m := by rw [stateOf, hm]; exact h.active m
  past m t ht := by
    rw [coolDownOf, hm] at ht
    exact (h.past m t ht).trans (Nat.div_le_div_right hn)

omit [DecidableEq W] in
/-- One miner's record is written. -/
theorem put (h : s.Cycling cfg) (hm : s'.mining.miners = s.mining.miners.insert m info') (hn : s.now ≤ s'.now)
    (hstakes : ∀ m', s'.mining.stakes.lookup m' ≠ none ↔
      if m' = m then info'.state ≠ .ready else s.mining.stakes.lookup m' ≠ none)
    (hactive : info'.state ≠ .miningActive)
    (hpast : info'.state = .miningCoolingDown → info'.coolDownStart ≤ s'.nowSec)
    (honline : s'.mining.onlineMiners = s'.onlineCount % 2 ^ 32)
    (hchecked : cfg.checks .onlineMiners = true → s'.mining.onlineMiners = s'.onlineCount) : s'.Cycling cfg where
  online := honline
  checked := hchecked
  staked m' := by
    rw [hstakes, stateOf_put _ hm]
    split
    · simp
    · exact h.staked m'
  active m' := by
    rw [stateOf_put _ hm]
    split
    · simpa using hactive
    · exact h.active m'
  past m' t ht := by
    rw [coolDownOf_put hm] at ht
    split at ht
    · split at ht
      · next hc =>
        cases ht
        exact hpast hc
      · cases ht
    · exact (h.past m' t ht).trans (Nat.div_le_div_right hn)

omit [DecidableEq W] in
/-- The record is written, and nothing to count or to stake about it changes. -/
theorem rewrite (h : s.Cycling cfg) (hm : s'.mining.miners = s.mining.miners.insert m info') (hn : s.now ≤ s'.now)
    (hs : s'.mining.stakes = s.mining.stakes) (ho : s'.mining.onlineMiners = s.mining.onlineMiners)
    (hstaked : (∃ state ∈ s.stateOf m, state ≠ .ready) ↔ info'.state ≠ .ready)
    (hmining : s.onlineOf m = if info'.state.isMining = true then 1 else 0)
    (hactive : info'.state ≠ .miningActive)
    (hpast : info'.state = .miningCoolingDown → info'.coolDownStart ≤ s'.nowSec) : s'.Cycling cfg := by
  have hcount := onlineCount_put hm
  have hsame : s'.onlineCount = s.onlineCount := by omega
  refine h.put hm hn (fun m' => ?_) hactive hpast (by rw [ho, hsame, h.online]) fun hc => ?_
  · rw [hs]
    split
    · next he => rw [he, h.staked m, hstaked]
    · rfl
  · rw [ho, hsame, h.checked hc]

omit [DecidableEq W] in
theorem state_cases (h : s.Cycling cfg) (hi : s.mining.miners.lookup m = some info) (hr : info.state ≠ .ready)
    (hc : info.state ≠ .miningCoolingDown) : info.state.isMining = true := by
  have ha := h.active m
  rw [stateOf_eq hi] at ha
  cases hstate : info.state with
  | ready => exact absurd hstate hr
  | miningCoolingDown => exact absurd hstate hc
  | miningActive => exact absurd (congrArg some hstate) ha
  | _ => rfl

theorem aside (h : s.Cycling cfg) (ha : Aside cfg P s s') : s'.Cycling cfg := by
  cases ha with
  | other hs => exact h.of_eq hs.miners hs.stakes hs.onlineMiners hs.now.ge
  | @miner m info info' hi hu =>
    have hstate := stateOf_eq hi
    refine h.rewrite rfl le_rfl rfl rfl ?_ ?_ ?_ fun hc => ?_
    · rw [hstate]
      rcases hu.state with he | ⟨h₁, h₂⟩
      · simp [he]
      · cases hs : info.state <;> cases hs' : info'.state <;> simp_all [MinerState.isMining]
    · rw [onlineOf, hstate]
      rcases hu.state with he | ⟨h₁, h₂⟩
      · simp [he]
      · simp [h₁, h₂]
    · rcases hu.state with he | ⟨_, h₂⟩
      · rw [he]
        intro ha
        exact h.active m (hstate.trans (congrArg some ha))
      · intro ha
        rw [ha] at h₂
        cases h₂
    · rcases hu.state with he | ⟨_, h₂⟩
      · refine h.past m _ ?_
        rw [coolDownOf, hi, Option.bind_some, if_pos (he ▸ hc), hu.coolDownStart]
      · rw [hc] at h₂
        cases h₂
  | @bind m w pid pool info _ _ _ _ _ hold hready =>
    have hm : (s.added m w info pid pool).mining.miners = s.mining.miners.insert m info := rfl
    refine h.rewrite hm le_rfl rfl rfl ?_ ?_ (by rw [hready]; nofun) (by rw [hready]; nofun)
    · simp only [hready, ne_eq, not_true_eq_false, iff_false, stateOf]
      rintro ⟨state, hs, hne⟩
      obtain ⟨old, ho, rfl⟩ := Option.map_eq_some_iff.mp hs
      exact hne (hold old ho)
    · rw [hready, onlineOf, stateOf]
      cases ho : s.mining.miners.lookup m with
      | none => rfl
      | some old => simp [hold old ho, MinerState.isMining]
  | @stop m w info onlineMiners pid pool returned slashed _ hi hr hc ho _ _ _ =>
    have hmining := h.state_cases hi hr hc
    have hm : (s.stopped m info onlineMiners pid pool slashed).mining.miners =
      s.mining.miners.insert m (info.coolDown s.nowSec) := rfl
    have hcount := onlineCount_put hm
    have hone : s.onlineOf m = 1 := by rw [onlineOf, stateOf_eq hi, Option.elim_some, if_pos hmining]
    have hcool : (info.coolDown s.nowSec).state.isMining = false := rfl
    rw [hone, hcool] at hcount
    have honline := h.online
    have hchecked := h.checked
    refine h.put hm le_rfl (fun m' => ?_) nofun (fun _ => le_rfl) ?_ fun hcheck => ?_
    · split
      · next he =>
        subst he
        refine ⟨fun _ => nofun, fun _ => (h.staked m').mpr ⟨_, stateOf_eq hi, hr⟩⟩
      · rfl
    · change onlineMiners = _
      unfold lessOnline at ho
      split at ho
      · have := Except.ok.inj ho
        simp only [Bool.false_eq_true, if_false] at hcount
        omega
      · split at ho
        · cases ho
        · have := Except.ok.inj ho
          simp only [Bool.false_eq_true, if_false] at hcount
          omega
    · change onlineMiners = _
      have hcounted := hchecked hcheck
      simp only [Bool.false_eq_true, if_false] at hcount
      unfold lessOnline at ho
      split at ho
      · have := Except.ok.inj ho
        omega
      · omega
  | _ => exact h.of_eq rfl rfl rfl le_rfl

theorem asides (h : s.Cycling cfg) (ha : Asides cfg P s s') : s'.Cycling cfg := by
  induction ha with
  | refl => exact h
  | tail _ ha ih => exact ih.aside ha

omit [DecidableEq W] in
theorem started (h : s.Cycling cfg) {stake : ℕ} (hs : Started cfg s m stake s') : s'.Cycling cfg := by
  obtain ⟨w, info, info', onlineMiners, nextSessionId, -, hi, hready, hnone, hidle, -, hfit, rfl⟩ := hs.result
  have hm : (s.started m stake info' onlineMiners nextSessionId).mining.miners =
      s.mining.miners.insert m info' := rfl
  have hcount := onlineCount_put hm
  have hzero : s.onlineOf m = 0 := by rw [onlineOf, stateOf_eq hi, hready]; rfl
  have hone : info'.state.isMining = true := by rw [hidle]; rfl
  rw [hzero, if_pos hone] at hcount
  have honline := h.online
  have hchecked := h.checked
  refine h.put hm le_rfl (fun m' => ?_) (by rw [hidle]; nofun) (by rw [hidle]; nofun) ?_ fun hcheck => ?_
  · have hl : (s.started m stake info' onlineMiners nextSessionId).mining.stakes.lookup m' = _ :=
      StorageMap.lookup_insert_ite _ _ _ _
    rw [hl]
    split
    · simp [hidle]
    · rfl
  · change onlineMiners = _
    unfold Config.fit at hfit
    split at hfit
    · have := Except.ok.inj hfit
      omega
    · split at hfit
      · cases hfit
      · have := Except.ok.inj hfit
        omega
  · change onlineMiners = _
    have hcounted := hchecked hcheck
    unfold Config.fit at hfit
    rw [if_pos hcheck] at hfit
    split at hfit
    · have := Except.ok.inj hfit
      omega
    · cases hfit

omit [DecidableEq W] in
theorem reclaimed (h : s.Cycling cfg) {returned slashed : ℕ} (hr : Reclaimable cfg s m info returned slashed) :
    (s.reclaimedMiner m info slashed).Cycling cfg := by
  have hm : (s.reclaimedMiner m info slashed).mining.miners =
    s.mining.miners.insert m { info with state := .ready, coolDownStart := 0 } := rfl
  have hcount := onlineCount_put hm
  have hzero : s.onlineOf m = 0 := by rw [onlineOf, stateOf_eq hr.miner, hr.state]; rfl
  have hready : MinerState.isMining .ready = false := rfl
  simp only [hzero, hready, Bool.false_eq_true, if_false] at hcount
  have hsame : (s.reclaimedMiner m info slashed).onlineCount = s.onlineCount := by omega
  refine h.put hm le_rfl (fun m' => ?_) nofun nofun ?_ fun hcheck => ?_
  · have hl : (s.reclaimedMiner m info slashed).mining.stakes.lookup m' = _ :=
      StorageMap.lookup_erase_ite _ _ _
    rw [hl]
    split
    · simp
    · rfl
  · rw [hsame]
    exact h.online
  · rw [hsame]
    exact h.checked hcheck

theorem did {op : Op A W} (h : s.Cycling cfg) (hd : Did cfg s op s') : s'.Cycling cfg := by
  cases hd with
  | @withdraw who pid shares pool user d user' =>
    have hs := s.scheduled_sameStore pool shares
    exact h.of_eq hs.miners hs.stakes hs.onlineMiners hs.now.ge
  | start _ _ _ hs => exact (h.started hs).of_eq rfl rfl rfl le_rfl
  | forceStart hs => exact h.started hs
  | reclaim _ hr _ => exact (h.reclaimed hr).of_eq rfl rfl rfl le_rfl
  | time hn => exact h.of_eq rfl rfl rfl hn
  | finalize ha _ => exact h.asides ha
  | aside ha => exact h.asides ha
  | _ => exact h.of_eq rfl rfl rfl le_rfl

omit [DecidableEq W] in
theorem genesis (h : Genesis s) : s.Cycling cfg := by
  obtain ⟨_, honline, hminers, _, _, _, hstakes⟩ := h.mining
  refine ⟨?_, fun _ => ?_, fun m => ?_, fun m => ?_, fun m t ht => ?_⟩
  · rw [onlineCount, honline, hminers]
    rfl
  · rw [onlineCount, honline, hminers]
    rfl
  · simp [stateOf, hstakes, hminers]
  · simp [stateOf, hminers]
  · simp [coolDownOf, hminers] at ht

end Cycling

end State

theorem ReachWhere.cycling {ok : State A W → Op A W → Prop} (h : RunWhere cfg ok s) : s.Cycling cfg :=
  h.did_invariant _ (fun _ => State.Cycling.genesis) fun _ _ _ _ hc _ hd => hc.did hd

/-! ## Which states follow which -/

/-- The moves of the life cycle, and staying. -/
def MinerState.mayBecome : MinerState → MinerState → Bool
  | .ready, .miningIdle => true
  | .miningIdle, .miningUnresponsive => true
  | .miningUnresponsive, .miningIdle => true
  | .miningIdle, .miningCoolingDown => true
  | .miningUnresponsive, .miningCoolingDown => true
  | .miningCoolingDown, .ready => true
  | state, state' => state = state'

/-- What small changes make of a miner's state: a new one is ready, and one that mines goes on or cools down. -/
def MinerState.Passed (o o' : Option MinerState) : Prop :=
  o' = o ∨ o = none ∧ o' = some .ready ∨
    ∃ state ∈ o, ∃ state' ∈ o', state.isMining = true ∧ (state'.isMining = true ∨ state' = .miningCoolingDown)

theorem MinerState.Passed.trans {o₁ o₂ o₃ : Option MinerState} (h : Passed o₁ o₂) (h' : Passed o₂ o₃) :
    Passed o₁ o₃ := by
  rcases h with rfl | ⟨rfl, rfl⟩ | ⟨a, rfl, b, rfl, ha, hb⟩
  · exact h'
  · rcases h' with rfl | ⟨h', _⟩ | ⟨a, ha, b, _, hm, _⟩
    · exact .inr (.inl ⟨rfl, rfl⟩)
    · cases h'
    · cases ha
      cases hm
  · rcases h' with rfl | ⟨h', _⟩ | ⟨b', hb', c, rfl, hm, hc⟩
    · exact .inr (.inr ⟨a, rfl, b, rfl, ha, hb⟩)
    · cases h'
    · exact .inr (.inr ⟨a, rfl, c, rfl, ha, hc⟩)

theorem Aside.passed (h : Aside cfg P s s') (hc : s.Cycling cfg) (m : A) :
    MinerState.Passed (s.stateOf m) (s'.stateOf m) := by
  cases h with
  | other hs => exact .inl (by rw [State.stateOf, State.stateOf, hs.miners])
  | @miner m₁ info info' hi hu =>
    rw [State.stateOf_put m (rfl : (s.putMiner m₁ info').mining.miners = s.mining.miners.insert m₁ info')]
    split
    · next he =>
      rw [he, State.stateOf_eq hi]
      rcases hu.state with h | ⟨h₁, h₂⟩
      · exact .inl (congrArg some h)
      · exact .inr (.inr ⟨_, rfl, _, rfl, h₁, .inl h₂⟩)
    · exact .inl rfl
  | @bind m₁ w pid pool info _ _ _ _ _ hold hready =>
    rw [State.stateOf_put m (rfl : (s.added m₁ w info pid pool).mining.miners = s.mining.miners.insert m₁ info)]
    split
    · next he =>
      rw [he, hready, State.stateOf]
      cases ho : s.mining.miners.lookup m₁ with
      | none => exact .inr (.inl ⟨rfl, rfl⟩)
      | some old => exact .inl (congrArg some (hold old ho).symm)
    · exact .inl rfl
  | @stop m₁ w info onlineMiners pid pool returned slashed _ hi hr hcool _ _ _ _ =>
    have hm : (s.stopped m₁ info onlineMiners pid pool slashed).mining.miners =
      s.mining.miners.insert m₁ (info.coolDown s.nowSec) := rfl
    rw [State.stateOf_put m hm]
    split
    · next he =>
      rw [he, State.stateOf_eq hi]
      exact .inr (.inr ⟨_, rfl, _, rfl, hc.state_cases hi hr hcool, .inr rfl⟩)
    · exact .inl rfl
  | _ => exact .inl rfl

theorem Asides.passed (h : Asides cfg P s s') (hc : s.Cycling cfg) (m : A) :
    MinerState.Passed (s.stateOf m) (s'.stateOf m) := by
  induction h with
  | refl => exact .inl rfl
  | tail ha h ih => exact ih.trans (h.passed (hc.asides ha) m)

/-- A state after a small change follows the one before it. -/
theorem MinerState.Passed.mayBecome {o o' : Option MinerState} (h : Passed o o') :
    (∀ state ∈ o, ∃ state' ∈ o', state.mayBecome state' = true) ∧ (o = none → o' = none ∨ o' = some .ready) := by
  rcases h with rfl | ⟨rfl, rfl⟩ | ⟨a, rfl, b, rfl, ha, hb⟩
  · refine ⟨fun state hs => ⟨state, hs, ?_⟩, .inl⟩
    cases state <;> rfl
  · exact ⟨nofun, fun _ => .inr rfl⟩
  · refine ⟨fun state hs => ⟨b, rfl, ?_⟩, nofun⟩
    cases hs
    rcases hb with hb | rfl
    · revert ha hb
      cases a <;> cases b <;> decide
    · revert ha
      cases a <;> decide

/-- An operation moves each miner's state as the life cycle allows. -/
theorem Did.mayBecome {op : Op A W} (hd : Did cfg s op s') (hc : s.Cycling cfg) (m : A) :
    (∀ state ∈ s.stateOf m, ∃ state' ∈ s'.stateOf m, state.mayBecome state' = true) ∧
      (s.stateOf m = none → s'.stateOf m = none ∨ s'.stateOf m = some .ready) := by
  have same : ∀ s' : State A W, s'.mining.miners = s.mining.miners →
      MinerState.Passed (s.stateOf m) (s'.stateOf m) :=
    fun s' h => .inl (by rw [State.stateOf, State.stateOf, h])
  have put : ∀ m₁ info info' (s' : State A W), s.mining.miners.lookup m₁ = some info →
      s'.mining.miners = s.mining.miners.insert m₁ info' → info.state.mayBecome info'.state = true →
      (∀ state ∈ s.stateOf m, ∃ state' ∈ s'.stateOf m, state.mayBecome state' = true) ∧
        (s.stateOf m = none → s'.stateOf m = none ∨ s'.stateOf m = some .ready) := by
    intro m₁ info info' s' hi hm hmay
    rw [State.stateOf_put _ hm]
    split
    · next he =>
      rw [he, State.stateOf_eq hi]
      exact ⟨fun state hs => ⟨info'.state, rfl, by cases hs; exact hmay⟩, nofun⟩
    · exact (MinerState.Passed.mayBecome (.inl rfl))
  cases hd with
  | @withdraw who pid shares pool user d user' =>
    exact (same _ (s.scheduled_sameStore pool shares).miners).mayBecome
  | start _ _ _ hs =>
    obtain ⟨w, info, info', onlineMiners, nextSessionId, -, hi, hready, -, hidle, -, -, rfl⟩ := hs.result
    exact put _ info info' _ hi rfl (by rw [hready, hidle]; rfl)
  | forceStart hs =>
    obtain ⟨w, info, info', onlineMiners, nextSessionId, -, hi, hready, -, hidle, -, -, rfl⟩ := hs.result
    exact put _ info info' _ hi rfl (by rw [hready, hidle]; rfl)
  | reclaim _ hr _ => exact put _ _ _ _ hr.miner rfl (by rw [hr.state]; rfl)
  | finalize ha _ => exact (ha.passed hc m).mayBecome
  | aside ha => exact (ha.passed hc m).mayBecome
  | _ => exact (same _ rfl).mayBecome

/-! ## Cooling down -/

/-- A small change starts a cool down now, or leaves it alone. -/
theorem Aside.coolDown (h : Aside cfg P s s') (m : A) :
    s'.coolDownOf m = s.coolDownOf m ∨ s.coolDownOf m = none ∧ s'.coolDownOf m = some s.nowSec := by
  have of_state : ∀ {m : A} {info : MinerInfo}, s.mining.miners.lookup m = some info →
      info.state ≠ .miningCoolingDown → s.coolDownOf m = none := fun hi hne => by
    rw [State.coolDownOf, hi, Option.bind_some, if_neg hne]
  cases h with
  | other hs => exact .inl (by rw [State.coolDownOf, State.coolDownOf, hs.miners])
  | @miner m₁ info info' hi hu =>
    have hm : (s.putMiner m₁ info').mining.miners = s.mining.miners.insert m₁ info' := rfl
    rw [State.coolDownOf_put hm]
    split
    · next he =>
      subst he
      rcases hu.state with hs | ⟨h₁, h₂⟩
      · rw [State.coolDownOf, hi, Option.bind_some, hs, hu.coolDownStart]
        exact .inl rfl
      · have hne : info.state ≠ .miningCoolingDown := fun he => by rw [he] at h₁; cases h₁
        have hne' : info'.state ≠ .miningCoolingDown := fun he => by rw [he] at h₂; cases h₂
        rw [if_neg hne', of_state hi hne]
        exact .inl rfl
    · exact .inl rfl
  | @bind m₁ w pid pool info _ _ _ _ _ hold hready =>
    have hm : (s.added m₁ w info pid pool).mining.miners = s.mining.miners.insert m₁ info := rfl
    rw [State.coolDownOf_put hm]
    split
    · next he =>
      subst he
      rw [hready, if_neg nofun]
      cases ho : s.mining.miners.lookup m with
      | none => exact .inl (by rw [State.coolDownOf, ho]; rfl)
      | some old => exact .inl (of_state ho (by rw [hold old ho]; nofun)).symm
    · exact .inl rfl
  | @stop m₁ w info onlineMiners pid pool returned slashed _ hi _ hcool _ _ _ _ =>
    have hm : (s.stopped m₁ info onlineMiners pid pool slashed).mining.miners =
      s.mining.miners.insert m₁ (info.coolDown s.nowSec) := rfl
    rw [State.coolDownOf_put hm]
    split
    · next he =>
      subst he
      exact .inr ⟨of_state hi hcool, rfl⟩
    · exact .inl rfl
  | _ => exact .inl rfl

theorem Asides.coolDown (h : Asides cfg P s s') (m : A) :
    s'.coolDownOf m = s.coolDownOf m ∨ s.coolDownOf m = none ∧ s'.coolDownOf m = some s.nowSec := by
  induction h with
  | refl => exact .inl rfl
  | tail ha h ih =>
    rcases h.coolDown m with he | ⟨hn, he⟩
    · rw [he]
      exact ih
    · have hnow : State.nowSec _ = s.nowSec := congrArg (· / 1000) (Asides.now_eq ha)
      rcases ih with ih | ⟨ih, ih'⟩
      · exact .inr ⟨ih ▸ hn, by rw [he, hnow]⟩
      · rw [ih'] at hn
        cases hn

/-- An operation starts a cool down, leaves it alone, or ends one that has lasted its period. -/
theorem Did.coolDown {op : Op A W} (hd : Did cfg s op s') (hc : s.Cycling cfg) (m : A) :
    s'.coolDownOf m = s.coolDownOf m ∨ s.coolDownOf m = none ∧ s'.coolDownOf m = some s.nowSec ∨
      ∃ t, s.coolDownOf m = some t ∧ s'.coolDownOf m = none ∧ t + s.mining.coolDownPeriod ≤ s.nowSec := by
  have started : ∀ {m₁ stake s'}, Started cfg s m₁ stake s' → s'.coolDownOf m = s.coolDownOf m := by
    intro m₁ stake s' hs
    obtain ⟨w, info, info', onlineMiners, nextSessionId, -, hi, hready, -, hidle, -, -, rfl⟩ := hs.result
    have hm : (s.started m₁ stake info' onlineMiners nextSessionId).mining.miners =
      s.mining.miners.insert m₁ info' := rfl
    rw [State.coolDownOf_put hm]
    split
    · next he =>
      subst he
      rw [hidle, State.coolDownOf, hi, Option.bind_some, hready]
      rfl
    · rfl
  cases hd with
  | @withdraw who pid shares pool user d user' =>
    have hs := (s.scheduled_sameStore pool shares).miners
    refine .inl ?_
    change ((s.scheduled pool shares).mining.miners.lookup m).bind _ = _
    rw [hs]
    rfl
  | start _ _ _ hs =>
    have hsame := started hs
    exact .inl hsame
  | forceStart hs => exact .inl (started hs)
  | @reclaim pid w pool info returned slashed fuel d _ hr _ =>
    let m₁ := cfg.poolSubAccount pid w
    have hm : ((s.reclaimedMiner m₁ info slashed).putDesk pid d).mining.miners =
      s.mining.miners.insert m₁ { info with state := .ready, coolDownStart := 0 } := rfl
    rw [State.coolDownOf_put hm]
    split
    · next he =>
      have hcool : s.coolDownOf m = some info.coolDownStart := by
        rw [he, State.coolDownOf, hr.miner, Option.bind_some, if_pos hr.state]
      obtain ⟨elapsed, helapsed, hle⟩ := hr.elapsed
      have hpast := hc.past m _ hcool
      rw [Config.sub64_of_le cfg hpast] at helapsed
      have helapsed := Except.ok.inj helapsed
      exact .inr (.inr ⟨_, hcool, rfl, by omega⟩)
    · exact .inl rfl
  | finalize ha _ => exact (ha.coolDown m).imp_right .inl
  | aside ha => exact (ha.coolDown m).imp_right .inl
  | _ => exact .inl rfl

/-- In a run to this state, the miner has been cooling down since the time `t`
in seconds, at which it entered that state. -/
inductive CoolingSince (cfg : Config A W) (m : A) (t : ℕ) : State A W → Prop
  | enter {s op s'} : Reachable cfg s → Step cfg s op s' → s.stateOf m ≠ some .miningCoolingDown →
      s'.stateOf m = some .miningCoolingDown → s.nowSec = t → CoolingSince cfg m t s'
  | stay {s op s'} : CoolingSince cfg m t s → Step cfg s op s' → s'.stateOf m = some .miningCoolingDown →
      CoolingSince cfg m t s'

omit [DecidableEq W] in
theorem State.coolDownOf_eq_none {m : A} : s.coolDownOf m = none ↔ s.stateOf m ≠ some .miningCoolingDown := by
  unfold coolDownOf stateOf
  cases s.mining.miners.lookup m with
  | none => simp
  | some info =>
    by_cases h : info.state = .miningCoolingDown <;> simp [h]

theorem CoolingSince.coolDownOf {m : A} {t : ℕ} (h : CoolingSince cfg m t s) :
    Reachable cfg s ∧ s.coolDownOf m = some t := by
  induction h with
  | @enter s op s' hreach hstep hne hcool ht =>
    obtain ⟨fuel, he⟩ := id hstep
    have hd := (exec_ends hreach.sound).ok he
    refine ⟨.step hreach trivial hstep, ?_⟩
    rw [← State.coolDownOf_eq_none] at hne
    rcases hd.coolDown hreach.cycling m with h | ⟨_, h⟩ | ⟨t', h, _⟩
    · exact absurd hcool (State.coolDownOf_eq_none.mp (h.trans hne))
    · rw [h, ht]
    · rw [hne] at h
      cases h
  | @stay s op s' _ hstep hcool ih =>
    obtain ⟨hreach, hold⟩ := ih
    obtain ⟨fuel, he⟩ := id hstep
    have hd := (exec_ends hreach.sound).ok he
    refine ⟨.step hreach trivial hstep, ?_⟩
    rcases hd.coolDown hreach.cycling m with h | ⟨h, _⟩ | ⟨t', _, h, _⟩
    · rw [h, hold]
    · rw [hold] at h
      cases h
    · exact absurd hcool (State.coolDownOf_eq_none.mp h)

/-- Each miner that cools down has been doing so since some time. -/
theorem ReachWhere.coolingSince {m : A} (h : Reachable cfg s) (hcool : s.stateOf m = some .miningCoolingDown) :
    ∃ t, CoolingSince cfg m t s := by
  induction h with
  | init h =>
    simp [State.stateOf, h.mining.2.2.1] at hcool
  | @step s op s' hreach _ hstep ih =>
    by_cases hold : s.stateOf m = some .miningCoolingDown
    · obtain ⟨t, ht⟩ := ih hold
      exact ⟨t, .stay ht hstep hcool⟩
    · exact ⟨_, .enter hreach hstep hold hcool rfl⟩

namespace State.Cycling

variable {m : A}

/-- The counter is not zero when a miner is stopped. -/
theorem stopMining_ne (h : s.Cycling cfg) : s.stopMining cfg m ≠ .error (.panic (.check .onlineMiners)) := by
  have hends : Ends (s.stopMining cfg m) (fun _ => True) fun e => e ≠ .panic (.check .onlineMiners) := by
    refine Ends.bind (Ends.get fun _ => nofun) fun w _ => ?_
    refine Ends.bind (Ends.get fun _ => nofun) fun info hi => ?_
    refine Ends.bind (Ends.require fun _ => nofun) fun _ hstate => ?_
    have hone : s.onlineOf m = 1 := by
      rw [onlineOf, stateOf_eq hi, Option.elim_some, if_pos (h.state_cases hi hstate.1 hstate.2)]
    have hcount := onlineCount_put (rfl : (s.putMiner m (info.coolDown s.nowSec)).mining.miners = _)
    have hcool : (info.coolDown s.nowSec).state.isMining = false := rfl
    simp only [hone, hcool, Bool.false_eq_true, if_false] at hcount
    refine Ends.bind (Q := fun _ => True) ?_ fun onlineMiners _ => ?_
    · unfold lessOnline
      split
      · trivial
      · next hzero =>
        split
        · next hcheck =>
          have hchecked := h.checked hcheck
          omega
        · trivial
    refine Ends.bind (calcFinalStake_ends fun _ => nofun) fun r _ => ?_
    refine Ends.bind (Q := fun _ => True) ?_ fun _ _ => trivial
    refine Ends.bind (Ends.get fun _ => nofun) fun _ _ => ?_
    refine Ends.bind (Ends.get fun _ => nofun) fun _ _ => ?_
    exact Ends.bind (cfg.sub_ends fun _ => nofun) fun _ _ => trivial
  exact fun he => hends.error he rfl

/-- A miner that is ready has no stake. -/
theorem startMining_ne (h : s.Cycling cfg) {stake : ℕ} :
    s.startMining cfg m stake ≠ .error (.dispatch .internalErrorCannotStartWithExistingStake) := by
  have hends : Ends (s.startMining cfg m stake) (fun _ => True)
      fun e => e ≠ .dispatch .internalErrorCannotStartWithExistingStake := by
    refine Ends.bind (Ends.get fun _ => nofun) fun w _ => ?_
    refine Ends.bind (Ends.get fun _ => nofun) fun info hi => ?_
    refine Ends.bind (Ends.require fun _ => nofun) fun _ hready => ?_
    have hnone : s.mining.stakes.lookup m = none := by
      by_contra hne
      obtain ⟨state, hs, hr⟩ := (h.staked m).mp hne
      rw [stateOf_eq hi] at hs
      cases hs
      exact hr hready
    refine Ends.bind (Ends.require fun hne => absurd hnone hne) fun _ _ => ?_
    refine Ends.bind (Ends.get fun _ => nofun) fun _ _ => ?_
    refine Ends.bind (Ends.get fun _ => nofun) fun _ _ => ?_
    refine Ends.bind (Ends.require fun _ => nofun) fun _ _ => ?_
    refine Ends.bind (Ends.get fun _ => nofun) fun _ _ => ?_
    refine Ends.bind (Ends.require fun _ => nofun) fun _ _ => ?_
    refine Ends.bind (Ends.require fun _ => nofun) fun _ _ => ?_
    refine Ends.bind (cfg.fit_ends nofun) fun _ _ => ?_
    exact Ends.bind (cfg.fit_ends nofun) fun _ _ => trivial
  exact fun he => hends.error he rfl

omit [DecidableEq W] in
/-- A miner that is reclaimed has a stake. -/
theorem reclaim_stake (h : s.Cycling cfg) {origStake slashed : ℕ}
    (hr : s.reclaim cfg m = .ok (s', origStake, slashed)) : s.mining.stakes.lookup m = some origStake := by
  obtain ⟨info, returned, hrec, rfl, -⟩ :=
    (State.reclaim_ends (E := fun _ => True) ⟨trivial, trivial, trivial, trivial⟩).ok hr
  have hne : s.mining.stakes.lookup m ≠ none :=
    (h.staked m).mpr ⟨_, stateOf_eq hrec.miner, by rw [hrec.state]; nofun⟩
  obtain ⟨stake, hstake⟩ := Option.ne_none_iff_exists'.mp hne
  rw [stakeOf, hstake]
  rfl

omit [DecidableEq W] in
/-- The miners with a stake. -/
theorem staked_iff (h : s.Cycling cfg) : s.mining.stakes.lookup m ≠ none ↔ s.stateOf m = some .miningIdle ∨
    s.stateOf m = some .miningUnresponsive ∨ s.stateOf m = some .miningCoolingDown := by
  have ha := h.active m
  rw [h.staked m]
  cases hs : s.stateOf m with
  | none => simp
  | some state =>
    rw [hs] at ha
    cases state <;> simp_all

end State.Cycling

/-- **The life cycle of a miner.** In every reachable state the counter counts
the miners that mine, in its 32 bits, and stakes are those of the miners that
are not ready; an operation moves each state as the life cycle allows, and
ends a cool down only after its period. -/
theorem miner_life_cycle (h : Reachable cfg s) :
    (s.mining.onlineMiners = s.onlineCount % 2 ^ 32 ∧
      (cfg.checks .onlineMiners = true → s.mining.onlineMiners = s.onlineCount) ∧
      ∀ m, s.stopMining cfg m ≠ .error (.panic (.check .onlineMiners))) ∧
    (∀ m, s.mining.stakes.lookup m ≠ none ↔ s.stateOf m = some .miningIdle ∨
      s.stateOf m = some .miningUnresponsive ∨ s.stateOf m = some .miningCoolingDown) ∧
    (∀ m stake, s.startMining cfg m stake ≠ .error (.dispatch .internalErrorCannotStartWithExistingStake)) ∧
    (∀ m s' origStake slashed, s.reclaim cfg m = .ok (s', origStake, slashed) →
      s.mining.stakes.lookup m = some origStake) ∧
    (∀ m, s.stateOf m = some .miningCoolingDown → ∃ t, CoolingSince cfg m t s) ∧
    ∀ op s', Step cfg s op s' → ∀ m,
      (∀ state ∈ s.stateOf m, ∃ state' ∈ s'.stateOf m, state.mayBecome state' = true) ∧
      (s.stateOf m = none → s'.stateOf m = none ∨ s'.stateOf m = some .ready) ∧
      ∀ t, CoolingSince cfg m t s → s'.stateOf m ≠ some .miningCoolingDown →
        t + s.mining.coolDownPeriod ≤ s.nowSec := by
  have hc : s.Cycling cfg := h.cycling
  refine ⟨⟨hc.online, hc.checked, fun m => hc.stopMining_ne⟩, fun m =>
    hc.staked_iff, fun m stake => hc.startMining_ne,
    fun m s' origStake slashed hr => hc.reclaim_stake hr, fun m hcool => h.coolingSince hcool, ?_⟩
  rintro op s' ⟨fuel, he⟩ m
  have hd := (exec_ends h.sound).ok he
  obtain ⟨hmove, hnew⟩ := hd.mayBecome hc m
  refine ⟨hmove, hnew, fun t ht hleft => ?_⟩
  have hold := ht.coolDownOf.2
  have hnone := State.coolDownOf_eq_none.mpr hleft
  rcases hd.coolDown hc m with h' | ⟨h', _⟩ | ⟨t', ht', _, hle⟩
  · rw [hnone, hold] at h'
    cases h'
  · rw [hold] at h'
    cases h'
  · rw [hold] at ht'
    cases ht'
    exact hle

/-- A miner that is stopped by an unbinding. -/
theorem miner_life_cycle_demo : ∃ s, Reachable (Demo.cfg fun _ => true) s ∧ s.mining.onlineMiners = 0 ∧
    s.onlineCount = 0 ∧ s.mining.stakes.lookup (.miner 0 0) ≠ none := by
  have hrun := ranTo_iff.mp (by decide +kernel :
    ranTo (run (Demo.cfg fun _ => true) 9 Demo.genesis (Demo.setup ++ [.contribute (.user 1) 0 1000000000000,
      .startMining (.user 0) 0 0 1000000000000, .unbind (.user 0) (.miner 0 0)]))
      (fun s => s.mining.onlineMiners = 0 ∧ s.stateOf (.miner 0 0) = some .miningCoolingDown) = true)
  obtain ⟨s, hrun, honline, hstate⟩ := hrun
  have h := Demo.run_genesis hrun
  obtain ⟨⟨-, hcount, -⟩, hstaked, -⟩ := miner_life_cycle h
  exact ⟨s, h, honline, (hcount rfl).symm.trans honline, (hstaked _).mpr (.inr (.inr hstate))⟩

end Khala
