/-
What workers report of their speed: the benchmark score (`RegistryEvent::BenchReport`)
and the heartbeats (`MiningReportEvent::Heartbeat`).

A report of `iterations` in `elapsed` milliseconds is worth six times the
iterations of a second, at most 6000. The code divides by whole seconds and cuts
the product to 32 bits before it caps it (`benchReport_eq`), so it is right
where there is a second to divide by and the cut does not go below the cap
(`benchScore_iff`).

A heartbeat is measured from the challenge time of the one before, which comes
from the worker. As long as these are in the past, there is always time to
measure (`heartbeat_never_panics`). What it measures is again six times the
iterations of a second, here rounded once, and cut before it is capped
(`instantPerformance_iff`).
-/
import Khala.Sound

namespace Khala

open Outcome Relation

variable {A W : Type} [DecidableEq W] {cfg : Config A W} {s s' : State A W}

namespace State

/-! ## Benchmark scores -/

def scoreOf (s : State A W) (worker : W) : Option ℕ := (s.registry.lookup worker).bind WorkerInfo.initialScore

/-- The state with the worker's score set, if it is registered. -/
def scored (s : State A W) (worker : W) (score : ℕ) : State A W :=
  { s with registry := match s.registry.lookup worker with
    | some val => s.registry.insert worker { val with initialScore := some score, lastUpdated := s.now }
    | none => s.registry }

/-- Six times the iterations of a second. -/
def rate (elapsed iterations : ℕ) : ℕ := iterations / (elapsed / 1000) * 6

/-- What is promised of a report: it never panics, one of less than a second is
refused, any other sets the capped rate, and more iterations never mean a lower score. -/
structure BenchScore (cfg : Config A W) (s : State A W) (worker : W) (startTime iterations : ℕ) : Prop where
  noPanic : ∀ p, s.benchReport cfg worker startTime iterations ≠ .error (.panic p)
  invalid : startTime < s.now → s.now - startTime < 1000 →
    s.benchReport cfg worker startTime iterations = .error (.dispatch .invalidBenchReport)
  score : startTime < s.now → 1000 ≤ s.now - startTime →
    s.benchReport cfg worker startTime iterations = .ok
    (s.scored worker (min 6000 (rate (s.now - startTime) iterations)))
  atMost : ∀ s', s.benchReport cfg worker startTime iterations = .ok s' → s.registry.lookup worker ≠ none →
    ∃ score ≤ 6000, s'.scoreOf worker = some score
  mono : ∀ fewer ≤ iterations, ∀ s₁ s₂, s.benchReport cfg worker startTime fewer = .ok s₁ →
    s.benchReport cfg worker startTime iterations = .ok s₂ →
    ∀ score₁ ∈ s₁.scoreOf worker, ∀ score₂ ∈ s₂.scoreOf worker, score₁ ≤ score₂

variable {worker : W} {startTime iterations : ℕ}

theorem scoreOf_scored {score : ℕ} :
    (s.scored worker score).scoreOf worker = (s.registry.lookup worker).map fun _ => score := by
  unfold scored scoreOf
  cases h : s.registry.lookup worker with
  | none =>
    dsimp only
    rw [h]
    rfl
  | some val =>
    dsimp only
    rw [AList.lookup_insert]
    rfl

theorem benchReport_late (h : ¬startTime < s.now) :
    s.benchReport cfg worker startTime iterations = .error (.dispatch .invalidBenchReport) :=
  bind_require_not h

theorem benchReport_subSecond (h : startTime < s.now) (hsec : s.now - startTime < 1000) :
    s.benchReport cfg worker startTime iterations = .error (.panic .zeroDivisor) := by
  rw [benchReport, bind_require h]
  exact bind_require_not fun hne => hne (Nat.div_eq_of_lt hsec)

theorem benchReport_eq (h : startTime < s.now) (hsec : 1000 ≤ s.now - startTime) :
    s.benchReport cfg worker startTime iterations =
      if cfg.checks .benchScore = true ∧ 2 ^ 64 ≤ rate (s.now - startTime) iterations then .error
      (.panic (.check .benchScore))
      else .ok (s.scored worker (min 6000 (rate (s.now - startTime) iterations % 2 ^ 32))) := by
  have hne : (s.now - startTime) / 1000 ≠ 0 := by omega
  rw [benchReport, bind_require h, bind_require hne]
  change (cfg.fit .benchScore 64 (rate (s.now - startTime) iterations) >>= fun score => _) = _
  generalize rate (s.now - startTime) iterations = n
  by_cases hlt : n < 2 ^ 64
  · rw [cfg.fit_of_lt hlt, if_neg (by omega)]
    rfl
  · rw [cfg.fit_of_le (by omega)]
    by_cases hc : cfg.checks .benchScore = true
    · rw [if_pos hc, if_pos ⟨hc, by omega⟩]
      rfl
    · rw [if_neg hc, if_neg fun h => hc h.1, ← Nat.mod_mod_of_dvd n (by norm_num : 2 ^ 32 ∣ 2 ^ 64)]
      rfl

theorem rate_mono (elapsed : ℕ) {fewer : ℕ} (h : fewer ≤ iterations) :
    rate elapsed fewer ≤ rate elapsed iterations :=
  Nat.mul_le_mul_right _ (Nat.div_le_div_right h)

theorem benchReport_ok (h : startTime < s.now) (hsec : 1000 ≤ s.now - startTime)
    (hr : s.benchReport cfg worker startTime iterations = .ok s') :
    s' = s.scored worker (min 6000 (rate (s.now - startTime) iterations % 2 ^ 32)) := by
  rw [benchReport_eq h hsec] at hr
  split at hr
  · cases hr
  · exact (Except.ok.inj hr).symm

/-- A score that is cut but never below the cap is the score, where there is one to set. -/
theorem scored_cut {rate : ℕ}
    (h : s.registry.lookup worker = none ∨ rate < 2 ^ 32 ∨ 6000 ≤ rate % 2 ^ 32) :
    s.scored worker (min 6000 (rate % 2 ^ 32)) = s.scored worker (min 6000 rate) := by
  rcases h with hnone | hcut
  · simp only [scored, hnone]
  · have he : min 6000 (rate % 2 ^ 32) = min 6000 rate := by omega
    rw [he]

/-- **A report gets the promised score exactly when** it is refused as too late,
or it covers a second or more and its rate, cut to 32 bits, still fits or
reaches the cap (where there is a score to set), and does not trip an overflow check. -/
theorem benchScore_iff : BenchScore cfg s worker startTime iterations ↔
    s.now ≤ startTime ∨ 1000 ≤ s.now - startTime ∧
      (s.registry.lookup worker = none ∨ rate (s.now - startTime) iterations < 2 ^ 32 ∨
        6000 ≤ rate (s.now - startTime) iterations % 2 ^ 32) ∧
      (cfg.checks .benchScore = true → rate (s.now - startTime) iterations < 2 ^ 64) := by
  by_cases hlate : s.now ≤ startTime
  · refine iff_of_true ?_ (.inl hlate)
    have hr (n : ℕ) : s.benchReport cfg worker startTime n = .error (.dispatch .invalidBenchReport) :=
      benchReport_late (Nat.not_lt.mpr hlate)
    constructor
    · intro p
      simp [hr]
    · exact fun h => absurd hlate (Nat.not_le.mpr h)
    · exact fun h => absurd hlate (Nat.not_le.mpr h)
    · simp [hr]
    · simp [hr]
  have hlt : startTime < s.now := Nat.lt_of_not_le hlate
  constructor
  · intro h
    have hsec : 1000 ≤ s.now - startTime := by
      by_contra hsec
      exact h.noPanic _ (benchReport_subSecond hlt (Nat.lt_of_not_le hsec))
    have hscore := h.score hlt hsec
    rw [benchReport_eq hlt hsec] at hscore
    split at hscore
    · cases hscore
    · next hfits =>
      refine .inr ⟨hsec, ?_, fun hc => by_contra fun hle => hfits ⟨hc, Nat.le_of_not_lt hle⟩⟩
      have hsame := congrArg (fun s' : State A W => s'.scoreOf worker) (Except.ok.inj hscore)
      simp only [scoreOf_scored] at hsame
      cases hw : s.registry.lookup worker with
      | none => exact .inl rfl
      | some val =>
        rw [hw] at hsame
        have he : min 6000 (rate (s.now - startTime) iterations % 2 ^ 32) =
            min 6000 (rate (s.now - startTime) iterations) :=
          Option.some.inj hsame
        exact .inr (by omega)
  · rintro (h | ⟨hsec, hcut, hfits⟩)
    · exact absurd h hlate
    have hr : s.benchReport cfg worker startTime iterations =
        .ok (s.scored worker (min 6000 (rate (s.now - startTime) iterations))) := by
      rw [benchReport_eq hlt hsec, if_neg fun h => Nat.not_le.mpr (hfits h.1) h.2, scored_cut hcut]
    constructor
    · intro p
      simp [hr]
    · intro _ hshort
      omega
    · exact fun _ _ => hr
    · intro s' hs' hw
      rw [benchReport_ok hlt hsec hs', scoreOf_scored]
      obtain ⟨val, hval⟩ := Option.ne_none_iff_exists'.mp hw
      exact ⟨_, Nat.min_le_left _ _, by rw [hval]; rfl⟩
    · intro fewer hfewer s₁ s₂ h₁ h₂ score₁ hscore₁ score₂ hscore₂
      rw [benchReport_ok hlt hsec h₁, scoreOf_scored] at hscore₁
      rw [benchReport_ok hlt hsec h₂, scoreOf_scored] at hscore₂
      obtain ⟨val, hval, rfl⟩ := Option.map_eq_some_iff.mp hscore₁
      obtain ⟨_, _, rfl⟩ := Option.map_eq_some_iff.mp hscore₂
      have hrate := rate_mono (s.now - startTime) hfewer
      rcases hcut with hnone | hcut
      · rw [hnone] at hval
        cases hval
      · omega

/-- A report of less than a second panics, and one of 715827883 iterations in a
second, six times which is two more than `2^32`, scores two. -/
theorem benchScore_not_promised :
    Demo.genesis.benchReport Demo.release 0 1 0 = .error (.panic .zeroDivisor) ∧
    (∃ s, Demo.genesis.benchReport Demo.release 0 0 715827883 = .ok s ∧ s.scoreOf 0 = some 2) ∧
    ¬BenchScore Demo.release Demo.genesis 0 1 0 ∧ ¬BenchScore Demo.release Demo.genesis 0 0 715827883 := by
  refine ⟨rfl, ⟨_, rfl, by decide⟩, fun h => h.noPanic _ rfl, fun h => ?_⟩
  have hscore := congrArg Except.toOption (h.score (by decide) (by decide))
  exact absurd (congrArg (Option.map fun s' : State Demo.Account ℕ => s'.scoreOf 0) hscore) (by decide)

end State

/-! ## Heartbeats -/

/-- The products of `Benchmark::update` fit, where that is checked. -/
def Benchmark.Fits (cfg : Config A W) (self : Benchmark) (iterations : ℕ) : Prop :=
  cfg.checks .benchmark = true → (iterations - min self.iterations iterations) * 6 < 2 ^ 64 ∧
    self.pInit * 12 < 2 ^ 32

omit [DecidableEq W] in
/-- An update succeeds if the last challenge is in the past, and panics otherwise. -/
theorem Benchmark.update_ends {self : Benchmark} {now iterations challengeTime : ℕ} :
    Ends (self.update cfg now iterations challengeTime)
      (fun b => self.challengeTimeLast < now ∧ self.Fits cfg iterations ∧ b.challengeTimeLast = challengeTime)
      (fun e => (∃ p, e = .panic p) ∧ ¬(self.challengeTimeLast < now ∧ self.Fits cfg iterations)) := by
  have hcheck {w n : ℕ} : Ends (cfg.fit .benchmark w n) (fun _ => cfg.checks .benchmark = true → n < 2 ^ w)
      fun e => (∃ p, e = .panic p) ∧ cfg.checks .benchmark = true ∧ ¬n < 2 ^ w := by
    by_cases hlt : n < 2 ^ w
    · rw [cfg.fit_of_lt hlt]
      exact fun _ => hlt
    · rw [cfg.fit_of_le (Nat.le_of_not_lt hlt)]
      split
      · next hc => exact ⟨⟨_, rfl⟩, hc, hlt⟩
      · next hc => exact fun h => absurd h hc
  refine Ends.bind (Ends.require fun h => ⟨⟨_, rfl⟩, fun h' => h h'.1⟩) fun _ hlast => ?_
  refine Ends.bind (hcheck.mono (fun _ h => h) fun _ ⟨hp, hc, h⟩ => ⟨hp, fun h' => h (h'.2 hc).1⟩)
    fun _ hscaled => ?_
  refine Ends.bind (hcheck.mono (fun _ h => h) fun _ ⟨hp, hc, h⟩ => ⟨hp, fun h' => h (h'.2 hc).2⟩) fun _ hcap => ?_
  exact ⟨hlast, fun hc => ⟨hscaled hc, hcap hc⟩, rfl⟩

variable [DecidableEq A]

namespace State

variable {worker : W} {iterations challengeTime : ℕ}

theorem heartbeat_eq {m : A} {info : MinerInfo} {entry : WorkerInfo A}
    (hm : s.mining.workerBindings.lookup worker = some m) (hinfo : s.mining.miners.lookup m = some info)
    (hentry : s.registry.lookup worker = some entry) :
    s.heartbeat cfg worker iterations challengeTime =
      (do let benchmark ← info.benchmark.update cfg s.nowSec iterations (challengeTime / 1000)
          pure (s.putMiner m { info with benchmark })) := by
  rw [heartbeat, hm]
  change (Outcome.get (s.mining.miners.lookup m) _ >>= _) = _
  rw [hinfo]
  change (Outcome.get (s.registry.lookup worker) _ >>= _) = _
  rw [hentry]
  rfl

/-- A heartbeat of a bound worker panics exactly if its benchmark cannot be updated. -/
theorem heartbeat_panics_iff (hb : s.Bound cfg) :
    (∃ p, s.heartbeat cfg worker iterations challengeTime = .error (.panic p)) ↔
    ∃ m info, s.mining.workerBindings.lookup worker = some m ∧ s.mining.miners.lookup m = some info ∧
      ¬(info.benchmark.challengeTimeLast < s.nowSec ∧ info.benchmark.Fits cfg iterations) := by
  cases hm : s.mining.workerBindings.lookup worker with
  | none =>
    have hr : s.heartbeat cfg worker iterations challengeTime = .error (.dispatch .workerNotBound) := by
      rw [heartbeat, hm]
      rfl
    refine iff_of_false ?_ ?_
    · rintro ⟨p, h⟩
      cases hr.symm.trans h
    · rintro ⟨m, _, h, _⟩
      cases h
  | some m =>
    have hw : s.mining.minerBindings.lookup m = some worker := (hb.inverse m worker).mpr hm
    obtain ⟨info, hinfo⟩ := Option.ne_none_iff_exists'.mp (hb.miner m (by simp [hw]))
    obtain ⟨entry, hentry⟩ := Option.ne_none_iff_exists'.mp (hb.worker worker (by simp [hm]))
    rw [heartbeat_eq hm hinfo hentry]
    cases hu : info.benchmark.update cfg s.nowSec iterations (challengeTime / 1000) with
    | error e =>
      obtain ⟨⟨p, rfl⟩, hno⟩ := Benchmark.update_ends.error hu
      exact iff_of_true ⟨p, rfl⟩ ⟨m, info, rfl, hinfo, hno⟩
    | ok b =>
      obtain ⟨hlast, hfits, -⟩ := Benchmark.update_ends.ok hu
      refine iff_of_false ?_ ?_
      · rintro ⟨p, h⟩
        cases h
      · rintro ⟨m', info', h, h', hno⟩
        cases h
        cases hinfo.symm.trans h'
        exact hno ⟨hlast, hfits⟩

/-- Every challenge time that a miner's record holds. -/
def Challenged (s : State A W) (P : ℕ → Prop) : Prop :=
  ∀ m info, s.mining.miners.lookup m = some info → P info.benchmark.challengeTimeLast

namespace Challenged

variable {P : ℕ → Prop}

omit [DecidableEq W] in
theorem of_eq (h : s.Challenged P) (hm : s'.mining.miners = s.mining.miners) : s'.Challenged P := by
  intro m info hi
  rw [hm] at hi
  exact h m info hi

omit [DecidableEq W] in
theorem put {m : A} {info : MinerInfo} (h : s.Challenged P) (hm : s'.mining.miners = s.mining.miners.insert m info)
    (hp : P info.benchmark.challengeTimeLast) : s'.Challenged P := by
  intro m' info' hi
  rw [hm, StorageMap.lookup_insert_ite] at hi
  split at hi
  · cases hi
    exact hp
  · exact h m' info' hi

theorem aside {allowed : Permit} (h : s.Challenged P) (hzero : P 0) (hrec : ∀ t, allowed.records t → P t)
    (ha : Aside cfg allowed s s') : s'.Challenged P := by
  cases ha with
  | other hs => exact h.of_eq hs.miners
  | @miner m info info' hi hu =>
    refine h.put rfl ?_
    rcases hu.challenge with hsame | hnew
    · rw [hsame]
      exact h m info hi
    · exact hrec _ hnew
  | bind _ _ _ _ _ _ _ hnew => exact h.put rfl (hnew ▸ hzero)
  | @stop m _ info _ _ _ _ _ _ hi =>
    have hp : P info.benchmark.challengeTimeLast := h m info hi
    exact h.put rfl hp
  | _ => exact h.of_eq rfl

theorem asides {allowed : Permit} (h : s.Challenged P) (hzero : P 0) (hrec : ∀ t, allowed.records t → P t)
    (ha : Asides cfg allowed s s') : s'.Challenged P := by
  induction ha with
  | refl => exact h
  | tail _ ha ih => exact ih.aside hzero hrec ha

omit [DecidableEq W] in
theorem started {m : A} {stake : ℕ} (h : s.Challenged P) (hs : Started cfg s m stake s') : s'.Challenged P := by
  intro m' info' hi
  obtain ⟨info, hold, hsame⟩ := hs.challenges m' info' hi
  rw [hsame]
  exact h m' info hold

/-- Only a heartbeat writes a new challenge time. -/
theorem did {op : Op A W} (h : s.Challenged P) (hzero : P 0) (hrec : ∀ t, op.Records t → P t)
    (hd : Did cfg s op s') : s'.Challenged P := by
  cases hd with
  | @withdraw who pid shares pool user d user' => exact h.of_eq (s.scheduled_sameStore pool shares).miners
  | start _ _ _ hs => exact (h.started hs).of_eq rfl
  | forceStart hs => exact h.started hs
  | @reclaim pid w _ info _ _ _ _ _ hr =>
    have hp : P info.benchmark.challengeTimeLast := h _ info hr.miner
    exact h.put rfl hp
  | finalize ha => exact h.asides hzero (fun _ => False.elim) ha
  | aside ha => exact h.asides hzero hrec ha
  | _ => exact h.of_eq rfl

end Challenged

/-- After a heartbeat whose challenge is yet to come, every heartbeat of that worker panics until then. -/
theorem heartbeat_of_future (hb : s.Bound cfg) (h : s.heartbeat cfg worker iterations challengeTime = .ok s')
    (hb' : s'.Bound cfg) (hfuture : s'.nowSec ≤ challengeTime / 1000) (iterations' challengeTime' : ℕ) :
    ∃ p, s'.heartbeat cfg worker iterations' challengeTime' = .error (.panic p) := by
  have hsound : ∃ m info, s'.mining.workerBindings.lookup worker = some m ∧ s'.mining.miners.lookup m = some info ∧
      info.benchmark.challengeTimeLast = challengeTime / 1000 := by
    cases hm : s.mining.workerBindings.lookup worker with
    | none =>
      rw [heartbeat, hm] at h
      cases h
    | some m =>
      have hw : s.mining.minerBindings.lookup m = some worker := (hb.inverse m worker).mpr hm
      obtain ⟨info, hinfo⟩ := Option.ne_none_iff_exists'.mp (hb.miner m (by simp [hw]))
      obtain ⟨entry, hentry⟩ := Option.ne_none_iff_exists'.mp (hb.worker worker (by simp [hm]))
      rw [heartbeat_eq hm hinfo hentry] at h
      obtain ⟨b, hu, he⟩ := bind_ok.mp h
      cases he
      exact ⟨m, { info with benchmark := b }, hm, AList.lookup_insert _, (Benchmark.update_ends.ok hu).2.2⟩
  obtain ⟨m, info, hm, hi, hlast⟩ := hsound
  exact (heartbeat_panics_iff hb').mpr ⟨m, info, hm, hi, fun h => by omega⟩

/-- A heartbeat answers a challenge of an earlier second. -/
def AnswersPast (s : State A W) : Op A W → Prop
  | .heartbeat _ _ challengeTime => challengeTime / 1000 < s.nowSec
  | _ => True

instance (s : State A W) (op : Op A W) : Decidable (s.AnswersPast op) :=
  match op with
  | .heartbeat .. => inferInstanceAs (Decidable (_ < _))
  | .create .. | .addWorker .. | .removeWorker .. | .setCap .. | .setPayoutPref ..
    | .setMiningEnable .. | .claimRewards ..
  | .contribute .. | .withdraw .. | .reconcileWithdrawQueue .. | .startMining ..
    | .stopMining .. | .reclaimPoolWorker ..
  | .onFinalize | .unbind .. | .forceStartMining .. | .forceStopMining .. | .gkMessage ..
    | .setCoolDownExpiration ..
  | .updateTokenomic .. | .finalizeMining | .forceRegisterWorker .. | .registerWorker ..
    | .benchReport .. | .time ..
  | .balances .. => .isTrue trivial

end State

/-- **In a run whose heartbeats answer challenges of the past, no heartbeat
panics**, whatever it says itself, but for products that do not fit where that is checked. -/
theorem heartbeat_never_panics {worker : W} {iterations : ℕ}
    (h : RunWhere cfg State.AnswersPast s) (hnow : 0 < s.nowSec)
    (hfits : ∀ m ∈ s.mining.workerBindings.lookup worker, ∀ info ∈ s.mining.miners.lookup m,
      info.benchmark.Fits cfg iterations) (challengeTime : ℕ) (p : Panic) :
    s.heartbeat cfg worker iterations challengeTime ≠ .error (.panic p) := by
  have hpast : s.Challenged fun t => t = 0 ∨ t < s.nowSec := by
    refine h.did_invariant (fun s => s.Challenged fun t => t = 0 ∨ t < s.nowSec) ?_ ?_
    · intro s₀ h₀ m info hi
      simp [h₀.mining.2.2.1] at hi
    · intro s₀ op s₁ _ hpast hok hd
      have hkept : s₁.Challenged fun t => t = 0 ∨ t < s₀.nowSec := by
        refine hpast.did (.inl rfl) (fun t ht => ?_) hd
        cases op with
        | heartbeat => exact .inr (ht ▸ hok)
        | _ => exact ht.elim
      have hle : s₀.nowSec ≤ s₁.nowSec := Nat.div_le_div_right hd.now_le
      exact fun m info hi => (hkept m info hi).imp_right hle.trans_lt'
  intro hp
  obtain ⟨m, info, hm, hi, hno⟩ := (State.heartbeat_panics_iff h.sound.bound).mp ⟨p, hp⟩
  have hlast : info.benchmark.challengeTimeLast < s.nowSec := by
    rcases hpast m info hi with hz | hlt
    · omega
    · exact hlt
  exact hno ⟨hlast, hfits m hm info hi⟩

/-- A worker's second heartbeat. -/
theorem heartbeat_never_panics_demo : ∃ s, RunWhere Demo.release State.AnswersPast s ∧ s.now = 1000 ∧
    s.mining.workerBindings.lookup 0 = some (.miner 0 0) ∧
    s.heartbeat Demo.release 0 9 5000000 ≠ .error (.panic .benchmarkReport) := by
  have hrun := ranTo_iff.mp (by decide +kernel :
    ranTo (runWhere Demo.release State.AnswersPast 9 Demo.genesis (Demo.setup ++ [.heartbeat 0 5 900]))
      (fun s => s.now = 1000 ∧ s.mining.workerBindings.lookup 0 = some (.miner 0 0)) = true)
  obtain ⟨s, hrun, hnow, hw⟩ := hrun
  have h : RunWhere Demo.release State.AnswersPast s := runWhere_reachable (.init Demo.genesis_spec) hrun
  refine ⟨s, h, hnow, hw, heartbeat_never_panics h ?_ ?_ 5000000 .benchmarkReport⟩
  · rw [State.nowSec, hnow]
    norm_num
  · intro m _ info _ hc
    cases hc

/-- A worker's heartbeat answers a challenge of the future; its next one panics. -/
theorem heartbeat_panics : ∃ s, Reachable Demo.release s ∧ s.mining.workerBindings.lookup 0 = some (.miner 0 0) ∧
    s.heartbeat Demo.release 0 9 900 = .error (.panic .benchmarkReport) := by
  have hrun := ranTo_iff.mp (by decide +kernel :
    ranTo (run Demo.release 9 Demo.genesis (Demo.setup ++ [.heartbeat 0 5 5000000]))
      (fun s => s.mining.workerBindings.lookup 0 = some (.miner 0 0) ∧
        failure (s.heartbeat Demo.release 0 9 900) = some (.panic .benchmarkReport)) = true)
  obtain ⟨s, hrun, hw, hfail⟩ := hrun
  exact ⟨s, run_reachable (.init Demo.genesis_spec) (fun _ _ _ => trivial) hrun, hw, failure_eq_some.mp hfail⟩

/-! ## Instant performance -/

namespace Benchmark

variable {self : Benchmark} {now iterations fewer challengeTime : ℕ}

/-- Six times the iterations since the last report. -/
def scaled (self : Benchmark) (iterations : ℕ) : ℕ := (iterations - min self.iterations iterations) * 6

/-- The record after a report, with this performance. -/
def reported (self : Benchmark) (iterations challengeTime pInstant : ℕ) : Benchmark :=
  { self with challengeTimeLast := challengeTime, iterations, pInstant }

/-- What is promised of a report: the performance is six times the iterations of a
second, or 120% of the initial score if that is less, and more iterations above
the stored counter never mean a lower one. -/
structure InstantPerformance (cfg : Config A W) (b : Benchmark) (now iterations challengeTime : ℕ) : Prop where
  value : b.update cfg now iterations challengeTime = .ok (b.reported iterations challengeTime
    (min (b.scaled iterations / (now - b.challengeTimeLast)) (b.pInit * 12 / 10)))
  atMost : ∀ b', b.update cfg now iterations challengeTime = .ok b' → 10 * b'.pInstant ≤ 12 * b.pInit
  mono : ∀ fewer, b.iterations ≤ fewer → fewer ≤ iterations → ∀ b₁ b₂,
    b.update cfg now fewer challengeTime = .ok b₁ →
    b.update cfg now iterations challengeTime = .ok b₂ → b₁.pInstant ≤ b₂.pInstant

/-- The performance as the code cuts it: the product to 64 bits, the quotient and 12 times the score to 32. -/
def cutPerformance (self : Benchmark) (now iterations : ℕ) : ℕ :=
  min (self.scaled iterations % 2 ^ 64 / (now - self.challengeTimeLast) % 2 ^ 32) (self.pInit * 12 % 2 ^ 32 / 10)

omit [DecidableEq A] [DecidableEq W] in
theorem update_eq (hnow : self.challengeTimeLast < now) (hfits : self.Fits cfg iterations) :
    self.update cfg now iterations challengeTime =
      .ok (self.reported iterations challengeTime (self.cutPerformance now iterations)) := by
  have hcut {w n : ℕ} (h : cfg.checks .benchmark = true → n < 2 ^ w) :
      cfg.fit .benchmark w n = .ok (n % 2 ^ w) := by
    by_cases hlt : n < 2 ^ w
    · rw [cfg.fit_of_lt hlt, Nat.mod_eq_of_lt hlt]
    · rw [cfg.fit_of_le (Nat.le_of_not_lt hlt), if_neg fun hc => hlt (h hc)]
  rw [update, bind_require hnow]
  dsimp only
  rw [hcut fun hc => (hfits hc).1, hcut fun hc => (hfits hc).2]
  rfl

omit [DecidableEq A] [DecidableEq W] in
theorem update_ok {b : Benchmark} (h : self.update cfg now iterations challengeTime = .ok b) :
    b = self.reported iterations challengeTime (self.cutPerformance now iterations) := by
  obtain ⟨hnow, hfits, -⟩ := update_ends.ok h
  rw [update_eq hnow hfits] at h
  exact (Except.ok.inj h).symm

theorem scaled_mono (hle : fewer ≤ iterations) : self.scaled fewer ≤ self.scaled iterations := by
  unfold scaled
  omega

/-- The product fits 64 bits and the quotient 32, or what is left of it still reaches
the cap; and the cap fits, or is not reached. -/
def InRange (self : Benchmark) (now iterations : ℕ) : Prop :=
  self.scaled iterations < 2 ^ 64 ∧ self.scaled iterations / (now - self.challengeTimeLast) < 2 ^ 32 ∧
      (self.pInit * 12 < 2 ^ 32 ∨
        self.scaled iterations / (now - self.challengeTimeLast) ≤ self.pInit * 12 % 2 ^ 32 / 10) ∨
    self.pInit * 12 < 2 ^ 32 ∧
      self.pInit * 12 / 10 ≤ self.scaled iterations % 2 ^ 64 / (now - self.challengeTimeLast) % 2 ^ 32

/-- A product of 64 bits or more is cut to a smaller quotient, as the time has fewer. -/
theorem quotient_cut_lt {n d : ℕ} (hd : 0 < d) (hd64 : d < 2 ^ 64) (hn : 2 ^ 64 ≤ n) : n % 2 ^ 64 / d < n / d := by
  have hle : n % 2 ^ 64 + d ≤ n := by omega
  have h := Nat.div_le_div_right (c := d) hle
  rw [Nat.add_div_right _ hd] at h
  omega

theorem cutPerformance_eq_iff (hnow : self.challengeTimeLast < now) (h64 : now < 2 ^ 64) :
    self.cutPerformance now iterations =
        min (self.scaled iterations / (now - self.challengeTimeLast)) (self.pInit * 12 / 10) ↔
      self.InRange now iterations := by
  unfold cutPerformance InRange
  have hd : 0 < now - self.challengeTimeLast := by omega
  have hd64 : now - self.challengeTimeLast < 2 ^ 64 := by omega
  generalize now - self.challengeTimeLast = d at hd hd64 ⊢
  generalize self.scaled iterations = n
  generalize self.pInit * 12 = p
  have hfull : n < 2 ^ 64 → n % 2 ^ 64 / d = n / d := fun h => by rw [Nat.mod_eq_of_lt h]
  have hcut : 2 ^ 64 ≤ n → n % 2 ^ 64 / d < n / d := quotient_cut_lt hd hd64
  generalize n % 2 ^ 64 / d = x at hfull hcut ⊢
  generalize n / d = y at hfull hcut ⊢
  omega

omit [DecidableEq A] [DecidableEq W] in
/-- **A report is worth what is promised exactly when** its numbers stay in range, and
none of them trips an overflow check. -/
theorem instantPerformance_iff (hnow : self.challengeTimeLast < now) (h64 : now < 2 ^ 64) :
    InstantPerformance cfg self now iterations challengeTime ↔ self.Fits cfg iterations ∧
    self.InRange now iterations := by
  constructor
  · intro h
    obtain ⟨-, hfits, -⟩ := update_ends.ok h.value
    refine ⟨hfits, (cutPerformance_eq_iff hnow h64).mp ?_⟩
    have hvalue := h.value
    rw [update_eq hnow hfits] at hvalue
    exact congrArg Benchmark.pInstant (Except.ok.inj hvalue)
  · rintro ⟨hfits, hrange⟩
    have hcut := (cutPerformance_eq_iff hnow h64).mpr hrange
    constructor
    · rw [update_eq hnow hfits, hcut]
    · intro b hb
      rw [update_ok hb]
      change 10 * self.cutPerformance now iterations ≤ 12 * self.pInit
      rw [hcut]
      omega
    · intro fewer _ hle b₁ b₂ h₁ h₂
      rw [update_ok h₁, update_ok h₂]
      change self.cutPerformance now fewer ≤ self.cutPerformance now iterations
      have hscaled : self.scaled fewer ≤ self.scaled iterations := scaled_mono hle
      have hrate : self.scaled fewer / (now - self.challengeTimeLast) ≤
          self.scaled iterations / (now - self.challengeTimeLast) :=
        Nat.div_le_div_right hscaled
      unfold cutPerformance
      rcases hrange with ⟨hn, hy, -⟩ | ⟨hcap, hreached⟩
      · rw [Nat.mod_eq_of_lt hn, Nat.mod_eq_of_lt (hscaled.trans_lt hn), Nat.mod_eq_of_lt hy,
          Nat.mod_eq_of_lt (hrate.trans_lt hy)]
        exact min_le_min_right _ hrate
      · rw [Nat.mod_eq_of_lt hcap]
        exact (min_le_right _ _).trans (le_min hreached le_rfl)

end Benchmark

namespace Demo

/-- A miner with an initial score of 100 and nothing reported yet. -/
def benchmark : Benchmark := ⟨100, 0, 0, 0, 0⟩

end Demo

/-- A thousand iterations in 100 seconds. -/
theorem instantPerformance_demo : Benchmark.InstantPerformance Demo.release Demo.benchmark 100 1000 90 ∧
    Demo.benchmark.update Demo.release 100 1000 90 = .ok ⟨100, 60, 1000, 0, 90⟩ :=
  ⟨(Benchmark.instantPerformance_iff (by decide) (by decide)).mpr
    ⟨nofun, .inl ⟨by decide, by decide, .inl (by decide)⟩⟩, rfl⟩

/-- In one second, 715827883 iterations are worth two, and `2^63` nothing; a thousand are worth the cap. -/
theorem instantPerformance_not_promised :
    Demo.benchmark.update Demo.release 1 715827883 0 = .ok ⟨100, 2, 715827883, 0, 0⟩ ∧
    Demo.benchmark.update Demo.release 1 (2 ^ 63) 0 = .ok ⟨100, 0, 2 ^ 63, 0, 0⟩ ∧
    Demo.benchmark.update Demo.release 1 1000 0 = .ok ⟨100, 120, 1000, 0, 0⟩ ∧
    ¬Benchmark.InstantPerformance Demo.release Demo.benchmark 1 715827883 0 ∧
    ¬Benchmark.InstantPerformance Demo.release Demo.benchmark 1 (2 ^ 63) 0 := by
  have hcut : Demo.benchmark.update Demo.release 1 715827883 0 = .ok ⟨100, 2, 715827883, 0, 0⟩ := rfl
  have hzero : Demo.benchmark.update Demo.release 1 (2 ^ 63) 0 = .ok ⟨100, 0, 2 ^ 63, 0, 0⟩ := rfl
  have hcap : Demo.benchmark.update Demo.release 1 1000 0 = .ok ⟨100, 120, 1000, 0, 0⟩ := rfl
  refine ⟨hcut, hzero, hcap, fun h => ?_, fun h => ?_⟩
  · exact absurd (h.mono 1000 (by decide) (by decide) _ _ hcap hcut) (by decide)
  · exact absurd (h.mono 1000 (by decide) (by decide) _ _ hcap hzero) (by decide)

end Khala
