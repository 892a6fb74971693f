/-
Why a contribution, a withdrawal or a reclaim panics.

Each serves stakers at a desk. `Desk.Trips` says what can go wrong there, with
the check that is compiled in and the fact that trips it; `State.Trips` what
can go wrong in the operation, and at which desk.
-/
import Khala.QueueEnds
import Khala.Queues

namespace Khala

open Outcome Relation

variable {A W : Type} [DecidableEq A] {cfg : Config A W} {s : State A W}

/-! ## Checks -/

namespace Config

variable {E : Fault → Prop} {c : Check}

omit [DecidableEq A] in
theorem debugAssert_trips {p : Prop} [Decidable p] (hE : cfg.checks c = true → ¬p → E (.panic (.check c))) :
    Ends (cfg.debugAssert c p) (fun _ => cfg.checks c = true → p) E := by
  unfold debugAssert
  split
  · next h => exact hE h.1 h.2
  · next h => exact fun hc => by_contra fun hp => h ⟨hc, hp⟩

omit [DecidableEq A] in
theorem sub_trips {a b : ℕ} (hE : cfg.checks c = true → a < b → E (.panic (.check c))) :
    Ends (cfg.sub c a b) (fun _ => True) E := by
  unfold sub
  split
  · trivial
  · next h =>
    split
    · next hc => exact hE hc (Nat.lt_of_not_le h)
    · trivial

omit [DecidableEq A] in
theorem sub64_trips {a b : ℕ} (hE : cfg.checks c = true → a < b → E (.panic (.check c))) :
    Ends (cfg.sub64 c a b) (fun _ => True) E := by
  unfold sub64
  split
  · trivial
  · next h =>
    split
    · next hc => exact hE hc (Nat.lt_of_not_le h)
    · trivial

end Config

/-! ## At the desk -/

namespace Desk

variable {d : Desk A W} {user : UserStakeInfo A} {shares : ℕ} {missing : Panic} {price : FixedPoint}
  {w : WithdrawInfo A}

/-- Why paying out the shares of a staker, whose rewards are settled, panics. -/
inductive Trips (cfg : Config A W) (d : Desk A W) (user : UserStakeInfo A) (shares : ℕ)
    (missing : Panic) : Fault → Prop
  | ledger : cfg.checks .ledgerReduce = true → Trips cfg d user shares missing (.panic (.check .ledgerReduce))
  | nondust : cfg.checks .removeNondust = true → shares ≤ 1000 →
      Trips cfg d user shares missing (.panic (.check .removeNondust))
  | clean : cfg.checks .slashClean = true → ¬d.pool.SlashClean { user with locked := d.pool.settledLocked user } →
      Trips cfg d user shares missing (.panic (.check .slashClean))
  | dust : cfg.checks .totalSharesDust = true → shares ≤ user.shares →
      shares + (extractDust (user.shares - shares)).2 ≤ d.pool.totalShares →
      (extractDust (d.pool.totalShares - (shares + (extractDust (user.shares - shares)).2))).2 ≠ 0 →
      Trips cfg d user shares missing (.panic (.check .totalSharesDust))
  | total : cfg.checks .removeTotal = true → Trips cfg d user shares missing (.panic (.check .removeTotal))
  | missing : d.pool.Refused user shares → Trips cfg d user shares missing (.panic missing)

theorem ledgerReduce_trips {E : Fault → Prop} {b : Books A W} {who : A} {amount dust : ℕ}
    (hE : cfg.checks .ledgerReduce = true → E (.panic (.check .ledgerReduce))) :
    Ends (b.ledgerReduce cfg who amount dust) (fun _ => True) E :=
  (cfg.debugAssert_trips fun hc _ => hE hc).bind fun _ _ => trivial

theorem maybeSettleSlash_trips {E : Fault → Prop} {b : Books A W} {pool : PoolInfo A W}
    (hE : cfg.checks .ledgerReduce = true → E (.panic (.check .ledgerReduce))) :
    Ends (b.maybeSettleSlash cfg pool user)
      (fun r => r = (b.settled cfg pool user, { user with locked := pool.settledLocked user })) E := by
  refine ends_iff.mpr ⟨fun r hr => ?_, fun e he => ?_⟩
  · exact (Books.maybeSettleSlash_ends (E := fun _ => True) fun _ _ => trivial).ok hr
  · refine Ends.error (Q := fun _ => True) ?_ he
    unfold Books.maybeSettleSlash
    split
    · trivial
    · split
      · exact (ledgerReduce_trips hE).bind fun _ _ => trivial
      · trivial

theorem payOut_trips (hreset : d.pool.resetPendingReward user = user) :
    Ends (d.payOut cfg user shares missing) (fun _ => True) (d.Trips cfg user shares missing) := by
  have hdebt := PoolInfo.resetPendingReward_eq_self.mp hreset
  refine (maybeSettleSlash_trips .ledger).bind ?_
  rintro _ rfl
  refine Ends.bind (Q := fun r => r = none → d.pool.Refused user shares) ?_ fun r hr => ?_
  · refine (cfg.debugAssert_trips fun hc hnd =>
      Trips.nondust hc (not_lt.mp (mt isNondustBalance_iff.mpr hnd))).bind
      fun _ _ => ?_
    refine (cfg.debugAssert_trips fun hc hclean => Trips.clean hc hclean).bind fun _ _ => ?_
    refine (cfg.debugAssert_trips fun _ hne => absurd hdebt.symm hne).bind fun _ _ => ?_
    split
    · next hnone => exact fun _ => .inl hnone
    · dsimp only
      split
      · next hlt => exact fun _ => .inr (.inl hlt)
      · next hle =>
        split
        · next hlt => exact fun _ => .inr (.inr hlt)
        · next htotal =>
          refine (cfg.debugAssert_trips fun hc hne => Trips.dust hc (not_lt.mp hle) (not_lt.mp htotal) hne).bind
            fun _ _ => ?_
          exact (cfg.sub_trips fun hc _ => Trips.total hc).bind fun _ _ hnone =>
            absurd hnone (Option.some_ne_none _)
  · refine Ends.bind (Q := fun _ => True) ?_ fun r _ => ?_
    · cases r with
      | none => exact .missing (hr rfl)
      | some r => trivial
    · exact (ledgerReduce_trips .ledger).bind fun _ _ => trivial

omit [DecidableEq A] in
theorem settleUserPendingReward_trips {E : Fault → Prop} {pool : PoolInfo A W}
    (hE : cfg.checks .pendingReward = true → bmul user.shares pool.rewardAcc < user.rewardDebt →
      E (.panic (.check .pendingReward))) :
    Ends (pool.settleUserPendingReward cfg user)
      (fun user' => PoolInfo.SameStake user user' ∧ pool.resetPendingReward user' = user') E :=
  (cfg.sub_trips hE).bind fun _ _ => ⟨⟨_, _, rfl⟩, rfl⟩

/-- Why a pass of the loop panics that serves the staker `user`. -/
inductive PassTrips (cfg : Config A W) (price : FixedPoint) (d : Desk A W) (w : WithdrawInfo A)
    (user : UserStakeInfo A) :
    Fault → Prop
  | pending : cfg.checks .pendingReward = true → bmul user.shares d.pool.rewardAcc < user.rewardDebt →
      PassTrips cfg price d w user (.panic (.check .pendingReward))
  | withdrawing : cfg.checks .withdrawingShares = true → withdrawingShares price d.pool w ≤ 1000 →
      PassTrips cfg price d w user (.panic (.check .withdrawingShares))
  | pay {user₁ e} : PoolInfo.SameStake user user₁ →
      (cfg.checks .withdrawingShares = true → 1000 < withdrawingShares price d.pool w) →
      d.Trips cfg user₁ (withdrawingShares price d.pool w) .removeOnlyWhatWeHave e → PassTrips cfg price d w user e

theorem fulfill_trips : Ends (d.fulfill cfg price w user) (fun _ => True) (PassTrips cfg price d w user) := by
  refine (settleUserPendingReward_trips .pending).bind fun user₁ ⟨hs, hreset⟩ => ?_
  refine (cfg.debugAssert_trips fun hc hnd =>
    PassTrips.withdrawing hc (not_lt.mp (mt isNondustBalance_iff.mpr hnd))).bind
    fun _ hnd => ?_
  refine ((payOut_trips hreset).mono (fun _ h => h) fun e he => ?_).bind fun _ _ => trivial
  exact .pay hs (fun hc => isNondustBalance_iff.mp (hnd hc)) he

/-- The loop runs out of fuel, or a pass of it trips. -/
theorem tryProcessWithdrawQueue_trips {fuel : ℕ} :
    Ends (d.tryProcessWithdrawQueue cfg fuel) (fun _ => True) fun e => e = .outOfFuel ∨
      ∃ price d₁ w rest user, d.pool.sharePrice = some price ∧ Passes cfg price d d₁ ∧ 1000 < d₁.pool.freeStake ∧
        d₁.pool.withdrawQueue = w :: rest ∧ d₁.books.poolStakers.lookup (d₁.pool.pid, w.user) = some user ∧
        PassTrips cfg price d₁ w user e := by
  refine (tryProcessWithdrawQueue_ends
    (I := fun d₁ => ∀ price, d.pool.sharePrice = some price → Passes cfg price d d₁)
    (.inl rfl) (fun d₁ w rest hd hfree hq hn price hprice => (hd price hprice).tail (.skip hfree hq hn))
    (fun price d₁ w rest user hprice hd hfree hq hu => ?_) fun _ _ => .refl).mono (fun _ _ => trivial) fun _ h => h
  refine ends_iff.mpr ⟨fun d₂ h₂ price' hprice' => ?_, fun e he => .inr ?_⟩
  · cases hprice.symm.trans hprice'
    exact (hd price hprice).tail (.serve hfree hq hu h₂)
  · exact ⟨price, d₁, w, rest, user, hprice, hd price hprice, isNondustBalance_iff.mp hfree, hq,
      hu, fulfill_trips.error he⟩

end Desk

/-! ## In the state -/

namespace State

/-- The desks that an operation comes to: its pool's, and those that the passes of the loop start from. -/
inductive Finds (cfg : Config A W) (s : State A W) : Op A W → Desk A W → Prop
  | contribute {who pid amount pool} : s.stakePools.lookup pid = some pool →
      Finds cfg s (.contribute who pid amount) ⟨pool, s.books⟩
  | withdraw {who pid shares pool} : s.stakePools.lookup pid = some pool →
      Finds cfg s (.withdraw who pid shares) ⟨pool, s.books⟩
  | reclaim {pid w pool} : s.stakePools.lookup pid = some pool →
      Finds cfg s (.reclaimPoolWorker pid w) ⟨pool, s.books⟩
  | pass {op d price d₁} : s.Enters cfg op d → d.pool.sharePrice = some price → Desk.Passes cfg price d d₁ →
      Finds cfg s op d₁

/-- What holds of the pool's desk and where the loop is entered, and is kept by its passes. -/
theorem Finds.induction {I : Desk A W → Prop} {op : Op A W} {d : Desk A W} (h : s.Finds cfg op d)
    (hpool : ∀ pid pool, s.stakePools.lookup pid = some pool → I ⟨pool, s.books⟩)
    (henter : ∀ d, s.Enters cfg op d → I d)
    (hpass : ∀ price d d', I d → Desk.Pass cfg price d d' → I d') : I d := by
  cases h with
  | contribute hl => exact hpool _ _ hl
  | withdraw hl => exact hpool _ _ hl
  | reclaim hl => exact hpool _ _ hl
  | pass he _ hp =>
    induction hp with
    | refl => exact henter _ he
    | tail _ hp ih => exact hpass _ _ _ ih hp

/-- Why a contribution, a withdrawal or a reclaim fails: by no panic, or by one of these. -/
inductive Trips (cfg : Config A W) (s : State A W) : Op A W → Fault → Prop
  | calm {op e} : (∀ p, e ≠ .panic p) → Trips cfg s op e
  | free {who pid amount} : cfg.checks .contributeFree = true →
      Trips cfg s (.contribute who pid amount) (.panic (.check .contributeFree))
  | ledger {op} : cfg.checks .ledgerReduce = true → Trips cfg s op (.panic (.check .ledgerReduce))
  | pending {op d u user} : s.Finds cfg op d → d.books.poolStakers.lookup (d.pool.pid, u) = some user →
      cfg.checks .pendingReward = true → bmul user.shares d.pool.rewardAcc < user.rewardDebt →
      Trips cfg s op (.panic (.check .pendingReward))
  | addNondust {who pid amount} : cfg.checks .addNondust = true → cfg.minContribution ≤ amount → amount ≤ 1000 →
      Trips cfg s (.contribute who pid amount) (.panic (.check .addNondust))
  | addClean {who pid amount pool books user} : s.stakePools.lookup pid = some pool →
      Prepared cfg ⟨pool, s.books⟩ who books user → cfg.checks .slashClean = true → ¬pool.SlashClean user →
      Trips cfg s (.contribute who pid amount) (.panic (.check .slashClean))
  | pay {who pid shares pool user user₁ e} : s.stakePools.lookup pid = some pool →
      s.books.poolStakers.lookup (pid, who) = some user → shares ≤ user.shares → PoolInfo.SameStake user user₁ →
      1000 < Desk.sharesNow pool shares →
      Desk.Trips cfg ⟨pool, s.books⟩ user₁ (Desk.sharesNow pool shares) .enoughWithdrawingShares e →
      Trips cfg s (.withdraw who pid shares) e
  | coolDown {pid w info} : s.mining.miners.lookup (cfg.poolSubAccount pid w) = some info →
      info.state = .miningCoolingDown → cfg.checks .coolDown = true → s.nowSec < info.coolDownStart →
      Trips cfg s (.reclaimPoolWorker pid w) (.panic (.check .coolDown))
  | noVe {pid w info} : s.mining.miners.lookup (cfg.poolSubAccount pid w) = some info →
      info.state = .miningCoolingDown → info.ve = 0 → Trips cfg s (.reclaimPoolWorker pid w) (.panic .zeroDivisor)
  | slashShares {pid w pool info returned slashed} : s.stakePools.lookup pid = some pool →
      Reclaimable cfg s (cfg.poolSubAccount pid w) info returned slashed → slashed ≠ 0 →
      cfg.checks .slashShares = true → pool.totalShares ≤ 1000 →
      Trips cfg s (.reclaimPoolWorker pid w) (.panic (.check .slashShares))
  | slashStake {pid w pool info returned slashed} : s.stakePools.lookup pid = some pool →
      Reclaimable cfg s (cfg.poolSubAccount pid w) info returned slashed → cfg.checks .slashStake = true →
      pool.totalStake < slashed → Trips cfg s (.reclaimPoolWorker pid w) (.panic (.check .slashStake))
  | releasing {pid w pool info returned slashed} : s.stakePools.lookup pid = some pool →
      Reclaimable cfg s (cfg.poolSubAccount pid w) info returned slashed → cfg.checks .releasing = true →
      pool.releasingStake < returned → Trips cfg s (.reclaimPoolWorker pid w) (.panic (.check .releasing))
  | pass {op d price d₁ w rest user e} : s.Enters cfg op d → d.pool.sharePrice = some price →
      Desk.Passes cfg price d d₁ → 1000 < d₁.pool.freeStake → d₁.pool.withdrawQueue = w :: rest →
      d₁.books.poolStakers.lookup (d₁.pool.pid, w.user) = some user → Desk.PassTrips cfg price d₁ w user e →
      Trips cfg s op e

variable {fuel pid amount shares : ℕ} {who : A} {w : W}

theorem Trips.dispatch {op : Op A W} {e : Error} : s.Trips cfg op (.dispatch e) := .calm nofun

/-- The queue's loop at the desk that an operation enters. -/
theorem Enters.trips {op : Op A W} {d : Desk A W} (h : s.Enters cfg op d) :
    Ends (d.tryProcessWithdrawQueue cfg fuel) (fun _ => True) (s.Trips cfg op) := by
  refine Desk.tryProcessWithdrawQueue_trips.mono (fun _ h => h) fun e he => ?_
  rcases he with rfl | ⟨price, d₁, w, rest, user, hprice, hp, hfree, hq, hu, ht⟩
  · exact .calm nofun
  · exact .pass h hprice hp hfree hq hu ht

/-- The contributor's rewards and slash are settled. -/
theorem contributor_trips {pool : PoolInfo A W} (hpool : s.stakePools.lookup pool.pid = some pool) :
    Ends (s.contributor cfg pool pool.pid who) (fun r => pool.resetPendingReward r.2 = r.2)
      (s.Trips cfg (.contribute who pool.pid amount)) := by
  unfold contributor
  split
  · next user hu =>
    have hfinds : s.Finds cfg (.contribute who pool.pid amount) ⟨pool, s.books⟩ := .contribute hpool
    refine Ends.bind (Desk.settleUserPendingReward_trips fun hc hlt => Trips.pending hfinds hu hc hlt)
      fun user₁ ⟨_, hreset⟩ => ?_
    refine (Desk.maybeSettleSlash_trips fun hc => Trips.ledger hc).mono ?_ fun _ he => he
    rintro _ rfl
    have hdebt := PoolInfo.resetPendingReward_eq_self.mp hreset
    exact PoolInfo.resetPendingReward_eq_self.mpr hdebt
  · exact PoolInfo.resetPendingReward_eq_self.mpr (bmul_zero _).symm

theorem contribute_trips (hf : s.WellFiled) :
    Ends (s.contribute cfg fuel who pid amount) (fun _ => True) (s.Trips cfg (.contribute who pid amount)) := by
  refine Ends.bind (Ends.require fun _ => .dispatch) fun _ hmin => ?_
  refine Ends.bind (cfg.sub_trips fun hc _ => .free hc) fun _ _ => ?_
  refine Ends.bind (Ends.require fun _ => .dispatch) fun _ _ => ?_
  refine Ends.bind (Ends.get fun _ => .dispatch) fun pool hpool => ?_
  refine Ends.bind (Ends.require fun _ => .dispatch) fun _ _ => ?_
  refine Ends.bind (Ends.require fun _ => .dispatch) fun _ _ => ?_
  obtain ⟨rfl, -⟩ := hf.pool _ _ hpool
  refine Ends.bind (Q := fun r => s.contributor cfg pool pool.pid who = .ok r ∧ pool.resetPendingReward r.2 = r.2)
    (contributor_trips hpool).result ?_
  rintro ⟨books, user⟩ ⟨hcon, hreset⟩
  have hprep : Prepared cfg ⟨pool, s.books⟩ who books user := contributor_ends.ok hcon
  refine Ends.bind (Q := fun r => r = (pool.added amount, pool.addedStaker user amount)) ?_ ?_
  · have hdebt := PoolInfo.resetPendingReward_eq_self.mp hreset
    refine (cfg.debugAssert_trips fun hc hnd =>
      Trips.addNondust hc hmin (not_lt.mp (mt isNondustBalance_iff.mpr hnd))).bind fun _ _ => ?_
    refine (cfg.debugAssert_trips fun hc hclean => Trips.addClean hpool hprep hc hclean).bind fun _ _ => ?_
    refine (cfg.debugAssert_trips fun _ hne => absurd hdebt.symm hne).bind fun _ _ => ?_
    rfl
  rintro _ rfl
  exact Ends.bind (Enters.contribute hpool hcon).trips fun _ _ => trivial

/-- What is withdrawn at once is extracted from its dust. -/
theorem withdraw_trips (hf : s.WellFiled) :
    Ends (s.withdraw cfg who pid shares) (fun _ => True) (s.Trips cfg (.withdraw who pid shares)) := by
  refine Ends.bind (Ends.get fun _ => .dispatch) fun user hu => ?_
  refine Ends.bind (Ends.require fun _ => .dispatch) fun _ hle => ?_
  refine Ends.bind (Ends.get fun _ => .dispatch) fun pool hpool => ?_
  obtain ⟨rfl, -⟩ := hf.pool _ _ hpool
  refine Ends.bind (Q := fun _ => True) ?_ fun _ _ => trivial
  have hfinds : s.Finds cfg (.withdraw who pool.pid shares) ⟨pool, s.books⟩ := .withdraw hpool
  refine Ends.bind (Desk.settleUserPendingReward_trips fun hc hlt => Trips.pending hfinds hu hc hlt)
    fun user₁ ⟨hs, hreset⟩ => ?_
  refine Ends.bind (Q := fun _ => True) ?_ fun _ _ => trivial
  split
  · next hpos =>
    have hnow : 1000 < Desk.sharesNow pool shares := Desk.nondust_of_ne_zero (Nat.pos_iff_ne_zero.mp hpos)
    exact (Desk.payOut_trips hreset).mono (fun _ h => h) fun e he => .pay hpool hu hle.2 hs hnow he
  · trivial

theorem reclaim_trips : Ends (s.reclaim cfg (cfg.poolSubAccount pid w))
    (fun (s₁, origStake, slashed) => ∃ info returned,
    Reclaimable cfg s (cfg.poolSubAccount pid w) info returned slashed ∧
      origStake = s.stakeOf (cfg.poolSubAccount pid w) ∧
      s₁ = s.reclaimedMiner (cfg.poolSubAccount pid w) info slashed)
    (s.Trips cfg (.reclaimPoolWorker pid w)) := by
  refine ends_iff.mpr ⟨fun r hr => ?_, fun e he => ?_⟩
  · exact (reclaim_ends (E := fun _ => True) ⟨trivial, trivial, trivial, trivial⟩).ok hr
  refine Ends.error (Q := fun _ => True) ?_ he
  refine Ends.bind (Ends.get fun _ => Trips.dispatch) fun info hinfo => ?_
  refine Ends.bind (Q := fun b => b = true → info.state = .miningCoolingDown) ?_ fun b hb => ?_
  · unfold canReclaim
    split
    · next h =>
      exact Ends.bind (cfg.sub64_trips fun hc hlt => Trips.coolDown hinfo h hc hlt) fun _ _ _ => h
    · exact fun h => by cases h
  refine Ends.bind (Ends.require fun _ => Trips.dispatch) fun _ htrue => ?_
  refine Ends.bind (calcFinalStake_ends fun hve => Trips.noVe hinfo (hb htrue) hve) ?_
  rintro ⟨_, _⟩ _
  trivial

theorem reclaimed_trips {pool : PoolInfo A W} {info : MinerInfo} {returned slashed : ℕ}
    (hpool : s.stakePools.lookup pid = some pool)
    (hr : Reclaimable cfg s (cfg.poolSubAccount pid w) info returned slashed) :
    Ends (reclaimed cfg pool (s.stakeOf (cfg.poolSubAccount pid w)) slashed)
      (fun pool' => pool' = pool.givenBack returned slashed) (s.Trips cfg (.reclaimPoolWorker pid w)) := by
  have hfinal := calcFinalStake_ok hr.final
  have hle : slashed ≤ s.stakeOf (cfg.poolSubAccount pid w) := by omega
  have he : s.stakeOf (cfg.poolSubAccount pid w) - slashed = returned := by omega
  refine ends_iff.mpr ⟨fun pool' h => ?_, fun e hfail => ?_⟩
  · exact (reclaimed_ends (E := fun _ => True) hfinal (fun _ => trivial) (fun _ => trivial) fun _ => trivial).ok h
  refine Ends.error (Q := fun _ => True) ?_ hfail
  unfold reclaimed
  rw [Config.sub_of_le cfg hle, he]
  refine Ends.bind (Q := fun r => r = returned) rfl ?_
  rintro _ rfl
  refine Ends.bind (Q := fun pool₁ : PoolInfo A W => pool₁.releasingStake = pool.releasingStake) ?_
    fun pool₁ h₁ => ?_
  · split
    · next hne =>
      refine (cfg.debugAssert_trips fun hc hnd => Trips.slashShares hpool hr hne hc
        (not_lt.mp (mt isNondustBalance_iff.mpr hnd))).bind fun _ _ => ?_
      exact (cfg.debugAssert_trips fun hc hlt => Trips.slashStake hpool hr hc (Nat.lt_of_not_le hlt)).bind
        fun _ _ => rfl
    · rfl
  · refine Ends.bind (cfg.debugAssert_trips fun hc hlt => Trips.releasing hpool hr hc ?_) fun _ _ => trivial
    rw [← h₁]
    exact Nat.lt_of_not_le hlt

/-- A miner that cools down is reclaimed, and its pool slashed. -/
theorem reclaimPoolWorker_trips :
    Ends (s.reclaimPoolWorker cfg fuel pid w) (fun _ => True) (s.Trips cfg (.reclaimPoolWorker pid w)) := by
  refine Ends.bind (Ends.get fun _ => Trips.dispatch) fun pool hpool => ?_
  refine Ends.bind reclaim_trips ?_
  rintro ⟨s₁, origStake, slashed⟩ ⟨info, returned, hr, rfl, rfl⟩
  refine Ends.bind (Ends.get_of (a := pool) hpool) ?_
  rintro pool rfl
  refine Ends.bind (reclaimed_trips hpool hr) ?_
  rintro _ rfl
  exact Ends.bind (Enters.reclaim hpool hr).trips fun _ _ => trivial

end State

end Khala
