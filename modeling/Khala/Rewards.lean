/-
The rewards of a pool over a run.

`RewardAccount` keeps what was handed to the pool and what was claimed of it.
The calls that pay, claim or change shares are followed through; the others
leave the rewards alone (`SameRewards`).
-/
import Khala.Accruing
import Khala.Payouts
import Khala.Shares

namespace Khala

open Outcome Relation

variable {A W : Type} [DecidableEq A] [DecidableEq W] {cfg : Config A W} {s s' : State A W} {pid : ℕ}

/-! ## What leaves the rewards alone -/

/-- What of a pool's record the rewards depend on. -/
def PoolInfo.rewards (pool : PoolInfo A W) : ℕ × FixedPoint × ℕ × ℕ :=
  (pool.pid, pool.rewardAcc, pool.ownerReward, pool.totalShares)

namespace State

/-- The rewards of all pools and stakers are as they were. -/
structure SameRewards (s s' : State A W) : Prop where
  pools : ∀ pid, (s'.stakePools.lookup pid).map PoolInfo.rewards = (s.stakePools.lookup pid).map PoolInfo.rewards
  stakers : s'.books.poolStakers = s.books.poolStakers
  history : s'.books.history = s.books.history

omit [DecidableEq A] [DecidableEq W] in
theorem SameRewards.refl (s : State A W) : s.SameRewards s := ⟨fun _ => rfl, rfl, rfl⟩

omit [DecidableEq A] [DecidableEq W] in
theorem SameRewards.trans {s'' : State A W} (h : s.SameRewards s') (h' : s'.SameRewards s'') : s.SameRewards s'' :=
  ⟨fun pid => (h'.pools pid).trans (h.pools pid), h'.stakers.trans h.stakers, h'.history.trans h.history⟩

omit [DecidableEq A] [DecidableEq W] in
/-- Nothing of the pools and books is written. -/
theorem SameRewards.of_eq (hp : s'.stakePools = s.stakePools) (hb : s'.books = s.books) : s.SameRewards s' :=
  ⟨fun _ => by rw [hp], by rw [hb], by rw [hb]⟩

omit [DecidableEq A] [DecidableEq W] in
theorem SameRewards.putPool {pool pool' : PoolInfo A W} (hpool : s.stakePools.lookup pid = some pool)
    (h : pool'.rewards = pool.rewards) : s.SameRewards (s.putPool pid pool') := by
  refine ⟨fun pid' => ?_, rfl, rfl⟩
  rw [lookup_putPool]
  split
  · next he =>
    rw [he, hpool]
    exact congrArg some h
  · rfl

/-- A call that leaves the rewards alone. -/
abbrev LeavesRewards (s : State A W) (x : Except Fault (State A W)) : Prop := Ends x s.SameRewards fun _ => True

omit [DecidableEq A] [DecidableEq W] in
theorem LeavesRewards.bind {x : Except Fault (State A W)} {f : State A W → Except Fault (State A W)}
    (h : s.LeavesRewards x) (hf : ∀ s₁ : State A W, s₁.LeavesRewards (f s₁)) : s.LeavesRewards (x >>= f) :=
  Ends.bind h fun s₁ h₁ => (hf s₁).mono (fun _ h => h₁.trans h) fun _ _ => trivial

omit [DecidableEq A] [DecidableEq W] in
theorem LeavesRewards.foldlM {α : Type} {f : State A W → α → Except Fault (State A W)} {l : List α}
    (h : ∀ (s : State A W) a, s.LeavesRewards (f s a)) : s.LeavesRewards (l.foldlM f s) :=
  Ends.foldlM (fun s₁ a _ h₁ => (h s₁ a).mono (fun _ h => h₁.trans h) fun _ _ => trivial) (.refl s)

theorem stopMining_leaves (m : A) : s.LeavesRewards (s.stopMining cfg m) := by
  refine Ends.bind (Ends.get fun _ => trivial) fun w _ => ?_
  refine Ends.bind (Ends.get fun _ => trivial) fun info _ => ?_
  refine Ends.bind (Ends.require fun _ => trivial) fun _ _ => ?_
  refine Ends.bind (Q := fun _ => True) (ends_iff.mpr ⟨fun _ _ => trivial, fun _ _ => trivial⟩)
    fun onlineMiners _ => ?_
  refine Ends.bind (Q := fun _ => True) (ends_iff.mpr ⟨fun _ _ => trivial, fun _ _ => trivial⟩) ?_
  rintro ⟨_, slashed⟩ -
  refine Ends.bind (Q := s.SameRewards) ?_ fun s₁ h₁ => ⟨h₁.pools, h₁.stakers, h₁.history⟩
  refine Ends.bind (Ends.get fun _ => trivial) fun pid _ => ?_
  refine Ends.bind (Ends.get fun _ => trivial) fun pool hpool => ?_
  refine Ends.bind (cfg.sub_ends fun _ => trivial) fun returned _ => ?_
  have hpool : s.stakePools.lookup pid = some pool := hpool
  have h : s.SameRewards (s.putPool pid { pool with releasingStake := pool.releasingStake + returned }) :=
    .putPool hpool rfl
  exact ⟨h.pools, rfl, rfl⟩

omit [DecidableEq A] in
theorem removeWorkerFromPool_leaves (w : W) : s.LeavesRewards (s.removeWorkerFromPool w) := by
  refine Ends.bind (Ends.get fun _ => trivial) fun pid _ => ?_
  dsimp only
  split
  · next pool hpool =>
    have hpool : s.stakePools.lookup pid = some pool := hpool
    have h : s.SameRewards (s.putPool pid (pool.removeWorker w)) := .putPool hpool rfl
    exact ⟨h.pools, rfl, rfl⟩
  · exact .of_eq rfl rfl

theorem unbindMiner_leaves (m : A) (notify : Bool) : s.LeavesRewards (s.unbindMiner cfg m notify) := by
  refine Ends.bind (Ends.get fun _ => trivial) fun w _ => ?_
  refine Ends.bind (Ends.get fun _ => trivial) fun info _ => ?_
  have hremoved (s₁ : State A W) : s₁.SameRewards (s₁.removeBinding m w) := .of_eq rfl rfl
  have hrest (s₁ : State A W) : s₁.LeavesRewards
      (if notify = true then (s₁.removeBinding m w).removeWorkerFromPool w else pure (s₁.removeBinding m w)) := by
    split
    · exact (removeWorkerFromPool_leaves w).mono (fun _ h => (hremoved s₁).trans h) fun _ _ => trivial
    · exact hremoved s₁
  by_cases hcan : info.state.canUnbind = true
  · rw [if_pos hcan]
    exact hrest s
  · rw [if_neg hcan]
    exact LeavesRewards.bind (stopMining_leaves m) hrest

theorem unbind_leaves (who m : A) : s.LeavesRewards (s.unbind cfg who m) := by
  refine Ends.bind (Ends.get fun _ => trivial) fun w _ => ?_
  refine Ends.bind (Ends.get fun _ => trivial) fun worker _ => ?_
  refine Ends.bind (Ends.require fun _ => trivial) fun _ _ => ?_
  exact unbindMiner_leaves m true

theorem removeWorker_leaves (who : A) (pid : ℕ) (w : W) : s.LeavesRewards (s.removeWorker cfg who pid w) := by
  refine Ends.bind (Ends.get fun _ => trivial) fun pool _ => ?_
  refine Ends.bind (Ends.require fun _ => trivial) fun _ _ => ?_
  refine Ends.bind (Ends.get fun _ => trivial) fun pid' _ => ?_
  refine Ends.bind (Ends.require fun _ => trivial) fun _ _ => ?_
  exact LeavesRewards.bind (unbindMiner_leaves (cfg.poolSubAccount pid w) false) fun s₁ =>
    removeWorkerFromPool_leaves w

theorem addWorker_leaves (owner : A) (pid : ℕ) (w : W) : s.LeavesRewards (s.addWorker cfg owner pid w) := by
  refine Ends.bind (Ends.get fun _ => trivial) fun worker _ => ?_
  refine Ends.bind (Ends.require fun _ => trivial) fun _ _ => ?_
  refine Ends.bind (Ends.require fun _ => trivial) fun _ _ => ?_
  refine Ends.bind (Ends.get fun _ => trivial) fun pool hpool => ?_
  refine Ends.bind (Ends.require fun _ => trivial) fun _ _ => ?_
  refine Ends.bind (Ends.require fun _ => trivial) fun _ _ => ?_
  refine Ends.bind (Ends.require fun _ => trivial) fun _ _ => ?_
  have hbind : Ends (s.bind (cfg.poolSubAccount pid w) w)
      (fun s₁ => s₁.stakePools = s.stakePools ∧ s₁.books = s.books) fun _ => True := by
    refine Ends.bind (Ends.get fun _ => trivial) fun worker _ => ?_
    refine Ends.bind (Ends.require fun _ => trivial) fun _ _ => ?_
    refine Ends.bind (Ends.require fun _ => trivial) fun _ _ => ?_
    refine Ends.bind (Ends.require fun _ => trivial) fun _ _ => ?_
    refine Ends.bind (Ends.require fun _ => trivial) fun _ _ => ?_
    exact ⟨rfl, rfl⟩
  cases hr : s.bind (cfg.poolSubAccount pid w) w with
  | error e =>
    cases e <;> simp only [hr] <;> trivial
  | ok s₁ =>
    obtain ⟨hp, hb⟩ := hbind.ok hr
    simp only [hr]
    have hpool₁ : s₁.stakePools.lookup pid = some pool := hp ▸ hpool
    have h₁ : s.SameRewards s₁ := .of_eq hp hb
    have h₂ : s₁.SameRewards (s₁.putPool pid { pool with workers := pool.workers ++ [w] }) := .putPool hpool₁ rfl
    exact h₁.trans ⟨h₂.pools, rfl, rfl⟩

theorem startMining_leaves (m : A) (stake : ℕ) : Ends (s.startMining cfg m stake)
    (fun s' => s'.stakePools = s.stakePools ∧ s'.books = s.books) fun _ => True := by
  refine Ends.bind (Ends.get fun _ => trivial) fun w _ => ?_
  refine Ends.bind (Ends.get fun _ => trivial) fun info _ => ?_
  refine Ends.bind (Ends.require fun _ => trivial) fun _ _ => ?_
  refine Ends.bind (Ends.require fun _ => trivial) fun _ _ => ?_
  refine Ends.bind (Ends.get fun _ => trivial) fun worker _ => ?_
  refine Ends.bind (Ends.get fun _ => trivial) fun p _ => ?_
  refine Ends.bind (Ends.require fun _ => trivial) fun _ _ => ?_
  refine Ends.bind (Ends.get fun _ => trivial) fun tokenomic _ => ?_
  refine Ends.bind (Ends.require fun _ => trivial) fun _ _ => ?_
  refine Ends.bind (Ends.require fun _ => trivial) fun _ _ => ?_
  refine Ends.bind (cfg.fit_ends trivial) fun _ _ => ?_
  refine Ends.bind (cfg.fit_ends trivial) fun _ _ => ?_
  exact ⟨rfl, rfl⟩

theorem onFinalize_leaves : s.LeavesRewards (s.onFinalize cfg) := by
  have hstop (s₁ : State A W) (m : A) : s₁.LeavesRewards (s₁.tryStopMining cfg m) := by
    have h : s₁.LeavesRewards (s₁.stopMining cfg m) := stopMining_leaves m
    unfold tryStopMining
    split
    · exact .refl s₁
    · exact h
  have hshut (s₁ : State A W) (now pid : ℕ) : s₁.LeavesRewards (forceShutdown cfg now s₁ pid) := by
    refine Ends.bind (Ends.get fun _ => trivial) fun pool _ => ?_
    refine Ends.bind (Q := fun _ => True) (ends_iff.mpr ⟨fun _ _ => trivial, fun _ _ => trivial⟩)
      fun expired _ => ?_
    split
    · exact LeavesRewards.foldlM fun s₂ w => hstop s₂ _
    · exact .refl s₁
  have hloop (now : ℕ) (t : List ℕ) : ∀ s₁ : State A W, s₁.LeavesRewards (s₁.forceTimestamps cfg now t) := by
    induction t with
    | nil => exact fun s₁ => .of_eq rfl rfl
    | cons x t ih =>
      intro s₁
      refine Ends.bind (cfg.sub64_ends fun _ => trivial) fun waiting _ => ?_
      split
      · exact .of_eq rfl rfl
      · refine Ends.bind (Ends.get fun _ => trivial) fun pids _ => ?_
        have h₁ : s₁.SameRewards { s₁ with withdrawalQueuedPools := s₁.withdrawalQueuedPools.erase x } :=
          .of_eq rfl rfl
        refine (LeavesRewards.bind (LeavesRewards.foldlM fun s₂ pid => hshut s₂ now pid) ih).mono ?_
          fun _ _ => trivial
        exact fun _ h => h₁.trans h
  exact hloop s.nowSec s.withdrawalTimestamps s

/-- The calls that pay, claim or change shares. -/
def PaysOrClaims : Op A W → Prop
  | .create _ | .claimRewards _ _ _ | .contribute _ _ _ | .withdraw _ _ _
    | .reclaimPoolWorker _ _ | .gkMessage _ => True
  | _ => False

theorem exec_leaves {fuel : ℕ} {op : Op A W} (h : ¬PaysOrClaims op) : s.LeavesRewards (exec cfg fuel s op) := by
  cases op with
  | create | claimRewards | contribute | withdraw | reclaimPoolWorker | gkMessage => exact absurd trivial h
  | addWorker owner pid w => exact addWorker_leaves owner pid w
  | removeWorker who pid w => exact removeWorker_leaves who pid w
  | setCap owner pid cap =>
    refine Ends.bind (Ends.get fun _ => trivial) fun pool hpool => ?_
    refine Ends.bind (Ends.require fun _ => trivial) fun _ _ => ?_
    refine Ends.bind (Ends.require fun _ => trivial) fun _ _ => ?_
    exact .putPool hpool rfl
  | setPayoutPref owner pid commission =>
    refine Ends.bind (Ends.get fun _ => trivial) fun pool hpool => ?_
    refine Ends.bind (Ends.require fun _ => trivial) fun _ _ => ?_
    exact .putPool hpool rfl
  | reconcileWithdrawQueue pid account =>
    refine Ends.bind (Ends.get fun _ => trivial) fun pool hpool => ?_
    refine Ends.bind (Ends.get fun _ => trivial) fun user _ => ?_
    dsimp only
    split
    · exact .refl s
    · exact .putPool hpool rfl
  | startMining owner pid w stake =>
    refine Ends.bind (Ends.require fun _ => trivial) fun _ _ => ?_
    refine Ends.bind (Ends.get fun _ => trivial) fun pool hpool => ?_
    refine Ends.bind (Ends.require fun _ => trivial) fun _ _ => ?_
    refine Ends.bind (Ends.require fun _ => trivial) fun _ _ => ?_
    refine Ends.bind (Ends.require fun _ => trivial) fun _ _ => ?_
    refine Ends.bind (startMining_leaves _ _) fun s₁ ⟨hp, hb⟩ => ?_
    refine Ends.bind (cfg.sub_ends fun _ => trivial) fun freeStake _ => ?_
    have hpool₁ : s₁.stakePools.lookup pid = some pool := hp.symm ▸ hpool
    have h₁ : s.SameRewards s₁ := .of_eq hp hb
    exact h₁.trans (.putPool hpool₁ rfl)
  | stopMining owner pid w =>
    refine Ends.bind (Ends.require fun _ => trivial) fun _ _ => ?_
    refine Ends.bind (Ends.get fun _ => trivial) fun pool _ => ?_
    refine Ends.bind (Ends.require fun _ => trivial) fun _ _ => ?_
    refine Ends.bind (Ends.require fun _ => trivial) fun _ _ => ?_
    exact stopMining_leaves _
  | onFinalize => exact onFinalize_leaves
  | unbind who m => exact unbind_leaves who m
  | forceStartMining m stake =>
    exact (startMining_leaves m stake).mono (fun _ h => .of_eq h.1 h.2) fun _ _ => trivial
  | forceStopMining m => exact stopMining_leaves m
  | heartbeat w iterations challengeTime =>
    refine Ends.bind (Ends.get fun _ => trivial) fun m _ => ?_
    refine Ends.bind (Ends.get fun _ => trivial) fun info _ => ?_
    refine Ends.bind (Ends.get fun _ => trivial) fun _ _ => ?_
    refine Ends.bind (Q := fun _ => True) (ends_iff.mpr ⟨fun _ _ => trivial, fun _ _ => trivial⟩) fun _ _ => ?_
    exact .of_eq rfl rfl
  | benchReport w startTime iterations =>
    refine Ends.bind (Ends.require fun _ => trivial) fun _ _ => ?_
    refine Ends.bind (Ends.require fun _ => trivial) fun _ _ => ?_
    refine Ends.bind (cfg.fit_ends trivial) fun _ _ => ?_
    exact .of_eq rfl rfl
  | finalizeMining =>
    change s.SameRewards s.finalizeMining
    unfold finalizeMining
    split
    · exact .refl s
    · exact .of_eq rfl rfl
  | time now =>
    change s.SameRewards (if s.now < now then { s with now } else s)
    split
    · exact .of_eq rfl rfl
    · exact .refl s
  | balances free => exact ⟨fun _ => rfl, rfl, rfl⟩
  | setMiningEnable | setCoolDownExpiration | updateTokenomic | forceRegisterWorker
    | registerWorker => exact .of_eq rfl rfl

end State

/-! ## Other pools -/

/-- The stakers and the resets of the pool are the same. -/
structure Books.SameClaims (pid : ℕ) (b b' : Books A W) : Prop where
  stakers : ∀ u, b'.poolStakers.lookup (pid, u) = b.poolStakers.lookup (pid, u)
  resets : b'.resets pid = b.resets pid

namespace Books.SameClaims

variable {b b' b'' : Books A W}

omit [DecidableEq W] in
theorem refl (pid : ℕ) (b : Books A W) : SameClaims pid b b := ⟨fun _ => rfl, rfl⟩

omit [DecidableEq W] in
theorem trans (h : SameClaims pid b b') (h' : SameClaims pid b' b'') : SameClaims pid b b'' :=
  ⟨fun u => (h'.stakers u).trans (h.stakers u), h'.resets.trans h.resets⟩

omit [DecidableEq W] in
theorem symm (h : SameClaims pid b b') : SameClaims pid b' b := ⟨fun u => (h.stakers u).symm, h.resets.symm⟩

omit [DecidableEq W] in
theorem of_eq (hs : b'.poolStakers = b.poolStakers) (hh : b'.history = b.history) : SameClaims pid b b' :=
  ⟨fun _ => by rw [hs], Desk.resets_of_history hh⟩

omit [DecidableEq W] in
theorem touch {pool : PoolInfo A W} (hne : pool.pid ≠ pid) (user : UserStakeInfo A) (kind : TouchKind) :
    SameClaims pid b (b.touch kind pool user) := by
  refine ⟨fun _ => rfl, ?_⟩
  unfold Books.resets Books.touch
  rw [List.countP_cons_of_neg (by simp [hne])]

omit [DecidableEq W] in
theorem putStaker {pid' : ℕ} (hne : pid' ≠ pid) (u : A) (user : UserStakeInfo A) :
    SameClaims pid b (b.putStaker pid' u user) := by
  refine ⟨fun v => ?_, rfl⟩
  rw [lookup_putStaker, if_neg fun he => hne (congrArg Prod.fst he).symm]

omit [DecidableEq W] in
theorem reduced (who : A) (amount dust : ℕ) : SameClaims pid b (b.reduced cfg who amount dust) :=
  of_eq reduced_poolStakers history_reduced

omit [DecidableEq W] in
theorem settled {pool : PoolInfo A W} (hne : pool.pid ≠ pid) (user : UserStakeInfo A) :
    SameClaims pid b (b.settled cfg pool user) := by
  have h : SameClaims pid b (b.touch .settle pool user) := touch hne user .settle
  exact h.trans (of_eq settled_poolStakers history_settled)

end Books.SameClaims

omit [DecidableEq W] in
theorem Move.sameClaims {d d' : Desk A W} (h : Move cfg d d') (hne : d.pool.pid ≠ pid) :
    Books.SameClaims pid d.books d'.books := by
  cases h with
  | join => exact .putStaker hne _ _
  | reward => exact .putStaker hne _ _
  | settle => exact (Books.SameClaims.settled hne _).trans (.putStaker hne _ _)
  | remove => exact ((Books.SameClaims.touch hne _ _).trans (.reduced _ _ _)).trans (.putStaker hne _ _)
  | queue => exact .refl pid _

omit [DecidableEq W] in
theorem Moves.sameClaims {d d' : Desk A W} (h : Moves cfg d d') (hne : d.pool.pid ≠ pid) :
    Books.SameClaims pid d.books d'.books := by
  induction h with
  | refl => exact .refl pid _
  | tail hm h ih => exact ih.trans (h.sameClaims (Moves.pid_eq hm ▸ hne))

/-! ## The account of a pool -/

/-- What was handed to the pool as rewards, and what was claimed of it. -/
structure RewardAccount where
  handed : ℕ
  paid : ℕ
deriving DecidableEq, Repr

namespace State

/-- What a batch hands to the pool. -/
def handedTo (s : State A W) (pid : ℕ) (settle : List (SettleInfo W)) : ℕ :=
  ((s.reached settle).map fun info =>
    if s.workerAssignments.lookup info.pubkey = some pid then fromFixed info.payout else 0).sum

/-- What `claim_rewards` pays to the target. -/
def claimOf (cfg : Config A W) (s : State A W) (who : A) (pid : ℕ) : ℕ :=
  match s.stakePools.lookup pid with
  | none => 0
  | some pool =>
    (if who = pool.owner then pool.ownerReward else 0) +
      match s.claimant cfg pool pid who with
      | .ok userInfo => userInfo.elim 0 fun userInfo => userInfo.availableRewards
      | .error _ => 0

/-- The pool's account after an operation. -/
def accountAfter (cfg : Config A W) (s : State A W) (pid : ℕ) (acct : RewardAccount) : Op A W → RewardAccount
  | .gkMessage event => { acct with handed := acct.handed + s.handedTo pid event.settle }
  | .claimRewards who pid' _ => { acct with paid := acct.paid + if pid' = pid then s.claimOf cfg who pid else 0 }
  | _ => acct

/-- How much the accumulator grows with a batch, in bits. -/
def raisedBy (s : State A W) (pid : ℕ) (pool : PoolInfo A W) (settle : List (SettleInfo W)) : ℕ :=
  (settle.map fun info =>
    if s.workerAssignments.lookup info.pubkey = some pid then
      (pool.incrementOf (fromFixed info.payout)).bits else 0).sum

/-- Amounts and the accumulator stay below `2^64`: the shares with those that a
contribution adds, the accumulator with what a batch adds to it, and what the
shares of a staker draw of it. -/
def SmallAmounts (s : State A W) (pid : ℕ) : Op A W → Prop
  | .contribute who pid' amount => pid' = pid → ∀ pool, s.stakePools.lookup pid = some pool →
    pool.totalShares + pool.sharesFor amount < 2 ^ 64 ∧
      Draws (((s.books.poolStakers.lookup (pid, who)).elim 0 fun user => user.shares) + pool.sharesFor amount)
        pool.rewardAcc.bits
  | .gkMessage event => ∀ pool, s.stakePools.lookup pid = some pool →
    pool.rewardAcc.bits + s.raisedBy pid pool (s.reached event.settle) < 2 ^ 128 ∧
      ∀ u user, s.books.poolStakers.lookup (pid, u) = some user →
        Draws user.shares (pool.rewardAcc.bits + s.raisedBy pid pool (s.reached event.settle))
  | _ => True

/-- The pool's account is covered, and its shares are below `2^64`. -/
structure Accounted (s : State A W) (pid : ℕ) (acct : RewardAccount) : Prop where
  absent : s.stakePools.lookup pid = none → acct.paid = 0
  accrued : ∀ pool, s.stakePools.lookup pid = some pool → Desk.Accrued ⟨pool, s.books⟩ acct.paid acct.handed
  small : ∀ pool, s.stakePools.lookup pid = some pool → pool.totalShares < 2 ^ 64

variable {acct : RewardAccount}

omit [DecidableEq W] in
/-- The claims of another pool's stakers depend on that pool alone. -/
theorem Accounted.of_sameClaims (h : s.Accounted pid acct) (hf : s.WellFiled)
    (hpool : s'.stakePools.lookup pid = s.stakePools.lookup pid) (hb : Books.SameClaims pid s.books s'.books) :
    s'.Accounted pid acct := by
  refine ⟨fun hn => h.absent (hpool ▸ hn), fun pool hp => ?_, fun pool hp => h.small pool (hpool ▸ hp)⟩
  rw [hpool] at hp
  have hpid : pool.pid = pid := (hf.pool _ _ hp).1
  obtain ⟨hclear, hbound⟩ := h.accrued pool hp
  dsimp only at hclear hbound
  rw [hpid] at hclear hbound
  have hsum (f : UserStakeInfo A → ℕ) : s'.books.stakerSum (fun k => k.1 = pid) f =
      s.books.stakerSum (fun k => k.1 = pid) f := by
    refine Books.stakerSum_of_lookup ?_
    rintro ⟨_, u⟩ rfl
    exact hb.stakers u
  refine ⟨fun u user hu => ?_, ?_⟩
  · dsimp only at hu
    rw [hpid, hb.stakers] at hu
    exact hclear u user hu
  · dsimp only
    unfold Books.available Books.weights Books.debts at hbound ⊢
    rw [hpid, hsum, hsum, hsum, hb.resets]
    exact hbound

omit [DecidableEq W] in
theorem Accounted.of_sameRewards (h : s.Accounted pid acct) (hs : s.SameRewards s') : s'.Accounted pid acct := by
  have hlookup (pool' : PoolInfo A W) (hp : s'.stakePools.lookup pid = some pool') :
      ∃ pool, s.stakePools.lookup pid = some pool ∧ pool'.rewards = pool.rewards := by
    have := hs.pools pid
    rw [hp] at this
    obtain ⟨pool, hpool, he⟩ := Option.map_eq_some_iff.mp this.symm
    exact ⟨pool, hpool, he.symm⟩
  refine ⟨fun hn => h.absent ?_, fun pool' hp => ?_, fun pool' hp => ?_⟩
  · have := hs.pools pid
    rw [hn] at this
    exact Option.map_eq_none_iff.mp this.symm
  · obtain ⟨pool, hpool, he⟩ := hlookup pool' hp
    obtain ⟨hpid, hacc, howner, -⟩ : pool'.pid = pool.pid ∧ pool'.rewardAcc = pool.rewardAcc ∧
        pool'.ownerReward = pool.ownerReward ∧ pool'.totalShares = pool.totalShares := by
      simpa [PoolInfo.rewards] using he
    obtain ⟨hclear, hbound⟩ := h.accrued pool hpool
    dsimp only at hclear hbound
    refine ⟨fun u user hu => ?_, ?_⟩
    · dsimp only at hu ⊢
      rw [hpid, hs.stakers] at hu
      rw [hacc]
      exact hclear u user hu
    · dsimp only
      unfold Books.available Books.weights Books.debts Books.stakerSum Books.resets at hbound ⊢
      rw [hpid, hacc, howner, hs.stakers, hs.history]
      exact hbound
  · obtain ⟨pool, hpool, he⟩ := hlookup pool' hp
    have htotal : pool'.totalShares = pool.totalShares := congrArg (fun r => r.2.2.2) he
    rw [htotal]
    exact h.small pool hpool

omit [DecidableEq W] in
/-- A desk goes back to the pool that it was taken from. -/
theorem Accounted.putDesk {pid' : ℕ} {d : Desk A W} (h : s.Accounted pid acct) (hf : s.WellFiled)
    (hbooks : s'.books = d.books)
    (hpools : s'.stakePools = s.stakePools.insert pid' d.pool)
    (hsame : pid' = pid → d.Accrued acct.paid acct.handed ∧ d.pool.totalShares < 2 ^ 64)
    (hother : pid' ≠ pid → Books.SameClaims pid s.books d.books) : s'.Accounted pid acct := by
  by_cases he : pid' = pid
  · subst he
    obtain ⟨haccrued, hsmall⟩ := hsame rfl
    have hl : s'.stakePools.lookup pid' = some d.pool := by rw [hpools, AList.lookup_insert]
    refine ⟨fun hn => ?_, fun pool' hp => ?_, fun pool' hp => ?_⟩
    · rw [hl] at hn
      cases hn
    · rw [hl] at hp
      cases hp
      rw [hbooks]
      exact haccrued
    · rw [hl] at hp
      cases hp
      exact hsmall
  · refine h.of_sameClaims hf ?_ (hbooks ▸ hother he)
    rw [hpools, StorageMap.lookup_insert_ite, if_neg (Ne.symm he)]

/-! ## Contributing, withdrawing and reclaiming -/

omit [DecidableEq W] in
theorem queue_totalShares_le {fuel : ℕ} {d : Desk A W} :
    Ends (d.tryProcessWithdrawQueue cfg fuel) (fun d' => d'.pool.totalShares ≤ d.pool.totalShares) fun _ => True :=
  Desk.tryProcessWithdrawQueue_moves.mono (fun _ h => h.totalShares_le) fun _ _ => trivial

omit [DecidableEq W] in
/-- The contributor's record, new or settled. -/
theorem contributor_accrued {pool : PoolInfo A W} {who : A} {paid handed : ℕ}
    (h : Desk.Accrued ⟨pool, s.books⟩ paid handed) :
    Ends (s.contributor cfg pool pool.pid who) (fun (books, user) =>
      Desk.Accrued ⟨pool, books.putStaker pool.pid who user⟩ paid handed ∧ user.Clear pool.rewardAcc ∧
      user.shares = (s.books.poolStakers.lookup (pool.pid, who)).elim 0 fun user => user.shares)
        fun _ => True := by
  unfold contributor
  split
  · next user hu =>
    have hclear := h.clear who user hu
    refine Ends.bind (PoolInfo.settleUserPendingReward_ends trivial).result fun user₁ hsettled => ?_
    obtain ⟨hsettle, -, -⟩ := hsettled
    obtain ⟨hcredited, hclear₁, hshares, -⟩ := hclear.settle hsettle
    refine (Books.maybeSettleSlash_ends (E := fun _ => True) fun _ _ => trivial).mono ?_ fun _ _ => trivial
    rintro _ rfl
    have hclear₂ : UserStakeInfo.Clear pool.rewardAcc { user₁ with locked := pool.settledLocked user₁ } :=
      ⟨hclear₁.small, hclear₁.draws, hclear₁.debt⟩
    have hcredited₂ : UserStakeInfo.Credited pool.rewardAcc 0 user
        { user₁ with locked := pool.settledLocked user₁ } :=
      ⟨hcredited.draws, hcredited.debt, hcredited.claim⟩
    refine ⟨h.rewrite hu ⟨rfl, rfl, rfl, ?_, ?_⟩ hcredited₂ hclear₂, hclear₂, ?_⟩
    · change AList.insert _ _ (Books.settled _ _ _ _).poolStakers = _
      rw [Books.settled_poolStakers]
    · exact Desk.resets_settled _ _ _
    · rw [hu]
      exact hshares
  · next hn =>
    have hnew : UserStakeInfo.Clear pool.rewardAcc (⟨who, 0, 0, 0, 0⟩ : UserStakeInfo A) :=
      ⟨by norm_num, draws_zero _, Nat.zero_le _⟩
    refine ⟨⟨fun v user hv => ?_, ?_⟩, hnew, by rw [hn]; rfl⟩
    · dsimp only at hv
      rw [Books.lookup_putStaker] at hv
      split at hv
      · cases hv
        exact hnew
      · exact h.clear v user hv
    · have hbound := h.bound
      have hsum (f : UserStakeInfo A → ℕ) (hf : f ⟨who, 0, 0, 0, 0⟩ = 0) :
          (s.books.putStaker pool.pid who ⟨who, 0, 0, 0, 0⟩).stakerSum (fun k => k.1 = pool.pid) f =
            s.books.stakerSum (fun k => k.1 = pool.pid) f := by
        rw [Books.stakerSum_put_new _ hn, hf]
        simp
      dsimp only at hbound ⊢
      unfold Books.available Books.weights Books.debts at hbound ⊢
      rw [hsum _ rfl, hsum _ weight_zero, hsum _ rfl]
      exact hbound

theorem Accounted.contribute {fuel : ℕ} {who : A} {pid' amount : ℕ} (h : s.Accounted pid acct) (hf : s.WellFiled)
    (hagree : s.SharesAgree) (hsmall : s.SmallAmounts pid (.contribute who pid' amount)) :
    Ends (s.contribute cfg fuel who pid' amount) (fun s' => s'.Accounted pid acct) fun _ => True := by
  refine Ends.bind (Ends.require fun _ => trivial) fun _ _ => ?_
  refine Ends.bind (cfg.sub_ends fun _ => trivial) fun _ _ => ?_
  refine Ends.bind (Ends.require fun _ => trivial) fun _ _ => ?_
  refine Ends.bind (Ends.get fun _ => trivial) fun pool hpool => ?_
  refine Ends.bind (Ends.require fun _ => trivial) fun _ _ => ?_
  refine Ends.bind (Ends.require fun _ => trivial) fun _ _ => ?_
  obtain ⟨rfl, -⟩ := hf.pool _ _ hpool
  refine Ends.bind (contributor_ends.result.mono (fun _ h => h) fun _ _ => trivial) ?_
  rintro ⟨books, user⟩ ⟨hcon, hprep⟩
  refine Ends.bind (PoolInfo.addStake_ends ⟨trivial, trivial, trivial⟩) ?_
  rintro _ rfl
  let d : Desk A W := Desk.contributed pool books who user amount
  have hqueue : Ends (d.tryProcessWithdrawQueue cfg fuel)
      (fun d' => (pool.pid = pid → d'.Accrued acct.paid acct.handed ∧ d'.pool.totalShares < 2 ^ 64) ∧
        (pool.pid ≠ pid → Books.SameClaims pid s.books d'.books)) fun _ => True := by
    by_cases he : pool.pid = pid
    · subst he
      obtain ⟨haccrued, hclear, hshares⟩ := (contributor_accrued (h.accrued pool hpool)).ok hcon
      obtain ⟨htotal, hdraws⟩ := hsmall rfl pool hpool
      have hle : user.shares ≤ pool.totalShares := by
        rw [hshares, hagree _ pool hpool]
        cases hu : s.books.poolStakers.lookup (pool.pid, who) with
        | none => exact Nat.zero_le _
        | some old => exact Books.le_stakerSum (p := fun k => k.1 = pool.pid) (f := fun user => user.shares) hu rfl
      rw [← hshares] at hdraws
      have hless : user.shares + pool.sharesFor amount < 2 ^ 64 := by omega
      obtain ⟨hcredited, hclear'⟩ : UserStakeInfo.Credited pool.rewardAcc 1 user
          (pool.addedStaker user amount) ∧ _ :=
        hclear.reset hless hdraws rfl rfl
      have hdesk : d.Accrued acct.paid acct.handed := by
        refine haccrued.rewrite (Books.lookup_putStaker_self _ _ _ _) ⟨rfl, rfl, rfl, ?_, ?_⟩ hcredited hclear'
        · exact (AList.insert_insert _).symm
        · have hresets := Desk.resets_touch books pool user (.add amount)
          rw [if_neg (by nofun)] at hresets
          exact hresets
      refine ends_iff.mpr ⟨fun d' hd' => ⟨fun _ => ?_, fun hne => absurd rfl hne⟩, fun _ _ => trivial⟩
      exact ⟨hdesk.processQueue.ok hd', lt_of_le_of_lt (queue_totalShares_le.ok hd') htotal⟩
    · refine Desk.tryProcessWithdrawQueue_moves.mono (fun d' hm => ⟨fun h => absurd h he, fun hne => ?_⟩)
        fun _ _ => trivial
      have hplaced : Books.SameClaims pid books (books.putStaker pool.pid who user) := .putStaker hne who user
      have hadded : Books.SameClaims pid books d.books := by
        have htouched : Books.SameClaims pid books (books.touch (.add amount) pool user) := .touch hne user _
        have hput := htouched.trans (.putStaker hne who (pool.addedStaker user amount))
        exact hput.trans (.of_eq rfl rfl)
      exact ((hprep.moves.sameClaims hne).trans (hplaced.symm.trans hadded)).trans (hm.sameClaims hne)
  refine Ends.bind hqueue fun d' ⟨hsame, hother⟩ => ?_
  exact h.putDesk hf rfl rfl hsame hother

theorem Accounted.withdraw {who : A} {pid' shares : ℕ} (h : s.Accounted pid acct) (hf : s.WellFiled) :
    Ends (s.withdraw cfg who pid' shares) (fun s' => s'.Accounted pid acct) fun _ => True := by
  refine Ends.bind (Ends.get fun _ => trivial) fun user hu => ?_
  refine Ends.bind (Ends.require fun _ => trivial) fun _ _ => ?_
  refine Ends.bind (Ends.get fun _ => trivial) fun pool hpool => ?_
  obtain ⟨rfl, -⟩ := hf.pool _ _ hpool
  have hu' : (⟨pool, s.books⟩ : Desk A W).books.poolStakers.lookup (pool.pid, who) = some user := hu
  refine Ends.bind ((Desk.tryWithdraw_ends hu').result.mono (fun _ h => h) fun _ _ => trivial) ?_
  rintro ⟨d, user'⟩ ⟨hd, hwithdrew⟩
  have hm := hwithdrew.moves hu'
  let d' : Desk A W := ⟨d.pool, d.books.putStaker pool.pid who user'⟩
  have hstored :
      (((s.scheduled pool shares).putDesk pool.pid d).putStaker pool.pid who user').Accounted pid acct := by
    refine h.putDesk hf rfl ?_ (fun he => ?_) fun hne => hm.sameClaims hne
    · change AList.insert _ _ (s.scheduled pool shares).stakePools = _
      rw [(s.scheduled_sameStore pool shares).stakePools]
    · subst he
      exact ⟨((h.accrued pool hpool).tryWithdraw hu').ok hd, lt_of_le_of_lt hm.totalShares_le (h.small pool hpool)⟩
  unfold scheduled at hstored
  exact hstored

omit [DecidableEq A] [DecidableEq W] in
theorem reclaimed_rewards {pool : PoolInfo A W} {origStake slashed : ℕ} :
    Ends (reclaimed cfg pool origStake slashed) (fun pool' => pool'.rewards = pool.rewards) fun _ => True := by
  refine Ends.bind (cfg.sub_ends fun _ => trivial) fun returned _ => ?_
  refine Ends.bind (Q := fun pool₁ => pool₁.rewards = pool.rewards) ?_ fun pool₁ h₁ => ?_
  · split
    · refine (PoolInfo.slash_ends (E := fun _ => True) (fun _ => trivial) fun _ => trivial).mono ?_
        fun _ _ => trivial
      rintro _ rfl
      rfl
    · rfl
  · exact Ends.bind (cfg.debugAssert_ends fun _ => trivial) fun _ _ => h₁

omit [DecidableEq W] in
theorem Accounted.reclaimPoolWorker {fuel pid' : ℕ} {w : W} (h : s.Accounted pid acct) (hf : s.WellFiled) :
    Ends (s.reclaimPoolWorker cfg fuel pid' w) (fun s' => s'.Accounted pid acct) fun _ => True := by
  refine Ends.bind (Ends.get fun _ => trivial) fun _ _ => ?_
  refine Ends.bind (Q := fun r => r.1.stakePools = s.stakePools ∧ r.1.books = s.books) ?_ ?_
  · refine Ends.bind (Ends.get fun _ => trivial) fun info _ => ?_
    refine Ends.bind (Q := fun _ => True) (ends_iff.mpr ⟨fun _ _ => trivial, fun _ _ => trivial⟩) fun can _ => ?_
    refine Ends.bind (Ends.require fun _ => trivial) fun _ _ => ?_
    refine Ends.bind (Q := fun _ => True) (ends_iff.mpr ⟨fun _ _ => trivial, fun _ _ => trivial⟩) fun final _ => ?_
    exact ⟨rfl, rfl⟩
  rintro ⟨s₁, origStake, slashed⟩ ⟨hpools, hbooks⟩
  refine Ends.bind (Ends.get fun _ => trivial) fun pool hpool₁ => ?_
  have hpool : s.stakePools.lookup pid' = some pool := hpools ▸ hpool₁
  have hpid := (hf.pool _ _ hpool).1
  refine Ends.bind reclaimed_rewards fun pool' hrewards => ?_
  obtain ⟨hpid', hacc, howner, htotal⟩ : pool'.pid = pool.pid ∧ pool'.rewardAcc = pool.rewardAcc ∧
    pool'.ownerReward = pool.ownerReward ∧ pool'.totalShares = pool.totalShares := by
      simpa [PoolInfo.rewards] using hrewards
  have hqueue : Ends (Desk.tryProcessWithdrawQueue cfg fuel ⟨pool', s₁.books⟩)
      (fun d => (pid' = pid → d.Accrued acct.paid acct.handed ∧ d.pool.totalShares < 2 ^ 64) ∧
        (pid' ≠ pid → Books.SameClaims pid s.books d.books)) fun _ => True := by
    rw [hbooks]
    refine ends_iff.mpr ⟨fun d hd => ⟨fun he => ?_, fun hne => ?_⟩, fun _ _ => trivial⟩
    · subst he
      obtain ⟨hclear, hbound⟩ := h.accrued pool hpool
      dsimp only at hclear hbound
      rw [← hpid', ← hacc] at hclear hbound
      rw [← howner] at hbound
      have hdesk : Desk.Accrued ⟨pool', s.books⟩ acct.paid acct.handed := ⟨hclear, hbound⟩
      refine ⟨hdesk.processQueue.ok hd, lt_of_le_of_lt (queue_totalShares_le.ok hd) ?_⟩
      exact htotal ▸ h.small pool hpool
    · refine (Desk.tryProcessWithdrawQueue_moves.ok hd).sameClaims ?_
      rw [show (⟨pool', s.books⟩ : Desk A W).pool.pid = pool.pid from hpid', hpid]
      exact hne
  refine Ends.bind hqueue fun d ⟨hsame, hother⟩ => ?_
  refine h.putDesk hf rfl ?_ hsame hother
  change AList.insert _ _ s₁.stakePools = _
  rw [hpools]

end State

/-! ## Claiming -/

omit [DecidableEq W] in
/-- The owner takes the owner's reward. -/
theorem Desk.Accrued.takeOwner {pool : PoolInfo A W} {b : Books A W} {paid handed : ℕ}
    (h : Desk.Accrued ⟨pool, b⟩ paid handed) :
    Desk.Accrued ⟨{ pool with ownerReward := 0 }, b⟩ (paid + pool.ownerReward) handed := ⟨h.clear, h.bound⟩

omit [DecidableEq W] in
/-- A staker takes the available rewards. -/
theorem Desk.Accrued.take {d : Desk A W} {u : A} {user : UserStakeInfo A} {paid handed : ℕ}
    (h : d.Accrued paid handed) (hu : d.books.poolStakers.lookup (d.pool.pid, u) = some user) :
    Desk.Accrued ⟨d.pool, d.books.putStaker d.pool.pid u { user with availableRewards := 0 }⟩
      (paid + user.availableRewards) handed := by
  have hclear := h.clear u user hu
  have hnew : UserStakeInfo.Clear d.pool.rewardAcc { user with availableRewards := 0 } :=
    ⟨hclear.small, hclear.draws, hclear.debt⟩
  refine ⟨fun v userᵥ hv => ?_, ?_⟩
  · dsimp only at hv
    rw [Books.lookup_putStaker] at hv
    split at hv
    · cases hv
      exact hnew
    · exact h.clear v userᵥ hv
  · have hsum (f : UserStakeInfo A → ℕ) := Books.poolSum_put f { user with availableRewards := 0 } hu
    have havailable := hsum fun user => user.availableRewards
    have hdebts := hsum fun user => user.rewardDebt
    have hweights := hsum fun user => weight user.shares
    have hbound := h.bound
    dsimp only at hbound havailable hdebts hweights ⊢
    unfold Books.available Books.weights Books.debts at hbound ⊢
    rw [Nat.add_right_cancel hweights, Nat.add_right_cancel hdebts]
    have hresets : (d.books.putStaker d.pool.pid u { user with availableRewards := 0 }).resets d.pool.pid =
        d.books.resets d.pool.pid := rfl
    rw [hresets]
    omega

namespace State

omit [DecidableEq W] in
theorem Accounted.claimRewards {who target : A} {pid' : ℕ} (h : s.Accounted pid acct) (hf : s.WellFiled) :
    Ends (s.claimRewards cfg who pid' target)
      (fun s' =>
      s'.Accounted pid { acct with paid := acct.paid + if pid' = pid then s.claimOf cfg who pid else 0 })
      fun _ => True := by
  refine Ends.bind (Ends.get fun _ => trivial) fun pool hpool => ?_
  obtain ⟨rfl, -⟩ := hf.pool _ _ hpool
  dsimp only
  have hclaimant :
      s.claimant cfg (if who = pool.owner then { pool with ownerReward := 0 } else pool) pool.pid who =
      s.claimant cfg pool pool.pid who := by
    split
    · rfl
    · rfl
  rw [hclaimant]
  refine Ends.bind (x := s.claimant cfg pool pool.pid who)
    (Q := fun r => s.claimant cfg pool pool.pid who = .ok r) (ends_iff.mpr ⟨fun _ h => h, fun _ _ => trivial⟩)
    fun r hr => ?_
  refine Ends.bind (Ends.require fun _ => trivial) fun _ _ => ?_
  refine Ends.bind (Ends.get fun _ => trivial) fun balances _ => ?_
  by_cases he : pool.pid = pid
  · subst he
    have hclaim : s.claimOf cfg who pool.pid = (if who = pool.owner then pool.ownerReward else 0) +
        r.elim 0 fun userInfo => userInfo.availableRewards := by
      unfold claimOf
      rw [hpool]
      dsimp only
      rw [hr]
    rw [if_pos rfl, hclaim]
    have howner : Desk.Accrued ⟨if who = pool.owner then { pool with ownerReward := 0 } else pool, s.books⟩
        (acct.paid + if who = pool.owner then pool.ownerReward else 0) acct.handed := by
      split
      · exact (h.accrued pool hpool).takeOwner
      · exact h.accrued pool hpool
    have hsmall : (if who = pool.owner then { pool with ownerReward := 0 } else pool).totalShares < 2 ^ 64 := by
      split
      · exact h.small pool hpool
      · exact h.small pool hpool
    have hpid : (if who = pool.owner then { pool with ownerReward := 0 } else pool).pid = pool.pid := by
      split
      · rfl
      · rfl
    have hacc : (if who = pool.owner then { pool with ownerReward := 0 } else pool).rewardAcc =
        pool.rewardAcc := by
      split
      · rfl
      · rfl
    generalize (if who = pool.owner then { pool with ownerReward := 0 } else pool) =
      pool' at howner hsmall hpid hacc ⊢
    generalize (if who = pool.owner then pool.ownerReward else 0) = ownerRewards at howner ⊢
    -- the pool is stored, and then the staker
    have hput (b : Books A W) (paid : ℕ) (hb : Desk.Accrued ⟨pool', b⟩ paid acct.handed) (t : State A W)
        (hpools : t.stakePools = s.stakePools.insert pool.pid pool')
        (hstakers : t.books.poolStakers = b.poolStakers)
        (hhistory : t.books.history = b.history) : t.Accounted pool.pid ⟨acct.handed, paid⟩ := by
      have hl : t.stakePools.lookup pool.pid = some pool' := by rw [hpools, AList.lookup_insert]
      refine ⟨fun hn => ?_, fun p hp => ?_, fun p hp => ?_⟩
      · rw [hl] at hn
        cases hn
      · rw [hl] at hp
        cases hp
        obtain ⟨hclear, hbound⟩ := hb
        dsimp only at hclear hbound
        refine ⟨fun u user hu => hclear u user (hstakers ▸ hu), ?_⟩
        unfold Books.available Books.weights Books.debts Books.stakerSum Books.resets at hbound ⊢
        rw [hstakers, hhistory]
        exact hbound
      · rw [hl] at hp
        cases hp
        exact hsmall
    unfold claimant at hr
    split at hr
    · next hn =>
      cases hr
      exact hput s.books _ howner _ rfl rfl rfl
    · next user hu =>
      obtain ⟨user₁, hsettle, hr⟩ := bind_ok.mp hr
      cases hr
      have hu' : (⟨pool', s.books⟩ : Desk A W).books.poolStakers.lookup (pool'.pid, who) = some user := hpid ▸ hu
      obtain ⟨hcredited, hclear₁, -, -⟩ := ((h.accrued pool hpool).clear who user hu).settle hsettle
      dsimp only at hcredited hclear₁
      rw [← hacc] at hcredited hclear₁
      have hsettled : Desk.Accrued ⟨pool', s.books.putStaker pool'.pid who user₁⟩
          (acct.paid + ownerRewards) acct.handed :=
        howner.rewrite hu' ⟨rfl, rfl, rfl, rfl, rfl⟩ hcredited hclear₁
      have htaken := hsettled.take (Books.lookup_putStaker_self _ _ _ _)
      rw [Nat.add_assoc] at htaken
      refine hput _ _ htaken _ rfl ?_ rfl
      change AList.insert _ _ s.books.poolStakers = AList.insert _ _ (AList.insert _ _ s.books.poolStakers)
      rw [AList.insert_insert, hpid]
  · rw [if_neg he, Nat.add_zero]
    refine h.of_sameClaims hf ?_ ?_
    · cases r with
      | none => exact (lookup_putPool _ _ _).trans (if_neg (Ne.symm he))
      | some user => exact (lookup_putPool _ _ _).trans (if_neg (Ne.symm he))
    · cases r with
      | none => exact .of_eq rfl rfl
      | some user =>
        have hput : Books.SameClaims pid s.books
            (s.books.putStaker pool.pid who { user with availableRewards := 0 }) :=
          .putStaker he who _
        exact hput.trans (.of_eq rfl rfl)

end State

end Khala
