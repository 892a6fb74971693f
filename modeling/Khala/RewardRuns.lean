/-
Rewards over whole runs.

A batch hands a pool no less than its owner and its shares get of it. With
that every operation keeps the account of a pool covered, by what was handed
to it and a slack for each reset of a debt: a reset rounds the debt down, by
less than one planck and `10^12 / 2^64` of another.
-/
import Khala.Rewards

namespace Khala

open Outcome Relation

variable {A W : Type} [DecidableEq A] [DecidableEq W] {cfg : Config A W} {s s' : State A W} {pid : ℕ}
  {acct : RewardAccount}

/-! ## Batches -/

theorem U64F64.bits_add (x y : U64F64) : (x + y).bits = (x.bits + y.bits) % 2 ^ 128 := rfl

omit [DecidableEq A] [DecidableEq W] in
/-- The owner's and the shares' parts of the rewards. -/
theorem PoolInfo.parts_le (pool : PoolInfo A W) (payout : FixedPoint) :
    2 ^ 128 * pool.commissionOf (fromFixed payout) +
      10 ^ 12 * (weight pool.totalShares * (pool.incrementOf (fromFixed payout)).bits) ≤
      2 ^ 128 * fromFixed payout := by
  generalize hr : fromFixed payout = rewards
  have hlt : rewards < 2 ^ 64 := hr ▸ fromFixed_lt payout
  have hcommission : pool.commissionOf rewards ≤ rewards := by
    unfold commissionOf
    split
    · exact Permill.mul_le _ _
    · exact Nat.zero_le _
  have hdist : pool.distributable rewards ≤ rewards - pool.commissionOf rewards := by
    unfold distributable
    split
    · exact extractDust_fst_le _
    · exact Nat.zero_le _
  have hincrement : weight pool.totalShares * (pool.incrementOf rewards).bits ≤
      2 ^ 64 * (2 ^ 64 * pool.distributable rewards / 10 ^ 12) := by
    unfold incrementOf
    split
    · rw [U64F64.bits_zero, Nat.mul_zero]
      exact Nat.zero_le _
    · rw [U64F64.bits_div, bits_toFixed_of_lt (by omega)]
      refine (Nat.mul_le_mul_left _ (Nat.mod_le _ _)).trans ?_
      exact Nat.mul_div_le _ _
  omega

namespace State

omit [DecidableEq A] in
theorem bits_increments (s : State A W) (pid : ℕ) (pool : PoolInfo A W) (settle : List (SettleInfo W)) :
    (s.increments pid pool settle).bits = s.raisedBy pid pool settle % 2 ^ 128 := by
  unfold increments raisedBy
  induction settle with
  | nil => rfl
  | cons info settle ih =>
    rw [List.map_cons, List.map_cons, List.sum_cons, List.sum_cons, U64F64.bits_add, ih]
    split
    · omega
    · rw [U64F64.bits_zero]
      omega

omit [DecidableEq A] in
/-- A batch hands a pool no less than its owner and its shares get. -/
theorem parts_le_handed (s : State A W) (pid : ℕ) (pool : PoolInfo A W) (settle : List (SettleInfo W)) :
    2 ^ 128 * s.commissions pid pool settle + 10 ^ 12 * (weight pool.totalShares * s.raisedBy pid pool settle) ≤
      2 ^ 128 * (settle.map fun info =>
        if s.workerAssignments.lookup info.pubkey = some pid then fromFixed info.payout else 0).sum := by
  unfold commissions raisedBy
  induction settle with
  | nil => exact le_rfl
  | cons info settle ih =>
    rw [List.map_cons, List.map_cons, List.map_cons, List.sum_cons, List.sum_cons, List.sum_cons]
    have hmul := Nat.mul_add (weight pool.totalShares) (if s.workerAssignments.lookup info.pubkey = some pid then
      (pool.incrementOf (fromFixed info.payout)).bits else 0) ((settle.map fun info =>
        if s.workerAssignments.lookup info.pubkey = some pid then (pool.incrementOf (fromFixed info.payout)).bits
        else 0).sum)
    split at hmul
    · next h =>
      have hparts := pool.parts_le info.payout
      rw [if_pos h, if_pos h, if_pos h]
      omega
    · next h =>
      rw [if_neg h, if_neg h, if_neg h]
      omega

end State

omit [DecidableEq A] [DecidableEq W] in
/-- Together the stakers' shares weigh no more than the pool's. -/
theorem weights_le {b : Books A W} (h : b.heldShares pid < 2 ^ 64) :
    b.weights pid ≤ weight (b.heldShares pid) := by
  have hlist : b.weights pid =
      ((b.poolStakers.entries.map fun e => if e.1.1 = pid then e.2.shares else 0).map weight).sum := by
    unfold Books.weights Books.stakerSum StorageMap.total
    rw [List.map_map]
    refine congrArg List.sum (List.map_congr_left fun e _ => ?_)
    by_cases he : e.1.1 = pid
    · simp [he]
    · simp [he, weight_zero]
  rw [hlist]
  exact weight_sum_le h

/-! ## The gatekeeper's message -/

namespace State

/-- The pools, the records and the assignments are the same, so a batch pays the same. -/
structure SamePayees (s s' : State A W) : Prop where
  pools : s'.stakePools = s.stakePools
  assignments : s'.workerAssignments = s.workerAssignments
  stakers : s'.books.poolStakers = s.books.poolStakers
  history : s'.books.history = s.books.history

omit [DecidableEq A] [DecidableEq W] in
theorem SamePayees.refl (s : State A W) : s.SamePayees s := ⟨rfl, rfl, rfl, rfl⟩

omit [DecidableEq A] [DecidableEq W] in
theorem SamePayees.trans {s'' : State A W} (h : s.SamePayees s') (h' : s'.SamePayees s'') : s.SamePayees s'' :=
  ⟨h'.pools.trans h.pools, h'.assignments.trans h.assignments, h'.stakers.trans h.stakers,
    h'.history.trans h.history⟩

theorem setResponsive_payees (state : MinerState) (w : W) : s.SamePayees (setResponsive state s w) := by
  unfold setResponsive
  split
  · exact .refl s
  · split
    · exact .refl s
    · split
      · exact ⟨rfl, rfl, rfl, rfl⟩
      · exact .refl s

theorem foldl_setResponsive_payees (state : MinerState) (l : List W) :
    s.SamePayees (l.foldl (setResponsive state) s) := by
  induction l generalizing s with
  | nil => exact .refl s
  | cons w l ih => exact (setResponsive_payees state w).trans ih

theorem tryHandleSettle_payees (info : SettleInfo W) :
    Ends (s.tryHandleSettle cfg info) s.SamePayees fun _ => True := by
  unfold tryHandleSettle
  split
  · exact SamePayees.refl s
  · split
    · exact SamePayees.refl s
    · refine Ends.bind (cfg.debugAssert_ends fun _ => trivial) fun _ _ => ?_
      dsimp only
      split
      · exact ⟨rfl, rfl, rfl, rfl⟩
      · exact ⟨rfl, rfl, rfl, rfl⟩

/-- A message pays the pools for the entries that its batch reaches. -/
theorem gkMessage_paid (event : MiningInfoUpdateEvent W) :
    Ends (s.gkMessage cfg event)
      (fun s' => ∃ s₁, s.SamePayees s₁ ∧ s₁.PaidFor (s.reached event.settle) s') fun _ => True := by
  unfold gkMessage
  dsimp only
  have h₁ := foldl_setResponsive_payees (s := s) .miningUnresponsive event.offline
  have h₂ := h₁.trans (foldl_setResponsive_payees .miningIdle event.recoveredToOnline)
  refine Ends.bind (Ends.foldlM (R := s.SamePayees) (fun s₂ info _ h => ?_) h₂) fun s₃ h₃ => ?_
  · exact (tryHandleSettle_payees info).mono (fun _ h' => h.trans h') fun _ _ => trivial
  · have hreached : s₃.reached event.settle = s.reached event.settle := by
      unfold reached
      rw [h₃.assignments]
    rw [onReward_eq, hreached]
    by_cases hall : ∀ info ∈ s.reached event.settle, s₃.Payable info
    · obtain ⟨s', hs', hpaid⟩ := handleEach_ok hall
      rw [hs']
      exact ⟨s₃, h₃, hpaid⟩
    · have hsome : ∃ info ∈ s.reached event.settle, ¬s₃.Payable info := by
        by_contra hn
        exact hall fun info hi => by_contra fun hp => hn ⟨info, hi, hp⟩
      obtain ⟨e, he⟩ := handleEach_error hsome
      rw [he]
      trivial

theorem Accounted.gkMessage {event : MiningInfoUpdateEvent W} (h : s.Accounted pid acct) (hf : s.WellFiled)
    (hagree : s.SharesAgree) (hsmall : s.SmallAmounts pid (.gkMessage event)) :
    Ends (s.gkMessage cfg event) (fun s' => s'.Accounted pid (s.accountAfter cfg pid acct (.gkMessage event)))
      fun _ => True := by
  refine (gkMessage_paid event).mono ?_ fun _ _ => trivial
  intro s' ⟨s₁, hsame, hpaid⟩
  have hlookup : s'.stakePools.lookup pid = (s.stakePools.lookup pid).map fun pool =>
      pool.paid (s.commissions pid pool (s.reached event.settle))
        (s.increments pid pool (s.reached event.settle)) := by
    rw [hpaid.pools, hsame.pools]
    unfold commissions increments
    rw [hsame.assignments]
  have hstakers : s'.books.poolStakers = s.books.poolStakers := by
    rw [hpaid.rest]
    exact hsame.stakers
  have hhistory : s'.books.history = s.books.history := by
    rw [hpaid.rest]
    exact hsame.history
  refine ⟨fun hn => ?_, fun pool' hp => ?_, fun pool' hp => ?_⟩
  · rw [hlookup] at hn
    exact h.absent (Option.map_eq_none_iff.mp hn)
  · rw [hlookup] at hp
    obtain ⟨pool, hpool, rfl⟩ := Option.map_eq_some_iff.mp hp
    obtain ⟨hroom, hdraws⟩ := hsmall pool hpool
    obtain ⟨hclear, hbound⟩ := h.accrued pool hpool
    have hpid : pool.pid = pid := (hf.pool _ _ hpool).1
    have hshares : pool.totalShares = s.books.heldShares pid := hagree _ _ hpool
    have hraised : (s.increments pid pool (s.reached event.settle)).bits =
        s.raisedBy pid pool (s.reached event.settle) := by
      rw [bits_increments]
      omega
    have hacc : (pool.rewardAcc + s.increments pid pool (s.reached event.settle)).bits =
        pool.rewardAcc.bits + s.raisedBy pid pool (s.reached event.settle) := by
      rw [U64F64.bits_add, hraised]
      omega
    refine ⟨fun u user hu => ?_, ?_⟩
    · have hu' : s.books.poolStakers.lookup (pid, u) = some user := by
        rw [← hpid, ← hstakers]
        exact hu
      obtain ⟨hsmall, -, hdebt⟩ := hclear u user (hpid.symm ▸ hu')
      have hd := hdraws u user hu'
      rw [← hacc] at hd
      refine ⟨hsmall, hd, hdebt.trans (bmul_mono hd ?_)⟩
      dsimp only [PoolInfo.paid]
      omega
    · have hparts := s.parts_le_handed pid pool (s.reached event.settle)
      have hheld : s.books.heldShares pid < 2 ^ 64 := hshares ▸ h.small pool hpool
      have hweights := weights_le hheld
      rw [← hshares] at hweights
      have hmul := Nat.mul_le_mul_right (s.raisedBy pid pool (s.reached event.settle)) hweights
      have hsum := Nat.mul_add (s.books.weights pid) pool.rewardAcc.bits
          (s.raisedBy pid pool (s.reached event.settle))
      dsimp only [PoolInfo.paid, accountAfter, handedTo] at hbound ⊢
      rw [hacc]
      rw [hpid] at hbound ⊢
      have havailable : s'.books.available pid = s.books.available pid := Books.stakerSum_congr hstakers
      have hdebts : s'.books.debts pid = s.books.debts pid := Books.stakerSum_congr hstakers
      have hw : s'.books.weights pid = s.books.weights pid := Books.stakerSum_congr hstakers
      rw [havailable, hdebts, hw, Desk.resets_of_history hhistory, hsum]
      omega
  · rw [hlookup] at hp
    obtain ⟨pool, hpool, rfl⟩ := Option.map_eq_some_iff.mp hp
    exact h.small pool hpool

/-! ## A new pool -/

omit [DecidableEq W] in
theorem Accounted.create (h : s.Accounted pid acct) (hf : s.WellFiled) (owner : A) :
    (s.create owner).Accounted pid acct := by
  have hlookup : (s.create owner).stakePools.lookup pid = _ := StorageMap.lookup_insert_ite _ _ _ _
  by_cases he : pid = s.poolCount
  · subst he
    rw [if_pos rfl] at hlookup
    have hnone : ∀ u, s.books.poolStakers.lookup (s.poolCount, u) = none := by
      intro u
      by_contra hn
      obtain ⟨user, hu⟩ := Option.ne_none_iff_exists'.mp hn
      exact absurd (hf.staker _ u user hu).2 (lt_irrefl _)
    have hzero (f : UserStakeInfo A → ℕ) : s.books.stakerSum (fun k => k.1 = s.poolCount) f = 0 := by
      refine StorageMap.total_eq_zero fun k user hk => if_neg fun hpid => ?_
      obtain ⟨pid, u⟩ := k
      cases hpid
      rw [hnone u] at hk
      cases hk
    have hpaid := h.absent hf.fresh
    refine ⟨fun hn => ?_, fun pool hp => ?_, fun pool hp => ?_⟩
    · rw [hlookup] at hn
      cases hn
    · rw [hlookup] at hp
      cases hp
      refine ⟨fun u user hu => ?_, ?_⟩
      · have hu' : s.books.poolStakers.lookup (s.poolCount, u) = some user := hu
        rw [hnone u] at hu'
        cases hu'
      · have havailable : (s.create owner).books.available s.poolCount = 0 := hzero _
        dsimp only
        rw [havailable, hpaid, U64F64.bits_zero]
        omega
    · rw [hlookup] at hp
      cases hp
      norm_num
  · rw [if_neg he] at hlookup
    exact h.of_sameClaims hf hlookup (.refl _ _)

/-! ## Every operation -/

theorem Accounted.exec {fuel : ℕ} {op : Op A W} (h : s.Accounted pid acct) (hf : s.WellFiled)
    (hagree : s.SharesAgree) (hsmall : s.SmallAmounts pid op) :
    Ends (exec cfg fuel s op) (fun s' => s'.Accounted pid (s.accountAfter cfg pid acct op)) fun _ => True := by
  by_cases hpays : PaysOrClaims op
  · cases op with
    | create owner => exact h.create hf owner
    | claimRewards who pid' target => exact h.claimRewards hf
    | contribute who pid' amount => exact h.contribute hf hagree hsmall
    | withdraw who pid' shares => exact h.withdraw hf
    | reclaimPoolWorker pid' w => exact h.reclaimPoolWorker hf
    | gkMessage event => exact h.gkMessage hf hagree hsmall
    | _ => exact absurd hpays id
  · refine (exec_leaves hpays).mono (fun s' hs => ?_) fun _ _ => trivial
    have hacct : s.accountAfter cfg pid acct op = acct := by
      cases op with
      | claimRewards | gkMessage => exact absurd trivial hpays
      | _ => rfl
    rw [hacct]
    exact h.of_sameRewards hs

end State

/-! ## What the stakers can claim -/

/-- The available and the pending rewards. -/
def UserStakeInfo.owed (acc : FixedPoint) (user : UserStakeInfo A) : ℕ :=
  user.availableRewards + (bmul user.shares acc - user.rewardDebt)

/-- What all stakers of the pool can claim. -/
def Books.owed (pid : ℕ) (acc : FixedPoint) (b : Books A W) : ℕ :=
  b.stakerSum (fun k => k.1 = pid) fun user => user.owed acc

/-- What an account can claim of a pool. -/
def State.owedTo (s : State A W) (pid : ℕ) (u : A) : ℕ :=
  match s.stakePools.lookup pid, s.books.poolStakers.lookup (pid, u) with
  | some pool, some user => user.owed pool.rewardAcc
  | _, _ => 0

omit [DecidableEq W] in
/-- Before rounding, the stakers' claims are what their shares draw less what was drawn. -/
theorem Desk.Accrued.owed_le {d : Desk A W} {paid handed : ℕ} (h : d.Accrued paid handed) :
    2 ^ 128 * (d.books.owed d.pool.pid d.pool.rewardAcc + d.books.debts d.pool.pid) ≤
      2 ^ 128 * d.books.available d.pool.pid + 10 ^ 12 * (d.books.weights d.pool.pid * d.pool.rewardAcc.bits) := by
  have hone : ∀ u user, d.books.poolStakers.lookup (d.pool.pid, u) = some user →
      2 ^ 128 * (user.owed d.pool.rewardAcc + user.rewardDebt) ≤
        2 ^ 128 * user.availableRewards + 10 ^ 12 * (weight user.shares * d.pool.rewardAcc.bits) := by
    intro u user hu
    obtain ⟨-, hdraws, hdebt⟩ := h.clear u user hu
    have hle := bmul_le hdraws
    unfold UserStakeInfo.owed
    omega
  have hsum := Books.stakerSum_le (b := d.books) (p := fun k => k.1 = d.pool.pid) fun k user hk hpid =>
    hone k.2 user (hpid ▸ hk)
  have hdrawn (user : UserStakeInfo A) : 10 ^ 12 * (weight user.shares * d.pool.rewardAcc.bits) =
      (10 ^ 12 * d.pool.rewardAcc.bits) * weight user.shares := by ring
  simp only [hdrawn] at hsum
  rw [Books.stakerSum_mul, Books.stakerSum_add, Books.stakerSum_add, Books.stakerSum_mul, Books.stakerSum_mul]
    at hsum
  unfold Books.owed Books.debts Books.available Books.weights
  rw [Nat.mul_assoc, Nat.mul_comm d.pool.rewardAcc.bits] at hsum
  exact hsum

omit [DecidableEq W] in
/-- A claim leaves what all others can claim. -/
theorem State.claimRewards_owedTo {who target : A} :
    Ends (s.claimRewards cfg who pid target)
      (fun s' => ∀ pid' u, u ≠ who ∨ pid' ≠ pid → s'.owedTo pid' u = s.owedTo pid' u) fun _ => True := by
  refine Ends.bind (Ends.get fun _ => trivial) fun pool hpool => ?_
  dsimp only
  refine Ends.bind (Q := fun _ => True) (ends_iff.mpr ⟨fun _ _ => trivial, fun _ _ => trivial⟩) fun r _ => ?_
  refine Ends.bind (Ends.require fun _ => trivial) fun _ _ => ?_
  refine Ends.bind (Ends.get fun _ => trivial) fun balances _ => ?_
  have hpool : s.stakePools.lookup pid = some pool := hpool
  have hacc : (if who = pool.owner then { pool with ownerReward := 0 } else pool).rewardAcc = pool.rewardAcc := by
    split
    · rfl
    · rfl
  generalize (if who = pool.owner then { pool with ownerReward := 0 } else pool) = pool' at hacc ⊢
  -- the pool's accumulator is as it was, and so is every other record
  have hstored (s' : State A W) (hp : s'.stakePools = s.stakePools.insert pid pool') {pid' : ℕ} {u : A}
      (hs : s'.books.poolStakers.lookup (pid', u) = s.books.poolStakers.lookup (pid', u)) :
      s'.owedTo pid' u = s.owedTo pid' u := by
    unfold State.owedTo
    rw [hs, hp, StorageMap.lookup_insert_ite]
    by_cases he : pid' = pid
    · subst he
      rw [if_pos rfl, hpool]
      cases s.books.poolStakers.lookup (pid', u) with
      | none => rfl
      | some user => exact congrArg (fun acc => user.owed acc) hacc
    · rw [if_neg he]
  intro pid' u hother
  cases r with
  | none => exact hstored _ rfl rfl
  | some user =>
    refine hstored _ rfl ?_
    have hne : (pid', u) ≠ (pid, who) := by
      intro he
      cases he
      simp at hother
    change AList.lookup _ (AList.insert _ _ _) = _
    rw [StorageMap.lookup_insert_ite, if_neg hne]
    rfl

omit [DecidableEq W] in
/-- What an account counts as paid is what `Currency` transfers. -/
theorem State.claimRewards_transfer {who target : A} :
    Ends (s.claimRewards cfg who pid target)
      (fun s' => s.books.balances.transfer cfg cfg.subsidyPool target (s.claimOf cfg who pid) =
      some s'.books.balances)
      fun _ => True := by
  refine Ends.bind (Ends.get fun _ => trivial) fun pool hpool => ?_
  dsimp only
  have hpool : s.stakePools.lookup pid = some pool := hpool
  have hclaimant : s.claimant cfg (if who = pool.owner then { pool with ownerReward := 0 } else pool) pid who =
      s.claimant cfg pool pid who := by
    split
    · rfl
    · rfl
  rw [hclaimant]
  refine Ends.bind (x := s.claimant cfg pool pid who)
    (Q := fun r => s.claimant cfg pool pid who = .ok r) (ends_iff.mpr ⟨fun _ h => h, fun _ _ => trivial⟩)
    fun r hr => ?_
  refine Ends.bind (Ends.require fun _ => trivial) fun _ _ => ?_
  refine Ends.bind (Ends.get fun _ => trivial) fun balances hb => ?_
  have hclaim : s.claimOf cfg who pid = (if who = pool.owner then pool.ownerReward else 0) +
      r.elim 0 fun userInfo => userInfo.availableRewards := by
    unfold claimOf
    rw [hpool]
    dsimp only
    rw [hr]
  change _ = some balances at hb
  rw [hclaim]
  cases r with
  | none => exact hb
  | some user => exact hb

/-! ## Runs -/

/-- A run, with the pool's account kept beside it. -/
abbrev RewardRun (cfg : Config A W) (pid : ℕ) : State A W × RewardAccount → Prop :=
  ReachWhere (fun r => Genesis r.1 ∧ r.2 = ⟨0, 0⟩)
    (fun r op r' => Step cfg r.1 op r'.1 ∧ r'.2 = r.1.accountAfter cfg pid r.2 op)
    fun r op => r.1.SmallAmounts pid op

theorem RewardRun.accounted {r : State A W × RewardAccount} (h : RewardRun cfg pid r) :
    r.1.Sound cfg ∧ r.1.SharesAgree ∧ r.1.Accounted pid r.2 := by
  refine ReachWhere.invariant (fun r => r.1.Sound cfg ∧ r.1.SharesAgree ∧ r.1.Accounted pid r.2) ?_ ?_ h
  · intro r ⟨hs, hacct⟩
    have hnone : ∀ pid', r.1.stakePools.lookup pid' = none := fun pid' => by rw [hs.pools.1]; rfl
    refine ⟨State.Sound.genesis hs, fun pid' pool hp => ?_, fun _ => by
      rw [hacct], fun pool hp => ?_, fun pool hp => ?_⟩
    · rw [hnone] at hp
      cases hp
    · rw [hnone] at hp
      cases hp
    · rw [hnone] at hp
      cases hp
  · intro r op r' ⟨hsound, hagree, haccounted⟩ hsmall ⟨⟨fuel, he⟩, hacct⟩
    have hd := (exec_ends hsound).ok he
    refine ⟨hsound.did hd, hagree.did hsound.filed hd, ?_⟩
    rw [hacct]
    exact (haccounted.exec hsound.filed hagree hsmall).ok he

/-- **Rewards are covered.** As long as amounts are small, what was claimed of a
pool and what can be claimed of it is at most what was handed to it, and
`1 + 10^12 / 2^64` planck for each reset of a debt after a change of shares; no
more was drawn on shares than they draw, and a claim leaves what the others
can claim. -/
theorem rewards_covered {r : State A W × RewardAccount} {pool : PoolInfo A W} (h : RewardRun cfg pid r)
    (hpool : r.1.stakePools.lookup pid = some pool) :
    2 ^ 64 * (r.2.paid + pool.ownerReward + r.1.books.owed pid pool.rewardAcc) ≤
      2 ^ 64 * r.2.handed + (2 ^ 64 + 10 ^ 12) * r.1.books.resets pid ∧
    (∀ u user, r.1.books.poolStakers.lookup (pid, u) = some user →
      user.rewardDebt ≤ bmul user.shares pool.rewardAcc) ∧
    ∀ fuel who pid' target s', exec cfg fuel r.1 (.claimRewards who pid' target) = .ok s' →
      ∀ pid'' u, u ≠ who ∨ pid'' ≠ pid' → s'.owedTo pid'' u = r.1.owedTo pid'' u := by
  obtain ⟨hsound, -, haccounted⟩ := RewardRun.accounted h
  have hpid : pool.pid = pid := (hsound.filed.pool _ _ hpool).1
  have haccrued := haccounted.accrued pool hpool
  refine ⟨?_, fun u user hu => ?_, fun fuel who pid' target s' he => State.claimRewards_owedTo.ok he⟩
  · have howed := haccrued.owed_le
    have hbound := haccrued.bound
    dsimp only at howed hbound
    rw [hpid] at howed hbound
    unfold resetSlack at hbound
    omega
  · exact (haccrued.clear u user (hpid.symm ▸ hu)).debt

/-! ## Runs to follow -/

/-- Amounts are small, checked against every record of the pool. -/
def State.SmallEntries (s : State A W) (pid : ℕ) : Op A W → Prop
  | .contribute who pid' amount => pid' = pid → ∀ pool ∈ s.stakePools.lookup pid,
    pool.totalShares + pool.sharesFor amount < 2 ^ 64 ∧
      Draws (((s.books.poolStakers.lookup (pid, who)).elim 0 fun user => user.shares) + pool.sharesFor amount)
        pool.rewardAcc.bits
  | .gkMessage event => ∀ pool ∈ s.stakePools.lookup pid,
    pool.rewardAcc.bits + s.raisedBy pid pool (s.reached event.settle) < 2 ^ 128 ∧
      ∀ e ∈ s.books.poolStakers.entries, e.1.1 = pid →
        Draws e.2.shares (pool.rewardAcc.bits + s.raisedBy pid pool (s.reached event.settle))
  | _ => True

instance (s : State A W) (pid : ℕ) (op : Op A W) : Decidable (s.SmallEntries pid op) :=
  match op with
  | .contribute _ pid' _ => inferInstanceAs (Decidable (pid' = pid → ∀ pool ∈ s.stakePools.lookup pid, _ ∧ _))
  | .gkMessage _ =>
    inferInstanceAs (Decidable (∀ pool ∈ s.stakePools.lookup pid, _ ∧ ∀ e ∈ s.books.poolStakers.entries, _))
  | .create .. | .addWorker .. | .removeWorker .. | .setCap .. | .setPayoutPref .. | .setMiningEnable ..
  | .claimRewards .. | .withdraw .. | .reconcileWithdrawQueue .. | .startMining .. | .stopMining ..
  | .reclaimPoolWorker .. | .onFinalize | .unbind .. | .forceStartMining .. | .forceStopMining .. | .heartbeat ..
  | .setCoolDownExpiration .. | .updateTokenomic .. | .finalizeMining
    | .forceRegisterWorker .. | .registerWorker ..
  | .benchReport .. | .time .. | .balances .. => .isTrue trivial

theorem State.SmallEntries.small {op : Op A W} (h : s.SmallEntries pid op) : s.SmallAmounts pid op := by
  cases op with
  | contribute who pid' amount => exact h
  | gkMessage event =>
    intro pool hpool
    refine ⟨(h pool hpool).1, fun u user hu => ?_⟩
    exact (h pool hpool).2 ⟨(pid, u), user⟩ (AList.mem_lookup_iff.mp hu) rfl
  | _ => trivial

/-- The operations one after the other, as long as they end well and amounts are small. -/
def rewardRun (cfg : Config A W) (pid fuel : ℕ) (r : State A W × RewardAccount) (ops : List (Op A W)) :
    Except Fault (State A W × RewardAccount) :=
  ops.foldlM (fun (r : State A W × RewardAccount) op => if r.1.SmallEntries pid op then do
    let s ← exec cfg fuel r.1 op
    pure (s, r.1.accountAfter cfg pid r.2 op)
  else throw .outOfFuel) r

theorem rewardRun_reach {fuel : ℕ} {r₀ r : State A W × RewardAccount} {ops : List (Op A W)}
    (h₀ : RewardRun cfg pid r₀) (h : rewardRun cfg pid fuel r₀ ops = .ok r) :
    RewardRun cfg pid r ∧ run cfg fuel r₀.1 ops = .ok r.1 := by
  induction ops generalizing r₀ with
  | nil =>
    cases h
    exact ⟨h₀, rfl⟩
  | cons op ops ih =>
    simp only [rewardRun, List.foldlM_cons, Outcome.bind_ok] at h
    obtain ⟨r₁, h₁, h⟩ := h
    split at h₁
    · next hok =>
      obtain ⟨s₁, hs₁, he⟩ := Outcome.bind_ok.mp h₁
      cases he
      obtain ⟨hreach, hrun⟩ := ih (.step h₀ hok.small ⟨⟨fuel, hs₁⟩, rfl⟩) h
      refine ⟨hreach, ?_⟩
      unfold run
      rw [List.foldlM_cons, hs₁]
      exact hrun
    · cases h₁

section

omit [DecidableEq A] [DecidableEq W]

/-- The run ends well, in a state and an account with the property. -/
def paidTo (x : Except Fault (State A W × RewardAccount)) (p : State A W × RewardAccount → Prop)
    [DecidablePred p] : Bool :=
  match x with
  | .ok r => p r
  | .error _ => false

theorem paidTo_iff {x : Except Fault (State A W × RewardAccount)} {p : State A W × RewardAccount → Prop}
    [DecidablePred p] : paidTo x p = true ↔ ∃ r, x = .ok r ∧ p r := by
  cases x with
  | ok r => exact ⟨fun h => ⟨r, rfl, of_decide_eq_true h⟩, fun ⟨_, h, hp⟩ => by cases h; exact decide_eq_true hp⟩
  | error e => exact ⟨nofun, nofun⟩

end

theorem Demo.rewardRun_genesis {cfg : Config Demo.Account ℕ} {pid fuel : ℕ}
    {r : State Demo.Account ℕ × RewardAccount}
    {ops : List (Op Demo.Account ℕ)} (h : rewardRun cfg pid fuel (Demo.genesis, ⟨0, 0⟩) ops = .ok r) :
    RewardRun cfg pid r ∧ run cfg fuel Demo.genesis ops = .ok r.1 :=
  rewardRun_reach (.init ⟨Demo.genesis_spec, rfl⟩) h

/-- Two contributions and two payouts of a token, a claim and a withdrawal. -/
theorem rewards_covered_demo : ∃ r pool, RewardRun Demo.release 0 r ∧ r.1.stakePools.lookup 0 = some pool ∧
    r.2.handed = 2000000000000 ∧ 0 < r.2.paid ∧
    2 ^ 64 * (r.2.paid + pool.ownerReward + r.1.books.owed 0 pool.rewardAcc) ≤
      2 ^ 64 * r.2.handed + (2 ^ 64 + 10 ^ 12) * r.1.books.resets 0 := by
  obtain ⟨r, hrun, hpool, hhanded, hpaid⟩ := paidTo_iff.mp (by decide +kernel :
    paidTo (rewardRun Demo.release 0 9 (Demo.genesis, ⟨0, 0⟩) (Demo.setup ++
      [.contribute (.user 1) 0 1000000000007, .gkMessage ⟨[], [], [⟨0, 0, 1, 0⟩]⟩,
        .contribute (.user 2) 0 3000000000001, .gkMessage ⟨[], [], [⟨0, 0, 1, 0⟩]⟩,
        .claimRewards (.user 1) 0 (.user 1), .withdraw (.user 2) 0 500000000003]))
      (fun r => r.1.stakePools.lookup 0 ≠ none ∧ r.2.handed = 2000000000000 ∧ 0 < r.2.paid) = true)
  obtain ⟨pool, hpool⟩ := Option.ne_none_iff_exists'.mp hpool
  have hreach := (Demo.rewardRun_genesis hrun).1
  exact ⟨r, pool, hreach, hpool, hhanded, hpaid, (rewards_covered hreach hpool).1⟩

/-! ## Many stakers -/

omit [DecidableEq A] [DecidableEq W] in
/-- Where stake and shares are the same, a share costs one. -/
theorem PoolInfo.sharePrice_one {pool : PoolInfo A W} (h : pool.totalStake = pool.totalShares)
    (hne : (toFixed pool.totalShares).bits ≠ 0) : pool.sharePrice = some 1 := by
  unfold sharePrice
  rw [h]
  refine U64F64.checkedDiv_eq_some.mpr ⟨hne, ?_⟩
  exact (Nat.mul_div_cancel _ (Nat.pos_of_ne_zero hne)).symm

omit [DecidableEq W] in
theorem Desk.tryProcessWithdrawQueue_nil {d : Desk A W} (fuel : ℕ) (h : d.pool.withdrawQueue = []) :
    d.tryProcessWithdrawQueue cfg (fuel + 1) = .ok d := by
  unfold tryProcessWithdrawQueue
  split
  · unfold processQueue
    rw [h]
    split <;> rfl
  · rfl

namespace Demo

/-- What everyone but the first staker puts in. Its weight is `2^58`. -/
def joinStake : ℕ := 15625000000

/-- The pool after one payout and `n` stakers more. -/
def joinedPool (n : ℕ) : PoolInfo Account ℕ where
  pid := 0
  owner := .user 0
  payoutCommission := none
  ownerReward := 0
  cap := none
  rewardAcc := U64F64.ofBits 236376910306759677
  totalShares := 2 ^ 63 + joinStake * n
  totalStake := 2 ^ 63 + joinStake * n
  freeStake := 2 ^ 63 + joinStake * n
  releasingStake := 0
  workers := [0]
  withdrawQueue := []

/-- The `n`th staker's record. -/
def joinedStaker (n : ℕ) : UserStakeInfo Account := ⟨.user n, joinStake, joinStake, 0, 200219030⟩

/-- The first staker, and a payout. -/
def paidOps : List (Op Account ℕ) := setup ++ [.balances fun _ => 2 ^ 63, .contribute (.user 0) 0 (2 ^ 63),
  .gkMessage ⟨[], [], [⟨0, 0, U64F64.ofBits 2180192184681496660337569, 0⟩]⟩]

/-- The first `n` accounts contribute, one after the other, each of them once. -/
def joinOps (n : ℕ) : List (Op Account ℕ) :=
  (paidOps ++ [.balances fun _ => 2 ^ 63]) ++ (List.range n).map fun m => .contribute (.user (m + 1)) 0 joinStake

/-- After `joinOps n`. -/
structure Joined (n : ℕ) (r : State Account ℕ × RewardAccount) : Prop where
  reach : RewardRun release 0 r
  ran : run release 1 genesis (joinOps n) = .ok r.1
  acct : r.2 = ⟨118188455153379839, 0⟩
  pool : r.1.stakePools.lookup 0 = some (joinedPool n)
  assigned : r.1.workerAssignments.lookup 0 = some 0
  fresh : ∀ m, n < m → r.1.books.poolStakers.lookup (0, .user m) = none ∧ r.1.books.ledgerQuery (.user m) = 0
  free : ∀ u, r.1.books.balances.free u = 2 ^ 63
  sums : ∀ g : ℕ → ℕ → ℕ → ℕ, r.1.books.stakerSum (fun k => k.1 = 0)
    (fun user => g user.shares user.availableRewards user.rewardDebt) =
    g (2 ^ 63) 0 0 + g joinStake 0 200219030 * n
  shares : ∀ u user, r.1.books.poolStakers.lookup (0, u) = some user → user.shares ≤ 2 ^ 63
  resets : r.1.books.resets 0 = n + 1

/-- The books after the `n`th staker joined. -/
def joinedBooks (n : ℕ) (b : Books Account ℕ) : Books Account ℕ :=
  ((b.touch (.add joinStake) (joinedPool n) ⟨.user (n + 1), 0, 0, 0, 0⟩).putStaker 0 (.user (n + 1))
    (joinedStaker (n + 1))).ledgerAccrue (.user (n + 1)) joinStake

theorem joinedPool_sharesFor {n : ℕ} (hn : n < 10 ^ 8) : (joinedPool n).sharesFor joinStake = joinStake := by
  have hlt : 2 ^ 63 + joinStake * n < 2 ^ 64 := by unfold joinStake; omega
  have hprice : (joinedPool n).sharePrice = some 1 := by
    refine PoolInfo.sharePrice_one rfl ?_
    have := bits_toFixed_pos hlt (by omega)
    exact (Nat.pos_iff_ne_zero.mp this)
  unfold PoolInfo.sharesFor
  rw [hprice]
  decide +kernel

theorem joinedPool_addStake {n : ℕ} (hn : n < 10 ^ 8) :
    (joinedPool n).addStake release ⟨.user (n + 1), 0, 0, 0, 0⟩ joinStake =
      .ok (joinedPool (n + 1), joinedStaker (n + 1)) := by
  refine Outcome.bind_ok.mpr ⟨(), release.debugAssert_unchecked rfl, ?_⟩
  refine Outcome.bind_ok.mpr ⟨(), release.debugAssert_unchecked rfl, ?_⟩
  refine Outcome.bind_ok.mpr ⟨(), release.debugAssert_unchecked rfl, ?_⟩
  dsimp only
  rw [joinedPool_sharesFor hn]
  have htotal : 2 ^ 63 + joinStake * n + joinStake = 2 ^ 63 + joinStake * (n + 1) := by
    rw [Nat.mul_succ, Nat.add_assoc]
  refine congrArg Except.ok (Prod.ext ?_ ?_)
  · unfold joinedPool
    dsimp only
    rw [htotal]
  · have hdebt : bmul (0 + joinStake) (U64F64.ofBits 236376910306759677) = 200219030 := by decide +kernel
    unfold joinedStaker PoolInfo.resetPendingReward Accumulator.clearPending joinedPool
    dsimp only
    rw [hdebt, Nat.zero_add]

theorem Joined.contribute {n : ℕ} {r : State Account ℕ × RewardAccount} (h : Joined n r) (hn : n < 10 ^ 8) :
    r.1.contribute release 1 (.user (n + 1)) 0 joinStake =
      .ok (r.1.putDesk 0 ⟨joinedPool (n + 1), joinedBooks n r.1.books⟩) := by
  obtain ⟨hnone, hledger⟩ := h.fresh (n + 1) (Nat.lt_succ_self n)
  have hfree := h.free (.user (n + 1))
  refine Outcome.bind_ok.mpr ⟨(), Outcome.require_ok.mpr (by decide), ?_⟩
  refine Outcome.bind_ok.mpr ⟨2 ^ 63, ?_, ?_⟩
  · rw [hfree, hledger]
    exact release.sub_of_le (Nat.zero_le _)
  refine Outcome.bind_ok.mpr ⟨(), Outcome.require_ok.mpr (by decide), ?_⟩
  refine Outcome.bind_ok.mpr ⟨joinedPool n, Outcome.get_ok.mpr h.pool, ?_⟩
  refine Outcome.bind_ok.mpr ⟨(), Outcome.require_ok.mpr (by nofun), ?_⟩
  refine Outcome.bind_ok.mpr ⟨(), Outcome.require_ok.mpr (.inr ?_), ?_⟩
  · change 0 < 2 ^ 63 + joinStake * n
    omega
  have hcontributor : r.1.contributor release (joinedPool n) 0 (.user (n + 1)) =
      .ok (r.1.books, ⟨.user (n + 1), 0, 0, 0, 0⟩) := by
    unfold State.contributor
    rw [hnone]
    rfl
  refine Outcome.bind_ok.mpr ⟨_, hcontributor, ?_⟩
  refine Outcome.bind_ok.mpr ⟨_, joinedPool_addStake hn, ?_⟩
  exact Outcome.bind_ok.mpr ⟨_, Desk.tryProcessWithdrawQueue_nil 0 rfl, rfl⟩

/-- One account more joins. -/
theorem Joined.step {n : ℕ} {r : State Account ℕ × RewardAccount} (h : Joined n r) (hn : n < 10 ^ 8) :
    Joined (n + 1) (r.1.putDesk 0 ⟨joinedPool (n + 1), joinedBooks n r.1.books⟩, r.2) := by
  have hrun := h.contribute hn
  obtain ⟨hnone, -⟩ := h.fresh (n + 1) (Nat.lt_succ_self n)
  have hlookup (u : Account) : (joinedBooks n r.1.books).poolStakers.lookup (0, u) =
      if u = .user (n + 1) then some (joinedStaker (n + 1)) else r.1.books.poolStakers.lookup (0, u) := by
    refine (StorageMap.lookup_insert_ite _ _ _ _).trans ?_
    by_cases hu : u = .user (n + 1)
    · rw [if_pos hu, if_pos (by rw [hu])]
    · rw [if_neg hu, if_neg fun he => hu (congrArg Prod.snd he)]
      rfl
  have hsmall : r.1.SmallAmounts 0 (.contribute (.user (n + 1)) 0 joinStake) := by
    intro _ pool hpool
    have hp := h.pool
    cases hpool.symm.trans hp
    rw [joinedPool_sharesFor hn, hnone]
    constructor
    · change 2 ^ 63 + joinStake * n + joinStake < 2 ^ 64
      unfold joinStake
      omega
    · change Draws (0 + joinStake) (U64F64.ofBits 236376910306759677).bits
      decide +kernel
  refine ⟨.step h.reach hsmall ⟨⟨1, hrun⟩, rfl⟩, ?_, h.acct, ?_, h.assigned, fun m hm => ?_,
    fun u => ?_, fun g => ?_,
    fun u user hu => ?_, ?_⟩
  · unfold joinOps
    rw [List.range_succ, List.map_append, ← List.append_assoc]
    unfold run
    rw [List.foldlM_append]
    refine Outcome.bind_ok.mpr ⟨r.1, h.ran, ?_⟩
    exact Outcome.bind_ok.mpr ⟨_, hrun, rfl⟩
  · exact AList.lookup_insert _
  · obtain ⟨hfresh, hledger⟩ := h.fresh m (by omega)
    have hne : Account.user m ≠ .user (n + 1) := by
      intro he
      cases he
      omega
    refine ⟨(hlookup _).trans ((if_neg hne).trans hfresh), ?_⟩
    refine Eq.trans ?_ hledger
    exact (Books.ledgerQuery_setLedger).trans (if_neg hne)
  · exact h.free u
  · have hput := Books.stakerSum_put_new (p := fun k => k.1 = 0)
      (f := fun user => g user.shares user.availableRewards user.rewardDebt) (joinedStaker (n + 1)) hnone
    rw [if_pos rfl, h.sums g] at hput
    refine Eq.trans ?_ (hput.trans ?_)
    · rfl
    · rw [Nat.mul_succ, Nat.add_assoc]
      rfl
  · rw [show (r.1.putDesk 0 ⟨joinedPool (n + 1), joinedBooks n r.1.books⟩).books.poolStakers.lookup (0, u) = _ from
      hlookup u] at hu
    split at hu
    · cases hu
      change joinStake ≤ 2 ^ 63
      decide
    · exact h.shares u user hu
  · have hreset := Desk.resets_touch r.1.books (joinedPool n) ⟨.user (n + 1), 0, 0, 0, 0⟩ (.add joinStake)
    rw [if_neg (by nofun)] at hreset
    refine Eq.trans ?_ (hreset.trans (congrArg (· + 1) h.resets))
    rfl

/-- The first staker is in, and was paid for. -/
theorem joined_zero : ∃ r, Joined 0 r := by
  obtain ⟨r, hrun, hpool, hassigned, hstakers, hledger, hacct, hresets⟩ := paidTo_iff.mp (by decide +kernel :
    paidTo (rewardRun release 0 1 (genesis, ⟨0, 0⟩) paidOps)
      (fun r => r.1.stakePools.lookup 0 = some (joinedPool 0) ∧ r.1.workerAssignments.lookup 0 = some 0 ∧
        r.1.books.poolStakers.entries = [⟨(0, .user 0), ⟨.user 0, 2 ^ 63, 2 ^ 63, 0, 0⟩⟩] ∧
        r.1.books.stakeLedger.entries = [⟨.user 0, 2 ^ 63⟩] ∧ r.2 = ⟨118188455153379839, 0⟩ ∧
        r.1.books.resets 0 = 1) = true)
  obtain ⟨hreach, hran⟩ := rewardRun_genesis hrun
  have hlookup (u : Account) : r.1.books.poolStakers.lookup (0, u) =
      if u = .user 0 then some ⟨.user 0, 2 ^ 63, 2 ^ 63, 0, 0⟩ else none := by
    unfold AList.lookup
    rw [hstakers]
    by_cases hu : u = .user 0
    · subst hu
      rfl
    · have hne : ((0, u) : ℕ × Account) ≠ (0, .user 0) := fun he => hu (congrArg Prod.snd he)
      rw [if_neg hu, List.dlookup_cons_ne _ _ hne]
      rfl
  refine ⟨(r.1.setBalances { r.1.books.balances with free := fun _ => 2 ^ 63 }, r.2), ?_, ?_,
    hacct, hpool, hassigned,
    fun m hm => ?_, fun u => rfl, fun g => ?_, fun u user hu => ?_, hresets⟩
  · have hsmall : r.1.SmallAmounts 0 (.balances fun _ => 2 ^ 63) := trivial
    exact .step hreach hsmall ⟨⟨1, rfl⟩, rfl⟩
  · unfold joinOps run
    rw [List.range_zero, List.map_nil, List.append_nil, List.foldlM_append]
    exact Outcome.bind_ok.mpr ⟨r.1, hran, rfl⟩
  · have hne : Account.user m ≠ .user 0 := by
      intro he
      cases he
      omega
    refine ⟨(hlookup _).trans (if_neg hne), ?_⟩
    change (AList.lookup _ r.1.books.stakeLedger).getD 0 = 0
    unfold AList.lookup
    rw [hledger, List.dlookup_cons_ne _ _ hne]
    rfl
  · rw [Nat.mul_zero, Nat.add_zero]
    change (r.1.books.poolStakers.entries.map _).sum = _
    rw [hstakers]
    rfl
  · have hu' := (hlookup u).symm.trans hu
    split at hu'
    · cases hu'
      exact le_rfl
    · cases hu'

theorem joined {n : ℕ} (hn : n ≤ 10 ^ 8) : ∃ r, Joined n r := by
  induction n with
  | zero => exact joined_zero
  | succ n ih =>
    obtain ⟨r, h⟩ := ih (by omega)
    exact ⟨_, h.step (by omega)⟩

end Demo

namespace State

theorem gkMessage_ok {event : MiningInfoUpdateEvent W} (hcheck : cfg.checks .canSettle = false)
    (hpay : ∀ (s₁ : State A W), s.SamePayees s₁ → ∀ info ∈ s.reached event.settle, s₁.Payable info) :
    ∃ s', s.gkMessage cfg event = .ok s' := by
  have hsettle (s : State A W) (info : SettleInfo W) : ∃ s', s.tryHandleSettle cfg info = .ok s' := by
    unfold tryHandleSettle
    split
    · exact ⟨_, rfl⟩
    · split
      · exact ⟨_, rfl⟩
      · rw [cfg.debugAssert_unchecked hcheck]
        exact ⟨_, rfl⟩
  have hfold (l : List (SettleInfo W)) : ∀ s : State A W, ∃ s', l.foldlM (tryHandleSettle cfg) s = .ok s' := by
    induction l with
    | nil => exact fun s => ⟨s, rfl⟩
    | cons info l ih =>
      intro s
      obtain ⟨s₁, hs₁⟩ := hsettle s info
      obtain ⟨s', hs'⟩ := ih s₁
      exact ⟨s', List.foldlM_cons.trans (Outcome.bind_ok.mpr ⟨s₁, hs₁, hs'⟩)⟩
  have h₁ := foldl_setResponsive_payees (s := s) .miningUnresponsive event.offline
  have h₂ := h₁.trans (foldl_setResponsive_payees .miningIdle event.recoveredToOnline)
  obtain ⟨s₃, hs₃⟩ := hfold event.settle
    (event.recoveredToOnline.foldl (setResponsive .miningIdle)
    (event.offline.foldl (setResponsive .miningUnresponsive) s))
  have hstep (s₂ : State A W) (info : SettleInfo W) (_ : info ∈ event.settle) (h : s.SamePayees s₂) :
      Ends (s₂.tryHandleSettle cfg info) s.SamePayees fun _ => True :=
    (tryHandleSettle_payees info).mono (fun _ h' => h.trans h') fun _ _ => trivial
  have h₃ : s.SamePayees s₃ := (Ends.foldlM hstep h₂).ok hs₃
  have hreached : s₃.reached event.settle = s.reached event.settle := by
    unfold reached
    rw [h₃.assignments]
  obtain ⟨s', hs', -⟩ := handleEach_ok (hpay s₃ h₃)
  refine ⟨s', Outcome.bind_ok.mpr ⟨s₃, hs₃, ?_⟩⟩
  rw [onReward_eq, hreached]
  exact hs'

end State

/-- **A planck for each reset is too little.** A hundred million accounts
contribute once each, where the debt of each rounds down by nearly
`1 + 10^12 / 2^64` planck. After one more payout they can claim more than was
handed to the pool and a planck for each contribution. -/
theorem rewards_exceed : ∃ (r : State Demo.Account ℕ × RewardAccount) (pool : PoolInfo Demo.Account ℕ),
    RewardRun Demo.release 0 r ∧
    run Demo.release 1 Demo.genesis (Demo.joinOps (10 ^ 8) ++
      [.gkMessage ⟨[], [], [⟨0, 0, U64F64.ofBits 343810173378880334, 0⟩]⟩]) = .ok r.1 ∧
    r.1.stakePools.lookup 0 = some pool ∧ r.1.books.resets 0 = 10 ^ 8 + 1 ∧
    r.2.handed + (10 ^ 8 + 1) < r.2.paid + pool.ownerReward + r.1.books.owed 0 pool.rewardAcc := by
  obtain ⟨r, h⟩ := Demo.joined le_rfl
  let info : SettleInfo ℕ := ⟨0, 0, U64F64.ofBits 343810173378880334, 0⟩
  let event : MiningInfoUpdateEvent ℕ := ⟨[], [], [info]⟩
  let pool := Demo.joinedPool (10 ^ 8)
  have hpayout : fromFixed info.payout = 18637986845 := by decide +kernel
  have hincrement : pool.incrementOf (fromFixed info.payout) = U64F64.ofBits 31875973700 := by decide +kernel
  have hcommission : pool.commissionOf (fromFixed info.payout) = 0 := by decide +kernel
  have hdivisible : ¬pool.Indivisible (fromFixed info.payout) := by decide +kernel
  have hreached : r.1.reached event.settle = [info] := by
    have hassigned : r.1.workerAssignments.lookup info.pubkey = some 0 := h.assigned
    unfold State.reached
    exact List.takeWhile_cons_of_pos (by simp [hassigned])
  have hraised : r.1.raisedBy 0 pool [info] = 31875973700 := by
    have hassigned : r.1.workerAssignments.lookup info.pubkey = some 0 := h.assigned
    unfold State.raisedBy
    rw [List.map_cons, List.map_nil, List.sum_cons, List.sum_nil, if_pos hassigned, hincrement]
    rfl
  have hsmall : r.1.SmallAmounts 0 (.gkMessage event) := by
    intro pool' hpool'
    cases hpool'.symm.trans h.pool
    rw [hreached, hraised]
    refine ⟨by decide +kernel, fun u user hu => ?_⟩
    have hmax : Draws (2 ^ 63) (pool.rewardAcc.bits + 31875973700) := by decide +kernel
    exact hmax.mono (h.shares u user hu) (by norm_num)
  obtain ⟨s', hs'⟩ : ∃ s', r.1.gkMessage Demo.release event = .ok s' := by
    refine State.gkMessage_ok rfl fun s₁ hsame info' hinfo' pid hpid => ?_
    rw [hreached] at hinfo'
    cases List.mem_singleton.mp hinfo'
    rw [hsame.assignments] at hpid
    cases Option.some.inj (h.assigned.symm.trans hpid)
    exact ⟨pool, hsame.pools.symm ▸ h.pool, hdivisible⟩
  obtain ⟨s₁, hsame, hpaid⟩ := (State.gkMessage_paid event).ok hs'
  rw [hreached] at hpaid
  have hassigned : s₁.workerAssignments.lookup info.pubkey = some 0 := by
    rw [hsame.assignments]
    exact h.assigned
  have hpool : s'.stakePools.lookup 0 = some (pool.paid 0 (U64F64.ofBits 31875973700)) := by
    have hc : s₁.commissions 0 pool [info] = 0 := by
      unfold State.commissions
      rw [List.map_cons, List.map_nil, List.sum_cons, List.sum_nil, if_pos hassigned, hcommission, Nat.add_zero]
    have hi : s₁.increments 0 pool [info] = U64F64.ofBits 31875973700 := by
      unfold State.increments
      rw [List.map_cons, List.map_nil, List.sum_cons, List.sum_nil, if_pos hassigned, hincrement, U64F64.add_zero]
    rw [hpaid.pools, hsame.pools, h.pool, Option.map_some, hc, hi]
  have hhanded : r.1.handedTo 0 event.settle = 18637986845 := by
    unfold State.handedTo
    rw [hreached, List.map_cons, List.map_nil, List.sum_cons, List.sum_nil,
      if_pos h.assigned, hpayout, Nat.add_zero]
  have hstakers : s'.books.poolStakers = r.1.books.poolStakers := by
    rw [hpaid.rest]
    exact hsame.stakers
  have hhistory : s'.books.history = r.1.books.history := by
    rw [hpaid.rest]
    exact hsame.history
  have howed : s'.books.owed 0 (pool.paid 0 (U64F64.ofBits 31875973700)).rewardAcc = 118188473891366688 := by
    have hsums := h.sums fun shares available debt =>
      available + (bmul shares (pool.paid 0 (U64F64.ofBits 31875973700)).rewardAcc - debt)
    refine (Books.stakerSum_congr hstakers).trans (hsums.trans ?_)
    decide +kernel
  refine ⟨(s', r.1.accountAfter Demo.release 0 r.2 (.gkMessage event)), _,
    .step h.reach hsmall ⟨⟨1, hs'⟩, rfl⟩, ?_, hpool,
    ?_, ?_⟩
  · unfold run
    rw [List.foldlM_append]
    refine Outcome.bind_ok.mpr ⟨r.1, h.ran, ?_⟩
    exact Outcome.bind_ok.mpr ⟨s', hs', rfl⟩
  · exact (Desk.resets_of_history hhistory).trans h.resets
  · rw [howed]
    change r.2.handed + r.1.handedTo 0 event.settle + (10 ^ 8 + 1) < r.2.paid + 0 + 118188473891366688
    rw [hhanded, h.acct]
    norm_num

end Khala
