/-
The storage migration to version 1 (`stakepool/migrations.rs`): dust is taken
out of every staker's record and out of every pool, and each staker keeps one
request.

The first loop rewrites the stakers and collects the shares it takes in a side
table, the second one takes them from the pools. A staker's shares are cut
without a settlement, so the debt stays that of the shares before: what was
pending on dust is gone, and what had been drawn on it is owed.
-/
import Khala.Ledger
import Khala.Shares

namespace Khala

open Outcome

variable {A W : Type} [DecidableEq A] {cfg : Config A W} {s s' : State A W}

/-! ## The migration -/

/-- The loop over the stakers: the dust taken from each pool's shares so far, and the books. -/
structure Migrating (A W : Type) where
  shareDustRemoved : StorageMap ℕ ℕ
  books : Books A W

/-- The closure of `PoolStakers::translate`. -/
def Migrating.translate (cfg : Config A W) (m : Migrating A W) (pid : ℕ) (account : A) (user : UserStakeInfo A) :
    Except Fault (Migrating A W) := do
  let shares := (extractDust user.shares).1
  let sharesDust := (extractDust user.shares).2
  let shareDustRemoved :=
    if sharesDust > 0 then m.shareDustRemoved.insert pid ((m.shareDustRemoved.lookup pid).getD 0 + sharesDust)
    else m.shareDustRemoved
  let locked := (extractDust user.locked).1
  let stakeDust := (extractDust user.locked).2
  let books ← (if stakeDust > 0 then m.books.ledgerReduce cfg account 0 stakeDust else pure m.books)
  pure ⟨shareDustRemoved, books.putStaker pid account { user with shares, locked }⟩

/-- The queue without the requests of users visited before. -/
def firstRequests : List A → List (WithdrawInfo A) → List (WithdrawInfo A)
  | _, [] => []
  | visited, withdraw :: rest =>
    if withdraw.user ∈ visited then firstRequests visited rest
    else withdraw :: firstRequests (visited ++ [withdraw.user]) rest

/-- The closure of `StakePools::translate_values`. -/
def PoolInfo.translate (cfg : Config A W) (shareDustRemoved : StorageMap ℕ ℕ) (pool : PoolInfo A W) :
    Except Fault (PoolInfo A W) := do
  let totalShares ← (match shareDustRemoved.lookup pool.pid with
    | some dust => cfg.sub .migratedShares pool.totalShares dust
    | none => pure pool.totalShares)
  let totalStake := (extractDust pool.totalStake).1
  -- total stake that is no dust stays as it is
  let pool := if totalStake = 0 then { pool with totalStake := 0, freeStake := 0 } else pool
  pure { pool with
    totalShares
    withdrawQueue :=
      firstRequests [] (pool.withdrawQueue.filter fun withdraw => isNondustBalance withdraw.shares) }

/-- `PoolStakers::translate` -/
def translateStakers (cfg : Config A W) (b : Books A W) : Except Fault (Migrating A W) :=
  b.poolStakers.entries.foldlM (fun (m : Migrating A W) e => m.translate cfg e.1.1 e.1.2 e.2) (Migrating.mk ∅ b)

/-- `StakePools::translate_values` -/
def translatePools (cfg : Config A W) (shareDustRemoved : StorageMap ℕ ℕ)
    (stakePools : StorageMap ℕ (PoolInfo A W)) :
    Except Fault (StorageMap ℕ (PoolInfo A W)) :=
  stakePools.entries.foldlM (fun (pools : StorageMap ℕ (PoolInfo A W)) e => do
    let pool ← e.2.translate cfg shareDustRemoved
    pure (pools.insert e.1 pool)) stakePools

/-- `migrate_to_v1` -/
def State.migrateToV1 (cfg : Config A W) (s : State A W) : Except Fault (State A W) := do
  let m ← translateStakers cfg s.books
  let stakePools ← translatePools cfg m.shareDustRemoved s.stakePools
  pure { s with stakePools, books := m.books }

/-! ## One entry -/

/-- A staker's record without dust. -/
def UserStakeInfo.dusted (user : UserStakeInfo A) : UserStakeInfo A :=
  { user with shares := (extractDust user.shares).1, locked := (extractDust user.locked).1 }

/-- A pool's record without dust, of which so much was in its stakers' shares. -/
def PoolInfo.dusted (dust : ℕ) (pool : PoolInfo A W) : PoolInfo A W :=
  { pool with
    totalShares := pool.totalShares - dust
    totalStake := if (extractDust pool.totalStake).1 = 0 then 0 else pool.totalStake
    freeStake := if (extractDust pool.totalStake).1 = 0 then 0 else pool.freeStake
    withdrawQueue :=
      firstRequests [] (pool.withdrawQueue.filter fun withdraw => isNondustBalance withdraw.shares) }

namespace Books

/-- The dust in the shares of a pool's stakers. -/
def shareDust (pid : ℕ) (b : Books A W) : ℕ := b.stakerSum (fun k => k.1 = pid) fun user =>
    (extractDust user.shares).2

/-- The dust in what an account has locked. -/
def lockedDust (u : A) (b : Books A W) : ℕ := b.stakerSum (fun k => k.2 = u) fun user =>
    (extractDust user.locked).2

theorem shareDust_le (pid : ℕ) (b : Books A W) : b.shareDust pid ≤ b.heldShares pid := by
  refine stakerSum_le fun k user _ _ => ?_
  have := extractDust_add user.shares
  omega

end Books

/-! ## The loop over the stakers -/

namespace Migrating

/-- The part of a sum over the stakers that is left to do. -/
def restSum (p : ℕ × A → Prop) [DecidablePred p] (f : UserStakeInfo A → ℕ)
    (rest : List (Sigma fun _ : ℕ × A => UserStakeInfo A)) : ℕ :=
  (rest.map fun e => if p e.1 then f e.2 else 0).sum

/-- The loop over the stakers of `b`, with `rest` left to do. -/
structure At (b : Books A W) (rest : List (Sigma fun _ : ℕ × A => UserStakeInfo A))
    (m : Migrating A W) : Prop where
  stakers : StorageMap.Translated (fun _ user => user.dusted) b.poolStakers rest m.books.poolStakers
  shares : ∀ pid, (m.shareDustRemoved.lookup pid).getD 0 +
    restSum (fun k => k.1 = pid) (fun user => (extractDust user.shares).2) rest = b.shareDust pid
  ledger : ∀ u, ∃ taken, taken + restSum (fun k => k.2 = u) (fun user => (extractDust user.locked).2) rest =
    b.lockedDust u ∧ m.books.ledgerQuery u = b.ledgerQuery u - taken

theorem At.start (b : Books A W) : At b b.poolStakers.entries ⟨∅, b⟩ where
  stakers := .start _ _
  shares pid := by
    rw [AList.lookup_empty]
    exact Nat.zero_add _
  ledger u := ⟨0, Nat.zero_add _, rfl⟩

variable {b : Books A W} {m : Migrating A W} {pid : ℕ} {account : A} {user : UserStakeInfo A}
  {rest : List (Sigma fun _ : ℕ × A => UserStakeInfo A)}

omit [DecidableEq A] in
theorem restSum_cons (p : ℕ × A → Prop) [DecidablePred p] (f : UserStakeInfo A → ℕ) :
    restSum p f (⟨(pid, account), user⟩ :: rest) =
    (if p (pid, account) then f user else 0) + restSum p f rest := by
  unfold restSum
  rw [List.map_cons, List.sum_cons]

/-- The shares taken from a staker are entered for its pool. -/
theorem lookup_shareDust {table : StorageMap ℕ ℕ} {dust pid' : ℕ} :
    ((if dust > 0 then table.insert pid ((table.lookup pid).getD 0 + dust) else table).lookup pid').getD 0 =
      (table.lookup pid').getD 0 + if pid = pid' then dust else 0 := by
  by_cases hd : dust > 0
  · rw [if_pos hd, StorageMap.lookup_insert_ite]
    by_cases hp : pid' = pid
    · subst hp
      rw [if_pos rfl, if_pos rfl]
      rfl
    · rw [if_neg hp, if_neg (Ne.symm hp), Nat.add_zero]
  · have h0 : dust = 0 := by omega
    rw [if_neg hd, h0, ite_self, Nat.add_zero]

/-- The dust locked by a staker is taken from its ledger. -/
theorem reduce_ends {dust : ℕ} {E : Fault → Prop}
    (hE : b.ledgerQuery account < dust → E (.panic (.check .ledgerReduce))) :
    Ends (if dust > 0 then b.ledgerReduce cfg account 0 dust else pure b)
      (fun b' => b'.poolStakers = b.poolStakers ∧
        ∀ u, b'.ledgerQuery u = b.ledgerQuery u - if account = u then dust else 0) E := by
  split
  · refine (Books.ledgerReduce_ends fun h => hE (by omega)).mono (fun b' hb' => ?_) fun _ h => h
    subst hb'
    refine ⟨Books.reduced_poolStakers, fun u => ?_⟩
    rw [Books.ledgerQuery_reduced, Nat.zero_add]
    by_cases hu : u = account
    · subst hu
      rw [if_pos rfl, if_pos rfl]
    · rw [if_neg hu, if_neg (Ne.symm hu), Nat.sub_zero]
  · refine ⟨rfl, fun u => ?_⟩
    split <;> omega

/-- One staker is migrated. -/
theorem At.translate (h : At b (⟨(pid, account), user⟩ :: rest) m) :
    Ends (m.translate cfg pid account user) (At b rest) fun _ => ∃ u, b.ledgerQuery u < b.lockedDust u := by
  have hshort : m.books.ledgerQuery account < (extractDust user.locked).2 →
      ∃ u, b.ledgerQuery u < b.lockedDust u := by
    intro hlt
    obtain ⟨taken, htaken, hledger⟩ := h.ledger account
    rw [restSum_cons, if_pos rfl] at htaken
    exact ⟨account, by omega⟩
  refine Ends.bind (reduce_ends hshort) fun books hbooks => ?_
  obtain ⟨hstakers, hledger⟩ := hbooks
  refine Ends.pure ⟨?_, fun pid' => ?_, fun u => ?_⟩
  · have hput := h.stakers.insert
    rw [← hstakers] at hput
    exact hput
  · have hs := h.shares pid'
    rw [restSum_cons] at hs
    rw [lookup_shareDust]
    dsimp only at hs ⊢
    omega
  · obtain ⟨taken, htaken, hl⟩ := h.ledger u
    rw [restSum_cons] at htaken
    dsimp only at htaken
    refine ⟨taken + if account = u then (extractDust user.locked).2 else 0, by omega, ?_⟩
    rw [Books.ledgerQuery_putStaker, hledger, hl]
    omega

/-- All of them. -/
theorem translate_ends (b : Books A W) :
    Ends (translateStakers cfg b) (At b []) fun _ => ∃ u, b.ledgerQuery u < b.lockedDust u := by
  refine Ends.foldlM_rest (fun e rest m h => ?_) (At.start b)
  obtain ⟨⟨pid, account⟩, user⟩ := e
  exact h.translate

end Migrating

/-! ## The loop over the pools -/

section Queue

variable {visited : List A} {q : List (WithdrawInfo A)} {u : A}

theorem firstRequests_sublist (visited : List A) (q : List (WithdrawInfo A)) :
    (firstRequests visited q).Sublist q := by
  induction q generalizing visited with
  | nil => exact List.Sublist.slnil
  | cons w rest ih =>
    unfold firstRequests
    split
    · exact (ih _).cons w
    · exact (ih _).cons_cons w

/-- No user that was visited, and nobody twice. -/
theorem firstRequests_nodup (visited : List A) (q : List (WithdrawInfo A)) :
    (∀ w ∈ firstRequests visited q, w.user ∉ visited) ∧
    ((firstRequests visited q).map WithdrawInfo.user).Nodup := by
  induction q generalizing visited with
  | nil => exact ⟨fun w hw => absurd hw List.not_mem_nil, List.nodup_nil⟩
  | cons w rest ih =>
    unfold firstRequests
    split
    · exact ih _
    · next hw =>
      obtain ⟨hfresh, hnodup⟩ := ih (visited ++ [w.user])
      constructor
      · intro w' hw'
        rcases List.mem_cons.mp hw' with rfl | hw'
        · exact hw
        · intro hv
          exact hfresh w' hw' (List.mem_append_left _ hv)
      · rw [List.map_cons, List.nodup_cons]
        refine ⟨fun hmem => ?_, hnodup⟩
        obtain ⟨w', hw', he⟩ := List.mem_map.mp hmem
        exact hfresh w' hw' (by simp [he])

/-- The first request of a user that was not visited stays the first one. -/
theorem firstRequests_find (hu : u ∉ visited) :
    (firstRequests visited q).find? (fun w => w.user = u) = q.find? fun w => w.user = u := by
  induction q generalizing visited with
  | nil => rfl
  | cons w rest ih =>
    unfold firstRequests
    by_cases hw : w.user = u
    · rw [if_neg (hw.symm ▸ hu), List.find?_cons_of_pos (by simpa using hw),
        List.find?_cons_of_pos (by simpa using hw)]
    · rw [List.find?_cons_of_neg (by simpa using hw)]
      split
      · exact ih hu
      · rw [List.find?_cons_of_neg (by simpa using hw)]
        refine ih fun hmem => ?_
        rcases List.mem_append.mp hmem with hv | hv
        · exact hu hv
        · exact hw (List.mem_singleton.mp hv).symm

end Queue

/-- One pool is migrated. -/
theorem PoolInfo.translate_ends {table : StorageMap ℕ ℕ} {pool : PoolInfo A W} {dust : ℕ}
    (htable : (table.lookup pool.pid).getD 0 = dust) (hle : dust ≤ pool.totalShares) :
    Ends (pool.translate cfg table) (fun pool' => pool' = pool.dusted dust) fun _ => False := by
  have hsub : (match table.lookup pool.pid with
      | some dust => cfg.sub .migratedShares pool.totalShares dust
      | none => pure pool.totalShares) = .ok (pool.totalShares - dust) := by
    cases hl : table.lookup pool.pid with
    | none =>
      rw [hl] at htable
      cases htable
      rfl
    | some n =>
      rw [hl] at htable
      cases htable
      exact cfg.sub_of_le hle
  unfold PoolInfo.translate
  rw [hsub]
  change PoolInfo.mk _ _ _ _ _ _ _ _ _ _ _ _ = PoolInfo.mk _ _ _ _ _ _ _ _ _ _ _ _
  split <;> rfl

theorem translatePools_ends {table : StorageMap ℕ ℕ} {pools : StorageMap ℕ (PoolInfo A W)} {dust : ℕ → ℕ}
    (htable : ∀ pid, (table.lookup pid).getD 0 = dust pid)
    (hle : ∀ pid pool, pools.lookup pid = some pool → dust pool.pid ≤ pool.totalShares) :
    Ends (translatePools cfg table pools)
      (StorageMap.Translated (fun _ pool => pool.dusted (dust pool.pid)) pools []) fun _ => False := by
  refine Ends.foldlM_rest (fun e rest pools' h => ?_) (.start _ _)
  obtain ⟨pid, pool⟩ := e
  refine (pool.translate_ends (htable _) (hle pid pool h.head.1)).bind fun pool' hpool' => ?_
  subst hpool'
  exact h.insert

/-! ## The migration -/

/-- The storage without dust. -/
structure State.Dusted (s s' : State A W) : Prop where
  stakers : ∀ k, s'.books.poolStakers.lookup k = (s.books.poolStakers.lookup k).map UserStakeInfo.dusted
  pools : ∀ pid, s'.stakePools.lookup pid =
    (s.stakePools.lookup pid).map fun pool => pool.dusted (s.books.shareDust pool.pid)
  heldShares : ∀ pid, s'.books.heldShares pid + s.books.shareDust pid = s.books.heldShares pid
  ledger : ∀ u, s'.books.ledgerQuery u = s.books.ledgerQuery u - s.books.lockedDust u

/-- Each pool's shares are those of its stakers. -/
def State.SharesFiled (s : State A W) : Prop :=
  ∀ pid pool, s.stakePools.lookup pid = some pool → pool.totalShares = s.books.heldShares pool.pid

theorem State.migrateToV1_ends (cfg : Config A W) (hs : s.SharesFiled) :
    Ends (s.migrateToV1 cfg) s.Dusted fun _ => ∃ u, s.books.ledgerQuery u < s.books.lockedDust u := by
  refine (Migrating.translate_ends s.books).bind fun m hm => ?_
  have htable : ∀ pid, (m.shareDustRemoved.lookup pid).getD 0 = s.books.shareDust pid := hm.shares
  have hle : ∀ pid pool, s.stakePools.lookup pid = some pool → s.books.shareDust pool.pid ≤ pool.totalShares := by
    intro pid pool hpool
    rw [hs pid pool hpool]
    exact Books.shareDust_le _ _
  refine ((translatePools_ends htable hle).mono (fun _ h => h) fun _ h => h.elim).bind fun pools hpools => ?_
  refine Ends.pure ⟨hm.stakers.done, hpools.done, fun pid => ?_, fun u => ?_⟩
  · have hkept : m.books.heldShares pid =
        s.books.stakerSum (fun k => k.1 = pid) fun user => (extractDust user.shares).1 :=
      hm.stakers.total fun k user => if k.1 = pid then user.shares else 0
    have hboth : s.books.heldShares pid = s.books.stakerSum (fun k => k.1 = pid) (fun user =>
        (extractDust user.shares).1 + (extractDust user.shares).2) := by
      simp only [extractDust_add]
      rfl
    rw [hboth, Books.stakerSum_add, hkept]
    rfl
  · obtain ⟨taken, htaken, hledger⟩ := hm.ledger u
    have h0 : taken = s.books.lockedDust u := htaken
    rw [← h0]
    exact hledger

/-- The staker has the same rewards to claim, and its next settlement finds them. -/
structure PoolInfo.SameReward (cfg : Config A W) (pool : PoolInfo A W)
    (user : UserStakeInfo A) (pool' : PoolInfo A W)
    (user' : UserStakeInfo A) : Prop where
  debt : user'.rewardDebt ≤ bmul user'.shares pool'.rewardAcc
  claimable : user'.availableRewards + (bmul user'.shares pool'.rewardAcc - user'.rewardDebt) =
    user.availableRewards + (bmul user.shares pool.rewardAcc - user.rewardDebt)
  settle : ∃ settled settled', pool.settleUserPendingReward cfg user = .ok settled ∧
    pool'.settleUserPendingReward cfg user' = .ok settled' ∧ settled'.availableRewards = settled.availableRewards

/-- The queue has each user's first request that is no dust, in order. -/
structure FirstNondust (queue queue' : List (WithdrawInfo A)) : Prop where
  sublist : queue'.Sublist queue
  nodup : (queue'.map WithdrawInfo.user).Nodup
  first : ∀ u, queue'.find? (fun w => w.user = u) = queue.find? fun w =>
    isNondustBalance w.shares = true ∧ w.user = u

/-- What the migration keeps, and what it takes. -/
structure State.Preserved (cfg : Config A W) (s s' : State A W) : Prop where
  shares : s'.SharesFiled
  rewards : ∀ pid u pool user, s.stakePools.lookup pid = some pool →
    s.books.poolStakers.lookup (pid, u) = some user →
    ∃ pool' user', s'.stakePools.lookup pid = some pool' ∧ s'.books.poolStakers.lookup (pid, u) = some user' ∧
      pool.SameReward cfg user pool' user'
  ledger : ∀ u, s'.books.ledgerQuery u + s.books.lockedDust u = s.books.ledgerQuery u
  queue : ∀ pid pool, s.stakePools.lookup pid = some pool →
    ∃ pool', s'.stakePools.lookup pid = some pool' ∧ FirstNondust pool.withdrawQueue pool'.withdrawQueue

/-- What is drawn so far on shares is at most what they draw. -/
def State.DebtsDrawn (s : State A W) : Prop :=
  ∀ pid u pool user, s.stakePools.lookup pid = some pool → s.books.poolStakers.lookup (pid, u) = some user →
    user.rewardDebt ≤ bmul user.shares pool.rewardAcc

/-- Shares that are dust draw nothing. -/
def State.DustDrawsNothing (s : State A W) : Prop :=
  ∀ pid u pool user, s.stakePools.lookup pid = some pool → s.books.poolStakers.lookup (pid, u) = some user →
    isNondustBalance user.shares = false → bmul user.shares pool.rewardAcc = 0

theorem firstNondust (queue : List (WithdrawInfo A)) :
    FirstNondust queue (firstRequests [] (queue.filter fun w => isNondustBalance w.shares)) where
  sublist := (firstRequests_sublist _ _).trans List.filter_sublist
  nodup := (firstRequests_nodup _ _).2
  first u := by
    rw [firstRequests_find List.not_mem_nil, List.find?_filter]
    simp only [decide_eq_true_eq]

omit [DecidableEq A] in
theorem PoolInfo.settle_of_le (cfg : Config A W) {pool : PoolInfo A W} {user : UserStakeInfo A}
    (h : user.rewardDebt ≤ bmul user.shares pool.rewardAcc) :
    ∃ settled, pool.settleUserPendingReward cfg user = .ok settled ∧
      settled.availableRewards = user.availableRewards + (bmul user.shares pool.rewardAcc - user.rewardDebt) := by
  unfold settleUserPendingReward pendingReward
  rw [cfg.sub_of_le h]
  exact ⟨_, rfl, rfl⟩

/-- A staker keeps its rewards unless its shares are dust that draws something. -/
theorem PoolInfo.sameReward_iff {pool : PoolInfo A W} {user : UserStakeInfo A} (dust : ℕ)
    (h : user.rewardDebt ≤ bmul user.shares pool.rewardAcc) :
    pool.SameReward cfg user (pool.dusted dust) user.dusted ↔
      (isNondustBalance user.shares = false → bmul user.shares pool.rewardAcc = 0) := by
  have hacc : (pool.dusted dust).rewardAcc = pool.rewardAcc := rfl
  have hdebt : user.dusted.rewardDebt = user.rewardDebt := rfl
  have havailable : user.dusted.availableRewards = user.availableRewards := rfl
  constructor
  · intro hk hdust
    have hle : user.shares ≤ 1000 := by simpa [isNondustBalance, balanceCloseToZero] using hdust
    have h0 : user.dusted.shares = 0 := by
      change (extractDust user.shares).1 = 0
      rw [extractDust_of_le hle]
    have hd := hk.debt
    have hc := hk.claimable
    rw [h0, bmul_zero] at hd hc
    omega
  · intro hk
    have hsame : bmul user.dusted.shares (pool.dusted dust).rewardAcc = bmul user.shares pool.rewardAcc := by
      rw [hacc]
      change bmul (extractDust user.shares).1 pool.rewardAcc = _
      by_cases hle : user.shares ≤ 1000
      · rw [extractDust_of_le hle, bmul_zero, hk (by simpa [isNondustBalance, balanceCloseToZero] using hle)]
      · rw [extractDust_of_lt (by omega)]
    have h' : user.dusted.rewardDebt ≤ bmul user.dusted.shares (pool.dusted dust).rewardAcc := by
      rw [hsame]
      exact h
    obtain ⟨settled, hs, ha⟩ := PoolInfo.settle_of_le cfg h
    obtain ⟨settled', hs', ha'⟩ := PoolInfo.settle_of_le cfg h'
    refine ⟨h', ?_, settled, settled', hs, hs', ?_⟩
    · rw [hsame, hdebt, havailable]
    · rw [ha', ha, hsame, hdebt, havailable]

/-- **The migration.** From storage where the pools' shares are those of their
stakers and nothing too much was drawn, it takes the dust and keeps every
reward exactly if no shares that are dust draw anything and every ledger
covers the dust that its account has locked. -/
theorem State.migrateToV1_preserves_iff (hs : s.SharesFiled) (hd : s.DebtsDrawn) :
    (∃ s', s.migrateToV1 cfg = .ok s' ∧ s.Preserved cfg s') ↔
      s.DustDrawsNothing ∧ ∀ u, s.books.lockedDust u ≤ s.books.ledgerQuery u := by
  have hends := State.migrateToV1_ends cfg hs
  constructor
  · intro ⟨s', hrun, hp⟩
    have hdusted := hends.ok hrun
    constructor
    · intro pid u pool user hpool huser
      obtain ⟨pool', user', hpool', huser', hsame⟩ := hp.rewards pid u pool user hpool huser
      rw [hdusted.pools, hpool] at hpool'
      rw [hdusted.stakers, huser] at huser'
      cases hpool'
      cases huser'
      exact (PoolInfo.sameReward_iff _ (hd pid u pool user hpool huser)).mp hsame
    · intro u
      have := hp.ledger u
      omega
  · intro ⟨hdraws, hledger⟩
    cases hrun : s.migrateToV1 cfg with
    | error e =>
      obtain ⟨u, hu⟩ := hends.error hrun
      have := hledger u
      omega
    | ok s' =>
      have hdusted := hends.ok hrun
      refine ⟨s', rfl, ?_, ?_, ?_, ?_⟩
      · intro pid pool' hpool'
        rw [hdusted.pools] at hpool'
        obtain ⟨pool, hpool, rfl⟩ := Option.map_eq_some_iff.mp hpool'
        have hsum := hdusted.heldShares pool.pid
        have htotal := hs pid pool hpool
        change pool.totalShares - s.books.shareDust pool.pid = s'.books.heldShares pool.pid
        omega
      · intro pid u pool user hpool huser
        refine ⟨_, _, by rw [hdusted.pools, hpool]; rfl, by rw [hdusted.stakers, huser]; rfl, ?_⟩
        exact (PoolInfo.sameReward_iff _ (hd pid u pool user hpool huser)).mpr (hdraws pid u pool user hpool huser)
      · intro u
        have hle := hledger u
        have hu := hdusted.ledger u
        omega
      · intro pid pool hpool
        exact ⟨_, by rw [hdusted.pools, hpool]; rfl, firstNondust _⟩

/-! ## Two stakers, one with dust -/

namespace Demo

/-- What every record of a map satisfies. -/
theorem lookup_forall {K V : Type} [DecidableEq K] {m : StorageMap K V} {p : K → V → Prop}
    (h : ∀ e ∈ m.entries, p e.1 e.2) {k : K} {v : V} (hv : m.lookup k = some v) : p k v :=
  h ⟨k, v⟩ (AList.mem_lookup_iff.mp hv)

/-- Two tokens in shares, and `dust` more, where each token has drawn `acc`. -/
def dusty (acc : FixedPoint) (dust : ℕ) : State Account ℕ where
  registry := genesis.registry
  mining := genesis.mining
  stakePools :=
    AList.insert 0 ⟨0, .user 0, none, 0, none, acc, 2000000000000 + dust, 2000000000000 + dust, 0, 0, [],
    [⟨.user 2, dust, 5⟩, ⟨.user 1, 1000000000000, 7⟩, ⟨.user 1, 500000000000, 9⟩]⟩ ∅
  books := ⟨(AList.insert (0, .user 1) ⟨.user 1, 2000000000000, 2000000000000, 30, 7⟩ ∅).insert (0, .user 2)
      ⟨.user 2, dust, dust, 0, bmul dust acc⟩,
    (AList.insert (.user 1) 2000000000000 ∅).insert (.user 2) dust, genesis.books.balances, []⟩
  poolCount := 1
  workerAssignments := ∅
  withdrawalQueuedPools := ∅
  withdrawalTimestamps := []
  miningEnabled := true
  now := 1000
  notices := []

/-- One and a half tokens on each token of shares. -/
abbrev lost : State Account ℕ := dusty (U64F64.ofBits (3 * 2 ^ 63)) 1000

/-- Next to nothing on each token of shares. -/
abbrev spared : State Account ℕ := dusty (U64F64.ofBits (2 ^ 44)) 900

theorem filed_of_entries {s : State Account ℕ}
    (h : ∀ e ∈ s.stakePools.entries, e.2.totalShares = s.books.heldShares e.2.pid) : s.SharesFiled :=
  fun _ _ hpool => lookup_forall (p := fun _ pool => pool.totalShares = s.books.heldShares pool.pid) h hpool

theorem drawn_of_entries {s : State Account ℕ} (h : ∀ e ∈ s.stakePools.entries, ∀ e' ∈ s.books.poolStakers.entries,
    e'.2.rewardDebt ≤ bmul e'.2.shares e.2.rewardAcc) : s.DebtsDrawn := by
  intro pid u pool user hpool huser
  exact h ⟨pid, pool⟩ (AList.mem_lookup_iff.mp hpool) ⟨(pid, u), user⟩ (AList.mem_lookup_iff.mp huser)

theorem covered_of_entries {s : State Account ℕ} (h : ∀ e ∈ s.books.poolStakers.entries,
    s.books.lockedDust e.1.2 ≤ s.books.ledgerQuery e.1.2) (u : Account) :
    s.books.lockedDust u ≤ s.books.ledgerQuery u := by
  by_cases hu : ∃ e ∈ s.books.poolStakers.entries, e.1.2 = u
  · obtain ⟨e, he, rfl⟩ := hu
    exact h e he
  · have h0 : s.books.lockedDust u = 0 := by
      unfold Books.lockedDust Books.stakerSum
      refine StorageMap.total_eq_zero fun k user hk => if_neg fun hku => hu ?_
      exact ⟨⟨k, user⟩, AList.mem_lookup_iff.mp hk, hku⟩
    rw [h0]
    exact Nat.zero_le _

/-- The record of the staker with dust, its pool, and what a settlement makes available to it. -/
def settlement (s : State Account ℕ) : Option (PoolInfo Account ℕ × UserStakeInfo Account × ℕ) :=
  (s.stakePools.lookup 0).bind fun pool => (s.books.poolStakers.lookup (0, .user 2)).bind fun user =>
    (pool.settleUserPendingReward release user).toOption.map fun settled => (pool, user, settled.availableRewards)

theorem settlement_some {s : State Account ℕ} {pool : PoolInfo Account ℕ} {user : UserStakeInfo Account} {n : ℕ}
    (h : settlement s = some (pool, user, n)) : s.stakePools.lookup 0 = some pool ∧
      s.books.poolStakers.lookup (0, .user 2) = some user ∧
      ∃ settled, pool.settleUserPendingReward release user = .ok settled ∧ settled.availableRewards = n := by
  obtain ⟨pool₁, hpool, h⟩ := Option.bind_eq_some_iff.mp h
  obtain ⟨user₁, huser, h⟩ := Option.bind_eq_some_iff.mp h
  obtain ⟨settled, hs, he⟩ := Option.map_eq_some_iff.mp h
  cases he
  cases hrun : pool.settleUserPendingReward release user with
  | error e =>
    rw [hrun] at hs
    cases hs
  | ok settled' =>
    rw [hrun] at hs
    cases hs
    exact ⟨hpool, huser, _, rfl, rfl⟩

end Demo

/-- At one and a half tokens a share, 1499 planck were paid on 1000 shares. After
the migration they are owed, and a release build pays the staker the difference
at 128 bits. -/
theorem State.migrateToV1_overpays : ∃ s s' : State Demo.Account ℕ, s.SharesFiled ∧ s.DebtsDrawn ∧
    (∀ u, s.books.lockedDust u ≤ s.books.ledgerQuery u) ∧ s.migrateToV1 Demo.release = .ok s' ∧
    ¬s.Preserved Demo.release s' ∧
    ∃ pool user, Demo.settlement s = some (pool, user, 0) ∧
      ∃ pool' user', Demo.settlement s' = some (pool', user', 2 ^ 128 - 1499) := by
  obtain ⟨s', hrun, hs'⟩ := ranTo_iff.mp (by decide +kernel :
    ranTo (Demo.lost.migrateToV1 Demo.release) (fun s' => (Demo.settlement s').map (fun x => x.2.2) =
      some (2 ^ 128 - 1499) ∧ (Demo.settlement Demo.lost).map (fun x => x.2.2) = some 0) = true)
  obtain ⟨⟨pool', user', n'⟩, hsettle', rfl⟩ := Option.map_eq_some_iff.mp hs'.1
  obtain ⟨⟨pool, user, n⟩, hsettle, rfl⟩ := Option.map_eq_some_iff.mp hs'.2
  refine ⟨Demo.lost, s', Demo.filed_of_entries (by decide +kernel), Demo.drawn_of_entries (by decide +kernel),
    Demo.covered_of_entries (by decide +kernel), hrun, fun hp => ?_, pool, user, hsettle, pool', user', hsettle'⟩
  obtain ⟨hpool, huser, settled, hs, hn⟩ := Demo.settlement_some hsettle
  obtain ⟨hpool', huser', settled', hs', hn'⟩ := Demo.settlement_some hsettle'
  obtain ⟨_, _, hp', hu', hsame⟩ := hp.rewards 0 (.user 2) pool user hpool huser
  cases hpool'.symm.trans hp'
  cases huser'.symm.trans hu'
  obtain ⟨_, _, h₁, h₁', he⟩ := hsame.settle
  cases hs.symm.trans h₁
  cases hs'.symm.trans h₁'
  omega

theorem State.migrateToV1_preserves_iff_demo : ∃ s', Demo.spared.migrateToV1 Demo.release = .ok s' ∧
    Demo.spared.Preserved Demo.release s' := by
  refine (State.migrateToV1_preserves_iff (Demo.filed_of_entries (by decide +kernel))
    (Demo.drawn_of_entries (by decide +kernel))).mpr ⟨?_, Demo.covered_of_entries (by decide +kernel)⟩
  intro pid u pool user hpool huser
  have hnone : ∀ e ∈ Demo.spared.stakePools.entries, ∀ e' ∈ Demo.spared.books.poolStakers.entries,
      isNondustBalance e'.2.shares = false → bmul e'.2.shares e.2.rewardAcc = 0 := by decide +kernel
  exact hnone ⟨pid, pool⟩ (AList.mem_lookup_iff.mp hpool) ⟨(pid, u), user⟩ (AList.mem_lookup_iff.mp huser)

end Khala
