/-
Share conservation: the shares a pool counts are those its stakers hold.

Shares move where `addStake` mints them and where `removeStake` burns them
with their dust, each time in the pool's record and in the staker's, which
are stored apart.
-/
import Khala.Desks

namespace Khala

open Relation

variable {A W : Type} [DecidableEq A] {cfg : Config A W} {s s' : State A W} {P : Permit}

/-- The shares that the stakers of a pool hold. -/
def Books.heldShares (pid : ℕ) (b : Books A W) : ℕ := b.stakerSum (fun k => k.1 = pid) fun user => user.shares

namespace Books

variable {b : Books A W} {pid : ℕ} {u : A} {old : UserStakeInfo A} {f : UserStakeInfo A → ℕ}

omit [DecidableEq A] in
theorem heldShares_congr {b' : Books A W} (h : b'.poolStakers = b.poolStakers) :
    b'.heldShares pid = b.heldShares pid := stakerSum_congr h

theorem heldShares_put_new (user : UserStakeInfo A) (hn : b.poolStakers.lookup (pid, u) = none) :
    (b.putStaker pid u user).heldShares pid = b.heldShares pid + user.shares := by
  refine (stakerSum_put_new user hn).trans ?_
  rw [if_pos rfl]
  rfl

theorem heldShares_put (user : UserStakeInfo A) (hu : b.poolStakers.lookup (pid, u) = some old) :
    (b.putStaker pid u user).heldShares pid + old.shares = b.heldShares pid + user.shares := by
  have h := stakerSum_put (p := fun k => k.1 = pid) (f := fun user => user.shares) user hu
  rwa [if_pos rfl, if_pos rfl] at h

/-- A record with the same shares changes no sum. -/
theorem heldShares_put_same {user : UserStakeInfo A} (hu : b.poolStakers.lookup (pid, u) = some old)
    (hs : user.shares = old.shares) : (b.putStaker pid u user).heldShares pid = b.heldShares pid :=
  stakerSum_put_same hu hs

theorem heldShares_eq_zero (h : ∀ u, b.poolStakers.lookup (pid, u) = none) : b.heldShares pid = 0 := by
  unfold heldShares stakerSum
  refine StorageMap.total_eq_zero fun k user hk => if_neg fun hpid => ?_
  subst hpid
  rw [h] at hk
  cases hk

/-- The sum of `f` over the stakers of a pool but one. -/
def othersSum (pid : ℕ) (u : A) (f : UserStakeInfo A → ℕ) (b : Books A W) : ℕ :=
  b.stakerSum (fun k => k.1 = pid ∧ k.2 ≠ u) f

theorem othersSum_add (hu : b.poolStakers.lookup (pid, u) = some old) :
    b.othersSum pid u f + f old = b.stakerSum (fun k => k.1 = pid) f := by
  have hall := StorageMap.total_erase (fun k user => if k.1 = pid then f user else 0) b.poolStakers (pid, u)
  have hothers := StorageMap.total_erase (fun k user => if k.1 = pid ∧ k.2 ≠ u then f user else 0) b.poolStakers
    (pid, u)
  rw [StorageMap.count_of_lookup hu] at hall hothers
  have hsame : StorageMap.total (fun k user => if k.1 = pid ∧ k.2 ≠ u then f user else 0)
        (b.poolStakers.erase (pid, u)) =
      StorageMap.total (fun k user => if k.1 = pid then f user else 0) (b.poolStakers.erase (pid, u)) := by
    refine StorageMap.total_congr fun k other hk => ?_
    obtain ⟨pid', u'⟩ := k
    rw [StorageMap.lookup_erase_ite] at hk
    split at hk
    · cases hk
    · next hne =>
      refine if_congr ⟨fun h => h.1, fun h => ⟨h, fun he => hne ?_⟩⟩ rfl rfl
      rw [show pid' = pid from h, show u' = u from he]
  simp only [ne_eq, not_true_eq_false, and_false, if_false, if_true] at hall hothers
  unfold othersSum stakerSum
  simp only [ne_eq] at hsame ⊢
  omega

end Books

/-! ## At the desk -/

def Desk.SharesAgree (d : Desk A W) : Prop := d.pool.totalShares = d.books.heldShares d.pool.pid

omit [DecidableEq A] in
/-- A removal takes as much from the pool as from the staker. -/
theorem PoolInfo.Removed.shares {pool pool' : PoolInfo A W} {user user' : UserStakeInfo A}
    {shares amount dust : ℕ} (h : pool.Removed user shares pool' user' amount dust) :
    pool'.totalShares + user.shares = pool.totalShares + user'.shares := by
  obtain ⟨rest, _, hp⟩ := h.pool_eq
  have hle := h.shares_le
  have htotal := h.total_le
  have hdust := extractDust_add (user.shares - shares)
  rw [hp, h.user_eq]
  simp only [PoolInfo.resetPendingReward]
  omega

theorem Move.sharesAgree {d d' : Desk A W} (h : Move cfg d d') (hd : d.SharesAgree) : d'.SharesAgree := by
  have hpid := h.pid_eq
  unfold Desk.SharesAgree at *
  cases h with
  | @join u hn =>
    exact hd.trans (Books.heldShares_put_new ⟨u, 0, 0, 0, 0⟩ hn).symm
  | reward hu hs =>
    obtain ⟨_, _, rfl⟩ := hs
    exact hd.trans (Books.heldShares_put_same hu rfl).symm
  | @settle u user hu =>
    have hb : (d.books.settled cfg d.pool user).poolStakers = d.books.poolStakers := Books.settled_poolStakers
    have hu' : (d.books.settled cfg d.pool user).poolStakers.lookup (d.pool.pid, u) = some user := hb.symm ▸ hu
    exact hd.trans ((Books.heldShares_put_same hu' rfl).trans (Books.heldShares_congr hb)).symm
  | @remove u user shares pool' user' amount dust hu hr =>
    have hb : ((d.books.touch (.remove shares) d.pool user).reduced cfg user.user amount dust).poolStakers =
      d.books.poolStakers := Books.reduced_poolStakers
    have hsum := Books.heldShares_put user' (hb.symm ▸ hu)
    have hshares := hr.shares
    dsimp only at hpid ⊢
    rw [Books.heldShares_congr hb] at hsum
    rw [hpid]
    omega
  | queue => exact hd

theorem Moves.sharesAgree {d d' : Desk A W} (h : Moves cfg d d') (hd : d.SharesAgree) : d'.SharesAgree := by
  induction h with
  | refl => exact hd
  | tail _ hm ih => exact hm.sharesAgree ih

/-- The pool counts the shares that it mints for a contributor. -/
theorem Prepared.sharesAgree {d : Desk A W} {who : A} {books : Books A W} {user : UserStakeInfo A}
    (h : Prepared cfg d who books user) (hd : d.SharesAgree) (amount : ℕ) :
    (Desk.contributed d.pool books who user amount).SharesAgree := by
  have hprep : d.pool.totalShares = (books.putStaker d.pool.pid who user).heldShares d.pool.pid :=
    h.moves.sharesAgree hd
  have hsum := Books.heldShares_put (d.pool.addedStaker user amount)
    (Books.lookup_putStaker_self books d.pool.pid who user)
  rw [Books.putStaker_putStaker] at hsum
  have hshares : (d.pool.addedStaker user amount).shares = user.shares + d.pool.sharesFor amount := rfl
  have hbooks : (Desk.contributed d.pool books who user amount).books.heldShares d.pool.pid =
      (books.putStaker d.pool.pid who (d.pool.addedStaker user amount)).heldShares d.pool.pid :=
    Books.heldShares_congr rfl
  change d.pool.totalShares + d.pool.sharesFor amount = _
  rw [show (Desk.contributed d.pool books who user amount).pool.pid = d.pool.pid from rfl, hbooks]
  omega

theorem Desk.SharesAgree.alike {d d' : Desk A W} (hd : d.SharesAgree) (ha : d.Alike d') : d'.SharesAgree := by
  unfold SharesAgree
  rw [ha.totalShares, ha.pid, hd]
  refine (Books.stakerSum_of_lookup fun k hk => ?_).symm
  obtain ⟨pid, u⟩ := k
  change pid = d.pool.pid at hk
  subst hk
  exact ha.stakers u

theorem Desk.sharesAgree_invariant : Desk.Invariant cfg SharesAgree where
  new _ hshares _ hnone := hshares.trans (Books.heldShares_eq_zero hnone).symm
  alike hd ha := hd.alike ha
  move _ _ hm hd := hm.sharesAgree hd
  contribute _ _ _ _ amount hprep hd := hprep.sharesAgree hd amount
  slash _ _ _ hd := hd

/-! ## In the state -/

def State.SharesAgree (s : State A W) : Prop :=
  ∀ pid pool, s.stakePools.lookup pid = some pool → pool.totalShares = s.books.heldShares pid

variable [DecidableEq W]

namespace State

omit [DecidableEq A] [DecidableEq W] in
theorem SharesAgree.desk {pid : ℕ} {pool : PoolInfo A W} (h : s.SharesAgree)
    (hpool : s.stakePools.lookup pid = some pool) (hpid : pool.pid = pid) :
    Desk.SharesAgree ⟨pool, s.books⟩ := by
  have := h pid pool hpool
  rwa [← hpid] at this

omit [DecidableEq W] in
theorem SharesAgree.desks (h : s.SharesAgree) (hf : s.WellFiled) : s.Desks Desk.SharesAgree :=
  fun pid pool hpool => h.desk hpool (hf.pool pid pool hpool).1

omit [DecidableEq W] in
theorem Desks.sharesAgree (h : s.Desks Desk.SharesAgree) (hf : s.WellFiled) : s.SharesAgree := by
  intro pid pool hpool
  obtain ⟨rfl, -⟩ := hf.pool pid pool hpool
  exact h _ _ hpool

theorem SharesAgree.did {op : Op A W} (h : s.SharesAgree) (hf : s.WellFiled) (hd : Did cfg s op s') :
    s'.SharesAgree :=
  ((h.desks hf).did Desk.sharesAgree_invariant hf hd).sharesAgree (hf.did hd)

end State

/-- Every pool's shares are those its stakers hold. -/
theorem sharesAgree_of_reachable (h : Reachable cfg s) : s.SharesAgree := by
  refine ReachWhere.did_invariant _ (fun s hs pid pool hpool => ?_) (fun _ _ _ hs h _ hd => h.did hs.filed hd) h
  rw [hs.pools.1] at hpool
  cases hpool

/-- **Share conservation.** In every reachable state a pool's total shares are
the sum of what its stakers hold. -/
theorem totalShares_eq_sum (h : Reachable cfg s) {pid : ℕ} {pool : PoolInfo A W}
    (hpool : s.stakePools.lookup pid = some pool) :
    pool.totalShares =
      StorageMap.total (fun k user => if k.1 = pid then user.shares else 0) s.books.poolStakers :=
  sharesAgree_of_reachable h pid pool hpool

/-- Two contributions, a miner that takes half of them, and a withdrawal of nearly everything of the first. -/
theorem totalShares_eq_sum_demo : ∃ s pool, Reachable Demo.release s ∧ s.stakePools.lookup 0 = some pool ∧
    pool.totalShares = 1000000000006 ∧
    pool.totalShares =
      StorageMap.total (fun k user => if k.1 = 0 then user.shares else 0) s.books.poolStakers := by
  obtain ⟨s, hrun, hs⟩ := ranTo_iff.mp (by decide +kernel :
    ranTo (run Demo.release 9 Demo.genesis (Demo.setup ++
      [.contribute (.user 1) 0 1000000000007, .contribute (.user 2) 0 1000000000007,
        .startMining (.user 0) 0 0 1000000000000, .withdraw (.user 1) 0 1000000000003]))
      (fun s => (s.stakePools.lookup 0).map PoolInfo.totalShares = some 1000000000006) = true)
  obtain ⟨pool, hpool, hshares⟩ := Option.map_eq_some_iff.mp hs
  exact ⟨s, pool, Demo.run_genesis hrun, hpool, hshares, totalShares_eq_sum (Demo.run_genesis hrun) hpool⟩

end Khala
