/-
What unlocks: the ledger entry of an account is what its records have locked,
unless a settlement dropped a dust shortfall from a record and left the
ledger, or took less than the shortfall.

The history variable tells which settlements did (`Touch.Clean`).
-/
import Khala.Ledger

namespace Khala

open Outcome Relation

variable {A W : Type} [DecidableEq A] {cfg : Config A W} {s s' : State A W}

/-! ## Nothing stays locked -/

/-- A settlement has no pending slash to take, or takes all of it; a
contribution that mints no share locks nothing; and a withdrawal that leaves
no share but dust leaves nothing locked but dust. -/
def Touch.Clean (cfg : Config A W) (t : Touch A W) : Prop :=
  match t.kind with
  | .settle => t.pool.shortfall t.user = 0 ∨ isNondustBalance (t.pool.shortfall t.user) = true ∧
      cfg.slashable t.balances t.user.user (t.pool.shortfall t.user) = t.pool.shortfall t.user
  | .add amount => t.user.shares = 0 → t.pool.sharesFor amount = 0 → amount = 0
  | .remove shares => t.user.shares - shares ≤ 1000 → ∀ price ∈ t.pool.sharePrice,
      t.user.locked - t.pool.removable t.user shares price ≤ 1000

instance (t : Touch A W) : Decidable (t.Clean cfg) :=
  match t with
  | ⟨.settle, _, _, _⟩ => inferInstanceAs (Decidable (_ ∨ _ ∧ _))
  | ⟨.add _, _, _, _⟩ => inferInstanceAs (Decidable (_ → _ → _))
  | ⟨.remove _, _, _, _⟩ => inferInstanceAs (Decidable (_ → ∀ price ∈ _, _))

namespace Books

variable {b b' : Books A W} {pid : ℕ} {u : A} {user old : UserStakeInfo A} {pool : PoolInfo A W}
  {amount dust n : ℕ}

/-- The records, the ledger and the lock are the same, and no record without shares has anything locked. -/
structure Exact (b : Books A W) : Prop where
  filed : ∀ pid u user, b.poolStakers.lookup (pid, u) = some user → user.user = u
  locked : ∀ u, b.lockedSum u = b.ledgerQuery u
  lock : ∀ u, b.balances.lock u = lockOf (b.ledgerQuery u)
  empty : ∀ k user, b.poolStakers.lookup k = some user → user.shares = 0 → user.locked = 0

/-- A record and the ledger give up the same. -/
theorem Exact.release (h : b.Exact) (hu : b.poolStakers.lookup (pid, u) = some old)
    (hs : b'.poolStakers = b.poolStakers)
    (hledger : ∀ v, b'.ledgerQuery v = if v = u then b.ledgerQuery u - n else b.ledgerQuery v)
    (hlock : ∀ v, b'.balances.lock v = if v = u then lockOf (b.ledgerQuery u - n) else b.balances.lock v)
    (hn : n + user.locked = old.locked) (huser : user.user = old.user)
    (hempty : user.shares = 0 → user.locked = 0) : (b'.putStaker pid u user).Exact := by
  have hle := locked_le_lockedSum hu
  have hsum := lockedSum_put (b := b') user (hs.symm ▸ hu)
  rw [lockedSum_congr hs] at hsum
  refine ⟨fun pid' v user' hv => ?_, fun v => ?_, fun v => ?_, fun k user' hk => ?_⟩
  · rw [lookup_putStaker, hs] at hv
    split at hv
    · next hk =>
      cases hk
      cases hv
      rw [huser]
      exact h.filed pid u old hu
    · exact h.filed pid' v user' hv
  · have hv := h.locked v
    rw [ledgerQuery_putStaker, hledger]
    split
    · next he =>
      subst he
      omega
    · next hne =>
      rw [lockedSum_put_other hne, lockedSum_congr hs]
      exact hv
  · rw [ledgerQuery_putStaker, hledger]
    change b'.balances.lock v = _
    rw [hlock]
    split
    · rfl
    · exact h.lock v
  · rw [lookup_putStaker, hs] at hk
    split at hk
    · cases hk
      exact hempty
    · exact h.empty k user' hk

theorem Exact.restore (h : b.Exact) (hu : b.poolStakers.lookup (pid, u) = some old)
    (hlocked : user.locked = old.locked) (hshares : user.shares = old.shares) (huser : user.user = old.user) :
    (b.putStaker pid u user).Exact := by
  refine h.release (n := 0) hu rfl (fun v => ?_) (fun v => ?_) (by omega) huser ?_
  · split
    · next he => rw [he]; rfl
    · rfl
  · split
    · next he => rw [he]; exact h.lock u
    · rfl
  · rw [hshares, hlocked]
    exact h.empty _ old hu

theorem Exact.join (h : b.Exact) (hn : b.poolStakers.lookup (pid, u) = none) :
    (b.putStaker pid u ⟨u, 0, 0, 0, 0⟩).Exact := by
  refine ⟨fun pid' v user' hv => ?_, fun v => ?_, h.lock, fun k user' hk => ?_⟩
  · rw [lookup_putStaker] at hv
    split at hv
    · next hk =>
      cases hk
      cases hv
      rfl
    · exact h.filed pid' v user' hv
  · have hv := h.locked v
    by_cases he : v = u
    · subst he
      rw [lockedSum_put_new _ hn]
      exact hv
    · rw [lockedSum_put_other he]
      exact hv
  · rw [lookup_putStaker] at hk
    split at hk
    · cases hk
      exact fun _ => rfl
    · exact h.empty k user' hk

theorem Exact.settle (h : b.Exact) (hu : b.poolStakers.lookup (pid, u) = some user)
    (hclean : Touch.Clean cfg ⟨.settle, pool, user, b.balances⟩) :
    ((b.settled cfg pool user).putStaker pid u { user with locked := pool.settledLocked user }).Exact := by
  have hwho := h.filed pid u user hu
  have hset : pool.settledLocked user ≤ user.locked := PoolInfo.settledLocked_le
  have hshort : pool.shortfall user + pool.settledLocked user = user.locked := by
    unfold PoolInfo.shortfall
    omega
  have hempty : user.shares = 0 → pool.settledLocked user = 0 := fun h0 => by
    have := h.empty _ user hu h0
    omega
  unfold settled
  split
  · next hnondust =>
    have hact : b.actualSlashed cfg pool user = pool.shortfall user := by
      rcases hclean with h0 | ⟨-, hfull⟩
      · rw [isNondustBalance_iff] at hnondust
        dsimp only at h0
        omega
      · exact hfull
    refine h.release (n := b.actualSlashed cfg pool user) hu reduced_poolStakers (fun v => ?_) (fun v => ?_) ?_
      rfl hempty
    · rw [ledgerQuery_reduced, hwho]
      rfl
    · rw [lock_reduced, hwho]
      rfl
    · rw [hact]
      exact hshort
  · next hdust =>
    have h0 : pool.shortfall user = 0 := by
      rcases hclean with h0 | ⟨hnondust, -⟩
      · exact h0
      · exact absurd hnondust hdust
    have ht : (b.touch .settle pool user).Exact := ⟨h.filed, h.locked, h.lock, h.empty⟩
    exact ht.restore hu (by dsimp only; omega) rfl rfl

theorem Exact.remove {pool' : PoolInfo A W} {user' : UserStakeInfo A} {shares : ℕ} (h : b.Exact)
    (hu : b.poolStakers.lookup (pid, u) = some user) (hr : pool.Removed user shares pool' user' amount dust)
    (hclean : Touch.Clean cfg ⟨.remove shares, pool, user, b.balances⟩) :
    (((b.touch (.remove shares) pool user).reduced cfg user.user amount dust).putStaker pid u user').Exact := by
  have hwho := h.filed pid u user hu
  obtain ⟨price, hprice, hamount⟩ := hr.amount_eq
  have hle : amount ≤ user.locked := hamount ▸ PoolInfo.removable_le_locked
  have hsplit := extractDust_add (user.locked - amount)
  have hlock' : user'.locked = (extractDust (user.locked - amount)).1 := by rw [hr.user_eq]; rfl
  have hshares' : user'.shares = (extractDust (user.shares - shares)).1 := by rw [hr.user_eq]; rfl
  have hdust := hr.dust_eq
  have hempty : user'.shares = 0 → user'.locked = 0 := fun h0 => by
    have hleft : user.shares - shares ≤ 1000 := by
      by_contra hlt
      rw [hshares', extractDust_of_lt (Nat.lt_of_not_le hlt)] at h0
      dsimp only at h0
      omega
    have hlocked : user.locked - amount ≤ 1000 := hamount ▸ hclean hleft price hprice
    rw [hlock', extractDust_of_le hlocked]
  rw [hwho]
  exact h.release (n := amount + dust) hu reduced_poolStakers (fun v => ledgerQuery_reduced)
    (fun v => lock_reduced) (by omega) hr.user_user hempty

/-- What is known of clean books: as long as the history is clean. -/
def ExactWhileClean (cfg : Config A W) (b : Books A W) : Prop := (∀ t ∈ b.history, t.Clean cfg) → b.Exact

theorem ExactWhileClean.move {d d' : Desk A W} (h : d.books.ExactWhileClean cfg) (hm : Move cfg d d') :
    d'.books.ExactWhileClean cfg := by
  intro hclean
  cases hm with
  | join hn => exact (h hclean).join hn
  | reward hu hs =>
    obtain ⟨_, _, rfl⟩ := hs
    exact (h hclean).restore hu rfl rfl rfl
  | settle hu =>
    change ∀ t ∈ (d.books.settled cfg d.pool _).history, t.Clean cfg at hclean
    rw [history_settled, List.forall_mem_cons] at hclean
    exact (h hclean.2).settle hu hclean.1
  | @remove u user shares _ _ _ _ hu hr =>
    change ∀ t ∈ ((d.books.touch (.remove shares) d.pool user).reduced cfg _ _ _).history, t.Clean cfg at hclean
    rw [history_reduced] at hclean
    obtain ⟨ht, hclean⟩ := List.forall_mem_cons.mp hclean
    exact (h hclean).remove hu hr ht
  | queue => exact h hclean

theorem ExactWhileClean.moves {d d' : Desk A W} (h : d.books.ExactWhileClean cfg) (hm : Moves cfg d d') :
    d'.books.ExactWhileClean cfg := by
  induction hm with
  | refl => exact h
  | tail _ hm ih => exact ih.move hm

theorem Exact.contributed (h : (b.putStaker pool.pid u user).Exact) (hwho : user.user = u)
    (hclean : user.shares = 0 → pool.sharesFor amount = 0 → amount = 0) :
    (Desk.contributed pool b u user amount).books.Exact := by
  have hu : (b.putStaker pool.pid u user).poolStakers.lookup (pool.pid, u) = some user :=
    lookup_putStaker_self _ _ _ _
  have hsum := lockedSum_put (pool.addedStaker user amount) hu
  rw [putStaker_putStaker] at hsum
  have hbooks : (Desk.contributed pool b u user amount).books.poolStakers =
    (b.putStaker pool.pid u (pool.addedStaker user amount)).poolStakers := rfl
  have hlocked : (pool.addedStaker user amount).locked = user.locked + amount := rfl
  have hshares : (pool.addedStaker user amount).shares = user.shares + pool.sharesFor amount := rfl
  have hledger : ∀ v, (Desk.contributed pool b u user amount).books.ledgerQuery v =
      if v = u then b.ledgerQuery u + amount else b.ledgerQuery v := fun v => ledgerQuery_setLedger
  have hq : ∀ v, (b.putStaker pool.pid u user).ledgerQuery v = b.ledgerQuery v := fun v => rfl
  refine ⟨fun pid' v user' hv => ?_, fun v => ?_, fun v => ?_, fun k user' hk => ?_⟩
  · rw [hbooks, lookup_putStaker] at hv
    split at hv
    · next hk =>
      cases hk
      cases hv
      exact hwho
    · next hk =>
      refine h.filed pid' v user' ?_
      rw [lookup_putStaker, if_neg hk]
      exact hv
  · have hv := h.locked v
    rw [hq] at hv
    rw [hledger, lockedSum_congr hbooks]
    split
    · next he =>
      subst he
      omega
    · next he =>
      rw [lockedSum_put_other he] at hv ⊢
      exact hv
  · have hv := h.lock v
    rw [hledger]
    change (if v = u then lockOf (b.ledgerQuery u + amount) else b.balances.lock v) = _
    split
    · rfl
    · exact hv
  · rw [hbooks, lookup_putStaker] at hk
    split at hk
    · cases hk
      have h0 := h.empty _ user hu
      rw [hlocked, hshares]
      intro hz
      have := hclean (by omega) (by omega)
      omega
    · next hne =>
      refine h.empty k user' ?_
      rw [lookup_putStaker, if_neg hne]
      exact hk

end Books

variable [DecidableEq W]

/-- **Nothing stays locked after leaving**, as long as the history is clean:
an account's ledger entry is what its records have locked, and an account
without shares has nothing locked, no ledger entry and no lock. -/
theorem ledger_eq_lockedSum (h : Reachable cfg s) (hclean : ∀ t ∈ s.books.history, t.Clean cfg) (u : A) :
    s.books.ledgerQuery u = s.books.lockedSum u ∧
    ((∀ pid user, s.books.poolStakers.lookup (pid, u) = some user → user.shares = 0) →
      (∀ pid user, s.books.poolStakers.lookup (pid, u) = some user → user.locked = 0) ∧
      s.books.ledgerQuery u = 0 ∧ s.books.balances.lock u = none) := by
  have hb : s.books.ExactWhileClean cfg := by
    refine h.books_invariant _ (fun s hs _ => ?_) (fun _ _ hm hd => hd.move hm) ?_ ?_ fun s free _ hb hc => ?_
    · obtain ⟨hst, hledger, hlock, -⟩ := hs.books
      have hq : ∀ u, s.books.ledgerQuery u = 0 := by
        intro u
        rw [Books.ledgerQuery, hledger]
        rfl
      refine ⟨fun pid u user hu => ?_, fun u => ?_, fun u => ?_, fun k user hk => ?_⟩
      · rw [hst] at hu
        cases hu
      · rw [Books.lockedSum, Books.stakerSum, hst, hq]
        rfl
      · rw [hlock, hq]
        rfl
      · rw [hst] at hk
        cases hk
    · intro s who pool amount books user _ hprep hb hclean
      obtain ⟨ht, hclean⟩ := List.forall_mem_cons.mp hclean
      have hmoved : (books.putStaker pool.pid who user).ExactWhileClean cfg := hb.moves hprep.moves
      have hexact := hmoved hclean
      exact hexact.contributed (hexact.filed _ _ _ (Books.lookup_putStaker_self _ _ _ _)) ht
    · intro b b' ha hb hclean
      cases ha with
      | staker hu hs =>
        obtain ⟨_, _, rfl⟩ := hs
        exact (hb hclean).restore hu rfl rfl rfl
      | @funds balances hsub =>
        have hlock : balances.lock = b.balances.lock := hsub.lock
        obtain ⟨hf, hl, hk, he⟩ := hb hclean
        exact ⟨hf, hl, fun u => hlock ▸ hk u, he⟩
    · obtain ⟨hf, hl, hk, he⟩ := hb hc
      exact ⟨hf, hl, hk, he⟩
  have hexact := hb hclean
  refine ⟨(hexact.locked u).symm, fun hshares => ?_⟩
  have hlocked : ∀ pid user, s.books.poolStakers.lookup (pid, u) = some user → user.locked = 0 :=
    fun pid user hu => hexact.empty _ user hu (hshares pid user hu)
  have hsum : s.books.lockedSum u = 0 := by
    unfold Books.lockedSum Books.stakerSum
    refine StorageMap.total_eq_zero fun k user hk => ?_
    split
    · next he =>
      subst he
      exact hlocked k.1 user hk
    · rfl
  have hledger : s.books.ledgerQuery u = 0 := by rw [← hexact.locked, hsum]
  refine ⟨hlocked, hledger, ?_⟩
  rw [hexact.lock, hledger]
  rfl

/-- Two contributions of a whole token each, and a withdrawal of both. -/
theorem ledger_eq_lockedSum_demo : ∃ s, Reachable Demo.release s ∧
    (s.books.poolStakers.lookup (0, .user 1)).map UserStakeInfo.shares = some 0 ∧
    s.books.ledgerQuery (.user 1) = s.books.lockedSum (.user 1) ∧ s.books.balances.lock (.user 1) = none := by
  have hrun := ranTo_iff.mp (by decide +kernel :
    ranTo (run Demo.release 9 Demo.genesis (Demo.setup ++ [.contribute (.user 1) 0 1000000000000,
      .contribute (.user 1) 0 1000000000000, .withdraw (.user 1) 0 2000000000000]))
      (fun s => (∀ t ∈ s.books.history, t.Clean Demo.release) ∧
        (s.books.poolStakers.lookup (0, .user 1)).map UserStakeInfo.shares = some 0 ∧
        s.books.poolStakers.keys = [(0, .user 1)]) = true)
  obtain ⟨s, hrun, hclean, hshares, hkeys⟩ := hrun
  obtain ⟨heq, hleft⟩ := ledger_eq_lockedSum (Demo.run_genesis hrun) hclean (.user 1)
  refine ⟨s, Demo.run_genesis hrun, hshares, heq, (hleft fun pid user hu => ?_).2.2⟩
  have hk : (pid, Demo.Account.user 1) ∈ s.books.poolStakers.keys :=
    AList.mem_keys.mp (AList.lookup_isSome.mp (by rw [hu]; rfl))
  rw [hkeys, List.mem_singleton] at hk
  cases hk
  rw [hu] at hshares
  exact Option.some.inj hshares

/-- A second contribution settles a shortfall of one unit. When everything is
withdrawn, that unit stays locked for good. -/
theorem ledger_ne_lockedSum : ∃ s, Reachable Demo.release s ∧
    s.books.poolStakers.keys = [(0, .user 1)] ∧
    (s.books.poolStakers.lookup (0, .user 1)).map UserStakeInfo.shares = some 0 ∧
    s.books.lockedSum (.user 1) = 0 ∧ s.books.ledgerQuery (.user 1) = 1 ∧
    s.books.balances.lock (.user 1) = some 1 := by
  have hrun := ranTo_iff.mp (by decide +kernel :
    ranTo (run Demo.release 9 Demo.genesis (Demo.setup ++ [.contribute (.user 1) 0 1000000000007,
      .contribute (.user 1) 0 1000000000007, .withdraw (.user 1) 0 2000000000013]))
      (fun s => s.books.poolStakers.keys = [(0, .user 1)] ∧
        (s.books.poolStakers.lookup (0, .user 1)).map UserStakeInfo.shares = some 0 ∧
        s.books.lockedSum (.user 1) = 0 ∧ s.books.ledgerQuery (.user 1) = 1 ∧
        s.books.balances.lock (.user 1) = some 1) = true)
  obtain ⟨s, hrun, hs⟩ := hrun
  exact ⟨s, Demo.run_genesis hrun, hs⟩

end Khala
