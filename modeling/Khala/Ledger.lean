/-
The ledger of locked balances against the stakers' records.

An account's ledger, its currency lock and the sum of what its records have
locked are three copies of one number, kept by different code. The ledger is
never below the records and never above the free balance (`Covered`); it is
equal to the records as long as no settlement drops a dust shortfall.
-/
import Khala.Sound

namespace Khala

open Outcome Relation

variable {A W : Type} [DecidableEq A] [DecidableEq W] {cfg : Config A W} {s s' : State A W} {P : Permit}

/-! ## What an operation does to the books -/

/-- A change to the books that moves no stake. -/
inductive Books.Aside (cfg : Config A W) (b : Books A W) : Books A W → Prop
  | staker {pid user user'} {u : A} : b.poolStakers.lookup (pid, u) = some user →
      PoolInfo.SameStake user user' → Books.Aside cfg b (b.putStaker pid u user')
  | funds {balances} : b.balances.Subsidized cfg balances → Books.Aside cfg b { b with balances }

theorem Aside.books (h : Aside cfg P s s') : s'.books = s.books ∨ s.books.Aside cfg s'.books := by
  cases h with
  | other hs => exact .inl hs.books
  | staker hu hs => exact .inr (.staker hu hs)
  | funds hb => exact .inr (.funds hb)
  | _ => exact .inl rfl

/-- The rule for invariants of the books. -/
theorem ReachWhere.books_invariant {ok : State A W → Op A W → Prop} (I : Books A W → Prop)
    (base : ∀ s : State A W, Genesis s → I s.books)
    (move : ∀ d d', Move cfg d d' → I d.books → I d'.books)
    (contribute : ∀ (s : State A W) who pool amount books user, Contributable cfg s who pool amount →
      Prepared cfg ⟨pool, s.books⟩ who books user → I s.books →
      I (Desk.contributed pool books who user amount).books)
    (aside : ∀ b b', Books.Aside cfg b b' → I b → I b')
    (balances : ∀ (s : State A W) free, ok s (.balances free) → I s.books →
      I { s.books with balances := { s.books.balances with free } })
    (h : RunWhere cfg ok s) : I s.books := by
  have moves : ∀ d d', Moves cfg d d' → I d.books → I d'.books := by
    intro d d' hm hd
    induction hm with
    | refl => exact hd
    | tail _ hm ih => exact move _ _ hm ih
  have asides : ∀ {P : Permit} {s s' : State A W}, Asides cfg P s s' → I s.books → I s'.books := by
    intro P s s' ha hs
    induction ha with
    | refl => exact hs
    | tail _ ha ih =>
      rcases ha.books with he | hb
      · rw [he]
        exact ih
      · exact aside _ _ hb ih
  refine h.did_invariant (fun s => I s.books) base fun s op s' hs hi hok hd => ?_
  cases hd with
  | contribute hpool hc hprep hq =>
    exact moves _ _ (Desk.tryProcessWithdrawQueue_moves.ok hq) (contribute s _ _ _ _ _ hc hprep hi)
  | @withdraw who pid shares pool user d user' hpool hu _ _ hw =>
    obtain ⟨rfl, -⟩ := hs.filed.pool _ _ hpool
    exact moves _ _ (hw.moves (u := who) hu) hi
  | start _ _ _ hs =>
    obtain ⟨mining, rfl⟩ := hs.mining_only
    exact hi
  | forceStart hs =>
    obtain ⟨mining, rfl⟩ := hs.mining_only
    exact hi
  | reclaim _ _ hq => exact moves _ _ (Desk.tryProcessWithdrawQueue_moves.ok hq) hi
  | balances => exact balances s _ hok hi
  | finalize ha _ => exact asides ha hi
  | aside ha => exact asides ha hi
  | _ => exact hi

/-! ## What is locked, and what is free -/

namespace Books

variable {b b' : Books A W} {pid : ℕ} {u v who : A} {user old : UserStakeInfo A} {pool : PoolInfo A W}
  {amount dust n : ℕ}

/-- What an account has locked in all pools. -/
def lockedSum (u : A) (b : Books A W) : ℕ := b.stakerSum (fun k => k.2 = u) fun user => user.locked

omit [DecidableEq W] in
theorem lockedSum_congr (h : b'.poolStakers = b.poolStakers) : b'.lockedSum u = b.lockedSum u :=
  stakerSum_congr h

omit [DecidableEq W] in
theorem lockedSum_put (user : UserStakeInfo A) (hu : b.poolStakers.lookup (pid, u) = some old) :
    (b.putStaker pid u user).lockedSum u + old.locked = b.lockedSum u + user.locked := by
  have h := stakerSum_put (p := fun k => k.2 = u) (f := fun user => user.locked) user hu
  rwa [if_pos rfl, if_pos rfl] at h

omit [DecidableEq W] in
theorem lockedSum_put_new (user : UserStakeInfo A) (hn : b.poolStakers.lookup (pid, u) = none) :
    (b.putStaker pid u user).lockedSum u = b.lockedSum u + user.locked := by
  refine (stakerSum_put_new user hn).trans ?_
  rw [if_pos rfl]
  rfl

omit [DecidableEq W] in
theorem lockedSum_put_other (hne : v ≠ u) : (b.putStaker pid u user).lockedSum v = b.lockedSum v :=
  stakerSum_put_other fun h => hne h.symm

omit [DecidableEq W] in
theorem locked_le_lockedSum (hu : b.poolStakers.lookup (pid, u) = some user) : user.locked ≤ b.lockedSum u :=
  le_stakerSum (p := fun k => k.2 = u) (f := fun user => user.locked) hu rfl

omit [DecidableEq W] in
@[simp] theorem ledgerQuery_putStaker : (b.putStaker pid u user).ledgerQuery v = b.ledgerQuery v := rfl

omit [DecidableEq W] in
@[simp] theorem ledgerQuery_touch {kind : TouchKind} :
    (b.touch kind pool user).ledgerQuery v = b.ledgerQuery v := rfl

omit [DecidableEq W] in
theorem ledgerQuery_setLedger : (b.setLedger who n).ledgerQuery v = if v = who then n else b.ledgerQuery v := by
  change ((b.stakeLedger.insert who n).lookup v).getD 0 = _
  rw [StorageMap.lookup_insert_ite]
  split <;> rfl

omit [DecidableEq W] in
theorem ledgerQuery_reduced :
    (b.reduced cfg who amount dust).ledgerQuery v =
      if v = who then b.ledgerQuery who - (amount + dust) else b.ledgerQuery v := by
  rw [← ledgerQuery_setLedger]
  unfold reduced
  split <;> rfl

/-- The lock that goes with a ledger entry. -/
def lockOf (n : ℕ) : Option ℕ := if n = 0 then none else some n

theorem getD_lockOf (n : ℕ) : (lockOf n).getD 0 = n := by
  unfold lockOf
  split
  · next h => rw [h]; rfl
  · rfl

omit [DecidableEq W] in
theorem lock_reduced :
    (b.reduced cfg who amount dust).balances.lock v =
      if v = who then lockOf (b.ledgerQuery who - (amount + dust)) else b.balances.lock v := by
  unfold reduced
  split <;> rfl

end Books

omit [DecidableEq W] in
/-- Nobody loses by a slash but the one slashed, who loses what it took. -/
theorem Balances.slash_free {b : Balances A} {who v : A} {value : ℕ} :
    b.free v ≤ (b.slash cfg who value).1.free v + if v = who then cfg.slashable b who value else 0 := by
  unfold slash deposit setFree
  dsimp only
  by_cases ht : v = cfg.treasury
  · subst ht
    by_cases hw : cfg.treasury = who
    · simp only [hw, if_true]; omega
    · simp only [hw, if_true, if_false]; omega
  · by_cases hw : v = who
    · subst hw
      simp only [ht, if_true, if_false]; omega
    · simp only [ht, hw, if_false]; omega

/-! ## What `Currency` is relied on for -/

/-- A slash takes at most what it is asked for, and what an account pays leaves what is locked. -/
structure Config.RespectsLocks (cfg : Config A W) : Prop where
  slash : ∀ b who value, value ≤ b.free who → cfg.slashable b who value ≤ value
  transfer : ∀ b source dest value, source ≠ dest → cfg.transferable b source dest value = true →
    (b.lock source).getD 0 ≤ b.free source → value + (b.lock source).getD 0 ≤ b.free source
  withdraw : ∀ b who value, cfg.withdrawable b who value = true →
    (b.lock who).getD 0 ≤ b.free who → value + (b.lock who).getD 0 ≤ b.free who

/-- What else happens to free balances respects the locks. -/
def State.RespectsLocks (s : State A W) (op : Op A W) : Prop :=
  ∀ free, op = .balances free → ∀ u, (s.books.balances.lock u).getD 0 ≤ free u

/-- A payment within what is not locked leaves every locked balance there. -/
theorem Balances.pay_free {b : Balances A} {source dest u : A} {value : ℕ}
    (hpay : (b.lock source).getD 0 ≤ b.free source → value + (b.lock source).getD 0 ≤ b.free source)
    (hu : (b.lock u).getD 0 ≤ b.free u) :
    (b.lock u).getD 0 ≤ ((b.setFree source (b.free source - value)).deposit dest value).free u := by
  change _ ≤ if u = dest then (if dest = source then b.free source - value else b.free dest) + value
    else if u = source then b.free source - value else b.free u
  by_cases hs : u = source
  · subst hs
    have hpay := hpay hu
    split
    · next hd => subst hd; rw [if_pos rfl]; omega
    · rw [if_pos rfl]; omega
  · split
    · next hd => subst hd; rw [if_neg hs]; omega
    · exact hu

omit [DecidableEq W] in
/-- The subsidy pool's payments, by what they check. -/
theorem Balances.Subsidized.paid {b b' : Balances A} (h : b.Subsidized cfg b') :
    b' = b ∨ ∃ dest value, (cfg.subsidyPool ≠ dest ∧ cfg.transferable b cfg.subsidyPool dest value = true ∨
      cfg.withdrawable b cfg.subsidyPool value = true) ∧
      b' = (b.setFree cfg.subsidyPool (b.free cfg.subsidyPool - value)).deposit dest value := by
  rcases h with ⟨target, value, h⟩ | ⟨value, h⟩
  · unfold transfer at h
    split at h
    · cases h
      exact .inl rfl
    · next hmoves =>
      split at h
      · next ht =>
        cases h
        exact .inr ⟨target, value, .inl ⟨fun he => hmoves (.inr he), ht⟩, rfl⟩
      · cases h
  · unfold withdraw at h
    split at h
    · next hw =>
      cases h
      exact .inr ⟨cfg.treasury, value, .inr hw, rfl⟩
    · cases h

omit [DecidableEq W] in
theorem Balances.Subsidized.lock {b b' : Balances A} (h : b.Subsidized cfg b') : b'.lock = b.lock := by
  rcases h.paid with rfl | ⟨dest, value, -, rfl⟩
  · rfl
  · rfl

omit [DecidableEq W] in
/-- A payment out of the subsidy pool respects the locks. -/
theorem Balances.Subsidized.free {b b' : Balances A} (h : b.Subsidized cfg b') (hcfg : cfg.RespectsLocks) {u : A}
    (hu : (b.lock u).getD 0 ≤ b.free u) : (b.lock u).getD 0 ≤ b'.free u := by
  rcases h.paid with rfl | ⟨dest, value, hpay, rfl⟩
  · exact hu
  refine pay_free ?_ hu
  rcases hpay with ⟨hne, ht⟩ | hw
  · exact hcfg.transfer _ _ _ _ hne ht
  · exact hcfg.withdraw _ _ _ hw

/-! ## The ledger covers what is locked -/

/-- The records fit in the ledger, the ledger is the lock, and with `room` to
spare it fits in the free balance. -/
structure Books.Covered (room : A → ℕ) (b : Books A W) : Prop where
  filed : ∀ pid u user, b.poolStakers.lookup (pid, u) = some user → user.user = u
  locked : ∀ u, b.lockedSum u ≤ b.ledgerQuery u
  lock : ∀ u, b.balances.lock u = Books.lockOf (b.ledgerQuery u)
  free : ∀ u, b.ledgerQuery u + room u ≤ b.balances.free u

namespace Books

variable {room : A → ℕ} {b b' : Books A W} {pid : ℕ} {u : A} {user old : UserStakeInfo A} {pool : PoolInfo A W}
  {amount dust n : ℕ}

omit [DecidableEq W] in
/-- A record gives up `n` of what it has locked, and the ledger with it; no
more than `n` of the free balance goes. -/
theorem Covered.release (h : b.Covered room) (hu : b.poolStakers.lookup (pid, u) = some old)
    (hs : b'.poolStakers = b.poolStakers)
    (hledger : ∀ v, b'.ledgerQuery v = if v = u then b.ledgerQuery u - n else b.ledgerQuery v)
    (hlock : ∀ v, b'.balances.lock v = if v = u then lockOf (b.ledgerQuery u - n) else b.balances.lock v)
    (hfree : ∀ v, b.balances.free v ≤ b'.balances.free v + if v = u then n else 0)
    (hn : n + user.locked ≤ old.locked) (huser : user.user = old.user) :
    (b'.putStaker pid u user).Covered room := by
  have hle := locked_le_lockedSum hu
  have hsum := lockedSum_put (b := b') user (hs.symm ▸ hu)
  rw [lockedSum_congr hs] at hsum
  refine ⟨fun pid' v user' hv => ?_, fun v => ?_, fun v => ?_, fun v => ?_⟩
  · rw [lookup_putStaker, hs] at hv
    split at hv
    · next hk =>
      cases hk
      cases hv
      rw [huser]
      exact h.filed pid u old hu
    · exact h.filed pid' v user' hv
  · have hv := h.locked v
    rw [ledgerQuery_putStaker, hledger]
    split
    · next he =>
      subst he
      omega
    · next hne =>
      rw [lockedSum_put_other hne, lockedSum_congr hs]
      exact hv
  · rw [ledgerQuery_putStaker, hledger]
    change b'.balances.lock v = _
    rw [hlock]
    split
    · rfl
    · exact h.lock v
  · have hv := h.free v
    have hv' := h.locked v
    have hf := hfree v
    rw [ledgerQuery_putStaker, hledger]
    change _ ≤ b'.balances.free v
    split
    · next he =>
      subst he
      rw [if_pos rfl] at hf
      omega
    · next hne =>
      rw [if_neg hne] at hf
      omega

omit [DecidableEq W] in
/-- A staker's record is stored with the same stake. -/
theorem Covered.restore (h : b.Covered room) (hu : b.poolStakers.lookup (pid, u) = some old)
    (hlocked : user.locked ≤ old.locked) (huser : user.user = old.user) :
    (b.putStaker pid u user).Covered room := by
  refine h.release (n := 0) hu rfl (fun v => ?_) (fun v => ?_) (fun v => ?_) (by omega) huser
  · split
    · next he => rw [he]; rfl
    · rfl
  · split
    · next he => rw [he]; exact h.lock u
    · rfl
  · exact Nat.le_add_right _ _

omit [DecidableEq W] in
theorem Covered.join (h : b.Covered room) (hn : b.poolStakers.lookup (pid, u) = none) :
    (b.putStaker pid u ⟨u, 0, 0, 0, 0⟩).Covered room := by
  refine ⟨fun pid' v user' hv => ?_, fun v => ?_, h.lock, h.free⟩
  · rw [lookup_putStaker] at hv
    split at hv
    · next hk =>
      cases hk
      cases hv
      rfl
    · exact h.filed pid' v user' hv
  · have hv := h.locked v
    by_cases he : v = u
    · subst he
      rw [lockedSum_put_new _ hn]
      exact hv
    · rw [lockedSum_put_other he]
      exact hv

omit [DecidableEq W] in
/-- Settling a slash unlocks what it takes. -/
theorem Covered.settle (h : b.Covered room) (hcfg : cfg.RespectsLocks)
    (hu : b.poolStakers.lookup (pid, u) = some user) :
    ((b.settled cfg pool user).putStaker pid u { user with locked := pool.settledLocked user }).Covered room := by
  have hwho := h.filed pid u user hu
  have hle := locked_le_lockedSum hu
  have hlocked := h.locked u
  have hfree := h.free u
  have hset : pool.settledLocked user ≤ user.locked := PoolInfo.settledLocked_le
  have hshort : pool.shortfall user + pool.settledLocked user = user.locked := by
    unfold PoolInfo.shortfall
    omega
  unfold settled
  split
  · -- the slash takes part of the shortfall, and the ledger follows by that part
    have hact : b.actualSlashed cfg pool user ≤ pool.shortfall user := by
      refine hcfg.slash _ _ _ ?_
      rw [hwho]
      omega
    have hpay : ∀ v, b.balances.free v ≤
        (b.slashed cfg pool user).balances.free v + if v = user.user then b.actualSlashed cfg pool user else 0 :=
      fun v => Balances.slash_free
    refine h.release (n := b.actualSlashed cfg pool user) hu reduced_poolStakers (fun v => ?_) (fun v => ?_)
      (fun v => ?_) ?_ rfl
    · rw [ledgerQuery_reduced, hwho]
      rfl
    · rw [lock_reduced, hwho]
      rfl
    · have := hpay v
      rw [hwho] at this
      exact this
    · dsimp only
      omega
  · have ht : (b.touch .settle pool user).Covered room := ⟨h.filed, h.locked, h.lock, h.free⟩
    exact ht.restore hu hset rfl

omit [DecidableEq W] in
/-- The ledger's reduction costs the account at most the dust. -/
theorem free_reduced (hcfg : cfg.RespectsLocks) (hdust : dust ≤ b.balances.free u) (v : A) :
    b.balances.free v ≤ (b.reduced cfg u amount dust).balances.free v + if v = u then amount + dust else 0 := by
  unfold reduced
  dsimp only
  split
  · let b₁ := (b.setLedger u (b.ledgerQuery u - (amount + dust))).balances
    have hpay : b.balances.free v ≤ (b₁.slash cfg u dust).1.free v +
      if v = u then cfg.slashable b₁ u dust else 0 := Balances.slash_free (b := b₁)
    have hact : cfg.slashable b₁ u dust ≤ dust := hcfg.slash b₁ u dust hdust
    refine hpay.trans ?_
    change (b₁.slash cfg u dust).1.free v + _ ≤ (b₁.slash cfg u dust).1.free v + _
    split <;> omega
  · exact Nat.le_add_right _ _

omit [DecidableEq W] in
/-- A withdrawal unlocks the stake that leaves and the dust, and burns at most the dust. -/
theorem Covered.remove {pool' : PoolInfo A W} {user' : UserStakeInfo A} {shares : ℕ} (h : b.Covered room)
    (hcfg : cfg.RespectsLocks) (hu : b.poolStakers.lookup (pid, u) = some user)
    (hr : pool.Removed user shares pool' user' amount dust) :
    (((b.touch (.remove shares) pool user).reduced cfg user.user amount dust).putStaker pid u user').Covered
      room := by
  have hwho := h.filed pid u user hu
  have hle := locked_le_lockedSum hu
  have hlocked := h.locked u
  have hfree := h.free u
  obtain ⟨price, -, hamount⟩ := hr.amount_eq
  have hamount : amount ≤ user.locked := hamount ▸ PoolInfo.removable_le_locked
  have hsplit := extractDust_add (user.locked - amount)
  have hlock' : user'.locked = (extractDust (user.locked - amount)).1 := by rw [hr.user_eq]; rfl
  have hdust := hr.dust_eq
  have hfree' : dust ≤ (b.touch (.remove shares) pool user).balances.free u := by
    change dust ≤ b.balances.free u
    omega
  rw [hwho]
  exact h.release (n := amount + dust) hu reduced_poolStakers (fun v => ledgerQuery_reduced)
    (fun v => lock_reduced) (free_reduced hcfg hfree') (by omega) hr.user_user

omit [DecidableEq W] in
theorem Covered.move {d d' : Desk A W} (h : d.books.Covered room) (hcfg : cfg.RespectsLocks)
    (hm : Move cfg d d') : d'.books.Covered room := by
  cases hm with
  | join hn => exact h.join hn
  | reward hu hs =>
    obtain ⟨_, _, rfl⟩ := hs
    exact h.restore hu le_rfl rfl
  | settle hu => exact h.settle hcfg hu
  | remove hu hr => exact h.remove hcfg hu hr
  | queue => exact h

omit [DecidableEq W] in
theorem Covered.moves {d d' : Desk A W} (h : d.books.Covered room) (hcfg : cfg.RespectsLocks)
    (hm : Moves cfg d d') : d'.books.Covered room := by
  induction hm with
  | refl => exact h
  | tail _ hm ih => exact ih.move hcfg hm

omit [DecidableEq W] in
/-- A contribution locks what the contributor had to spare. -/
theorem Covered.contributed (hwho : user.user = u)
    (h : (b.putStaker pool.pid u user).Covered fun v => if v = u then amount else 0) :
    (Desk.contributed pool b u user amount).books.Covered fun _ => 0 := by
  have hu : (b.putStaker pool.pid u user).poolStakers.lookup (pool.pid, u) = some user :=
    lookup_putStaker_self _ _ _ _
  have hsum := lockedSum_put (pool.addedStaker user amount) hu
  rw [putStaker_putStaker] at hsum
  have hbooks : (Desk.contributed pool b u user amount).books.poolStakers =
    (b.putStaker pool.pid u (pool.addedStaker user amount)).poolStakers := rfl
  have hlocked : (pool.addedStaker user amount).locked = user.locked + amount := rfl
  have hledger : ∀ v, (Desk.contributed pool b u user amount).books.ledgerQuery v =
      if v = u then b.ledgerQuery u + amount else b.ledgerQuery v := fun v => ledgerQuery_setLedger
  have hq : ∀ v, (b.putStaker pool.pid u user).ledgerQuery v = b.ledgerQuery v := fun v => rfl
  refine ⟨fun pid' v user' hv => ?_, fun v => ?_, fun v => ?_, fun v => ?_⟩
  · rw [hbooks, lookup_putStaker] at hv
    split at hv
    · next hk =>
      cases hk
      cases hv
      exact hwho
    · next hk =>
      refine h.filed pid' v user' ?_
      rw [lookup_putStaker, if_neg hk]
      exact hv
  · have hv := h.locked v
    rw [hq] at hv
    rw [hledger, lockedSum_congr hbooks]
    split
    · next he =>
      subst he
      omega
    · next he =>
      rw [lockedSum_put_other he] at hv ⊢
      exact hv
  · have hv := h.lock v
    rw [hledger]
    change (if v = u then lockOf (b.ledgerQuery u + amount) else b.balances.lock v) = _
    split
    · rfl
    · exact hv
  · have hv := h.free v
    rw [hq] at hv
    rw [hledger]
    change _ ≤ b.balances.free v
    change _ ≤ b.balances.free v at hv
    split
    · next he =>
      subst he
      rw [if_pos rfl] at hv
      omega
    · omega

omit [DecidableEq W] in
theorem Covered.aside (h : b.Covered fun _ => 0) (hcfg : cfg.RespectsLocks) (ha : b.Aside cfg b') :
    b'.Covered fun _ => 0 := by
  cases ha with
  | staker hu hs =>
    obtain ⟨_, _, rfl⟩ := hs
    exact h.restore hu le_rfl rfl
  | @funds balances hb =>
    have hlock := hb.lock
    refine ⟨h.filed, h.locked, fun u => ?_, fun u => ?_⟩
    · change balances.lock u = _
      rw [hlock]
      exact h.lock u
    · have hu := hb.free hcfg (u := u)
      rw [h.lock, getD_lockOf] at hu
      exact hu (h.free u)

end Books

omit [DecidableEq W] in
/-- The contributor's books, with what is about to be locked still to spare. -/
theorem Prepared.covered {who : A} {pool : PoolInfo A W} {amount : ℕ} {books : Books A W}
    {user : UserStakeInfo A} (h : Prepared cfg ⟨pool, s.books⟩ who books user)
    (hc : Contributable cfg s who pool amount) (hcfg : cfg.RespectsLocks) (hb : s.books.Covered fun _ => 0) :
    (Desk.contributed pool books who user amount).books.Covered fun _ => 0 := by
  have hroom : s.books.Covered fun v => if v = who then amount else 0 := by
    refine ⟨hb.filed, hb.locked, hb.lock, fun v => ?_⟩
    have hv := hb.free v
    split
    · next he =>
      subst he
      exact hc.free (by omega)
    · exact hv
  have hmoved : (books.putStaker pool.pid who user).Covered _ := hroom.moves hcfg h.moves
  exact hmoved.contributed (hmoved.filed _ _ _ (Books.lookup_putStaker_self _ _ _ _))

/-- In every reachable state the ledger covers what is locked. -/
theorem ReachWhere.covered {ok : State A W → Op A W → Prop} (hcfg : cfg.RespectsLocks)
    (hok : ∀ s op, ok s op → s.RespectsLocks op) (h : RunWhere cfg ok s) : s.books.Covered fun _ => 0 := by
  refine h.books_invariant (fun b => b.Covered fun _ => 0) ?_ (fun _ _ hm hd => hd.move hcfg hm) ?_
    (fun _ _ ha hb => hb.aside hcfg ha) ?_
  · intro s hs
    obtain ⟨hst, hledger, hlock, -⟩ := hs.books
    have hq : ∀ u, s.books.ledgerQuery u = 0 := by
      intro u
      rw [Books.ledgerQuery, hledger]
      rfl
    refine ⟨fun pid u user hu => ?_, fun u => ?_, fun u => ?_, fun u => ?_⟩
    · rw [hst] at hu
      cases hu
    · rw [Books.lockedSum, Books.stakerSum, hst]
      exact Nat.zero_le _
    · rw [hlock, hq]
      rfl
    · rw [hq]
      exact Nat.zero_le _
  · exact fun s _ _ _ _ _ hc hprep hb => hprep.covered hc hcfg hb
  · intro s free hfree hb
    refine ⟨hb.filed, hb.locked, hb.lock, fun u => ?_⟩
    have hu := hok s _ hfree free rfl u
    rw [hb.lock, Books.getD_lockOf] at hu
    exact hu

/-! ## No double use -/

omit [DecidableEq W] in
/-- A settlement or withdrawal never asks the ledger for more than it has. -/
theorem Stuck.ledger {d : Desk A W} {e : Fault} {room : A → ℕ} (h : Stuck cfg d e) (hcfg : cfg.RespectsLocks)
    (hd : d.books.Covered room) :
    e ≠ .panic (.check .contributeFree) ∧ e ≠ .panic (.check .ledgerReduce) := by
  cases h with
  | plain hc =>
    constructor <;> rintro ⟨rfl⟩ <;> simp [Check.Plain] at hc
  | @settle u user hu _ hlt =>
    have hwho := hd.filed _ _ _ hu
    have hle := Books.locked_le_lockedSum hu
    have hlocked := hd.locked u
    have hfree := hd.free u
    have hshort : d.pool.shortfall user ≤ user.locked := Nat.sub_le _ _
    have hact : d.books.actualSlashed cfg d.pool user ≤ d.pool.shortfall user := by
      refine hcfg.slash _ _ _ ?_
      rw [hwho]
      omega
    rw [hwho] at hlt
    omega
  | total => simp
  | @reduce u user shares pool' user' amount dust hu hr hlt =>
    have hwho := hd.filed _ _ _ hu
    have hle := Books.locked_le_lockedSum hu
    have hlocked := hd.locked u
    obtain ⟨price, -, hamount⟩ := hr.amount_eq
    have hamount : amount ≤ user.locked := hamount ▸ PoolInfo.removable_le_locked
    have hsplit := extractDust_add (user.locked - amount)
    have hdust := hr.dust_eq
    rw [hwho] at hlt
    omega
  | refuse _ _ hp =>
    rcases hp with rfl | rfl <;> simp

omit [DecidableEq W] in
theorem Fails.ledger {d : Desk A W} {e : Fault} {room : A → ℕ} (h : Fails cfg d e) (hcfg : cfg.RespectsLocks)
    (hd : d.books.Covered room) :
    e ≠ .panic (.check .contributeFree) ∧ e ≠ .panic (.check .ledgerReduce) := by
  obtain ⟨d', hm, hs⟩ := h
  exact hs.ledger hcfg (hd.moves hcfg hm)

omit [DecidableEq W] in
/-- Nor does the withdraw queue. -/
theorem queue_ledger {d : Desk A W} {fuel : ℕ} {e : Fault} {room : A → ℕ} (hcfg : cfg.RespectsLocks)
    (hd : d.books.Covered room) (he : d.tryProcessWithdrawQueue cfg fuel = .error e) :
    e ≠ .panic (.check .contributeFree) ∧ e ≠ .panic (.check .ledgerReduce) := by
  rcases Desk.tryProcessWithdrawQueue_moves.error he with rfl | hf
  · exact ⟨nofun, nofun⟩
  · exact hf.ledger hcfg hd

/-- No operation asks the ledger for more than it has, whatever the build checks. -/
theorem Books.Covered.exec_error (hb : s.books.Covered fun _ => 0) (hs : s.Sound cfg) (hcfg : cfg.RespectsLocks)
    {fuel : ℕ} {op : Op A W} {e : Fault} (he : exec cfg fuel s op = .error e) :
    e ≠ .panic (.check .contributeFree) ∧ e ≠ .panic (.check .ledgerReduce) := by
  cases (exec_ends hs).error he with
  | mild he =>
    refine ⟨fun h => he ?_, fun h => he ?_⟩ <;> rw [h] <;> decide
  | @free who pid amount hlt => exact absurd hlt (Nat.not_lt.mpr (hb.free who))
  | prepare hpool hfail => exact hfail.ledger hcfg hb
  | contribute hpool hc hprep _ hq => exact queue_ledger hcfg (hprep.covered hc hcfg hb) hq
  | withdraw hpool hu _ hfail => exact hfail.ledger hcfg hb
  | slash => exact ⟨nofun, nofun⟩
  | release => exact ⟨nofun, nofun⟩
  | @reclaim pid w pool info returned slashed e hpool _ hq =>
    have hd : (⟨pool.givenBack returned slashed, s.books⟩ : Desk A W).books.Covered fun _ => 0 := hb
    exact queue_ledger hcfg hd hq

/-- **No double use of locked funds.** In every reachable state what an account
has locked in all pools is within its ledger entry, the entry is its currency
lock, and the lock is within its free balance; so no operation ever subtracts
more from either than there is. -/
theorem locked_le_ledger_le_free (hcfg : cfg.RespectsLocks)
    (h : RunWhere cfg (fun s op => s.RespectsLocks op) s) :
    (∀ u, s.books.lockedSum u ≤ s.books.ledgerQuery u ∧
      s.books.balances.lock u = (if s.books.ledgerQuery u = 0 then none else some (s.books.ledgerQuery u)) ∧
      s.books.ledgerQuery u ≤ s.books.balances.free u) ∧
    ∀ checks fuel op e, exec (cfg.withChecks checks) fuel s op = .error e →
      e ≠ .panic (.check .contributeFree) ∧ e ≠ .panic (.check .ledgerReduce) := by
  have hb := ReachWhere.covered hcfg (fun _ _ h => h) h
  refine ⟨fun u => ⟨hb.locked u, hb.lock u, hb.free u⟩, fun checks fuel op e he => ?_⟩
  have hcfg' : (cfg.withChecks checks).RespectsLocks := ⟨hcfg.slash, hcfg.transfer, hcfg.withdraw⟩
  exact hb.exec_error (h.sound.withChecks checks) hcfg' he

theorem Demo.respectsLocks (checks : Check → Bool) : (Demo.cfg checks).RespectsLocks where
  slash _ _ _ _ := min_le_left _ _
  transfer _ _ _ _ _ h _ := by have := of_decide_eq_true h; omega
  withdraw _ _ _ h _ := by have := of_decide_eq_true h; omega

/-- An account that stakes in two pools, twice in the first. -/
theorem locked_le_ledger_le_free_demo : ∃ s, RunWhere Demo.release (fun s op => s.RespectsLocks op) s ∧
    s.books.ledgerQuery (.user 1) = 3000000000021 ∧
    s.books.lockedSum (.user 1) ≤ s.books.ledgerQuery (.user 1) ∧
    s.books.ledgerQuery (.user 1) ≤ s.books.balances.free (.user 1) := by
  have hrun := ranTo_iff.mp (by decide +kernel :
    ranTo (run Demo.release 9 Demo.genesis (Demo.setup ++ [.create (.user 0),
      .contribute (.user 1) 0 1000000000007, .contribute (.user 1) 1 1000000000007,
      .contribute (.user 1) 0 1000000000007]))
      (fun s => s.books.ledgerQuery (.user 1) = 3000000000021) = true)
  obtain ⟨s, hrun, hs⟩ := hrun
  have h : RunWhere Demo.release (fun s op => s.RespectsLocks op) s := by
    refine run_reachable (.init Demo.genesis_spec) (fun s op hop free he => ?_) hrun
    subst he
    simp [Demo.setup] at hop
  obtain ⟨hle, -, hfree⟩ := (locked_le_ledger_le_free (Demo.respectsLocks _) h).1 (.user 1)
  exact ⟨s, h, hs, hle, hfree⟩

end Khala
