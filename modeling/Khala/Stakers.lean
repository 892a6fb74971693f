/-
The stakers' records: which of them an operation writes, that each is stored
under the key it names in every reachable state, and sums over them.
-/
import Khala.Cases

namespace Khala

open Outcome Relation

variable {A W : Type} [DecidableEq A] {cfg : Config A W} {s s' : State A W} {P : Permit}

/-! ## What the ledger leaves alone -/

namespace Books

variable {b : Books A W} {pool : PoolInfo A W} {user : UserStakeInfo A} {who : A} {amount dust : ℕ}

@[simp] theorem setLedger_poolStakers : (b.setLedger who amount).poolStakers = b.poolStakers := rfl

@[simp] theorem ledgerAccrue_poolStakers : (b.ledgerAccrue who amount).poolStakers = b.poolStakers := rfl

omit [DecidableEq A] in
@[simp] theorem touch_poolStakers {kind : TouchKind} : (b.touch kind pool user).poolStakers = b.poolStakers := rfl

@[simp] theorem reduced_poolStakers : (b.reduced cfg who amount dust).poolStakers = b.poolStakers := by
  unfold reduced; split <;> rfl

@[simp] theorem settled_poolStakers : (b.settled cfg pool user).poolStakers = b.poolStakers := by
  unfold settled; split
  · exact reduced_poolStakers
  · rfl

/-! ## Sums over stakers -/

/-- The sum of `f` over the stakers whose key satisfies `p`. -/
def stakerSum (p : ℕ × A → Prop) [DecidablePred p] (f : UserStakeInfo A → ℕ) (b : Books A W) : ℕ :=
  StorageMap.total (fun k user => if p k then f user else 0) b.poolStakers

variable {p : ℕ × A → Prop} [DecidablePred p] {f : UserStakeInfo A → ℕ} {pid : ℕ} {u : A}

omit [DecidableEq A] in
theorem stakerSum_congr {b b' : Books A W} (h : b'.poolStakers = b.poolStakers) :
    stakerSum p f b' = stakerSum p f b := by
  rw [stakerSum, stakerSum, h]

/-- A sum depends on the records it counts only. -/
theorem stakerSum_of_lookup {b b' : Books A W}
    (h : ∀ k, p k → b'.poolStakers.lookup k = b.poolStakers.lookup k) : stakerSum p f b' = stakerSum p f b := by
  refine StorageMap.total_eq_of_count fun k => ?_
  unfold StorageMap.count
  by_cases hk : p k
  · rw [h k hk]
  · cases b'.poolStakers.lookup k <;> cases b.poolStakers.lookup k <;>
      simp only [Option.elim_none, Option.elim_some, if_neg hk]

theorem stakerSum_put_new (user : UserStakeInfo A) (hn : b.poolStakers.lookup (pid, u) = none) :
    stakerSum p f (b.putStaker pid u user) = stakerSum p f b + if p (pid, u) then f user else 0 := by
  have h := StorageMap.total_insert (fun k user => if p k then f user else 0) b.poolStakers (pid, u) user
  rw [StorageMap.count_of_none hn] at h
  exact h

theorem stakerSum_put {old : UserStakeInfo A} (user : UserStakeInfo A)
    (hu : b.poolStakers.lookup (pid, u) = some old) :
    stakerSum p f (b.putStaker pid u user) + (if p (pid, u) then f old else 0) =
      stakerSum p f b + if p (pid, u) then f user else 0 := by
  have h := StorageMap.total_insert (fun k user => if p k then f user else 0) b.poolStakers (pid, u) user
  rw [StorageMap.count_of_lookup hu] at h
  exact h

/-- A record that counts the same changes no sum. -/
theorem stakerSum_put_same {old : UserStakeInfo A} (hu : b.poolStakers.lookup (pid, u) = some old)
    (hf : f user = f old) : stakerSum p f (b.putStaker pid u user) = stakerSum p f b := by
  have h := stakerSum_put (p := p) (f := f) user hu
  rw [hf] at h
  omega

theorem stakerSum_put_other (hp : ¬p (pid, u)) : stakerSum p f (b.putStaker pid u user) = stakerSum p f b := by
  have h := StorageMap.total_insert (fun k user => if p k then f user else 0) b.poolStakers (pid, u) user
  have hc : StorageMap.count (fun k user => if p k then f user else 0) b.poolStakers (pid, u) = 0 := by
    unfold StorageMap.count
    cases b.poolStakers.lookup (pid, u) with
    | none => rfl
    | some _ => exact if_neg hp
  rw [hc, if_neg hp] at h
  exact h

theorem stakerSum_add (f g : UserStakeInfo A → ℕ) (b : Books A W) :
    stakerSum p (fun user => f user + g user) b = stakerSum p f b + stakerSum p g b := by
  refine (StorageMap.total_congr fun k user _ => ?_).trans (StorageMap.total_add _ _ _)
  split <;> rfl

omit [DecidableEq A] in
theorem stakerSum_mul (c : ℕ) (f : UserStakeInfo A → ℕ) (b : Books A W) :
    stakerSum p (fun user => c * f user) b = c * stakerSum p f b := by
  unfold stakerSum StorageMap.total
  rw [← List.sum_map_mul_left]
  refine congrArg List.sum (List.map_congr_left fun e _ => ?_)
  by_cases he : p e.1
  · simp [he]
  · simp [he]

/-- What holds of the records that are counted holds of the sums. -/
theorem stakerSum_le {g : UserStakeInfo A → ℕ}
    (h : ∀ k user, b.poolStakers.lookup k = some user → p k → f user ≤ g user) :
    stakerSum p f b ≤ stakerSum p g b := by
  unfold stakerSum
  refine StorageMap.total_mono fun k user hk => ?_
  by_cases hp : p k
  · rw [if_pos hp, if_pos hp]
    exact h k user hk hp
  · rw [if_neg hp, if_neg hp]

theorem le_stakerSum (hu : b.poolStakers.lookup (pid, u) = some user) (hp : p (pid, u)) :
    f user ≤ stakerSum p f b := by
  have h := StorageMap.le_total (f := fun k user => if p k then f user else 0)
    (fun _ _ _ => Nat.zero_le _) hu
  rw [if_pos hp] at h
  exact h

end Books

/-! ## Which records a move writes -/

/-- The staker's record that a move writes keeps the account that it names. -/
theorem Move.stakers {d d' : Desk A W} (h : Move cfg d d') :
    d'.books.poolStakers = d.books.poolStakers ∨
      ∃ u user', d'.books.poolStakers = d.books.poolStakers.insert (d.pool.pid, u) user' ∧
        (user'.user = u ∨ ∃ user, d.books.poolStakers.lookup (d.pool.pid, u) = some user ∧
          user'.user = user.user) := by
  cases h with
  | @join u hn => exact .inr ⟨u, _, rfl, .inl rfl⟩
  | @reward u user user' hu hs =>
    obtain ⟨_, _, rfl⟩ := hs
    exact .inr ⟨u, _, rfl, .inr ⟨user, hu, rfl⟩⟩
  | @settle u user hu =>
    refine .inr ⟨u, { user with locked := d.pool.settledLocked user }, ?_, .inr ⟨user, hu, rfl⟩⟩
    simp only [Books.putStaker, Books.settled_poolStakers]
  | @remove u user shares pool' user' amount dust hu hr =>
    refine .inr ⟨u, user', ?_, .inr ⟨user, hu, hr.user_user⟩⟩
    simp only [Books.putStaker, Books.reduced_poolStakers, Books.touch_poolStakers]
  | queue => exact .inl rfl

/-- The stakers of other pools are untouched. -/
theorem Move.lookup_other {d d' : Desk A W} (h : Move cfg d d') {k : ℕ × A} (hk : k.1 ≠ d.pool.pid) :
    d'.books.poolStakers.lookup k = d.books.poolStakers.lookup k := by
  rcases h.stakers with he | ⟨u, user', he, _⟩
  · rw [he]
  · rw [he, StorageMap.lookup_insert_ite, if_neg fun he => hk (congrArg Prod.fst he)]

theorem Moves.lookup_other {d d' : Desk A W} (h : Moves cfg d d') {k : ℕ × A} (hk : k.1 ≠ d.pool.pid) :
    d'.books.poolStakers.lookup k = d.books.poolStakers.lookup k := by
  induction h with
  | refl => rfl
  | tail hm h ih => rw [h.lookup_other (Moves.pid_eq hm ▸ hk), ih]

/-! ## Every record is filed -/

theorem Moves.staker_user {d d' : Desk A W} (h : Moves cfg d d')
    (hd : ∀ u user, d.books.poolStakers.lookup (d.pool.pid, u) = some user → user.user = u) :
    ∀ u user, d'.books.poolStakers.lookup (d.pool.pid, u) = some user → user.user = u := by
  induction h with
  | refl => exact hd
  | @tail d₁ d₂ hm h ih =>
    intro u user hu
    rcases h.stakers with he | ⟨u', user', he, hwho⟩
    · exact ih u user (he ▸ hu)
    · rw [he, StorageMap.lookup_insert_ite, Moves.pid_eq hm] at hu
      split at hu
      · next hk =>
        cases hu
        cases hk
        rcases hwho with hwho | ⟨old, hold, hwho⟩
        · exact hwho
        · rw [hwho]
          exact ih u old (Moves.pid_eq hm ▸ hold)
      · exact ih u user hu

/-- A contribution leaves the stakers of other pools untouched. -/
theorem Prepared.lookup_other {pool : PoolInfo A W} {books₀ books : Books A W} {who : A} {amount : ℕ}
    {user : UserStakeInfo A} {d : Desk A W} (hprep : Prepared cfg ⟨pool, books₀⟩ who books user)
    (hm : Moves cfg (Desk.contributed pool books who user amount) d) {k : ℕ × A} (hk : k.1 ≠ pool.pid) :
    d.books.poolStakers.lookup k = books₀.poolStakers.lookup k := by
  have hne : k ≠ (pool.pid, who) := fun he => hk (congrArg Prod.fst he)
  have h₁ := hprep.moves.lookup_other hk
  have h₂ := hm.lookup_other (k := k) hk
  simp only [Desk.contributed, Books.ledgerAccrue_poolStakers, Books.lookup_putStaker, if_neg hne] at h₁ h₂
  exact h₂.trans h₁

variable [DecidableEq W]

namespace State

omit [DecidableEq W] in
theorem WellFiled.putPool {pid : ℕ} {pool pool' : PoolInfo A W} (h : s.WellFiled)
    (hpool : s.stakePools.lookup pid = some pool) (hpid : pool'.pid = pool.pid) :
    (s.putPool pid pool').WellFiled := by
  refine ⟨fun pid' p hp => ?_, h.staker⟩
  rw [lookup_putPool] at hp
  split at hp
  · next he =>
    cases hp
    rw [he, hpid]
    exact h.pool pid pool hpool
  · exact h.pool pid' p hp

omit [DecidableEq W] in
theorem WellFiled.of_eq (h : s.WellFiled) (hp : s'.stakePools = s.stakePools)
    (hb : s'.books.poolStakers = s.books.poolStakers) (hc : s'.poolCount = s.poolCount) : s'.WellFiled :=
  ⟨fun pid pool hpool => hc ▸ h.pool pid pool (hp ▸ hpool),
    fun pid u user hu => hc ▸ h.staker pid u user (hb ▸ hu)⟩

omit [DecidableEq W] in
theorem WellFiled.putDesk {pid : ℕ} {pool pool₁ : PoolInfo A W} {d : Desk A W} (h : s.WellFiled)
    (hpool : s.stakePools.lookup pid = some pool) (hpid : pool₁.pid = pool.pid) {b : Books A W}
    (hb : b.poolStakers = s.books.poolStakers) (hm : Moves cfg ⟨pool₁, b⟩ d) : (s.putDesk pid d).WellFiled := by
  obtain ⟨he, hlt⟩ := h.pool pid pool hpool
  have hpid₁ : pool₁.pid = pid := hpid.trans he
  refine ⟨fun pid' p hp => ?_, fun pid' u user hu => ?_⟩
  · rw [lookup_putDesk] at hp
    split at hp
    · next he' =>
      cases hp
      rw [he', hm.pid_eq]
      exact ⟨hpid₁, hlt⟩
    · exact h.pool pid' p hp
  · by_cases hk : pid' = pid
    · subst hk
      refine ⟨?_, hlt⟩
      have hd := hm.staker_user (fun u user hu => (h.staker pid' u user (by rw [← hb, ← hpid₁]; exact hu)).1)
      exact hd u user (by rw [hpid₁]; exact hu)
    · have hl := hm.lookup_other (k := (pid', u)) (fun he => hk (he.trans hpid₁))
      rw [show (s.putDesk pid d).books = d.books from rfl, hl, hb] at hu
      exact h.staker pid' u user hu

omit [DecidableEq W] in
theorem WellFiled.putStaker {pid : ℕ} {u : A} {old user : UserStakeInfo A} (h : s.WellFiled)
    (hu : s.books.poolStakers.lookup (pid, u) = some old) (hwho : user.user = old.user) :
    (s.putStaker pid u user).WellFiled := by
  refine ⟨h.pool, fun pid' u' user' hu' => ?_⟩
  rw [show (s.putStaker pid u user).books = s.books.putStaker pid u user from rfl, Books.lookup_putStaker] at hu'
  split at hu'
  · next hk =>
    cases hu'
    cases hk
    rw [hwho]
    exact h.staker pid u old hu
  · exact h.staker pid' u' user' hu'

theorem WellFiled.aside (h : s.WellFiled) (ha : Aside cfg P s s') : s'.WellFiled := by
  cases ha with
  | other hs => exact h.of_eq hs.stakePools (congrArg _ hs.books) hs.poolCount
  | pool hpool hs => exact h.putPool hpool hs.pid
  | staker hu hs =>
    obtain ⟨_, _, rfl⟩ := hs
    exact h.putStaker hu rfl
  | @bind m w pid pool info _ hpool =>
    have h₁ : (s.putPool pid { pool with workers := pool.workers ++ [w] }).WellFiled := h.putPool hpool rfl
    exact h₁.of_eq rfl rfl rfl
  | @release m w pid pool _ _ hpool =>
    have h₁ : (s.putPool pid (pool.removeWorker w)).WellFiled := h.putPool hpool rfl
    exact h₁.of_eq rfl rfl rfl
  | @stop m w info onlineMiners pid pool returned slashed _ _ _ _ _ _ hpool =>
    have h₁ : (s.putPool pid { pool with
      releasingStake := pool.releasingStake + (s.stakeOf m - slashed) }).WellFiled := h.putPool hpool rfl
    exact h₁.of_eq rfl rfl rfl
  | _ => exact h.of_eq rfl rfl rfl

theorem WellFiled.asides (h : s.WellFiled) (ha : Asides cfg P s s') : s'.WellFiled := by
  induction ha with
  | refl => exact h
  | tail _ ha ih => exact ih.aside ha

omit [DecidableEq W] in
theorem WellFiled.contribute {pid amount : ℕ} {who : A} {pool : PoolInfo A W} {books : Books A W}
    {user : UserStakeInfo A} {d : Desk A W} (h : s.WellFiled) (hpool : s.stakePools.lookup pid = some pool)
    (hprep : Prepared cfg ⟨pool, s.books⟩ who books user)
    (hm : Moves cfg (Desk.contributed pool books who user amount) d) : (s.putDesk pid d).WellFiled := by
  obtain ⟨rfl, -⟩ := h.pool pid pool hpool
  -- the record as prepared, then as added to
  have h₁ : (s.putDesk pool.pid ⟨pool, books.putStaker pool.pid who user⟩).WellFiled :=
    h.putDesk hpool rfl rfl hprep.moves
  let s₂ := (s.putDesk pool.pid ⟨pool, books.putStaker pool.pid who user⟩).putStaker pool.pid who
    (pool.addedStaker user amount)
  have h₂ : s₂.WellFiled := h₁.putStaker (Books.lookup_putStaker_self _ _ _ _) rfl
  have hm' : Moves cfg ⟨pool.added amount, (Desk.contributed pool books who user amount).books⟩ d := hm
  have hb : (Desk.contributed pool books who user amount).books.poolStakers = s₂.books.poolStakers := by
    rw [show s₂.books = (books.putStaker pool.pid who user).putStaker pool.pid who
      (pool.addedStaker user amount) from rfl, Books.putStaker_putStaker]
    rfl
  have hpool' : s₂.stakePools.lookup pool.pid = some pool := AList.lookup_insert _
  have hpid : (pool.added amount).pid = pool.pid := rfl
  have h₃ : (s₂.putDesk pool.pid d).WellFiled := h₂.putDesk hpool' hpid hb hm'
  refine h₃.of_eq ?_ rfl rfl
  exact (AList.insert_insert _).symm

omit [DecidableEq W] in
theorem WellFiled.create (h : s.WellFiled) (owner : A) : (s.create owner).WellFiled := by
  refine ⟨fun pid pool hp => ?_, fun pid u user hu => ?_⟩
  · rw [show (s.create owner).stakePools = (s.putPool s.poolCount _).stakePools from rfl, lookup_putPool] at hp
    split at hp
    · next he =>
      cases hp
      exact ⟨he.symm, he ▸ Nat.lt_succ_self _⟩
    · exact ⟨(h.pool pid pool hp).1, Nat.lt_succ_of_lt (h.pool pid pool hp).2⟩
  · exact ⟨(h.staker pid u user hu).1, Nat.lt_succ_of_lt (h.staker pid u user hu).2⟩

theorem WellFiled.did {op : Op A W} (h : s.WellFiled) (hd : Did cfg s op s') : s'.WellFiled := by
  cases hd with
  | create => exact h.create _
  | contribute hpool _ hprep hq =>
    exact h.contribute hpool hprep (Desk.tryProcessWithdrawQueue_moves.ok hq)
  | @withdraw who pid shares pool user d user' hpool hu _ _ hw =>
    obtain ⟨rfl, -⟩ := h.pool pid pool hpool
    have hs := s.scheduled_sameStore pool shares
    generalize s.scheduled pool shares = s₁ at hs ⊢
    have ht : s₁.WellFiled := h.of_eq hs.stakePools (congrArg _ hs.books) hs.poolCount
    have hm := hw.moves (u := who) hu
    exact ht.putDesk (b := s.books) (hs.stakePools ▸ hpool) rfl (congrArg _ hs.books).symm hm
  | reconcile hpool _ _ => exact h.putPool hpool rfl
  | @start owner pid w stake pool s₁ hpool _ _ hs =>
    obtain ⟨mining, rfl⟩ := hs.mining_only
    have h₁ : (s.putPool pid { pool with freeStake := pool.freeStake - stake }).WellFiled := h.putPool hpool rfl
    exact h₁.of_eq rfl rfl rfl
  | forceStart hs =>
    obtain ⟨mining, rfl⟩ := hs.mining_only
    exact h.of_eq rfl rfl rfl
  | @reclaim pid w pool info returned slashed fuel d hpool _ hq =>
    have h₁ : (s.reclaimedMiner (cfg.poolSubAccount pid w) info slashed).WellFiled := h.of_eq rfl rfl rfl
    have hm : Moves cfg ⟨pool.givenBack returned slashed, s.books⟩ d := Desk.tryProcessWithdrawQueue_moves.ok hq
    have hpid : (pool.givenBack returned slashed).pid = pool.pid := rfl
    exact h₁.putDesk hpool hpid rfl hm
  | balances => exact h.of_eq rfl rfl rfl
  | time => exact h.of_eq rfl rfl rfl
  | finalize ha _ => exact h.asides ha
  | aside ha => exact h.asides ha

omit [DecidableEq W] in
theorem Genesis.wellFiled (h : Genesis s) : s.WellFiled := by
  refine ⟨fun pid pool hp => ?_, fun pid u user hu => ?_⟩
  · rw [h.pools.1] at hp
    cases hp
  · rw [h.books.1] at hu
    cases hu

end State

end Khala
