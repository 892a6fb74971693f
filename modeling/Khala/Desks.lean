/-
The rule for what a pool and its stakers' records keep.

Whatever operation is carried out, a pool is created, its desk makes a move,
stake is added at it or a slash lowers its total; or it stays as it is, and so
do its stakers' records, while the books go on.
-/
import Khala.Sound

namespace Khala

open Relation

variable {A W : Type} [DecidableEq A] {cfg : Config A W} {s s' : State A W} {P : Permit}

/-! ## The history goes on -/

theorem Move.history {d d' : Desk A W} (h : Move cfg d d') : d.books.history <:+ d'.books.history := by
  cases h with
  | settle hu =>
    change _ <:+ (d.books.settled cfg d.pool _).history
    rw [Books.history_settled]
    exact List.suffix_cons _ _
  | @remove u user shares _ _ _ _ hu hr =>
    change _ <:+ ((d.books.touch (.remove shares) d.pool user).reduced cfg _ _ _).history
    rw [Books.history_reduced]
    exact List.suffix_cons _ _
  | _ => exact List.suffix_rfl

theorem Moves.history {d d' : Desk A W} (h : Moves cfg d d') : d.books.history <:+ d'.books.history := by
  induction h with
  | refl => exact List.suffix_rfl
  | tail _ hm ih => exact ih.trans hm.history

theorem Prepared.history {d : Desk A W} {who : A} {books : Books A W} {user : UserStakeInfo A} {amount : ℕ}
    (h : Prepared cfg d who books user) :
    d.books.history <:+ (Desk.contributed d.pool books who user amount).books.history :=
  h.moves.history.trans (List.suffix_cons _ _)

/-! ## The rule -/

namespace Desk

/-- The pool counts the same, and its stakers' records are the same; the history may have gone on. -/
structure Alike (d d' : Desk A W) : Prop where
  pid : d'.pool.pid = d.pool.pid
  totalShares : d'.pool.totalShares = d.pool.totalShares
  totalStake : d'.pool.totalStake = d.pool.totalStake
  stakers : ∀ u, d'.books.poolStakers.lookup (d.pool.pid, u) = d.books.poolStakers.lookup (d.pool.pid, u)
  history : d.books.history <:+ d'.books.history

/-- Kept by everything that happens to a pool and its stakers. -/
structure Invariant (cfg : Config A W) (I : Desk A W → Prop) : Prop where
  new : ∀ d, d.pool.totalShares = 0 → d.pool.totalStake = 0 →
    (∀ u, d.books.poolStakers.lookup (d.pool.pid, u) = none) → I d
  alike : ∀ {d d'}, I d → d.Alike d' → I d'
  move : ∀ d d', Move cfg d d' → I d → I d'
  contribute : ∀ d who books user amount, Prepared cfg d who books user → I d →
    I (contributed d.pool books who user amount)
  slash : ∀ d returned slashed, I d → I ⟨d.pool.givenBack returned slashed, d.books⟩

theorem Invariant.moves {I : Desk A W → Prop} (hI : Invariant cfg I) {d d' : Desk A W} (h : Moves cfg d d')
    (hd : I d) : I d' := by
  induction h with
  | refl => exact hd
  | tail _ hm ih => exact hI.move _ _ hm ih

end Desk

variable [DecidableEq W]

namespace State

variable {I : Desk A W → Prop} {pid : ℕ} {pool pool' : PoolInfo A W}

/-- Every pool with the books is such a desk. -/
def Desks (I : Desk A W → Prop) (s : State A W) : Prop :=
  ∀ pid pool, s.stakePools.lookup pid = some pool → I ⟨pool, s.books⟩

omit [DecidableEq W] in
theorem Desks.of_eq (hI : Desk.Invariant cfg I) (h : s.Desks I) (hp : s'.stakePools = s.stakePools)
    (hb : s'.books.poolStakers = s.books.poolStakers) (hh : s'.books.history = s.books.history) : s'.Desks I := by
  intro pid pool hpool
  refine hI.alike (h pid pool (hp ▸ hpool)) ⟨rfl, rfl, rfl, fun u => ?_, ?_⟩
  · rw [hb]
  · exact hh ▸ List.suffix_rfl

omit [DecidableEq W] in
/-- A desk goes back to where it came from. -/
theorem Desks.putDesk {d : Desk A W} (hI : Desk.Invariant cfg I) (h : s.Desks I) (hf : s.WellFiled) (hd : I d)
    (hother : ∀ k, k.1 ≠ pid → d.books.poolStakers.lookup k = s.books.poolStakers.lookup k)
    (hh : s.books.history <:+ d.books.history) : (s.putDesk pid d).Desks I := by
  intro pid' p hp
  rw [lookup_putDesk] at hp
  split at hp
  · cases hp
    exact hd
  · next hne =>
    obtain ⟨he, -⟩ := hf.pool pid' p hp
    exact hI.alike (h pid' p hp) ⟨rfl, rfl, rfl, fun u => hother _ (by rw [he]; exact hne), hh⟩

omit [DecidableEq W] in
theorem Desks.putPool (hI : Desk.Invariant cfg I) (h : s.Desks I) (hpool : s.stakePools.lookup pid = some pool)
    (hpid : pool'.pid = pool.pid) (hshares : pool'.totalShares = pool.totalShares)
    (hstake : pool'.totalStake = pool.totalStake) : (s.putPool pid pool').Desks I := by
  intro pid' p hp
  rw [lookup_putPool] at hp
  split at hp
  · cases hp
    exact hI.alike (h pid pool hpool) ⟨hpid, hshares, hstake, fun _ => rfl, List.suffix_rfl⟩
  · exact h pid' p hp

omit [DecidableEq W] in
/-- A staker's rewards are stored. -/
theorem Desks.putStaker {u : A} {user user' : UserStakeInfo A} (hI : Desk.Invariant cfg I) (h : s.Desks I)
    (hf : s.WellFiled) (hu : s.books.poolStakers.lookup (pid, u) = some user)
    (hs : PoolInfo.SameStake user user') :
    (s.putStaker pid u user').Desks I := by
  intro pid' p hp
  obtain ⟨he, -⟩ := hf.pool pid' p hp
  by_cases hpid : pid' = pid
  · subst hpid
    have hmove : Move cfg ⟨p, s.books⟩ ⟨p, s.books.putStaker p.pid u user'⟩ := .reward (he.symm ▸ hu) hs
    rw [he] at hmove
    exact hI.move _ _ hmove (h pid' p hp)
  · refine hI.alike (h pid' p hp) ⟨rfl, rfl, rfl, fun v => ?_, List.suffix_rfl⟩
    refine (Books.lookup_putStaker _ _ _ _ _).trans (if_neg fun hk => hpid ?_)
    exact he.symm.trans (congrArg Prod.fst hk)

theorem Desks.aside (hI : Desk.Invariant cfg I) (h : s.Desks I) (hf : s.WellFiled) (ha : Aside cfg P s s') :
    s'.Desks I := by
  cases ha with
  | other hs => exact h.of_eq hI hs.stakePools (congrArg _ hs.books) (congrArg _ hs.books)
  | pool hpool hs => exact h.putPool hI hpool hs.pid hs.totalShares hs.totalStake
  | staker hu hs => exact h.putStaker hI hf hu hs
  | @bind m w pid pool info _ hpool =>
    have h₁ : (s.putPool pid { pool with workers := pool.workers ++ [w] }).Desks I :=
      h.putPool hI hpool rfl rfl rfl
    exact h₁.of_eq hI rfl rfl rfl
  | @release m w pid pool _ _ hpool =>
    have h₁ : (s.putPool pid (pool.removeWorker w)).Desks I := h.putPool hI hpool rfl rfl rfl
    exact h₁.of_eq hI rfl rfl rfl
  | @stop m w info onlineMiners pid pool returned slashed _ _ _ _ _ _ hpool =>
    have h₁ : (s.putPool pid { pool with
      releasingStake := pool.releasingStake + (s.stakeOf m - slashed) }).Desks I := h.putPool hI hpool rfl rfl rfl
    exact h₁.of_eq hI rfl rfl rfl
  | _ => exact h.of_eq hI rfl rfl rfl

theorem Desks.asides (hI : Desk.Invariant cfg I) (h : s.Desks I) (hf : s.WellFiled) (ha : Asides cfg P s s') :
    s'.Desks I := by
  induction ha with
  | refl => exact h
  | tail hrest ha ih => exact ih.aside hI (hf.asides hrest) ha

omit [DecidableEq W] in
/-- A new pool has no shares and no stake, and nobody stakes in it yet. -/
theorem Desks.create (hI : Desk.Invariant cfg I) (h : s.Desks I) (hf : s.WellFiled) (owner : A) :
    (s.create owner).Desks I := by
  intro pid pool hp
  rw [show (s.create owner).stakePools = (s.putPool s.poolCount _).stakePools from rfl, lookup_putPool] at hp
  split at hp
  · next he =>
    cases hp
    refine hI.new _ rfl rfl fun u => ?_
    by_contra hn
    obtain ⟨user, hu⟩ := Option.ne_none_iff_exists'.mp hn
    exact absurd (hf.staker _ u user hu).2 (lt_irrefl _)
  · exact h pid pool hp

/-- Whatever the operation did, every desk keeps an invariant. -/
theorem Desks.did {op : Op A W} (hI : Desk.Invariant cfg I) (h : s.Desks I) (hf : s.WellFiled)
    (hd : Did cfg s op s') : s'.Desks I := by
  cases hd with
  | create => exact h.create hI hf _
  | contribute hpool _ hprep hq =>
    obtain ⟨rfl, -⟩ := hf.pool _ _ hpool
    have hm := Desk.tryProcessWithdrawQueue_moves.ok hq
    have hdesk := hI.moves hm (hI.contribute _ _ _ _ _ hprep (h _ _ hpool))
    exact h.putDesk hI hf hdesk (fun k hk => hprep.lookup_other hm hk) (hprep.history.trans hm.history)
  | @withdraw who pid shares pool user d user' hpool hu _ _ hw =>
    obtain ⟨rfl, -⟩ := hf.pool _ _ hpool
    have hm := hw.moves (u := who) hu
    have hs := s.scheduled_sameStore pool shares
    generalize s.scheduled pool shares = s₁ at hs ⊢
    have h₁ : s₁.Desks I := h.of_eq hI hs.stakePools (congrArg _ hs.books) (congrArg _ hs.books)
    have hf₁ : s₁.WellFiled := hf.of_eq hs.stakePools (congrArg _ hs.books) hs.poolCount
    refine h₁.putDesk hI hf₁ (hI.moves hm (h _ _ hpool)) (fun k hk => ?_) ?_
    · exact (hm.lookup_other hk).trans (by rw [hs.books])
    · rw [hs.books]
      exact hm.history
  | reconcile hpool _ _ => exact h.putPool hI hpool rfl rfl rfl
  | @start owner pid w stake pool s₁ hpool _ _ hs =>
    obtain ⟨mining, rfl⟩ := hs.mining_only
    have h₁ : (s.putPool pid { pool with freeStake := pool.freeStake - stake }).Desks I :=
      h.putPool hI hpool rfl rfl rfl
    exact h₁.of_eq hI rfl rfl rfl
  | forceStart hs =>
    obtain ⟨mining, rfl⟩ := hs.mining_only
    exact h.of_eq hI rfl rfl rfl
  | @reclaim pid w pool info returned slashed fuel d hpool _ hq =>
    obtain ⟨rfl, -⟩ := hf.pool _ _ hpool
    have hm := Desk.tryProcessWithdrawQueue_moves.ok hq
    have h₁ : (s.reclaimedMiner (cfg.poolSubAccount pool.pid w) info slashed).Desks I := h.of_eq hI rfl rfl rfl
    have hdesk := hI.moves hm (hI.slash _ returned slashed (h _ _ hpool))
    exact h₁.putDesk hI (hf.of_eq rfl rfl rfl) hdesk (fun k hk => hm.lookup_other hk) hm.history
  | balances => exact h.of_eq hI rfl rfl rfl
  | time => exact h.of_eq hI rfl rfl rfl
  | finalize ha _ => exact h.asides hI hf ha
  | aside ha => exact h.asides hI hf ha

omit [DecidableEq A] [DecidableEq W] in
theorem Desks.genesis (h : Genesis s) : s.Desks I := by
  intro pid pool hpool
  rw [h.pools.1] at hpool
  cases hpool

end State

/-- An invariant of a desk holds of every pool in every reachable state. -/
theorem ReachWhere.desk_invariant {ok : State A W → Op A W → Prop} {I : Desk A W → Prop}
    (hI : Desk.Invariant cfg I) (h : RunWhere cfg ok s) : s.Desks I :=
  h.did_invariant _ (fun _ hs => .genesis hs) fun _ _ _ hs hd _ hdid => hd.did hI hs.filed hdid

end Khala
