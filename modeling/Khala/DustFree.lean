/-
Dust-free books, as long as every contribution buys more than dust.

`extract_dust` keeps dust out of a staker's record, of a request and of the
pool's stake wherever one of them shrinks; the pool's shares are the sum of
its stakers'. Only `add_stake` leaves a number as it comes: it asserts that
the amount is no dust, and the shares that it mints are the amount divided by
the price.

What the methods of a pool assert is about dust too. That a staker's locked
stake is worth its shares holds while no more than dust was left behind in the
pool's stake, whose price it is compared with.
-/
import Khala.Backing
import Khala.Panics
import Khala.StakeAccounts

namespace Khala

open Outcome Relation

variable {A W : Type} [DecidableEq A] {cfg : Config A W} {s s' : State A W}

/-- Nothing, or more than dust. -/
def NotDust (n : ℕ) : Prop := n = 0 ∨ 1000 < n

theorem NotDust.extracted (n : ℕ) : NotDust (extractDust n).1 := by
  have := extractDust_fst_cases n
  unfold NotDust
  omega

theorem NotDust.snd_eq_zero {n : ℕ} (h : NotDust n) : (extractDust n).2 = 0 := by
  rcases h with rfl | h
  · rfl
  · rw [extractDust_of_lt h]

/-! ## At the desk -/

/-- Neither the pool's stake nor the shares and the locked stake of its stakers are dust. -/
structure Desk.DustFree (d : Desk A W) : Prop where
  stake : NotDust d.pool.totalStake
  stakers : ∀ u user, d.books.poolStakers.lookup (d.pool.pid, u) = some user →
    NotDust user.shares ∧ NotDust user.locked

namespace Desk

variable {d : Desk A W} {u : A} {user' : UserStakeInfo A}

/-- A sum of shares is nothing, or more than dust. -/
theorem DustFree.totalShares (h : d.DustFree) (ha : d.SharesAgree) : NotDust d.pool.totalShares := by
  rw [ha]
  by_cases hall : ∀ k user, d.books.poolStakers.lookup k = some user →
    (if k.1 = d.pool.pid then user.shares else 0) = 0
  · exact .inl (StorageMap.total_eq_zero hall)
  · simp only [not_forall] at hall
    obtain ⟨⟨pid, u⟩, user, hu, hne⟩ := hall
    split at hne
    · next he =>
      cases he
      have hle : user.shares ≤ d.books.heldShares d.pool.pid :=
        Books.le_stakerSum (f := fun user => user.shares) hu rfl
      rcases (h.stakers u user hu).1 with hzero | hlt
      · exact absurd hzero hne
      · exact .inr (hlt.trans_le hle)
    · exact absurd rfl hne

/-- One staker's record is stored. -/
theorem DustFree.put {b : Books A W} (h : d.DustFree) (hb : b.poolStakers = d.books.poolStakers)
    (hn : NotDust user'.shares ∧ NotDust user'.locked) :
    ∀ u' user, (b.putStaker d.pool.pid u user').poolStakers.lookup (d.pool.pid, u') = some user →
      NotDust user.shares ∧ NotDust user.locked := by
  intro u' user hu
  rw [Books.lookup_putStaker, hb] at hu
  split at hu
  · cases hu
    exact hn
  · exact h.stakers u' user hu

end Desk

omit [DecidableEq A] in
theorem PoolInfo.Removed.notDust {pool pool' : PoolInfo A W} {user user' : UserStakeInfo A}
    {shares amount dust : ℕ} (h : pool.Removed user shares pool' user' amount dust) :
    NotDust pool'.totalStake ∧ NotDust user'.shares ∧ NotDust user'.locked := by
  obtain ⟨rest, -, hp⟩ := h.pool_eq
  have hrest := extractDust_fst_cases rest
  rw [hp, h.user_eq]
  refine ⟨?_, .extracted _, .extracted _⟩
  dsimp only
  unfold NotDust
  split
  · omega
  · exact .inl rfl

omit [DecidableEq A] in
/-- A settlement leaves no dust, as there was none. -/
theorem PoolInfo.notDust_settledLocked {pool : PoolInfo A W} {user : UserStakeInfo A} (h : NotDust user.locked) :
    NotDust (pool.settledLocked user) := by
  unfold settledLocked
  split
  · exact h
  · exact .extracted _

theorem Move.dustFree {d d' : Desk A W} (h : Move cfg d d') (hd : d.DustFree) : d'.DustFree := by
  cases h with
  | join hn => exact ⟨hd.stake, hd.put rfl ⟨.inl rfl, .inl rfl⟩⟩
  | reward hu hs =>
    have hn := hd.stakers _ _ hu
    obtain ⟨_, _, rfl⟩ := hs
    exact ⟨hd.stake, hd.put rfl hn⟩
  | settle hu =>
    have hn := hd.stakers _ _ hu
    exact ⟨hd.stake, hd.put Books.settled_poolStakers ⟨hn.1, PoolInfo.notDust_settledLocked hn.2⟩⟩
  | remove hu hr =>
    obtain ⟨hstake, hstaker⟩ := hr.notDust
    refine ⟨hstake, ?_⟩
    rw [hr.unchanged.1]
    exact hd.put (by rw [Books.reduced_poolStakers, Books.touch_poolStakers]) hstaker
  | queue => exact ⟨hd.stake, hd.stakers⟩

theorem Moves.dustFree {d d' : Desk A W} (h : Moves cfg d d') (hd : d.DustFree) : d'.DustFree := by
  induction h with
  | refl => exact hd
  | tail _ hm ih => exact hm.dustFree ih

/-- A contribution of more than dust that buys more than dust. -/
theorem Prepared.dustFree {d : Desk A W} {who : A} {books : Books A W} {user : UserStakeInfo A} {amount : ℕ}
    (h : Prepared cfg d who books user) (hd : d.DustFree) (hamount : 1000 < amount)
    (hshares : 1000 < d.pool.sharesFor amount) : (Desk.contributed d.pool books who user amount).DustFree := by
  have hbooks : books.poolStakers = d.books.poolStakers := by
    cases h with
    | join => rfl
    | settle => exact Books.settled_poolStakers
  have hstaker : NotDust (d.pool.addedStaker user amount).shares ∧
      NotDust (d.pool.addedStaker user amount).locked :=
    ⟨.inr (Nat.lt_add_left _ hshares), .inr (Nat.lt_add_left _ hamount)⟩
  exact ⟨.inr (Nat.lt_add_left _ hamount), hd.put hbooks hstaker⟩

omit [DecidableEq A] in
/-- A slash drops what is left as dust. -/
theorem PoolInfo.givenBack_notDust {pool : PoolInfo A W} {returned slashed : ℕ} (h : NotDust pool.totalStake) :
    NotDust (pool.givenBack returned slashed).totalStake := by
  by_cases hzero : slashed = 0
  · rw [hzero, givenBack_totalStake_zero]
    exact h
  · rw [givenBack_totalStake hzero]
    exact .extracted _

/-- At the pool's price the amount buys more than dust. -/
def PoolInfo.Affordable (pool : PoolInfo A W) (amount : ℕ) : Prop :=
  ∀ price ∈ pool.sharePrice, price ≠ 0 → 1000 < bdiv amount price

omit [DecidableEq A] in
theorem PoolInfo.Affordable.buys {pool : PoolInfo A W} {amount : ℕ} (h : pool.Affordable amount)
    (hamount : 1000 < amount) : 1000 < pool.sharesFor amount := by
  unfold PoolInfo.sharesFor
  split
  · next price hprice =>
    split
    · next hne => exact h price hprice hne
    · exact hamount
  · exact hamount

/-! ## In the state -/

variable [DecidableEq W]

/-- Small changes bring no new staker. -/
theorem Asides.staker_before {P : Permit} (h : Asides cfg P s s') {k : ℕ × A} {user' : UserStakeInfo A}
    (hu : s'.books.poolStakers.lookup k = some user') :
    ∃ user, s.books.poolStakers.lookup k = some user ∧ PoolInfo.SameStake user user' := by
  induction h generalizing user' with
  | refl => exact ⟨user', hu, .refl user'⟩
  | tail _ h ih =>
    cases h with
    | other hs => exact ih (hs.books ▸ hu)
    | @staker pid old new u hold hs =>
      replace hu := (Books.lookup_putStaker _ _ _ _ _).symm.trans hu
      split at hu
      · next he =>
        cases hu
        obtain ⟨user, hl, hsame⟩ := ih (he ▸ hold)
        exact ⟨user, hl, hsame.trans hs⟩
      · exact ih hu
    | _ => exact ih hu

namespace State

def DustFree (s : State A W) : Prop :=
  ∀ pid pool, s.stakePools.lookup pid = some pool → Desk.DustFree ⟨pool, s.books⟩

/-- A contribution buys more than dust shares. -/
def BuysShares (s : State A W) : Op A W → Prop
  | .contribute _ pid amount => ∀ pool ∈ s.stakePools.lookup pid, pool.Affordable amount
  | _ => True

instance (s : State A W) (op : Op A W) : Decidable (s.BuysShares op) :=
  match op with
  | .contribute .. => inferInstanceAs (Decidable (∀ pool ∈ _, ∀ price ∈ _, _ → _))
  | .create .. | .addWorker .. | .removeWorker .. | .setCap .. | .setPayoutPref ..
    | .setMiningEnable .. | .claimRewards ..
  | .withdraw .. | .reconcileWithdrawQueue .. | .startMining .. | .stopMining ..
    | .reclaimPoolWorker .. | .onFinalize
  | .unbind .. | .forceStartMining .. | .forceStopMining .. | .heartbeat .. | .gkMessage ..
    | .setCoolDownExpiration ..
  | .updateTokenomic .. | .finalizeMining | .forceRegisterWorker .. | .registerWorker ..
    | .benchReport .. | .time ..
  | .balances .. => .isTrue trivial

namespace DustFree

omit [DecidableEq W] in
theorem of_pools (h : s.DustFree) (hp : ∀ pid pool', s'.stakePools.lookup pid = some pool' →
      ∃ pool, s.stakePools.lookup pid = some pool ∧ pool.SameAmounts pool')
    (hu : ∀ k user', s'.books.poolStakers.lookup k = some user' →
      ∃ user, s.books.poolStakers.lookup k = some user ∧ PoolInfo.SameStake user user') : s'.DustFree := by
  intro pid pool' hpool'
  obtain ⟨pool, hpool, hs⟩ := hp pid pool' hpool'
  have hd := h pid pool hpool
  refine ⟨?_, fun u user' hu' => ?_⟩
  · change NotDust pool'.totalStake
    rw [hs.totalStake]
    exact hd.stake
  · obtain ⟨user, hl, hsame⟩ := hu _ user' hu'
    have hn := hd.stakers u user (hs.pid ▸ hl)
    obtain ⟨_, _, rfl⟩ := hsame
    exact hn

omit [DecidableEq W] in
theorem of_eq (h : s.DustFree) (hp : s'.stakePools = s.stakePools)
    (hb : s'.books.poolStakers = s.books.poolStakers) :
    s'.DustFree :=
  h.of_pools (fun _ pool' hpool' => ⟨pool', hp ▸ hpool', .refl pool'⟩) fun _ user hu => ⟨user, hb ▸ hu, .refl user⟩

omit [DecidableEq W] in
/-- A desk goes back to where it came from. -/
theorem putDesk {pid : ℕ} {d : Desk A W} (h : s.DustFree) (hf : s.WellFiled) (hd : d.DustFree)
    (hother : ∀ k, k.1 ≠ pid → d.books.poolStakers.lookup k = s.books.poolStakers.lookup k) :
    (s.putDesk pid d).DustFree := by
  intro pid' pool hpool
  rw [lookup_putDesk] at hpool
  split at hpool
  · cases hpool
    exact hd
  · next hne =>
    have hold := h pid' pool hpool
    refine ⟨hold.stake, fun u user hu => hold.stakers u user ?_⟩
    rw [← hother _ ((hf.pool _ _ hpool).1 ▸ hne)]
    exact hu

omit [DecidableEq W] in
theorem create {owner : A} (h : s.DustFree) (hf : s.WellFiled) : (s.create owner).DustFree := by
  intro pid pool hp
  rw [show (s.create owner).stakePools = (s.putPool s.poolCount _).stakePools from rfl, lookup_putPool] at hp
  split at hp
  · cases hp
    exact ⟨.inl rfl, fun u user hu => absurd (hf.staker _ u user hu).2 (lt_irrefl _)⟩
  · exact h pid pool hp

theorem did {op : Op A W} (h : s.DustFree) (hf : s.WellFiled) (hmin : 1000 < cfg.minContribution)
    (hok : s.BuysShares op) (hd : Did cfg s op s') : s'.DustFree := by
  cases hd with
  | create => exact h.create hf
  | @contribute who pid amount pool books user fuel d hpool hc hprep hq =>
    obtain ⟨rfl, -⟩ := hf.pool _ _ hpool
    have hm := Desk.tryProcessWithdrawQueue_moves.ok hq
    have hamount : 1000 < amount := hmin.trans_le hc.min
    have hadded := hprep.dustFree (h _ _ hpool) hamount ((hok pool hpool).buys hamount)
    exact h.putDesk hf (hm.dustFree hadded) fun k hk => hprep.lookup_other hm hk
  | @withdraw who pid shares pool user d user' hpool hu _ _ hw =>
    obtain ⟨rfl, -⟩ := hf.pool _ _ hpool
    have hm := hw.moves (u := who) hu
    have hstore := s.scheduled_sameStore pool shares
    generalize s.scheduled pool shares = s₁ at hstore ⊢
    have h₁ : s₁.DustFree := h.of_eq hstore.stakePools (congrArg _ hstore.books)
    have hf₁ : s₁.WellFiled := hf.of_eq hstore.stakePools (congrArg _ hstore.books) hstore.poolCount
    exact h₁.putDesk hf₁ (hm.dustFree (h _ _ hpool)) fun k hk => (hm.lookup_other hk).trans (by rw [hstore.books])
  | @reconcile pid account pool user idx hpool _ _ =>
    obtain ⟨rfl, -⟩ := hf.pool _ _ hpool
    have hdesk := h _ _ hpool
    have hcut : Desk.DustFree (Desk.setQueue ⟨pool, s.books⟩ (reconciledQueue (extractDust user.shares).1 idx
      pool.withdrawQueue)) := ⟨hdesk.stake, hdesk.stakers⟩
    exact h.putDesk hf hcut fun _ _ => rfl
  | @start owner pid w stake pool s₁ hpool _ _ hst =>
    obtain ⟨hpools, hbooks, hcount⟩ := hst.unchanged
    have hdesk := h _ _ hpool
    have hfewer : Desk.DustFree ⟨{ pool with freeStake := pool.freeStake - stake }, s₁.books⟩ :=
      ⟨hdesk.stake, by rw [hbooks]; exact hdesk.stakers⟩
    have h₁ : s₁.DustFree := h.of_eq hpools (by rw [hbooks])
    exact h₁.putDesk (hf.of_eq hpools (by rw [hbooks]) hcount) hfewer fun _ _ => rfl
  | forceStart hst =>
    obtain ⟨hpools, hbooks, _⟩ := hst.unchanged
    exact h.of_eq hpools (by rw [hbooks])
  | @reclaim pid w pool info returned slashed fuel d hpool _ hq =>
    obtain ⟨rfl, -⟩ := hf.pool _ _ hpool
    have hdesk := h _ _ hpool
    have hm := Desk.tryProcessWithdrawQueue_moves.ok hq
    have h₁ : (s.reclaimedMiner (cfg.poolSubAccount pool.pid w) info slashed).DustFree := h.of_eq rfl rfl
    have hback : Desk.DustFree ⟨pool.givenBack returned slashed, s.books⟩ :=
      ⟨PoolInfo.givenBack_notDust hdesk.stake, hdesk.stakers⟩
    exact h₁.putDesk (hf.of_eq rfl rfl rfl) (hm.dustFree hback) fun k hk => hm.lookup_other hk
  | balances => exact h.of_eq rfl rfl
  | time => exact h.of_eq rfl rfl
  | finalize ha _ => exact h.of_pools (fun _ _ hp => ha.pool_of_lookup hp) fun _ _ hu => ha.staker_before hu
  | aside ha => exact h.of_pools (fun _ _ hp => ha.pool_of_lookup hp) fun _ _ hu => ha.staker_before hu

omit [DecidableEq W] in
theorem genesis (h : Genesis s) : s.DustFree := by
  intro pid pool hp
  rw [h.pools.1] at hp
  cases hp

end DustFree

end State

/-! ## What was left behind -/

/-- The assertions of `add_stake`, `remove_stake` and `slash`. -/
def dustFaults : List Fault :=
  [.panic (.check .addNondust), .panic (.check .removeNondust), .panic (.check .slashClean),
    .panic (.check .rewardClean), .panic (.check .totalSharesDust), .panic (.check .slashShares),
    .panic (.check .slashStake)]

/-- The debug assertions of the withdraw queue are compiled in where those of `remove_stake` are. -/
def Config.AssertsAlike (cfg : Config A W) : Prop :=
  cfg.checks .removeNondust = true → cfg.checks .withdrawingShares = true

namespace Desk

variable {cfg : Config A W} {d d' : Desk A W} {u : A} {user user₁ : UserStakeInfo A} {shares : ℕ}
  {price : FixedPoint} {w : WithdrawInfo A} {missing : Panic} {e : Fault}

/-- Less than dust was left behind in the pool, and its amounts are in range. -/
structure LittleLeft (d : Desk A W) : Prop where
  left : leftovers d.pool.pid d.books.history ≤ 999
  fit : SharesFit d.pool.pid d.books.history
  range : d.pool.InRange

instance (d : Desk A W) : Decidable d.LittleLeft :=
  decidable_of_iff (leftovers d.pool.pid d.books.history ≤ 999 ∧
    (∀ t ∈ d.books.history, t.pool.pid = d.pool.pid → t.pool.totalShares < 2 ^ 64) ∧
    d.pool.totalStake < 18446744 * 10 ^ 12 ∧ d.pool.totalShares < 18446744 * 10 ^ 12 ∧
    d.pool.totalStake ≤ (toFixed d.pool.totalShares).bits)
    ⟨fun ⟨hleft, hfit, hstake, hshares, hprice⟩ => ⟨hleft, hfit, ⟨hstake, hshares, hprice⟩⟩,
      fun h => ⟨h.left, h.fit, h.range.stake, h.range.shares, h.range.price⟩⟩

namespace LittleLeft

omit [DecidableEq W] in
/-- A staker's shares are worth no more than dust over what it has locked. -/
theorem worth_le (h : d.LittleLeft) (ha : d.Accounted)
    (hu : d.books.poolStakers.lookup (d.pool.pid, u) = some user) :
    d.pool.worth user.shares ≤ user.locked + 1000 := by
  have hle : user.shares ≤ d.pool.totalShares := by
    rw [ha.1]
    exact Books.le_stakerSum (f := fun user => user.shares) hu rfl
  rcases Nat.eq_zero_or_pos d.pool.totalShares with h0 | hpos
  · rw [show user.shares = 0 by omega, PoolInfo.worth_zero]
    exact Nat.zero_le _
  have hstaker := ((ha.2 h.fit).mono h.left).staker hu
  have hworth : (d.pool.worth user.shares * d.pool.totalShares : ℚ) ≤
      user.shares * d.pool.totalStake + d.pool.totalShares := by
    exact_mod_cast (h.range.worth_le hle).2
  have : (d.pool.worth user.shares : ℚ) ≤ user.locked + 1000 := by
    refine le_of_mul_le_mul_right ?_ (by exact_mod_cast hpos : (0 : ℚ) < d.pool.totalShares)
    linarith
  exact_mod_cast this

omit [DecidableEq W] in
/-- So what is locked once the slash is settled is worth the shares. -/
theorem slashClean (h : d.LittleLeft) (ha : d.Accounted) (hd : d.DustFree)
    (hu : d.books.poolStakers.lookup (d.pool.pid, u) = some user) (hs : PoolInfo.SameStake user user₁) :
    d.pool.SlashClean { user₁ with locked := d.pool.settledLocked user₁ } := by
  obtain ⟨_, _, rfl⟩ := hs
  rcases Nat.eq_zero_or_pos d.pool.totalShares with h0 | hpos
  · exact .inl h0
  obtain ⟨price, hprice⟩ := PoolInfo.exists_price h.range.stake h.range.shares_lt hpos
  have hworth := h.worth_le ha hu
  have hlocked := (hd.stakers u user hu).2
  rw [PoolInfo.worth_eq hprice] at hworth
  refine .inr ⟨price, hprice, balancesNearlyEqual_iff.mpr ?_⟩
  rw [PoolInfo.settledLocked_eq hprice]
  have := extractDust_fst_cases (min (bmul user.shares price) user.locked)
  unfold NotDust at hlocked
  dsimp only
  omega

omit [DecidableEq W] in
/-- A newcomer has nothing locked, and no shares. -/
theorem slashClean_prepared {who : A} {books : Books A W} (h : d.LittleLeft) (ha : d.Accounted) (hd : d.DustFree)
    (hprep : Prepared cfg d who books user) : d.pool.SlashClean user := by
  cases hprep with
  | join =>
    rcases Nat.eq_zero_or_pos d.pool.totalShares with h0 | hpos
    · exact .inl h0
    · obtain ⟨price, hprice⟩ := PoolInfo.exists_price h.range.stake h.range.shares_lt hpos
      refine .inr ⟨price, hprice, ?_⟩
      rw [bmul_zero]
      rfl
  | settle hu hs => exact h.slashClean ha hd hu hs

end LittleLeft

omit [DecidableEq W] in
/-- What is left of the pool's shares is no dust, if the staker's dust is dropped with them. -/
theorem DustFree.left (h : d.DustFree) (ha : d.SharesAgree)
    (hu : d.books.poolStakers.lookup (d.pool.pid, u) = some user) (hle : shares ≤ user.shares)
    (htotal : shares + (extractDust (user.shares - shares)).2 ≤ d.pool.totalShares) :
    (extractDust (d.pool.totalShares - (shares + (extractDust (user.shares - shares)).2))).2 = 0 := by
  -- the desk with the rest of the staker's shares stored
  let user' : UserStakeInfo A := { user with shares := (extractDust (user.shares - shares)).1 }
  let totalShares := d.pool.totalShares - (shares + (extractDust (user.shares - shares)).2)
  let d' : Desk A W := ⟨{ d.pool with totalShares }, d.books.putStaker d.pool.pid u user'⟩
  have hd : d'.DustFree := ⟨h.stake, h.put rfl ⟨.extracted _, (h.stakers u user hu).2⟩⟩
  have hagree : d'.SharesAgree := by
    have hsum := Books.heldShares_put user' hu
    have hadd := extractDust_add (user.shares - shares)
    have hshares : user'.shares = (extractDust (user.shares - shares)).1 := rfl
    have hbefore : d.pool.totalShares = d.books.heldShares d.pool.pid := ha
    change d.pool.totalShares - _ = (d.books.putStaker d.pool.pid u user').heldShares d.pool.pid
    omega
  exact (hd.totalShares hagree).snd_eq_zero

omit [DecidableEq W] in
theorem Trips.not_dust (h : d.Trips cfg user₁ shares missing e) (hl : d.LittleLeft)
    (ha : d.Accounted) (hd : d.DustFree)
    (hu : d.books.poolStakers.lookup (d.pool.pid, u) = some user) (hs : PoolInfo.SameStake user user₁)
    (hshares : cfg.checks .removeNondust = true → 1000 < shares) (hm : Fault.panic missing ∉ dustFaults) :
    e ∉ dustFaults := by
  have hsame : user₁.shares = user.shares := by obtain ⟨_, _, rfl⟩ := hs; rfl
  cases h with
  | ledger => decide
  | nondust hc hle => exact absurd (hshares hc) (not_lt.mpr hle)
  | clean _ hclean => exact absurd (hl.slashClean ha hd hu hs) hclean
  | dust _ hle htotal hne =>
    rw [hsame] at hle htotal hne
    exact absurd (hd.left ha.1 hu hle htotal) hne
  | total => decide
  | missing => exact hm

omit [DecidableEq W] in
/-- A pass of the loop pays out more than dust, or an assertion of the loop itself fails first. -/
theorem PassTrips.not_dust (h : PassTrips cfg price d w user e) (hl : d.LittleLeft)
    (ha : d.Accounted) (hd : d.DustFree)
    (hc : cfg.AssertsAlike) (hu : d.books.poolStakers.lookup (d.pool.pid, u) = some user) : e ∉ dustFaults := by
  cases h with
  | pending => decide
  | withdrawing => decide
  | pay hs hshares ht => exact ht.not_dust hl ha hd hu hs (fun hr => hshares (hc hr)) (by decide)

omit [DecidableEq W] in
theorem Pass.moves (h : Pass cfg price d d') : Moves cfg d d' := by
  cases h with
  | skip => exact .single .queue
  | serve _ _ hu hd => exact ((fulfill_ends hu).ok hd).moves hu

end Desk

/-! ## The assertions -/

namespace State

variable {op : Op A W} {d : Desk A W} {e : Fault} {fuel pid amount shares : ℕ} {who : A} {w : W}

/-- Less than dust was left behind in the pool wherever the operation comes to it. -/
def LittleLeft (cfg : Config A W) (s : State A W) (op : Op A W) : Prop := ∀ d, s.Finds cfg op d → d.LittleLeft

omit [DecidableEq W] in
theorem contribute_refused (h : amount < cfg.minContribution) :
    s.contribute cfg fuel who pid amount = .error (.dispatch .insufficientContribution) := by
  unfold contribute
  rw [require_error.mpr ⟨not_le.mpr h, rfl⟩]
  rfl

/-- A contribution that panics is one of more than dust. -/
theorem more_of_panic {p : Panic} (hmin : 1000 < cfg.minContribution)
    (h : exec cfg fuel s op = .error (.panic p)) :
    ∀ who pid amount, op = .contribute who pid amount → 1000 < amount := by
  rintro who pid amount rfl
  rcases Nat.lt_or_ge amount cfg.minContribution with hlt | hle
  · cases (contribute_refused hlt).symm.trans h
  · exact hmin.trans_le hle

/-- What the operation comes to is free of dust, and accounted for. -/
theorem Finds.kept (h : s.Finds cfg op d) (hf : s.WellFiled) (hd : s.DustFree) (ha : s.Desks Desk.Accounted)
    (hbuys : s.BuysShares op) (hamount : ∀ who pid amount, op = .contribute who pid amount → 1000 < amount) :
    d.DustFree ∧ d.Accounted := by
  refine h.induction (I := fun d => d.DustFree ∧ d.Accounted) (fun pid pool hpool => ⟨hd _ _ hpool, ha _ _ hpool⟩)
    (fun d he => ?_) fun price d d' hd hp => ⟨hp.moves.dustFree hd.1, hd.2.moves hp.moves⟩
  cases he with
  | @contribute who pid amount pool books user hpool hcon =>
    obtain ⟨rfl, -⟩ := hf.pool _ _ hpool
    have hprep : Prepared cfg ⟨pool, s.books⟩ who books user := contributor_ends.ok hcon
    have hmore : 1000 < amount := hamount _ _ _ rfl
    exact ⟨hprep.dustFree (hd _ _ hpool) hmore ((hbuys pool hpool).buys hmore), (ha _ _ hpool).contribute hprep⟩
  | @reclaim pid w pool info returned slashed hpool hr =>
    have hold := hd _ _ hpool
    have hinv : Desk.Invariant cfg Desk.Accounted := Desk.accounted_invariant
    have hslash := hinv.slash _ returned slashed (ha _ _ hpool)
    exact ⟨⟨PoolInfo.givenBack_notDust hold.stake, hold.stakers⟩, hslash⟩

/-- A slash takes no more than the pool's stake. -/
def SlashFits (cfg : Config A W) (s : State A W) (op : Op A W) : Prop :=
  ∀ pid w, op = .reclaimPoolWorker pid w → ∀ pool info returned slashed, s.stakePools.lookup pid = some pool →
    Reclaimable cfg s (cfg.poolSubAccount pid w) info returned slashed → slashed ≤ pool.totalStake

omit [DecidableEq W] in
theorem StakeAccounted.slashFits (h : s.StakeAccounted cfg) (hinj : cfg.SubAccountsDiffer) :
    s.SlashFits cfg op := by
  rintro pid w rfl pool info returned slashed hpool hr
  have hstakes : (s.reclaimedMiner (cfg.poolSubAccount pid w) info slashed).mining.stakes =
      s.mining.stakes.erase (cfg.poolSubAccount pid w) := rfl
  exact (h.reclaimed hinj hpool hr hstakes).1

/-- They are all panics. -/
theorem panic_of_dust (h : e ∈ dustFaults) : ∃ p, e = .panic p := by
  simp only [dustFaults, List.mem_cons, List.not_mem_nil, or_false] at h
  rcases h with rfl | rfl | rfl | rfl | rfl | rfl | rfl <;> exact ⟨_, rfl⟩

omit [DecidableEq W] in
theorem Trips.not_dust (h : s.Trips cfg op e) (hf : s.WellFiled) (hmin : 1000 < cfg.minContribution)
    (hc : cfg.AssertsAlike) (hl : s.LittleLeft cfg op) (hk : ∀ d, s.Finds cfg op d → d.DustFree ∧ d.Accounted)
    (hslash : s.SlashFits cfg op) : e ∉ dustFaults := by
  cases h with
  | calm hcalm =>
    intro he
    obtain ⟨p, rfl⟩ := panic_of_dust he
    exact hcalm p rfl
  | addNondust _ hle hdust => omega
  | addClean hpool hprep _ hclean =>
    obtain ⟨hd, ha⟩ := hk _ (.contribute hpool)
    exact absurd ((hl _ (.contribute hpool)).slashClean_prepared ha hd hprep) hclean
  | pay hpool hu _ hs hnow ht =>
    obtain ⟨rfl, -⟩ := hf.pool _ _ hpool
    obtain ⟨hd, ha⟩ := hk _ (.withdraw hpool)
    exact ht.not_dust (hl _ (.withdraw hpool)) ha hd hu hs (fun _ => hnow) (by decide)
  | @slashShares pid w pool info returned slashed hpool hr hne _ hle =>
    obtain ⟨hd, ha⟩ := hk _ (.reclaim hpool)
    have hlittle := hl _ (.reclaim hpool)
    have hfits := hslash _ _ rfl _ _ _ _ hpool hr
    -- a pool without shares has no stake
    have hnone : pool.totalShares = 0 := (hd.totalShares ha.1).resolve_right (not_lt.mpr hle)
    have hleft : (pool.totalStake : ℚ) ≤ 999 := ((ha.2 hlittle.fit).empty hnone).trans hlittle.left
    have hstake : pool.totalStake ≤ 999 := by exact_mod_cast hleft
    have hzero : pool.totalStake = 0 := hd.stake.resolve_right (by change ¬1000 < pool.totalStake; omega)
    omega
  | slashStake hpool hr _ hlt => exact absurd (hslash _ _ rfl _ _ _ _ hpool hr) (not_le.mpr hlt)
  | pass he hprice hp _ _ hu ht =>
    have hfinds := Finds.pass he hprice hp
    obtain ⟨hd, ha⟩ := hk _ hfinds
    exact ht.not_dust (hl _ hfinds) ha hd hc hu
  | _ => decide

end State

theorem ReachWhere.dustFree (hmin : 1000 < cfg.minContribution)
    (h : RunWhere cfg State.BuysShares s) : s.DustFree :=
  h.did_invariant _ (fun _ => State.DustFree.genesis) fun _ _ _ hs hi hok hd => hi.did hs.filed hmin hok hd

/-- **Dust-free books.** In every run whose contributions buy more than dust, no
number that the records promise to be free of dust is dust, no user has two
requests and no request comes before an older one; a contribution mints more
than dust. The assertions of `add_stake`, `remove_stake` and `slash` hold while
less than dust was left behind in the pool's stake. -/
theorem dust_free (hmin : 1000 < cfg.minContribution) (h : RunWhere cfg State.BuysShares s) :
    (∀ pid pool, s.stakePools.lookup pid = some pool →
      NotDust pool.totalShares ∧ NotDust pool.totalStake ∧
      (∀ u user, s.books.poolStakers.lookup (pid, u) = some user → NotDust user.shares) ∧
      (∀ w ∈ pool.withdrawQueue, 1000 < w.shares) ∧ (pool.withdrawQueue.map WithdrawInfo.user).Nodup ∧
      (pool.withdrawQueue.Pairwise fun request later => request.startTime ≤ later.startTime) ∧
      ∀ amount, cfg.minContribution ≤ amount → pool.Affordable amount → 1000 < pool.sharesFor amount) ∧
    ∀ checks fuel pid, (cfg.withChecks checks).AssertsAlike → ∀ e ∈ dustFaults,
      (∀ who amount, s.BuysShares (.contribute who pid amount) →
        s.LittleLeft (cfg.withChecks checks) (.contribute who pid amount) →
        s.contribute (cfg.withChecks checks) fuel who pid amount ≠ .error e) ∧
      (∀ who shares, s.LittleLeft (cfg.withChecks checks) (.withdraw who pid shares) →
        s.withdraw (cfg.withChecks checks) who pid shares ≠ .error e) ∧
      (cfg.SubAccountsDiffer → RunWhere cfg (fun s op => op.StartsAbove ∧ s.NoneLeft op) s →
        ∀ w, s.LittleLeft (cfg.withChecks checks) (.reclaimPoolWorker pid w) →
        s.reclaimPoolWorker (cfg.withChecks checks) fuel pid w ≠ .error e) := by
  have hf := h.wellFiled
  have hacc : s.Desks Desk.Accounted := h.desk_invariant Desk.accounted_invariant
  have hd := h.dustFree hmin
  refine ⟨fun pid pool hpool => ?_, fun checks fuel pid hc e he =>
    ⟨fun who amount hok hl hr => ?_, fun who shares hl hr => ?_,
    fun hinj hrun w hl hr => ?_⟩⟩
  · have hqueue := h.queuesInOrder _ _ hpool
    obtain ⟨rfl, -⟩ := hf.pool _ _ hpool
    have hdesk := hd _ _ hpool
    exact ⟨hdesk.totalShares (hacc _ _ hpool).1, hdesk.stake, fun u user hu =>
      (hdesk.stakers u user hu).1, hqueue.nondust,
      hqueue.requesters, List.pairwise_map.mp hqueue.ordered, fun amount hle hbuys =>
        hbuys.buys (hmin.trans_le hle)⟩
  · obtain ⟨p, rfl⟩ := State.panic_of_dust he
    refine (State.contribute_trips hf).error hr |>.not_dust hf hmin hc hl (fun d hfinds => ?_) nofun he
    have hmin' : 1000 < (cfg.withChecks checks).minContribution := hmin
    exact hfinds.kept hf hd hacc hok (State.more_of_panic hmin' hr)
  · refine (State.withdraw_trips hf).error hr |>.not_dust hf hmin hc hl (fun d hfinds => ?_) nofun he
    exact hfinds.kept hf hd hacc trivial nofun
  · have hstake := (hrun.stakeAccounted hinj).withChecks checks
    refine State.reclaimPoolWorker_trips.error hr |>.not_dust hf hmin hc hl (fun d hfinds => ?_)
      (hstake.slashFits hinj) he
    exact hfinds.kept hf hd hacc trivial nofun

namespace Demo

/-- The first staker keeps little more than dust; another one comes and leaves dust
shares behind, time and again, each of which doubles the price. -/
def pumped : List (Op Account ℕ) :=
  [.create (.user 0), .contribute (.user 1) 0 10000000000, .withdraw (.user 1) 0 9999998999] ++
  [999001995011, 499750373425, 249999998989, 125046844716, 62550770727, 31290049325, 15652608028, 7830160374,
    3917025346, 1959489806, 980233707, 490361250, 245302636, 122712104, 61386214, 30707945, 15361145, 7683911,
    3843375, 1922148, 961054, 480267, 239753, 119436].flatMap fun shares =>
    [.contribute (.user 2) 0 1000000000000, .withdraw (.user 2) 0 shares]

end Demo

/-- A request is made, replaced and partly paid; with every assertion compiled in, no further withdrawal
trips one. -/
theorem dust_free_demo : ∃ s pool, RunWhere Demo.release State.BuysShares s ∧ s.stakePools.lookup 0 = some pool ∧
    pool.withdrawQueue = [⟨.user 2, 700000000000, 1⟩, ⟨.user 1, 300000000000, 1⟩] ∧
    (pool.withdrawQueue.map WithdrawInfo.user).Nodup ∧ (∀ w ∈ pool.withdrawQueue, 1000 < w.shares) ∧
    ∀ e ∈ dustFaults, ∀ who shares, s.withdraw (Demo.release.withChecks fun _ => true) who 0 shares ≠
    .error e := by
  obtain ⟨s, hrun, hqueue, hleft, hfit, hrange⟩ := ranTo_iff.mp (by decide +kernel :
    ranTo (runWhere Demo.release State.BuysShares 9 Demo.genesis (Demo.setup ++
      [.contribute (.user 1) 0 1000000000000, .contribute (.user 2) 0 1000000000000,
        .startMining (.user 0) 0 0 2000000000000, .withdraw (.user 1) 0 900000000000,
        .withdraw (.user 2) 0 700000000000, .withdraw (.user 1) 0 300000000000]))
      (fun s => (s.stakePools.lookup 0).map PoolInfo.withdrawQueue =
          some [⟨.user 2, 700000000000, 1⟩, ⟨.user 1, 300000000000, 1⟩] ∧
        leftovers 0 s.books.history ≤ 999 ∧ (∀ t ∈ s.books.history, t.pool.pid = 0 → t.pool.totalShares < 2 ^ 64) ∧
        ∀ pool ∈ s.stakePools.lookup 0, pool.pid = 0 ∧ pool.totalStake < 18446744 * 10 ^ 12 ∧
          pool.totalShares < 18446744 * 10 ^ 12 ∧ pool.totalStake ≤ (toFixed pool.totalShares).bits) = true)
  have h := runWhere_reachable (.init Demo.genesis_spec) hrun
  obtain ⟨pool, hpool, hqueue⟩ := Option.map_eq_some_iff.mp hqueue
  obtain ⟨hbooks, hasserts⟩ := dust_free (by decide) h
  obtain ⟨-, -, -, hnondust, hrequesters, -, -⟩ := hbooks 0 pool hpool
  refine ⟨s, pool, h, hpool, hqueue, hrequesters, hnondust, fun e he who shares => ?_⟩
  refine (hasserts (fun _ => true) 9 0 (fun _ => rfl) e he).2.1 who shares fun d hd => ?_
  cases hd with
  | @withdraw _ _ _ pool' hpool' =>
    obtain ⟨hpid, hstake, hshares, hprice⟩ := hrange pool' hpool'
    refine ⟨?_, ?_, hstake, hshares, hprice⟩
    · rw [hpid]
      exact hleft
    · rw [hpid]
      exact hfit
  | pass he => nomatch he

/-- Then the least contribution mints dust. -/
theorem mints_dust : ∃ s user, Reachable Demo.release s ∧ s.books.poolStakers.lookup (0, .user 3) = some user ∧
    user.shares = 602 ∧ ¬NotDust user.shares := by
  obtain ⟨s, hrun, hs⟩ := ranTo_iff.mp (by decide +kernel :
    ranTo (run Demo.release 9 Demo.genesis (Demo.pumped ++ [.contribute (.user 3) 0 Demo.release.minContribution]))
      (fun s => (s.books.poolStakers.lookup (0, .user 3)).map UserStakeInfo.shares = some 602) = true)
  obtain ⟨user, huser, hshares⟩ := Option.map_eq_some_iff.mp hs
  refine ⟨s, user, Demo.run_genesis hrun, huser, hshares, ?_⟩
  rw [hshares]
  unfold NotDust
  omega

end Khala
