/-
Whether it matters when a staker's pending slashes are settled: after every
slash of the pool, or once after the last.

A settlement cuts the locked stake down to what the shares are worth at the
time. Settled after every slash, the staker keeps the least of what each
settlement alone would leave; settled once, what the last one alone leaves.
-/
import Khala.PoolFacts
import Khala.StakePool

namespace Khala

open Outcome

namespace PoolInfo

variable {A W : Type} {cfg : Config A W} {pool p q : PoolInfo A W} {pools : List (PoolInfo A W)}
  {user : UserStakeInfo A} {amounts : List ℕ}

/-! ## Settling after each slash -/

/-- The pool after each of the slashes. -/
def slashAll (cfg : Config A W) (pool : PoolInfo A W) : List ℕ → Except Fault (List (PoolInfo A W))
  | [] => pure []
  | amount :: amounts => do
    let pool ← pool.slash cfg amount
    let pools ← slashAll cfg pool amounts
    pure (pool :: pools)

/-- The staker after `settle_slash`, and what it returned: nothing where there is no price. -/
def settleOnce (pool : PoolInfo A W) (user : UserStakeInfo A) : UserStakeInfo A × ℕ :=
  (pool.settleSlash user).getD (user, 0)

/-- `settle_slash` at each of the pools in turn: the staker and the amount after each. -/
def settleEach : List (PoolInfo A W) → UserStakeInfo A → List (UserStakeInfo A × ℕ)
  | [], _ => []
  | pool :: pools, user => pool.settleOnce user :: settleEach pools (pool.settleOnce user).1

/-- The staker after the last of them. -/
def settledAfterEach (pools : List (PoolInfo A W)) (user : UserStakeInfo A) : UserStakeInfo A :=
  ((settleEach pools user).map Prod.fst).getLastD user

/-- Settling at each pool, or once at the last, comes to the same, and nothing raises the locked stake. -/
structure SettlesAlike (pool : PoolInfo A W) (pools : List (PoolInfo A W)) (user : UserStakeInfo A) : Prop where
  user_eq : settledAfterEach pools user = ((pools.getLastD pool).settleOnce user).1
  sum_eq : ((settleEach pools user).map Prod.snd).sum = ((pools.getLastD pool).settleOnce user).2
  never_up : (user :: (settleEach pools user).map Prod.fst).Pairwise fun before after =>
    after.locked ≤ before.locked
  never_up_once : ((pools.getLastD pool).settleOnce user).1.locked ≤ user.locked

/-! ## The condition -/

/-- No slash is pending: the shares are worth the locked stake, which is not dust. -/
def Unslashed (pool : PoolInfo A W) (user : UserStakeInfo A) : Prop :=
  ∀ price ∈ pool.sharePrice, user.locked ≤ bmul user.shares price ∧ (user.locked = 0 ∨ 1000 < user.locked)

/-- The shares are worth no more at `last` than they were at `pool`, as far as
the locked stake and the dust limit show it. -/
def WorthNoMoreAt (pool last : PoolInfo A W) (user : UserStakeInfo A) : Prop :=
  match last.sharePrice with
  | none => pool.Unslashed user
  | some price => ∀ price' ∈ pool.sharePrice,
      min (bmul user.shares price) user.locked ≤ max (bmul user.shares price') 1000

/-! ## One settlement -/

theorem settledLocked_of_none (h : pool.sharePrice = none) : pool.settledLocked user = user.locked := by
  simp only [settledLocked, h]

theorem settleOnce_eq :
    pool.settleOnce user =
    ({ user with locked := pool.settledLocked user }, user.locked - pool.settledLocked user) := by
  unfold settleOnce settleSlash
  cases hp : pool.sharePrice with
  | none =>
    rw [settledLocked_of_none hp, Nat.sub_self]
    rfl
  | some price =>
    rw [settledLocked_eq hp]
    rfl

/-- A settlement after another one leaves the lesser of what either alone leaves. -/
theorem settledLocked_settled : p.settledLocked { user with locked := q.settledLocked user } =
    min (p.settledLocked user) (q.settledLocked user) := by
  have hle : q.settledLocked user ≤ user.locked := settledLocked_le
  cases hp : p.sharePrice with
  | none =>
    rw [settledLocked_of_none hp, settledLocked_of_none hp]
    exact (min_eq_right hle).symm
  | some price =>
    rw [settledLocked_eq hp, settledLocked_eq hp]
    dsimp only
    -- what `q` leaves is all there was, or without dust
    have hq : q.settledLocked user = user.locked ∨ q.settledLocked user = 0 ∨ 1000 < q.settledLocked user := by
      cases hprice : q.sharePrice with
      | none => exact .inl (settledLocked_of_none hprice)
      | some price' =>
        have hcases := extractDust_fst_cases (min (bmul user.shares price') user.locked)
        rw [settledLocked_eq hprice]
        omega
    have h₁ := extractDust_fst_cases (min (bmul user.shares price) (q.settledLocked user))
    have h₂ := extractDust_fst_cases (min (bmul user.shares price) user.locked)
    omega

/-- What one settlement leaves is no more than what another one leaves. -/
theorem settledLocked_le_settledLocked :
    q.settledLocked user ≤ p.settledLocked user ↔ p.WorthNoMoreAt q user := by
  unfold WorthNoMoreAt
  cases hp : p.sharePrice with
  | none =>
    have hle : q.settledLocked user ≤ p.settledLocked user := by
      rw [settledLocked_of_none hp]
      exact settledLocked_le
    cases q.sharePrice with
    | none => simp [Unslashed, hp, hle]
    | some price => simp [hle]
  | some price =>
    have hcases := extractDust_fst_cases (min (bmul user.shares price) user.locked)
    rw [settledLocked_eq hp]
    cases hq : q.sharePrice with
    | none =>
      rw [settledLocked_of_none hq]
      simp only [Unslashed, hp, Option.mem_def, Option.some.injEq, forall_eq']
      omega
    | some price' =>
      have hcases' := extractDust_fst_cases (min (bmul user.shares price') user.locked)
      rw [settledLocked_eq hq]
      simp only [Option.mem_def, Option.some.injEq, forall_eq']
      omega

/-! ## The settlements in turn -/

theorem settledAfterEach_cons : settledAfterEach (p :: pools) user =
    settledAfterEach pools { user with locked := p.settledLocked user } := by
  rw [settledAfterEach, settleEach, List.map_cons, List.getLastD_cons, settleOnce_eq]
  rfl

/-- Only the locked stake may differ. -/
theorem settledAfterEach_eq (pools : List (PoolInfo A W)) (user : UserStakeInfo A) :
    settledAfterEach pools user = { user with locked := (settledAfterEach pools user).locked } := by
  induction pools generalizing user with
  | nil => rfl
  | cons p pools ih =>
    rw [settledAfterEach_cons]
    exact ih _

/-- What is settled in turn is what the locked stake fell by. -/
theorem sum_settleEach (pools : List (PoolInfo A W)) (user : UserStakeInfo A) :
    ((settleEach pools user).map Prod.snd).sum + (settledAfterEach pools user).locked = user.locked := by
  induction pools generalizing user with
  | nil => exact Nat.zero_add _
  | cons p pools ih =>
    have hle : p.settledLocked user ≤ user.locked := settledLocked_le
    have hrest := ih { user with locked := p.settledLocked user }
    rw [settledAfterEach_cons, settleEach, List.map_cons, List.sum_cons, settleOnce_eq]
    dsimp only at hrest ⊢
    omega

/-- No settlement raises the locked stake. -/
theorem settleEach_never_up (pools : List (PoolInfo A W)) (user : UserStakeInfo A) :
    (user :: (settleEach pools user).map Prod.fst).Pairwise fun before after => after.locked ≤ before.locked := by
  induction pools generalizing user with
  | nil => exact List.pairwise_singleton _ _
  | cons p pools ih =>
    have hle : (p.settleOnce user).1.locked ≤ user.locked := by
      rw [settleOnce_eq]
      exact settledLocked_le
    have hrest := ih (p.settleOnce user).1
    rw [settleEach, List.map_cons, List.pairwise_cons]
    refine ⟨fun after hafter => ?_, hrest⟩
    rcases List.mem_cons.mp hafter with rfl | hafter
    · exact hle
    · exact ((List.pairwise_cons.mp hrest).1 after hafter).trans hle

/-- It ends no higher than each settlement alone would have it. -/
theorem settledAfterEach_le {user : UserStakeInfo A} (h : p ∈ pools) :
    (settledAfterEach pools user).locked ≤ p.settledLocked user := by
  induction pools generalizing user with
  | nil => exact absurd h List.not_mem_nil
  | cons q pools ih =>
    have hsum := sum_settleEach pools { user with locked := q.settledLocked user }
    rw [settledAfterEach_cons]
    rcases List.mem_cons.mp h with rfl | h
    · dsimp only at hsum
      omega
    · have hrest : (settledAfterEach pools { user with locked := q.settledLocked user }).locked ≤
          p.settledLocked { user with locked := q.settledLocked user } := ih h
      rw [settledLocked_settled] at hrest
      exact hrest.trans (min_le_left _ _)

/-- And just where some settlement alone would have it. -/
theorem settledAfterEach_attained (pools : List (PoolInfo A W)) (user : UserStakeInfo A) :
    (settledAfterEach (q :: pools) user).locked = q.settledLocked user ∨
      ∃ p ∈ pools, (settledAfterEach (q :: pools) user).locked = p.settledLocked user := by
  induction pools generalizing q user with
  | nil => exact .inl (by rw [settledAfterEach_cons]; rfl)
  | cons r pools ih =>
    rw [settledAfterEach_cons]
    rcases ih (q := r) { user with locked := q.settledLocked user } with h | ⟨p, hp, h⟩
    all_goals rw [settledLocked_settled] at h
    · rcases min_choice (r.settledLocked user) (q.settledLocked user) with hmin | hmin
      · exact .inr ⟨r, List.mem_cons_self, h.trans hmin⟩
      · exact .inl (h.trans hmin)
    · rcases min_choice (p.settledLocked user) (q.settledLocked user) with hmin | hmin
      · exact .inr ⟨p, List.mem_cons_of_mem _ hp, h.trans hmin⟩
      · exact .inl (h.trans hmin)

/-- Settling in turn comes to the last settlement exactly where that one leaves least. -/
theorem settledAfterEach_eq_last (pools : List (PoolInfo A W)) (user : UserStakeInfo A) :
    (settledAfterEach (q :: pools) user).locked = ((q :: pools).getLastD pool).settledLocked user ↔
      ∀ p ∈ q :: pools, p.WorthNoMoreAt ((q :: pools).getLastD pool) user := by
  have hlast : (q :: pools).getLastD pool ∈ q :: pools := by
    rw [List.getLastD_cons]
    exact List.getLastD_mem_cons
  constructor
  · intro h p hp
    exact settledLocked_le_settledLocked.mp (h ▸ settledAfterEach_le hp)
  · intro h
    refine le_antisymm (settledAfterEach_le hlast) ?_
    rcases settledAfterEach_attained pools user (q := q) with hq | ⟨p, hp, hq⟩
    · rw [hq]
      exact settledLocked_le_settledLocked.mpr (h q List.mem_cons_self)
    · rw [hq]
      exact settledLocked_le_settledLocked.mpr (h p (List.mem_cons_of_mem _ hp))

theorem unslashed_iff : pool.Unslashed user ↔ pool.settledLocked user = user.locked := by
  unfold Unslashed
  cases hp : pool.sharePrice with
  | none => simp [settledLocked_of_none hp]
  | some price =>
    have hcases := extractDust_fst_cases (min (bmul user.shares price) user.locked)
    rw [settledLocked_eq hp]
    simp only [Option.mem_def, Option.some.injEq, forall_eq']
    omega

/-- The two ways are alike when they leave as much locked. -/
theorem settlesAlike_iff_locked (pool : PoolInfo A W) (pools : List (PoolInfo A W)) (user : UserStakeInfo A) :
    pool.SettlesAlike pools user ↔
      (settledAfterEach pools user).locked = (pools.getLastD pool).settledLocked user := by
  have hle : (pools.getLastD pool).settledLocked user ≤ user.locked := settledLocked_le
  constructor
  · intro h
    rw [h.user_eq, settleOnce_eq]
  · intro h
    have hsum := sum_settleEach pools user
    refine ⟨?_, ?_, settleEach_never_up pools user, ?_⟩
    · rw [settledAfterEach_eq, h, settleOnce_eq]
    · rw [settleOnce_eq]
      dsimp only
      omega
    · rw [settleOnce_eq]
      exact hle

/-! ## The slashes -/

theorem slashAll_nil : slashAll cfg pool [] = .ok pools ↔ pools = [] := Outcome.pure_ok.trans eq_comm

theorem slashAll_cons {amount : ℕ} (h : slashAll cfg pool (amount :: amounts) = .ok pools) :
    ∃ p rest, p = { pool with totalStake := (extractDust (pool.totalStake - amount)).1 } ∧
      slashAll cfg p amounts = .ok rest ∧ pools = p :: rest := by
  obtain ⟨p, hp, h⟩ := bind_ok.mp h
  obtain ⟨rest, hrest, h⟩ := bind_ok.mp h
  have hE : Ends (pool.slash cfg amount) _ fun _ => True := slash_ends (fun _ => trivial) fun _ => trivial
  exact ⟨p, rest, hE.ok hp, hrest, (Outcome.pure_ok.mp h).symm⟩

/-- Slashes keep the shares, and the stake only falls. -/
theorem slashAll_falls (h : slashAll cfg pool amounts = .ok pools) :
    (∀ p ∈ pools, p.totalShares = pool.totalShares) ∧
      (pool :: pools).Pairwise fun before after => after.totalStake ≤ before.totalStake := by
  induction amounts generalizing pool pools with
  | nil =>
    cases slashAll_nil.mp h
    exact ⟨fun p hp => absurd hp List.not_mem_nil, List.pairwise_singleton _ _⟩
  | cons amount amounts ih =>
    obtain ⟨p, rest, hp, hrest, rfl⟩ := slashAll_cons h
    obtain ⟨hshares, hfalls⟩ := ih hrest
    have hps : p.totalShares = pool.totalShares := by rw [hp]
    have hpt : p.totalStake ≤ pool.totalStake := by
      rw [hp]
      exact (extractDust_fst_le _).trans (Nat.sub_le _ _)
    constructor
    · intro q hq
      rcases List.mem_cons.mp hq with rfl | hq
      · exact hps
      · exact (hshares q hq).trans hps
    · refine List.pairwise_cons.mpr ⟨fun q hq => ?_, hfalls⟩
      rcases List.mem_cons.mp hq with rfl | hq
      · exact hpt
      · exact ((List.pairwise_cons.mp hfalls).1 q hq).trans hpt

/-- While all numbers fit, less stake behind as many shares is worth no more. -/
theorem worthNoMoreAt_of_fits (hshares : q.totalShares = p.totalShares) (hle : q.totalStake ≤ p.totalStake)
    (hstake : p.totalStake < 2 ^ 64) (htotal : p.totalShares < 2 ^ 64) (huser : user.shares ≤ p.totalShares) :
    p.WorthNoMoreAt q user := by
  have hbits : (toFixed q.totalStake).bits ≤ (toFixed p.totalStake).bits := by
    rw [bits_toFixed_of_lt hstake, bits_toFixed_of_lt (hle.trans_lt hstake)]
    exact Nat.div_le_div_right (Nat.mul_le_mul_left _ hle)
  have hpart : (toFixed user.shares).bits ≤ (toFixed p.totalShares).bits := by
    rw [bits_toFixed_of_lt htotal, bits_toFixed_of_lt (huser.trans_lt htotal)]
    exact Nat.div_le_div_right (Nat.mul_le_mul_left _ huser)
  refine settledLocked_le_settledLocked.mp ?_
  cases hp : p.sharePrice with
  | none =>
    rw [settledLocked_of_none hp]
    exact settledLocked_le
  | some price =>
    obtain ⟨hne, hprice⟩ := sharePrice_eq_some.mp hp
    have hquot : 2 ^ 64 * (toFixed q.totalStake).bits / (toFixed q.totalShares).bits ≤ price.bits := by
      rw [hprice, hshares]
      exact Nat.div_le_div_right (Nat.mul_le_mul_left _ hbits)
    have hq : q.sharePrice = some ⟨_, hquot.trans_lt price.lt⟩ := sharePrice_eq_some.mpr ⟨hshares ▸ hne, rfl⟩
    -- no product exceeds the whole pool's worth
    have hworth : (toFixed user.shares).bits * price.bits / 2 ^ 64 ≤ (toFixed p.totalStake).bits := by
      refine Nat.div_le_of_le_mul ?_
      calc (toFixed user.shares).bits * price.bits
          ≤ (toFixed p.totalShares).bits * price.bits := Nat.mul_le_mul_right _ hpart
        _ ≤ 2 ^ 64 * (toFixed p.totalStake).bits := by
          rw [hprice]
          exact Nat.mul_div_le _ _
    have hmul : bmul user.shares ⟨_, hquot.trans_lt price.lt⟩ ≤ bmul user.shares price := by
      have hprod : (toFixed user.shares).bits *
          (2 ^ 64 * (toFixed q.totalStake).bits / (toFixed q.totalShares).bits) / 2 ^ 64 ≤
          (toFixed user.shares).bits * price.bits / 2 ^ 64 := Nat.div_le_div_right (Nat.mul_le_mul_left _ hquot)
      have hfits := hworth.trans_lt (toFixed p.totalStake).lt
      refine fromFixed_mono ?_
      rw [U64F64.bits_mul_of_lt hfits, U64F64.bits_mul_of_lt (hprod.trans_lt hfits)]
      exact hprod
    rw [settledLocked_eq hp, settledLocked_eq hq]
    exact extractDust_fst_mono (min_le_min_right _ hmul)

end PoolInfo

/-- **Lazy settlement.** Settling a staker after each slash of a pool, and once
after the last, come to the same exactly where the shares are never worth less
than they end at (and, if there was no slash at all, where none was pending).
While stake and shares fit 64 bits they never are. -/
theorem settlesAlike_iff {A W : Type} {cfg : Config A W} {pool : PoolInfo A W} {pools : List (PoolInfo A W)}
    {amounts : List ℕ} (user : UserStakeInfo A) (h : pool.slashAll cfg amounts = .ok pools) :
    (pool.SettlesAlike pools user ↔
      (amounts = [] → pool.Unslashed user) ∧ ∀ p ∈ pools, p.WorthNoMoreAt (pools.getLastD pool) user) ∧
    (pool.totalStake < 2 ^ 64 → pool.totalShares < 2 ^ 64 → user.shares ≤ pool.totalShares → amounts ≠ [] →
      pool.SettlesAlike pools user) := by
  have hiff : pool.SettlesAlike pools user ↔
      (amounts = [] → pool.Unslashed user) ∧ ∀ p ∈ pools, p.WorthNoMoreAt (pools.getLastD pool) user := by
    rw [PoolInfo.settlesAlike_iff_locked]
    cases amounts with
    | nil =>
      cases PoolInfo.slashAll_nil.mp h
      rw [PoolInfo.unslashed_iff]
      exact ⟨fun h => ⟨fun _ => h.symm, fun p hp => absurd hp List.not_mem_nil⟩, fun h => (h.1 rfl).symm⟩
    | cons amount amounts =>
      obtain ⟨p, rest, _, _, rfl⟩ := PoolInfo.slashAll_cons h
      rw [PoolInfo.settledAfterEach_eq_last]
      exact ⟨fun h => ⟨nofun, h⟩, fun h => h.2⟩
  refine ⟨hiff, fun hstake htotal huser hne => hiff.mpr ⟨fun h => absurd h hne, fun p hp => ?_⟩⟩
  obtain ⟨hshares, hfalls⟩ := PoolInfo.slashAll_falls h
  obtain ⟨hfirst, hrest⟩ := List.pairwise_cons.mp hfalls
  have hlast : pools.getLastD pool = pools.getLast (List.ne_nil_of_mem hp) := by
    rw [List.getLastD_eq_getLast?, List.getLast?_eq_some_getLast, Option.getD_some]
  have hmem : pools.getLastD pool ∈ pools := hlast ▸ List.getLast_mem _
  have hle : (pools.getLastD pool).totalStake ≤ p.totalStake := by
    rw [hlast]
    exact hrest.rel_getLast_of_rel_getLast_getLast hp le_rfl
  exact PoolInfo.worthNoMoreAt_of_fits ((hshares _ hmem).trans (hshares p hp).symm) hle
    ((hfirst p hp).trans_lt hstake) (hshares p hp ▸ htotal) (hshares p hp ▸ huser)

namespace Demo

/-- A pool of so much stake, a share for each planck. -/
def pooled (stake : ℕ) : PoolInfo Account ℕ where
  pid := 0
  owner := .user 0
  payoutCommission := none
  ownerReward := 0
  cap := none
  rewardAcc := 0
  totalShares := stake
  totalStake := stake
  freeStake := stake
  releasingStake := 0
  workers := []
  withdrawQueue := []

/-- Ten tokens at price one. -/
def tenTokens : UserStakeInfo Account := ⟨.user 1, 10000000000000, 10000000000000, 0, 0⟩

end Demo

/-- A thousand tokens, of which two slashes take a tenth each. -/
theorem settlesAlike_iff_demo : ∃ pools,
    (Demo.pooled 1000000000000000).slashAll Demo.release [100000000000000, 100000000000000] = .ok pools ∧
    (Demo.pooled 1000000000000000).SettlesAlike pools Demo.tenTokens ∧
    (PoolInfo.settledAfterEach pools Demo.tenTokens).locked = 7999999999999 := by
  have hrun : (Demo.pooled 1000000000000000).slashAll Demo.release [100000000000000, 100000000000000] =
      .ok [{ Demo.pooled 1000000000000000 with totalStake := 900000000000000 },
        { Demo.pooled 1000000000000000 with totalStake := 800000000000000 }] := by decide +kernel
  exact ⟨_, hrun, (settlesAlike_iff _ hrun).2 (by decide) (by decide) (by decide) (by decide), by decide +kernel⟩

/-- The stake first wraps to a token, then ends just below `2^64`: settled after
each slash the staker loses nearly all, settled once nothing. -/
theorem lazySlash_differs : ∃ pools,
    (Demo.pooled (2 ^ 64 + 10 ^ 16)).slashAll Demo.release [10 ^ 16 - 10 ^ 12, 2 * 10 ^ 12] = .ok pools ∧
    (PoolInfo.settledAfterEach pools Demo.tenTokens).locked = 999999999 ∧
    ((pools.getLastD (Demo.pooled (2 ^ 64 + 10 ^ 16))).settleOnce Demo.tenTokens).1.locked = 10 ^ 13 ∧
    ¬(Demo.pooled (2 ^ 64 + 10 ^ 16)).SettlesAlike pools Demo.tenTokens := by
  have hrun : (Demo.pooled (2 ^ 64 + 10 ^ 16)).slashAll Demo.release [10 ^ 16 - 10 ^ 12, 2 * 10 ^ 12] =
      .ok [{ Demo.pooled (2 ^ 64 + 10 ^ 16) with totalStake := 2 ^ 64 + 10 ^ 12 },
        { Demo.pooled (2 ^ 64 + 10 ^ 16) with totalStake := 2 ^ 64 - 10 ^ 12 }] := by decide +kernel
  refine ⟨_, hrun, by decide +kernel, by decide +kernel, fun h => ?_⟩
  have hlocked := congrArg UserStakeInfo.locked h.user_eq
  exact absurd hlocked (by decide +kernel)

end Khala
