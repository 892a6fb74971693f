/-
A request waits only while the pool's free stake is dust, as long as each
withdrawal that starts to wait finds a free stake that can be spent on it.

The queue's loop ends with an empty queue or with dust. So what is left are
the withdrawals, which queue what the free stake does not pay for in shares,
and the pools without a price, whose queue is not served at all.

A withdrawal takes as many shares as the free stake buys. What it leaves is
less than the price of a share and a planck or two of rounding, unless what the
free stake buys is dust, or worth more than the staker has locked.
-/
import Khala.Releasing

namespace Khala

open Outcome

variable {A W : Type} [DecidableEq A] {cfg : Config A W} {s s' : State A W}

/-- No request waits for free stake. -/
def PoolInfo.DustOrServed (pool : PoolInfo A W) : Prop := pool.withdrawQueue = [] ∨ pool.freeStake ≤ 1000

namespace PoolInfo

variable {pool pool' : PoolInfo A W}

omit [DecidableEq A] in
theorem SameAmounts.dustOrServed (h : pool.SameAmounts pool') (hp : pool.DustOrServed) : pool'.DustOrServed := by
  unfold DustOrServed
  rw [h.withdrawQueue, h.freeStake]
  exact hp

/-- A free stake above dust buys more than dust, at a price of at most 998, and
what it buys is no more than the staker has, whose stake is not dust. -/
def Spendable (pool : PoolInfo A W) (user : UserStakeInfo A) (price : FixedPoint) : Prop :=
  1000 < pool.freeStake → (pool.freeStake < 2 ^ 64 ∧ pool.freeStake < price.bits ∧ price.bits ≤ 998 * 2 ^ 64) ∧
    1000 < bdiv pool.freeStake price ∧ (1000 < bmul user.shares price ∧ 1000 < user.locked) ∧
    bmul (bdiv pool.freeStake price) price ≤ bmul user.shares price ∧
    bmul (bdiv pool.freeStake price) price ≤ user.locked

instance (pool : PoolInfo A W) (user : UserStakeInfo A) (price : FixedPoint) :
    Decidable (pool.Spendable user price) :=
  inferInstanceAs (Decidable (_ → _ ∧ _))

/-- What a withdrawal at this price leaves of the free stake. -/
def freeAfter (pool : PoolInfo A W) (user : UserStakeInfo A) (shares : ℕ) (price : FixedPoint) : ℕ :=
  let now := Desk.sharesNow pool shares
  let amount := min (min (bmul now price) pool.freeStake) (pool.settledLocked user)
  -- stake that comes down to dust is dropped, free stake and all
  if 0 < now ∧ amount ≤ pool.totalStake ∧ pool.totalStake - amount ≤ 1000 then 0
  else pool.freeStake - if 0 < now then amount else 0

end PoolInfo

/-! ## What is spent -/

/-- Shares bought with an amount are worth the amount, but for the price of a share and rounding. -/
theorem le_bmul_bdiv {amount : ℕ} {price : FixedPoint} (hamount : amount < 2 ^ 64) (hfits : amount < price.bits)
    (hprice : price.bits ≤ 998 * 2 ^ 64) : amount ≤ bmul (bdiv amount price) price + 1000 := by
  have hpos : 0 < price.bits := by omega
  -- the amount in bits, divided by the price
  obtain ⟨f, hf⟩ : ∃ f, f = 2 ^ 64 * amount / 10 ^ 12 := ⟨_, rfl⟩
  obtain ⟨q, hq⟩ : ∃ q, q = 2 ^ 64 * f / price.bits := ⟨_, rfl⟩
  have hqle : price.bits * q ≤ 2 ^ 64 * f := hq ▸ Nat.mul_div_le _ _
  have hqlt : 2 ^ 64 * f < price.bits * (q + 1) := hq ▸ Nat.lt_mul_div_succ _ hpos
  have hqfits : 10 ^ 12 * q < 2 ^ 128 := by
    refine Nat.lt_of_mul_lt_mul_left (a := price.bits) ?_
    have hswap : price.bits * (10 ^ 12 * q) = 10 ^ 12 * (price.bits * q) := by ring
    omega
  have hbought : bdiv amount price = 10 ^ 12 * q / 2 ^ 64 := by
    have hbits : (toFixed amount / price).bits = q := by
      rw [U64F64.bits_div, bits_toFixed_of_lt hamount, ← hf, ← hq, Nat.mod_eq_of_lt (by omega)]
    rw [bdiv, fromFixed_of_lt (by rw [hbits]; exact hqfits), hbits]
  -- and the shares, multiplied by it
  obtain ⟨n, hn⟩ : ∃ n, n = 10 ^ 12 * q / 2 ^ 64 := ⟨_, rfl⟩
  obtain ⟨t, ht⟩ : ∃ t, t = 2 ^ 64 * n / 10 ^ 12 := ⟨_, rfl⟩
  obtain ⟨v, hv⟩ : ∃ v, v = t * price.bits / 2 ^ 64 := ⟨_, rfl⟩
  have htq : t * price.bits ≤ price.bits * q := by
    rw [Nat.mul_comm]
    exact Nat.mul_le_mul_left _ (by omega)
  have hworth : bmul n price = 10 ^ 12 * v / 2 ^ 64 := by
    have hbits : (toFixed n * price).bits = v := by
      rw [U64F64.bits_mul, bits_toFixed_of_lt (by omega), ← ht, ← hv, Nat.mod_eq_of_lt (by omega)]
    rw [bmul, fromFixed_of_lt (by rw [hbits]; omega), hbits]
  rw [hbought, ← hn, hworth]
  have hshares : 10 ^ 12 * (price.bits * q) ≤ 2 ^ 64 * (n * price.bits + price.bits) := by
    have := Nat.mul_le_mul_right price.bits (show 10 ^ 12 * q ≤ 2 ^ 64 * (n + 1) by omega)
    linarith
  have hvalue : 2 ^ 64 * (n * price.bits) ≤ 10 ^ 12 * (t * price.bits + price.bits) := by
    have := Nat.mul_le_mul_right price.bits (show 2 ^ 64 * n ≤ 10 ^ 12 * (t + 1) by omega)
    linarith
  rw [Nat.mul_succ] at hqlt
  generalize n * price.bits = np at hshares hvalue
  generalize t * price.bits = tp at hvalue hv
  generalize price.bits * q = pq at hqlt hshares
  omega

omit [DecidableEq A] in
/-- A withdrawal that has to wait is one of more shares than the free stake buys. -/
theorem Desk.sharesNow_of_later {pool : PoolInfo A W} {shares : ℕ} {price : FixedPoint}
    (hprice : pool.sharePrice = some price) (hbuys : 1000 < bdiv pool.freeStake price)
    (hlater : 0 < sharesLater pool shares) : sharesNow pool shares = bdiv pool.freeStake price := by
  have hle : (extractDust (shares - sharesNow pool shares)).1 ≤ shares - sharesNow pool shares :=
    extractDust_fst_le _
  have hnow : sharesNow pool shares = (extractDust (min shares (freeShares pool shares))).1 := rfl
  rcases Nat.lt_or_ge (freeShares pool shares) shares with hlt | hge
  · rw [Nat.min_eq_right hlt.le] at hnow
    have hfree : freeShares pool shares = if price ≠ 0 then bdiv pool.freeStake price else shares := by
      simp only [freeShares, hprice]
    split at hfree
    · rw [hnow, hfree, extractDust_of_lt hbuys]
    · omega
  · -- otherwise all the shares leave now, or are dust
    rw [Nat.min_eq_left hge] at hnow
    unfold sharesLater at hlater
    rcases extractDust_fst_cases shares with ⟨hzero, hdust⟩ | ⟨hall, _⟩
    · rw [extractDust_of_le (by omega)] at hlater
      exact absurd hlater (Nat.lt_irrefl 0)
    · omega

omit [DecidableEq A] in
/-- What the staker has locked, with its slash settled, pays for the shares. -/
theorem PoolInfo.Spendable.le_settledLocked {pool : PoolInfo A W} {user : UserStakeInfo A} {price : FixedPoint}
    (h : pool.Spendable user price) (hprice : pool.sharePrice = some price) (hfree : 1000 < pool.freeStake) :
    bmul (bdiv pool.freeStake price) price ≤ pool.settledLocked user := by
  obtain ⟨_, _, ⟨hworth, hlocked⟩, hle, hle'⟩ := h hfree
  rw [PoolInfo.settledLocked_eq hprice, extractDust_of_lt (Nat.lt_min.mpr ⟨hworth, hlocked⟩)]
  exact Nat.le_min.mpr ⟨hle, hle'⟩

omit [DecidableEq A] in
/-- So a withdrawal that has to wait spends the free stake. -/
theorem PoolInfo.Spendable.freeAfter_le {pool : PoolInfo A W} {user : UserStakeInfo A} {shares : ℕ}
    {price : FixedPoint} (h : pool.Spendable user price) (hprice : pool.sharePrice = some price)
    (hlater : 0 < Desk.sharesLater pool shares) : pool.freeAfter user shares price ≤ 1000 := by
  unfold PoolInfo.freeAfter
  dsimp only
  split
  · exact Nat.zero_le _
  · rcases Nat.lt_or_ge 1000 pool.freeStake with hfree | hdust
    · obtain ⟨⟨hsmall, hfits, hcheap⟩, hbuys, _⟩ := h hfree
      have hspent := le_bmul_bdiv hsmall hfits hcheap
      have hlocked := h.le_settledLocked hprice hfree
      rw [Desk.sharesNow_of_later hprice hbuys hlater, if_pos (by omega)]
      omega
    · exact (Nat.sub_le _ _).trans hdust

/-! ## The loop and the withdrawal -/

/-- The loop goes on while the free stake is more than dust and a request is there. -/
theorem Desk.processQueue_dustOrServed {price : FixedPoint} {fuel : ℕ} {d d' : Desk A W}
    (h : processQueue cfg price fuel d = .ok d') : d'.pool.DustOrServed := by
  induction fuel generalizing d with
  | zero => cases h
  | succ fuel ih =>
    unfold processQueue at h
    split at h
    · split at h
      · next hq =>
        cases h
        exact .inl hq
      · split at h
        · exact ih h
        · obtain ⟨d₁, _, h⟩ := bind_ok.mp h
          exact ih h
    · next hdust =>
      cases h
      exact .inr (Nat.le_of_not_lt fun hlt => hdust (isNondustBalance_iff.mpr hlt))

theorem Desk.tryProcessWithdrawQueue_dustOrServed {fuel : ℕ} {d d' : Desk A W}
    (h : d.tryProcessWithdrawQueue cfg fuel = .ok d') (hd : d.pool.sharePrice = none → d.pool.DustOrServed) :
    d'.pool.DustOrServed := by
  unfold tryProcessWithdrawQueue at h
  split at h
  · exact processQueue_dustOrServed h
  · next hnone =>
    cases h
    exact hd hnone

/-- What a withdrawal leaves of the free stake is at most `freeAfter`. -/
theorem Desk.Withdrew.freeStake_le {d d' : Desk A W} {user user' : UserStakeInfo A} {shares now : ℕ}
    {price : FixedPoint} (hprice : d.pool.sharePrice = some price) (h : d.Withdrew cfg user shares now d' user') :
    d'.pool.freeStake ≤ d.pool.freeAfter user shares price := by
  obtain ⟨user₁, d₁, hs, hpaid, rfl⟩ := h
  obtain ⟨_, _, rfl⟩ := hs
  rcases hpaid with ⟨hpos, amount, dust, hr, -⟩ | ⟨hzero, rfl, -⟩
  · obtain ⟨price', hprice', hamount⟩ := hr.amount_eq
    obtain ⟨rest, hrest, hpool⟩ := hr.pool_eq
    cases hprice.symm.trans hprice'
    have he : amount = min (min (bmul (sharesNow d.pool shares) price) d.pool.freeStake)
        (d.pool.settledLocked user) :=
      hamount
    change d₁.pool.freeStake ≤ _
    unfold PoolInfo.freeAfter
    dsimp only
    rw [hpool, ← he, if_pos hpos]
    dsimp only
    by_cases hleft : (extractDust rest).1 > 0
    · rw [if_pos hleft, if_neg]
      rintro ⟨_, hle, hdust⟩
      rw [hrest hle, extractDust_of_le hdust] at hleft
      exact absurd hleft (Nat.lt_irrefl 0)
    · rw [if_neg hleft]
      exact Nat.zero_le _
  · unfold PoolInfo.freeAfter
    dsimp only
    rw [if_neg fun h => absurd h.1 (by omega), if_neg (by omega)]
    exact le_rfl

/-! ## The condition -/

variable [DecidableEq W]

namespace State

/-- A withdrawal that starts to wait finds a free stake that can be spent on it,
and a pool that waits has a price when it gets stake. -/
def SpendsFree (cfg : Config A W) (s : State A W) : Op A W → Prop
  | .withdraw who pid shares => ∀ pool ∈ s.stakePools.lookup pid, ∀ user ∈ s.books.poolStakers.lookup (pid, who),
      ∀ price ∈ pool.sharePrice, pool.withdrawQueue = [] → 0 < Desk.sharesLater pool shares →
      pool.Spendable user price
  | .contribute _ pid amount => ∀ pool ∈ s.stakePools.lookup pid, pool.withdrawQueue ≠ [] →
      (pool.added amount).sharePrice ≠ none
  | .reclaimPoolWorker pid w => ∀ pool ∈ s.stakePools.lookup pid, pool.withdrawQueue ≠ [] →
      ∀ r ∈ s.finalStakeOf cfg (cfg.poolSubAccount pid w), (pool.givenBack r.1 r.2).sharePrice ≠ none
  | _ => True

instance (s : State A W) (op : Op A W) : Decidable (s.SpendsFree cfg op) :=
  match op with
  | .withdraw .. => inferInstanceAs (Decidable (∀ pool ∈ _, ∀ user ∈ _, ∀ price ∈ _, _ → _ → _))
  | .contribute .. => inferInstanceAs (Decidable (∀ pool ∈ _, _ → _))
  | .reclaimPoolWorker .. => inferInstanceAs (Decidable (∀ pool ∈ _, _ → ∀ r ∈ _, _))
  | .create .. | .addWorker .. | .removeWorker .. | .setCap .. | .setPayoutPref ..
    | .setMiningEnable .. | .claimRewards ..
  | .reconcileWithdrawQueue .. | .startMining .. | .stopMining .. | .onFinalize | .unbind .. | .forceStartMining ..
  | .forceStopMining .. | .heartbeat .. | .gkMessage .. | .setCoolDownExpiration ..
    | .updateTokenomic .. | .finalizeMining
  | .forceRegisterWorker .. | .registerWorker .. | .benchReport .. | .time .. | .balances .. => .isTrue trivial

/-- In no pool a request waits for free stake. -/
def NoneWaits (s : State A W) : Prop := ∀ pid pool, s.stakePools.lookup pid = some pool → pool.DustOrServed

namespace NoneWaits

omit [DecidableEq A] [DecidableEq W] in
theorem put {pid : ℕ} {pool' : PoolInfo A W} (h : s.NoneWaits) (hs : s'.stakePools = s.stakePools.insert pid pool')
    (hp : pool'.DustOrServed) : s'.NoneWaits := by
  intro pid' p hp'
  rw [hs, StorageMap.lookup_insert_ite] at hp'
  split at hp'
  · cases hp'
    exact hp
  · exact h pid' p hp'

theorem asides {P : Permit} (h : s.NoneWaits) (ha : Asides cfg P s s') : s'.NoneWaits := by
  intro pid pool hp
  obtain ⟨pool₀, hp₀, hs⟩ := ha.pool_of_lookup hp
  exact hs.dustOrServed (h pid pool₀ hp₀)

omit [DecidableEq A] [DecidableEq W] in
/-- Taking free stake away never makes a request wait for it. -/
theorem less {pool pool' : PoolInfo A W} (h : pool.DustOrServed) (hq : pool'.withdrawQueue = pool.withdrawQueue)
    (hf : pool'.freeStake ≤ pool.freeStake) : pool'.DustOrServed := by
  unfold PoolInfo.DustOrServed at *
  rw [hq]
  exact h.imp_right hf.trans

omit [DecidableEq W] in
theorem withdrew {pool : PoolInfo A W} {user user' : UserStakeInfo A} {shares now : ℕ} {d : Desk A W}
    (hnd : 1000 < shares) (h : pool.DustOrServed) (hw : Desk.Withdrew cfg ⟨pool, s.books⟩ user shares now d user')
    (hok : ∀ price, pool.sharePrice = some price → pool.withdrawQueue = [] → 0 < Desk.sharesLater pool shares →
      pool.freeAfter user shares price ≤ 1000) : d.pool.DustOrServed := by
  have hqueue : d.pool.withdrawQueue = Desk.requestQueue user.user (Desk.sharesLater pool shares) now
      pool.withdrawQueue := by
    obtain ⟨user₁, d₁, _, _, rfl⟩ := hw
    rfl
  have hfree : d.pool.freeStake ≤ pool.freeStake := by
    obtain ⟨user₁, d₁, _, hpaid, rfl⟩ := hw
    rcases hpaid with ⟨_, amount, dust, hr, -⟩ | ⟨_, rfl, -⟩
    · obtain ⟨rest, _, hpool⟩ := hr.pool_eq
      change d₁.pool.freeStake ≤ _
      rw [hpool]
      dsimp only
      split
      · exact Nat.sub_le _ _
      · exact Nat.zero_le _
    · exact le_rfl
  by_cases hlater : 0 < Desk.sharesLater pool shares
  · refine .inr ?_
    cases hprice : pool.sharePrice with
    | none =>
      -- without a price all shares are withdrawn at once
      have hnow : Desk.sharesNow pool shares = shares := by
        simp only [Desk.sharesNow, Desk.freeShares, hprice, Nat.min_self, extractDust_of_lt hnd]
      rw [Desk.sharesLater, hnow, Nat.sub_self] at hlater
      exact absurd hlater (by decide)
    | some price =>
      rcases h with he | hdust
      · have hprice' : (⟨pool, s.books⟩ : Desk A W).pool.sharePrice = some price := hprice
        have hle := hw.freeStake_le hprice'
        exact hle.trans (hok price hprice he hlater)
      · exact hfree.trans hdust
  · rw [Desk.requestQueue, if_neg hlater] at hqueue
    exact less h hqueue hfree

theorem did {op : Op A W} (h : s.NoneWaits) (hok : s.SpendsFree cfg op) (hd : Did cfg s op s') : s'.NoneWaits := by
  cases hd with
  | create => exact h.put rfl (.inl rfl)
  | @contribute who pid amount pool books user fuel d hpool _ _ hq =>
    refine h.put rfl (Desk.tryProcessWithdrawQueue_dustOrServed hq fun hnone => .inl ?_)
    by_contra hne
    exact hok pool hpool hne hnone
  | @withdraw who pid shares pool user d user' hpool hu hnd _ hw =>
    have hs := s.scheduled_sameStore pool shares
    have h₁ : (s.scheduled pool shares).NoneWaits := fun pid p hp => h pid p (hs.stakePools ▸ hp)
    refine h₁.put rfl ?_
    refine withdrew hnd (h pid pool hpool) hw fun price hprice hq hlater => ?_
    exact (hok pool hpool user hu price hprice hq hlater).freeAfter_le hprice hlater
  | @reconcile pid account pool user idx hpool _ hidx =>
    refine h.put rfl ?_
    rcases h pid pool hpool with he | hdust
    · rw [he] at hidx
      cases hidx
    · exact .inr hdust
  | @start owner pid w stake pool s₁ hpool _ _ hs =>
    obtain ⟨mining, rfl⟩ := hs.mining_only
    exact h.put rfl (less (h pid pool hpool) rfl (Nat.sub_le _ _))
  | forceStart hs =>
    obtain ⟨mining, rfl⟩ := hs.mining_only
    exact h
  | @reclaim pid w pool info returned slashed fuel d hpool hr hq =>
    have h₁ : (s.reclaimedMiner (cfg.poolSubAccount pid w) info slashed).NoneWaits := h
    refine h₁.put rfl (Desk.tryProcessWithdrawQueue_dustOrServed hq fun hnone => .inl ?_)
    by_contra hne
    exact hok pool hpool hne _ (finalStakeOf_of_lookup hr.miner hr.state hr.final) hnone
  | finalize ha => exact h.asides ha
  | aside ha => exact h.asides ha
  | _ => exact h

end NoneWaits

end State

/-- **No request waits while the pool holds stake** that could pay it, in every
run whose withdrawals that start to wait find a free stake that can be spent on them. -/
theorem none_waits (h : RunWhere cfg (State.SpendsFree cfg) s) {pid : ℕ} {pool : PoolInfo A W}
    (hpool : s.stakePools.lookup pid = some pool) (hq : pool.withdrawQueue ≠ []) : pool.freeStake ≤ 1000 := by
  have hI : s.NoneWaits := by
    refine h.did_invariant (fun s => s.NoneWaits) (fun s hs pid pool hp => ?_)
      fun s op s' _ hi hok hd => hi.did hok hd
    simp [hs.pools.1] at hp
  exact (hI pid pool hpool).resolve_left hq

/-- A withdrawal that takes all of the free stake, and waits for the rest. -/
theorem none_waits_demo : ∃ s, RunWhere Demo.release (State.SpendsFree Demo.release) s ∧
    ∃ pool, s.stakePools.lookup 0 = some pool ∧ pool.withdrawQueue ≠ [] ∧ pool.freeStake ≤ 1000 := by
  have hrun := ranTo_iff.mp (by decide +kernel :
    ranTo (runWhere Demo.release (State.SpendsFree Demo.release) 9 Demo.genesis
      (Demo.setup ++ [.contribute (.user 1) 0 2000000000000, .startMining (.user 0) 0 0 1500000000000,
        .withdraw (.user 1) 0 1000000000000]))
      (fun s => (s.stakePools.lookup 0).any (fun pool => pool.withdrawQueue ≠ []) = true) = true)
  obtain ⟨s, hrun, hs⟩ := hrun
  obtain ⟨pool, hpool, hq⟩ := (Option.any_eq_true _ _).mp hs
  have h : RunWhere Demo.release (State.SpendsFree Demo.release) s :=
    runWhere_reachable (.init Demo.genesis_spec) hrun
  exact ⟨s, h, pool, hpool, of_decide_eq_true hq, none_waits h hpool (of_decide_eq_true hq)⟩

/-- At price one, a free stake of 1001 buys 1000 shares, which are dust: all of a
withdrawal waits, and the free stake stays. -/
theorem some_waits : ∃ s, Reachable Demo.release s ∧
    (s.stakePools.lookup 0).map (fun pool => (pool.freeStake, pool.withdrawQueue)) =
      some (1001, [⟨.user 1, 1000000000000, 1⟩]) := by
  have hrun := ranTo_iff.mp (by decide +kernel :
    ranTo (run Demo.release 9 Demo.genesis (Demo.setup ++ [.contribute (.user 1) 0 2000000000000,
      .startMining (.user 0) 0 0 1999999998999, .withdraw (.user 1) 0 1000000000000]))
      (fun s => (s.stakePools.lookup 0).map (fun pool => (pool.freeStake, pool.withdrawQueue)) =
        some (1001, [⟨.user 1, 1000000000000, 1⟩])) = true)
  obtain ⟨s, hrun, hs⟩ := hrun
  exact ⟨s, Demo.run_genesis hrun, hs⟩

end Khala
