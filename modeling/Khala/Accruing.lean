/-
What the stakers of a pool are owed, at the desk.

Shares are converted to fixed point, multiplied and converted back, each time
rounded down. Before rounding, a staker's claim is `10^12 * weight * acc`, in
units of `2^-128`, and what is pending is that less the debt. Settling a
staker changes nothing of it. A reset after a change of shares rounds the debt
down, which adds less than one and `10^12 / 2^64` of a unit of the currency.
-/
import Khala.Unlocking

namespace Khala

open Outcome

variable {A W : Type} [DecidableEq A] {cfg : Config A W}

/-! ## What shares draw -/

/-- The shares in fixed point. -/
def weight (shares : ℕ) : ℕ := (toFixed shares).bits

/-- `mul(shares, acc)` is below `2^64`. -/
def Draws (shares acc : ℕ) : Prop := 10 ^ 12 * (weight shares * acc) < 2 ^ 192

instance (shares acc : ℕ) : Decidable (Draws shares acc) := inferInstanceAs (Decidable (_ < _))

/-- What rounding the debt down adds to a claim at most, in units of `2^-128`. -/
def resetSlack : ℕ := 2 ^ 128 + 2 ^ 64 * 10 ^ 12

theorem weight_of_lt {shares : ℕ} (h : shares < 2 ^ 64) :
    weight shares = 2 ^ 64 * shares / 10 ^ 12 := bits_toFixed_of_lt h

theorem weight_zero : weight 0 = 0 := by
  unfold weight
  rw [toFixed_zero]
  rfl

theorem weight_mono {m n : ℕ} (h : m ≤ n) (hn : n < 2 ^ 64) : weight m ≤ weight n := by
  rw [weight_of_lt hn, weight_of_lt (by omega)]
  exact Nat.div_le_div_right (Nat.mul_le_mul_left _ h)

theorem weight_add_le {m n : ℕ} (h : m + n < 2 ^ 64) : weight m + weight n ≤ weight (m + n) := by
  rw [weight_of_lt h, weight_of_lt (by omega), weight_of_lt (by omega)]
  omega

/-- Together the shares weigh at least what they weigh one by one. -/
theorem weight_sum_le {l : List ℕ} (h : l.sum < 2 ^ 64) : (l.map weight).sum ≤ weight l.sum := by
  induction l with
  | nil => exact Nat.zero_le _
  | cons n l ih =>
    rw [List.sum_cons] at h
    rw [List.map_cons, List.sum_cons, List.sum_cons]
    have := ih (by omega)
    have := weight_add_le h
    omega

theorem Draws.mono {m n acc : ℕ} (h : Draws n acc) (hmn : m ≤ n) (hn : n < 2 ^ 64) : Draws m acc := by
  refine lt_of_le_of_lt ?_ h
  exact Nat.mul_le_mul_left _ (Nat.mul_le_mul_right _ (weight_mono hmn hn))

theorem draws_zero (acc : ℕ) : Draws 0 acc := by
  unfold Draws
  rw [weight_zero, Nat.zero_mul]
  norm_num

/-- The product that is converted back, where it fits. -/
theorem bmul_of_draws {shares : ℕ} {acc : FixedPoint} (h : Draws shares acc.bits) :
    bmul shares acc = 10 ^ 12 * (weight shares * acc.bits / 2 ^ 64) / 2 ^ 64 := by
  unfold Draws at h
  have hbits : (toFixed shares * acc).bits = weight shares * acc.bits / 2 ^ 64 :=
    U64F64.bits_mul_of_lt (by unfold weight at h; omega)
  unfold bmul
  rw [fromFixed_of_lt (by rw [hbits]; omega), hbits]

theorem bmul_le {shares : ℕ} {acc : FixedPoint} (h : Draws shares acc.bits) :
    2 ^ 128 * bmul shares acc ≤ 10 ^ 12 * (weight shares * acc.bits) := by
  rw [bmul_of_draws h]
  omega

theorem lt_bmul {shares : ℕ} {acc : FixedPoint} (h : Draws shares acc.bits) :
    10 ^ 12 * (weight shares * acc.bits) < 2 ^ 128 * bmul shares acc + resetSlack := by
  rw [bmul_of_draws h]
  unfold resetSlack
  omega

/-- A greater accumulator draws no less. -/
theorem bmul_mono {shares : ℕ} {acc acc' : FixedPoint} (h : Draws shares acc'.bits) (hle : acc.bits ≤ acc'.bits) :
    bmul shares acc ≤ bmul shares acc' := by
  have hmul : weight shares * acc.bits ≤ weight shares * acc'.bits := Nat.mul_le_mul_left _ hle
  have h' : Draws shares acc.bits := lt_of_le_of_lt (Nat.mul_le_mul_left _ hmul) h
  rw [bmul_of_draws h, bmul_of_draws h']
  exact Nat.div_le_div_right (Nat.mul_le_mul_left _ (Nat.div_le_div_right hmul))

/-! ## One staker's claim -/

/-- The staker's record was changed where the accumulator is `acc`, with at most
`resets` resets after a change of shares. -/
structure UserStakeInfo.Credited (acc : FixedPoint) (resets : ℕ) (user user' : UserStakeInfo A) : Prop where
  draws : Draws user'.shares acc.bits
  debt : user'.rewardDebt ≤ bmul user'.shares acc
  claim : 2 ^ 128 * user'.availableRewards + 10 ^ 12 * (weight user'.shares * acc.bits) +
    2 ^ 128 * user.rewardDebt ≤
    2 ^ 128 * user.availableRewards + 10 ^ 12 * (weight user.shares * acc.bits) + 2 ^ 128 * user'.rewardDebt +
      resetSlack * resets

/-- What has been drawn is drawn once. -/
structure UserStakeInfo.Clear (acc : FixedPoint) (user : UserStakeInfo A) : Prop where
  small : user.shares < 2 ^ 64
  draws : Draws user.shares acc.bits
  debt : user.rewardDebt ≤ bmul user.shares acc

namespace UserStakeInfo

variable {acc : FixedPoint} {user user' user'' : UserStakeInfo A} {m n : ℕ}

omit [DecidableEq A] in
theorem Credited.trans (h : Credited acc m user user') (h' : Credited acc n user' user'') :
    Credited acc (m + n) user user'' := by
  refine ⟨h'.draws, h'.debt, ?_⟩
  have := h.claim
  have := h'.claim
  rw [Nat.mul_add]
  omega

omit [DecidableEq A] in
/-- The pending reward is paid into the available one. -/
theorem Clear.settle {pool : PoolInfo A W} (h : user.Clear pool.rewardAcc)
    (hu : pool.settleUserPendingReward cfg user = .ok user') :
    Credited pool.rewardAcc 0 user user' ∧ user'.Clear pool.rewardAcc ∧ user'.shares = user.shares ∧
      user'.user = user.user := by
  unfold PoolInfo.settleUserPendingReward PoolInfo.pendingReward at hu
  rw [Config.sub_of_le cfg h.debt] at hu
  cases hu
  have hdebt := h.debt
  refine ⟨⟨h.draws, le_rfl, ?_⟩, ⟨h.small, h.draws, le_rfl⟩, rfl, rfl⟩
  simp only [PoolInfo.resetPendingReward, Accumulator.clearPending]
  omega

omit [DecidableEq A] in
/-- A change of shares with a reset. -/
theorem Clear.reset (h : user.Clear acc) (hshares : user'.shares < 2 ^ 64) (hdraws : Draws user'.shares acc.bits)
    (hdebt : user'.rewardDebt = bmul user'.shares acc)
    (havailable : user'.availableRewards = user.availableRewards) :
    Credited acc 1 user user' ∧ user'.Clear acc := by
  refine ⟨⟨hdraws, hdebt.le, ?_⟩, ⟨hshares, hdraws, hdebt.le⟩⟩
  have hold := bmul_le h.draws
  have hnew := lt_bmul hdraws
  have hle := h.debt
  rw [hdebt, havailable]
  omega

end UserStakeInfo

/-! ## The stakers' claims at a desk -/

namespace Books

variable (pid : ℕ) (b : Books A W)

/-- How often a staker's shares in the pool were changed, each time with a reset. -/
def resets : ℕ := b.history.countP fun t => t.kind ≠ .settle ∧ t.pool.pid = pid

def available : ℕ := b.stakerSum (fun k => k.1 = pid) fun user => user.availableRewards

def debts : ℕ := b.stakerSum (fun k => k.1 = pid) fun user => user.rewardDebt

def weights : ℕ := b.stakerSum (fun k => k.1 = pid) fun user => weight user.shares

variable {pid b}

theorem poolSum_put {u : A} {old : UserStakeInfo A} (f : UserStakeInfo A → ℕ) (user : UserStakeInfo A)
    (hu : b.poolStakers.lookup (pid, u) = some old) :
    (b.putStaker pid u user).stakerSum (fun k => k.1 = pid) f + f old =
    b.stakerSum (fun k => k.1 = pid) f + f user := by
  have h := stakerSum_put (p := fun k => k.1 = pid) (f := f) user hu
  rwa [if_pos rfl, if_pos rfl] at h

end Books

/-- The desk `d` with the staker `u`'s record rewritten, and so many resets more. -/
structure Desk.Rewritten (d : Desk A W) (u : A) (user' : UserStakeInfo A) (resets : ℕ) (d' : Desk A W) : Prop where
  pid : d'.pool.pid = d.pool.pid
  rewardAcc : d'.pool.rewardAcc = d.pool.rewardAcc
  ownerReward : d'.pool.ownerReward = d.pool.ownerReward
  stakers : d'.books.poolStakers = d.books.poolStakers.insert (d.pool.pid, u) user'
  resets : d'.books.resets d.pool.pid = d.books.resets d.pool.pid + resets

/-- What the owner and the stakers got and are owed is covered by what was
handed to the pool, and by a slack for each reset. -/
structure Desk.Accrued (d : Desk A W) (paid handed : ℕ) : Prop where
  clear : ∀ u user, d.books.poolStakers.lookup (d.pool.pid, u) = some user → user.Clear d.pool.rewardAcc
  bound : 2 ^ 128 * (paid + d.pool.ownerReward + d.books.available d.pool.pid) +
      10 ^ 12 * (d.books.weights d.pool.pid * d.pool.rewardAcc.bits) ≤
    2 ^ 128 * (handed + d.books.debts d.pool.pid) + resetSlack * d.books.resets d.pool.pid

namespace Desk

variable {d d' : Desk A W} {u : A} {user user₁ user' : UserStakeInfo A} {paid handed n : ℕ}

/-- A staker's record is rewritten within its claim. -/
theorem Accrued.rewrite (h : d.Accrued paid handed) (hu : d.books.poolStakers.lookup (d.pool.pid, u) = some user)
    (hw : d.Rewritten u user' n d') (hc : UserStakeInfo.Credited d.pool.rewardAcc n user user')
    (hclear : user'.Clear d.pool.rewardAcc) : d'.Accrued paid handed := by
  have hsum (f : UserStakeInfo A → ℕ) : d'.books.stakerSum (fun k => k.1 = d.pool.pid) f + f user =
      d.books.stakerSum (fun k => k.1 = d.pool.pid) f + f user' := by
    rw [← Books.poolSum_put f user' hu]
    exact congrArg (· + f user) (Books.stakerSum_congr hw.stakers)
  have havailable := hsum fun user => user.availableRewards
  have hdebts := hsum fun user => user.rewardDebt
  have hweights : d'.books.weights d.pool.pid * d.pool.rewardAcc.bits +
      weight user.shares * d.pool.rewardAcc.bits =
      d.books.weights d.pool.pid * d.pool.rewardAcc.bits + weight user'.shares * d.pool.rewardAcc.bits := by
    rw [← Nat.add_mul, ← Nat.add_mul]
    exact congrArg (· * d.pool.rewardAcc.bits) (hsum fun user => weight user.shares)
  refine ⟨fun v userᵥ hv => ?_, ?_⟩
  · rw [hw.pid, hw.stakers, StorageMap.lookup_insert_ite] at hv
    rw [hw.rewardAcc]
    split at hv
    · cases hv
      exact hclear
    · exact h.clear v userᵥ hv
  · have hbound := h.bound
    have hclaim := hc.claim
    rw [hw.pid, hw.rewardAcc, hw.ownerReward, hw.resets, Nat.mul_add resetSlack]
    change d'.books.available d.pool.pid + _ = d.books.available d.pool.pid + _ at havailable
    change d'.books.debts d.pool.pid + _ = d.books.debts d.pool.pid + _ at hdebts
    omega

theorem Accrued.setQueue (h : d.Accrued paid handed) (queue : List (WithdrawInfo A)) :
    (d.setQueue queue).Accrued paid handed := ⟨h.clear, h.bound⟩

/-! ## Paying out -/

omit [DecidableEq A] in
theorem resets_touch (b : Books A W) (pool : PoolInfo A W) (user : UserStakeInfo A) (kind : TouchKind) :
    (b.touch kind pool user).resets pool.pid = b.resets pool.pid + if kind = .settle then 0 else 1 := by
  unfold Books.resets Books.touch
  cases kind with
  | settle => simp
  | add => simp
  | remove => simp

omit [DecidableEq A] in
theorem resets_of_history {b b' : Books A W} {pid : ℕ} (h : b'.history = b.history) :
    b'.resets pid = b.resets pid := by
  unfold Books.resets
  rw [h]

theorem resets_settled (b : Books A W) (pool : PoolInfo A W) (user : UserStakeInfo A) :
    (b.settled cfg pool user).resets pool.pid = b.resets pool.pid := by
  have h := resets_touch b pool user .settle
  rw [if_pos rfl] at h
  rw [← Nat.add_zero (b.resets pool.pid), ← h]
  exact resets_of_history Books.history_settled

/-- The staker is settled, and then paid out. -/
theorem PaidOut.rewritten {shares : ℕ} (h : d.PaidOut cfg user₁ shares d' user')
    (hc : user₁.Clear d.pool.rewardAcc) :
    d.Rewritten u user' 1 ⟨d'.pool, d'.books.putStaker d.pool.pid u user'⟩ ∧
      UserStakeInfo.Credited d.pool.rewardAcc 1 user₁ user' ∧ user'.Clear d.pool.rewardAcc := by
  obtain ⟨amount, dust, hr, hb⟩ := h
  obtain ⟨rest, -, hpool⟩ := hr.pool_eq
  have hshares : user'.shares ≤ user₁.shares := by
    rw [hr.user_eq]
    exact (extractDust_fst_le _).trans (Nat.sub_le _ _)
  refine ⟨⟨?_, ?_, ?_, ?_, ?_⟩, ?_⟩
  · rw [hpool]
  · rw [hpool]
  · rw [hpool]
  · rw [hb]
    change AList.insert _ _ (Books.reduced _ _ _ _ _).poolStakers = _
    rw [Books.reduced_poolStakers, Books.touch_poolStakers, Books.settled_poolStakers]
  · have hhistory : (d'.books.putStaker d.pool.pid u user').history =
        ((d.books.settled cfg d.pool user₁).touch (.remove shares) d.pool
          { user₁ with locked := d.pool.settledLocked user₁ }).history := by
      rw [hb]
      exact Books.history_reduced
    rw [resets_of_history hhistory, resets_touch, if_neg (by nofun), resets_settled]
  · refine hc.reset (lt_of_le_of_lt hshares hc.small) (hc.draws.mono hshares hc.small) ?_ ?_
    · rw [hr.user_eq]
      rfl
    · rw [hr.user_eq]
      rfl

/-- One request is served. -/
theorem Accrued.fulfill {price : FixedPoint} {w : WithdrawInfo A} (h : d.Accrued paid handed)
    (hu : d.books.poolStakers.lookup (d.pool.pid, w.user) = some user) :
    Ends (d.fulfill cfg price w user) (fun d' => d'.Accrued paid handed) fun _ => True := by
  have hclear := h.clear _ _ hu
  refine Ends.bind (PoolInfo.settleUserPendingReward_ends trivial).result fun user₁ ⟨hsettle, hs, _⟩ => ?_
  obtain ⟨hcredited, hclear₁, -, -⟩ := hclear.settle hsettle
  refine Ends.bind (cfg.debugAssert_ends fun _ => trivial) fun _ _ => ?_
  refine Ends.bind ((payOut_ends hu hs (.inl rfl)).mono (fun _ h => h) fun _ _ => trivial) ?_
  rintro ⟨d₁, user₂⟩ hpaid
  obtain ⟨hw, hcredited₂, hclear₂⟩ := PaidOut.rewritten (u := w.user) hpaid hclear₁
  obtain ⟨amount, dust, hr, -⟩ := hpaid
  have hfinal := h.rewrite hu hw ((Nat.zero_add 1) ▸ hcredited.trans hcredited₂) hclear₂
  have hreset : d₁.pool.resetPendingReward user₂ = user₂ := hr.reset
  dsimp only
  rw [hreset]
  exact hfinal.setQueue _

theorem Accrued.processQueue {fuel : ℕ} (h : d.Accrued paid handed) :
    Ends (d.tryProcessWithdrawQueue cfg fuel) (fun d' => d'.Accrued paid handed) fun _ => True := by
  refine tryProcessWithdrawQueue_ends trivial (fun d₁ w rest h₁ _ _ _ => h₁.setQueue rest) ?_ h
  intro price d₁ w rest user _ h₁ _ _ hu
  exact h₁.fulfill hu

/-- A withdrawal, with the record that is stored after it. -/
theorem Accrued.tryWithdraw {shares now : ℕ} (h : d.Accrued paid handed)
    (hu : d.books.poolStakers.lookup (d.pool.pid, u) = some user) :
    Ends (d.tryWithdraw cfg user shares now)
      (fun (d', user') => Desk.Accrued ⟨d'.pool, d'.books.putStaker d.pool.pid u user'⟩ paid handed)
      fun _ => True := by
  have hclear := h.clear _ _ hu
  refine Ends.bind (PoolInfo.settleUserPendingReward_ends trivial).result fun user₁ ⟨hsettle, hs, hreset₁⟩ => ?_
  obtain ⟨hcredited, hclear₁, -, -⟩ := hclear.settle hsettle
  split
  · refine Ends.bind ((payOut_ends hu hs (.inr rfl)).mono (fun _ h => h) fun _ _ => trivial) ?_
    rintro ⟨d₁, user₂⟩ hpaid
    obtain ⟨hw, hcredited₂, hclear₂⟩ := PaidOut.rewritten (u := u) hpaid hclear₁
    obtain ⟨amount, dust, hr, -⟩ := hpaid
    have hfinal := h.rewrite hu hw ((Nat.zero_add 1) ▸ hcredited.trans hcredited₂) hclear₂
    have hreset : d₁.pool.resetPendingReward user₂ = user₂ := hr.reset
    exact Eq.subst (motive := fun r => Desk.Accrued ⟨_, d₁.books.putStaker d.pool.pid u r⟩ paid handed) hreset.symm
      (hfinal.setQueue _)
  · have hw : d.Rewritten u user₁ 0 ⟨d.pool, d.books.putStaker d.pool.pid u user₁⟩ := ⟨rfl, rfl, rfl, rfl, rfl⟩
    have hfinal := h.rewrite hu hw hcredited hclear₁
    exact Eq.subst (motive := fun r => Desk.Accrued ⟨_, d.books.putStaker d.pool.pid u r⟩ paid handed) hreset₁.symm
      (hfinal.setQueue _)

end Desk

end Khala
