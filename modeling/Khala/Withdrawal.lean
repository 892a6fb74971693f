/-
What a withdrawal pays, what it costs the staker, and what it does to the others.

`remove_stake` rounds shares, the staker's locked stake and the pool's stake
each by its own rule, with one limit of a thousand for shares and for planck.
What the payment falls short of what the removed and the dropped shares are
worth stays in the pool, for all the shares that are left. It costs the staker
what others get of it, which is dust where the dropped shares are cheap and
the free and the locked stake cover the others.
-/
import Khala.ShareValue
import Khala.Shares

namespace Khala

variable {A W : Type} [DecidableEq A] {cfg : Config A W} {s : State A W} {pid : ℕ} {u : A}

namespace PoolInfo

variable {pool pool' : PoolInfo A W} {user user' stored other : UserStakeInfo A} {shares amount dust : ℕ}
  {b : Books A W}

/-- What is asked of a removal of shares of the staker `u`: it pays no more than
a planck over their part of the stake, costs the staker no more than dust, leaves
nothing locked behind no shares, and takes no more than a planck from anybody
else, unless the pool is emptied and all others together had dust. -/
structure FairRemoval (b : Books A W) (pid : ℕ) (u : A) (pool pool' : PoolInfo A W) (user user' : UserStakeInfo A)
    (shares amount : ℕ) : Prop where
  paid : amount * pool.totalShares ≤ shares * pool.totalStake + pool.totalShares
  loss : pool.worth user.shares ≤ amount + pool'.worth user'.shares + 1003
  locked : user'.shares = 0 → user'.locked = 0
  others : (∀ u' other, u' ≠ u → b.poolStakers.lookup (pid, u') = some other →
      pool.worth other.shares ≤ pool'.worth other.shares + 1) ∨
    pool'.totalStake = 0 ∧ b.othersSum pid u (fun other => pool.worth other.shares) ≤ 1000

/-- Of what a payment out of `available` falls short of the worth of the shares, others get at most `n` planck:
they own as much of the shares that are left. -/
def OthersGet (n : ℕ) (pool : PoolInfo A W) (user : UserStakeInfo A) (shares available : ℕ) : Prop :=
  (shares * pool.totalStake - pool.totalShares * available) * (pool.totalShares - user.shares) ≤
    n * (pool.totalShares * (pool.totalShares - shares))

/-- Where the rest of the staker's shares is dust, it is worth at most `n` planck and the free and the
locked stake cover all of the shares but for as much. Where shares stay, the free and the locked stake cover
those that are removed but for dust, or others get at most `n` planck of what they fall short of. -/
def CoversRemoval (n : ℕ) (pool : PoolInfo A W) (user : UserStakeInfo A) (shares : ℕ) : Prop :=
  (user.shares - shares ≤ 1000 →
    (user.shares - shares) * pool.totalStake ≤ n * pool.totalShares ∧
      user.shares * pool.totalStake ≤ pool.totalShares * (pool.freeStake + n) ∧
      user.shares * pool.totalStake ≤ pool.totalShares * (user.locked + n)) ∧
  (1000 < user.shares - shares →
    pool.worth shares ≤ min pool.freeStake user.locked + 1000 ∨
      pool.totalStake ≤ (toFixed (pool.totalShares - shares)).bits ∧
        pool.OthersGet n user shares pool.freeStake ∧ pool.OthersGet n user shares user.locked)

instance (n : ℕ) (pool : PoolInfo A W) (user : UserStakeInfo A) (shares available : ℕ) :
    Decidable (pool.OthersGet n user shares available) :=
  inferInstanceAs (Decidable (_ ≤ _))

instance (n : ℕ) (pool : PoolInfo A W) (user : UserStakeInfo A) (shares : ℕ) :
    Decidable (pool.CoversRemoval n user shares) :=
  inferInstanceAs (Decidable ((_ → _ ∧ _ ∧ _) ∧ (_ → _ ∨ _ ∧ _ ∧ _)))

/-! ## What is paid -/

omit [DecidableEq A] in
theorem Removed.amount_eq_min (h : pool.Removed user shares pool' user' amount dust) :
    amount = min (min (pool.worth shares) pool.freeStake) user.locked := by
  obtain ⟨price, hprice, hamount⟩ := h.amount_eq
  rw [worth_eq hprice]
  exact hamount

omit [DecidableEq A] in
theorem Removed.amount_le_worth (h : pool.Removed user shares pool' user' amount dust) :
    amount ≤ pool.worth shares := by
  have := h.amount_eq_min
  omega

omit [DecidableEq A] in
theorem Removed.paid (hr : pool.InRange) (h : pool.Removed user shares pool' user' amount dust)
    (hle : user.shares ≤ pool.totalShares) :
    amount * pool.totalShares ≤ shares * pool.totalStake + pool.totalShares :=
  (Nat.mul_le_mul_right _ h.amount_le_worth).trans (hr.worth_le (h.shares_le.trans hle)).2

/-! ## What is left -/

omit [DecidableEq A] in
/-- The pool keeps the rest of its stake, unless that is dust. -/
theorem Removed.stake (hr : pool.InRange) (h : pool.Removed user shares pool' user' amount dust)
    (hle : user.shares ≤ pool.totalShares) :
    pool'.totalStake + amount = pool.totalStake ∨ pool'.totalStake = 0 ∧ pool.totalStake ≤ amount + 1000 := by
  have hamount : amount ≤ pool.totalStake :=
    h.amount_le_worth.trans (hr.worth_le (h.shares_le.trans hle)).1
  obtain ⟨rest, hrest, hpool⟩ := h.pool_eq
  have hcases := extractDust_fst_cases rest
  have hstake : pool'.totalStake = if (extractDust rest).1 > 0 then rest else 0 := by rw [hpool]
  rw [hrest hamount] at hcases hstake
  split at hstake
  · exact .inl (by omega)
  · exact .inr (by omega)

omit [DecidableEq A] in
theorem Removed.shares_left (h : pool.Removed user shares pool' user' amount dust) :
    user'.shares = (extractDust (user.shares - shares)).1 := by
  rw [h.user_eq]
  rfl

omit [DecidableEq A] in
theorem Removed.locked_left (h : pool.Removed user shares pool' user' amount dust) :
    user'.locked = (extractDust (user.locked - amount)).1 := by
  rw [h.user_eq]
  rfl

omit [DecidableEq A] in
theorem Removed.totalShares_add_le (h : pool.Removed user shares pool' user' amount dust) :
    pool'.totalShares + shares ≤ pool.totalShares := by
  have hshares := h.shares
  have hleft := h.shares_left
  have hdust := extractDust_fst_le (user.shares - shares)
  have := h.shares_le
  omega

omit [DecidableEq A] in
/-- What the price of the pool left is rounded from. -/
theorem Removed.priced_left (hr : pool.InRange) (h : pool.Removed user shares pool' user' amount dust)
    (hkeep : pool'.totalStake + amount = pool.totalStake) (hpos : 0 < pool'.totalShares) :
    pool'.totalStake < 2 ^ 64 ∧ pool'.totalShares < 2 ^ 64 ∧ ∃ price', pool'.sharePrice = some price' := by
  have hstake := hr.stake
  have hle := h.totalShares_add_le
  have hlt := hr.shares_lt
  have hlt' : pool'.totalShares < 2 ^ 64 := by omega
  exact ⟨by omega, hlt', exists_price (by omega) hlt' hpos⟩

omit [DecidableEq A] in
/-- Shares that stay are worth at most a planck less. -/
theorem Removed.worth_le_succ (hr : pool.InRange) (h : pool.Removed user shares pool' user' amount dust)
    (hle : user.shares ≤ pool.totalShares) (hkeep : pool'.totalStake + amount = pool.totalStake)
    {n : ℕ} (hn : n ≤ pool'.totalShares) : pool.worth n ≤ pool'.worth n + 1 := by
  rcases Nat.eq_zero_or_pos n with rfl | hpos
  · rw [worth_zero]
    exact Nat.zero_le _
  · obtain ⟨hstake', hshares', price', hprice'⟩ := h.priced_left hr hkeep (hpos.trans_le hn)
    obtain ⟨price, hprice, _⟩ := h.amount_eq
    have hadd := h.totalShares_add_le
    have hrange := hr.shares
    have hp := priced hr.stake_lt hr.shares_lt hprice
    have hp' := priced hstake' hshares' hprice'
    obtain ⟨_, hw⟩ := valued hr.stake_lt hr.shares_lt hprice (h.shares_le.trans hle)
    obtain ⟨_, hv⟩ := valued hr.stake_lt hr.shares_lt hprice (show n ≤ pool.totalShares by omega)
    obtain ⟨_, hv'⟩ := valued hstake' hshares' hprice' hn
    have hamount := h.amount_le_worth
    rw [worth_eq hprice] at hamount ⊢
    rw [worth_eq hprice']
    exact hp.worth_le_succ hp' hw hkeep hamount hadd hv hv' hn (by omega)

omit [DecidableEq A] in
/-- The amount and the rest of the staker's shares make up for the whole, but
for what the amount falls short of and three planck. -/
theorem Removed.worth_le_parts (hr : pool.InRange) (h : pool.Removed user shares pool' user' amount dust)
    (hle : user.shares ≤ pool.totalShares) (hkeep : pool'.totalStake + amount = pool.totalStake)
    (hnondust : 1000 < user.shares - shares) :
    pool.worth user.shares ≤ pool.worth shares + pool'.worth user'.shares + 3 := by
  have hleft : user'.shares = user.shares - shares := by rw [h.shares_left, extractDust_of_lt hnondust]
  have hle' := h.shares
  have hn : user'.shares ≤ pool'.totalShares := by omega
  obtain ⟨hstake', hshares', price', hprice'⟩ := h.priced_left hr hkeep (by omega)
  obtain ⟨price, hprice, _⟩ := h.amount_eq
  have hp := priced hr.stake_lt hr.shares_lt hprice
  have hp' := priced hstake' hshares' hprice'
  obtain ⟨_, hw⟩ := valued hr.stake_lt hr.shares_lt hprice (h.shares_le.trans hle)
  obtain ⟨_, hv⟩ := valued hr.stake_lt hr.shares_lt hprice hle
  obtain ⟨_, hv'⟩ := valued hstake' hshares' hprice' hn
  have hamount := h.amount_le_worth
  have hparts : user.shares = shares + user'.shares := by omega
  rw [worth_eq hprice] at hamount
  rw [worth_eq hprice, worth_eq hprice, worth_eq hprice']
  exact hp.worth_le_parts hp' hw hkeep hamount h.totalShares_add_le hv hv' hn hparts hr.price
    hr.stake_lt hr.shares_lt

/-! ## The others -/

/-- The other stakers' shares are those that do not leave, or fewer. -/
theorem others_shares (hagree : pool.totalShares = b.heldShares pid)
    (hu : b.poolStakers.lookup (pid, u) = some stored) :
    b.othersSum pid u (fun other => other.shares) + stored.shares = pool.totalShares := by
  rw [hagree]
  exact Books.othersSum_add hu

theorem other_shares_le {u' : A} (hagree : pool.totalShares = b.heldShares pid)
    (hu : b.poolStakers.lookup (pid, u) = some stored) (hne : u' ≠ u)
    (hu' : b.poolStakers.lookup (pid, u') = some other) :
    other.shares + stored.shares ≤ pool.totalShares := by
  have hsum := others_shares hagree hu
  have hle : other.shares ≤ b.othersSum pid u (fun other => other.shares) :=
    Books.le_stakerSum (f := fun user => user.shares) hu' ⟨rfl, hne⟩
  omega

/-- All others together have, with the shares removed, no more than the pool's stake. -/
theorem others_worth_le (hr : pool.InRange) (hagree : pool.totalShares = b.heldShares pid)
    (hu : b.poolStakers.lookup (pid, u) = some stored) (hle : shares ≤ stored.shares) :
    b.othersSum pid u (fun other => pool.worth other.shares) + pool.worth shares ≤ pool.totalStake := by
  have hsum := others_shares hagree hu
  cases hprice : pool.sharePrice with
  | none =>
    have hzero : ∀ n, pool.worth n = 0 := fun n => by simp only [worth, hprice]
    simp only [hzero]
    have hnone : b.othersSum pid u (fun _ => 0) ≤ b.othersSum pid u fun other => 0 * other.shares :=
      Books.stakerSum_le fun _ _ _ _ => Nat.zero_le _
    rw [Books.othersSum, Books.othersSum, Books.stakerSum_mul, Nat.zero_mul] at hnone
    exact (Nat.add_le_add_right hnone 0).trans (Nat.zero_le _)
  | some price =>
    have hp := priced hr.stake_lt hr.shares_lt hprice
    have hpart : ∀ k other, b.poolStakers.lookup k = some other → k.1 = pid ∧ k.2 ≠ u →
        other.shares ≤ pool.totalShares := by
      intro k other hk hother
      obtain ⟨pid', u'⟩ := k
      obtain ⟨rfl, hne⟩ := hother
      have := other_shares_le hagree hu hne hk
      omega
    have hworth : (toFixed pool.totalShares).bits * b.othersSum pid u (fun other => pool.worth other.shares) ≤
        pool.totalStake * b.othersSum pid u fun other => (toFixed other.shares).bits := by
      unfold Books.othersSum
      rw [← Books.stakerSum_mul, ← Books.stakerSum_mul]
      refine Books.stakerSum_le fun k other hk hother => ?_
      obtain ⟨_, hv⟩ := valued hr.stake_lt hr.shares_lt hprice (hpart k other hk hother)
      rw [worth_eq hprice, Nat.mul_comm, Nat.mul_comm pool.totalStake]
      exact hp.worth_mul_le hv
    have hbits : 10 ^ 12 * b.othersSum pid u (fun other => (toFixed other.shares).bits) ≤
        2 ^ 64 * b.othersSum pid u fun other => other.shares := by
      unfold Books.othersSum
      rw [← Books.stakerSum_mul, ← Books.stakerSum_mul]
      refine Books.stakerSum_le fun k other hk hother => ?_
      exact (toFixed_bounds ((hpart k other hk hother).trans_lt hr.shares_lt)).1
    obtain ⟨_, hv⟩ := valued hr.stake_lt hr.shares_lt hprice (show shares ≤ pool.totalShares by omega)
    have hall : b.othersSum pid u (fun other => (toFixed other.shares).bits) + (toFixed shares).bits ≤
        (toFixed pool.totalShares).bits := by
      have := hv.shares_le
      have := hp.lt_shares
      omega
    refine Nat.le_of_mul_le_mul_left (c := (toFixed pool.totalShares).bits) ?_ hp.shares_pos
    have hlast := hp.worth_mul_le hv
    have hshares : pool.worth shares = bmul shares price := worth_eq hprice
    rw [hshares]
    calc (toFixed pool.totalShares).bits *
          (b.othersSum pid u (fun other => pool.worth other.shares) + bmul shares price)
        = (toFixed pool.totalShares).bits * b.othersSum pid u (fun other => pool.worth other.shares) +
          bmul shares price * (toFixed pool.totalShares).bits := by ring
      _ ≤ pool.totalStake * b.othersSum pid u (fun other => (toFixed other.shares).bits) +
          (toFixed shares).bits * pool.totalStake := Nat.add_le_add hworth hlast
      _ = (b.othersSum pid u (fun other => (toFixed other.shares).bits) + (toFixed shares).bits) *
          pool.totalStake := by ring
      _ ≤ (toFixed pool.totalShares).bits * pool.totalStake := Nat.mul_le_mul_right _ hall

theorem Removed.others (hr : pool.InRange) (h : pool.Removed user shares pool' user' amount dust)
    (hagree : pool.totalShares = b.heldShares pid) (hu : b.poolStakers.lookup (pid, u) = some stored)
    (hsame : user.shares = stored.shares) :
    (∀ u' other, u' ≠ u → b.poolStakers.lookup (pid, u') = some other →
      pool.worth other.shares ≤ pool'.worth other.shares + 1) ∨
    pool'.totalStake = 0 ∧ b.othersSum pid u (fun other => pool.worth other.shares) ≤ 1000 := by
  have hle : user.shares ≤ pool.totalShares := by
    have := others_shares hagree hu
    omega
  rcases h.stake hr hle with hkeep | ⟨hzero, hdust⟩
  · refine .inl fun u' other hne hu' => h.worth_le_succ hr hle hkeep ?_
    have := other_shares_le hagree hu hne hu'
    have := h.shares
    omega
  · have hothers := others_worth_le hr hagree hu (hsame ▸ h.shares_le)
    have := h.amount_le_worth
    exact .inr ⟨hzero, by omega⟩

/-! ## The staker -/

section Arithmetic

variable {T T' S S' s s' k m V V' n o : ℕ}

/-- What is lost by a payment of `m` for `k` shares, of which others get `n`. -/
theorem loss_le (hT : T' + m = T) (hS' : s' + o = S') (hS : S' + k = S) (hs : s' + k = s) (hpos : 0 < S')
    (hV : V * S ≤ s * T + S) (hV' : s' * T' < (V' + 4) * S') (hget : (k * T - S * m) * o ≤ n * (S * S')) :
    V ≤ m + V' + n + 4 := by
  have hshort : k * T ≤ k * T - S * m + S * m := by omega
  generalize k * T - S * m = δ at hget hshort
  subst hT hs hS' hS
  have hpos' : 0 < s' + o + k := by omega
  have h₁ := Nat.mul_le_mul_left (s' + o) hV
  have h₂ := Nat.mul_lt_mul_of_pos_left hV' hpos'
  have h₃ := Nat.mul_le_mul_left o hshort
  refine Nat.lt_succ_iff.mp (Nat.lt_of_mul_lt_mul_left (a := (s' + o) * (s' + o + k)) ?_)
  linarith

/-- What others get of it, where no more than `n` is lost. -/
theorem others_get (hT : T' + m = T) (hS' : s' + o = S') (hS : S' + k = S) (hs : s' + k = s)
    (hV : s * T < (V + 4) * S) (hV' : V' * S' ≤ s' * T' + S') (hloss : V ≤ m + V' + n) :
    (k * T - S * m) * o ≤ (n + 5) * (S * S') := by
  rcases Nat.le_total (k * T) (S * m) with hle | hle
  · rw [Nat.sub_eq_zero_of_le hle, Nat.zero_mul]
    exact Nat.zero_le _
  · have hshort : k * T - S * m + S * m = k * T := Nat.sub_add_cancel hle
    generalize k * T - S * m = δ at hshort
    subst hT hs hS' hS
    have h₁ := Nat.mul_le_mul_left (s' + o) hV.le
    have h₂ := Nat.mul_le_mul_left (s' + o + k) hV'
    have h₃ : o * (δ + (s' + o + k) * m) = o * (k * (T' + m)) := by rw [hshort]
    have h₄ := Nat.mul_le_mul_left ((s' + o) * (s' + o + k)) hloss
    linarith

end Arithmetic

omit [DecidableEq A] in
/-- Shares are worth less than four planck under their part of the stake. -/
theorem InRange.lt_worth (hr : pool.InRange) {price : FixedPoint} (hprice : pool.sharePrice = some price)
    (hle : shares ≤ pool.totalShares) : shares * pool.totalStake < (pool.worth shares + 4) * pool.totalShares := by
  have hp := priced hr.stake_lt hr.shares_lt hprice
  obtain ⟨_, hv⟩ := valued hr.stake_lt hr.shares_lt hprice hle
  rw [worth_eq hprice]
  exact hp.lt_worth_mul hv hle hr.price (hle.trans_lt hr.shares_lt)

omit [DecidableEq A] in
/-- The pool left is in range, where its stake before is no more than the bits of its shares. -/
theorem Removed.inRange_left (hr : pool.InRange) (h : pool.Removed user shares pool' user' amount dust)
    (hkeep : pool'.totalStake + amount = pool.totalStake) (hleft : pool'.totalShares = pool.totalShares - shares)
    (hfits : pool.totalStake ≤ (toFixed (pool.totalShares - shares)).bits) : pool'.InRange := by
  have := hr.stake
  have := hr.shares
  have := h.totalShares_add_le
  refine ⟨by omega, by omega, ?_⟩
  rw [hleft]
  omega

omit [DecidableEq A] in
/-- What a removal that leaves shares costs is what others get of what the payment falls short of. -/
theorem Removed.loss_iff (hr : pool.InRange) (h : pool.Removed user shares pool' user' amount dust)
    (hle : user.shares ≤ pool.totalShares) (hkeep : pool'.totalStake + amount = pool.totalStake)
    (hnondust : 1000 < user.shares - shares) (hfits : pool.totalStake ≤ (toFixed (pool.totalShares - shares)).bits)
    (n : ℕ) :
    (pool.OthersGet n user shares amount → pool.worth user.shares ≤ amount + pool'.worth user'.shares + n + 4) ∧
      (pool.worth user.shares ≤ amount + pool'.worth user'.shares + n →
      pool.OthersGet (n + 5) user shares amount) := by
  have hleft : user'.shares = user.shares - shares := by rw [h.shares_left, extractDust_of_lt hnondust]
  have hshares := h.shares
  have hrest : pool'.totalShares = pool.totalShares - shares := by omega
  have hpos : 0 < pool'.totalShares := by omega
  have hr' := h.inRange_left hr hkeep hrest hfits
  obtain ⟨price, hprice, _⟩ := h.amount_eq
  obtain ⟨price', hprice'⟩ := exists_price hr'.stake hr'.shares_lt hpos
  have hn' : user'.shares ≤ pool'.totalShares := by omega
  have ho : pool.totalShares - user.shares = pool'.totalShares - user'.shares := by omega
  unfold OthersGet
  rw [← hrest, ho]
  constructor
  · intro hget
    exact loss_le hkeep (Nat.add_sub_of_le hn') (by omega) (by omega) hpos (hr.worth_le hle).2
      (hr'.lt_worth hprice' hn') hget
  · intro hloss
    exact others_get hkeep (Nat.add_sub_of_le hn') (by omega) (by omega) (hr.lt_worth hprice hle)
      (hr'.worth_le hn').2 hloss

omit [DecidableEq A] in
/-- Where enough shares stay, only what the amount falls short of is lost. -/
theorem Removed.loss_of_kept (hr : pool.InRange) (h : pool.Removed user shares pool' user' amount dust)
    (hle : user.shares ≤ pool.totalShares) (hnondust : 1000 < user.shares - shares)
    (hcovers : pool.worth shares ≤ amount + 1000) :
    pool.worth user.shares ≤ amount + pool'.worth user'.shares + 1003 := by
  rcases h.stake hr hle with hkeep | ⟨_, hdust⟩
  · have := h.worth_le_parts hr hle hkeep hnondust
    omega
  · have := (hr.worth_le hle).1
    omega

omit [DecidableEq A] in
theorem OthersGet.mono {n n' available available' : ℕ} (h : pool.OthersGet n user shares available) (hn : n ≤ n')
    (hle : available ≤ available') : pool.OthersGet n' user shares available' := by
  have hshort : shares * pool.totalStake - pool.totalShares * available' ≤
      shares * pool.totalStake - pool.totalShares * available :=
    Nat.sub_le_sub_left (Nat.mul_le_mul_left _ hle) _
  exact (Nat.mul_le_mul_right _ hshort).trans (h.trans (Nat.mul_le_mul_right _ hn))

omit [DecidableEq A] in
/-- Others own no more than all of the shares that are left. -/
theorem othersGet_of_short {n available : ℕ} (hle : shares ≤ user.shares)
    (hshort : shares * pool.totalStake ≤ (available + n) * pool.totalShares) :
    pool.OthersGet n user shares available := by
  unfold OthersGet
  rw [Nat.add_mul, Nat.mul_comm available] at hshort
  rw [← Nat.mul_assoc]
  exact Nat.mul_le_mul (by omega) (Nat.sub_le_sub_left hle _)

omit [DecidableEq A] in
/-- The staker's side of a fair removal. -/
theorem Removed.fair_of_covers (hr : pool.InRange) (h : pool.Removed user shares pool' user' amount dust)
    (hle : user.shares ≤ pool.totalShares) (hsettled : user.locked ≤ pool.worth user.shares)
    (hcovers : pool.CoversRemoval 996 user shares) :
    pool.worth user.shares ≤ amount + pool'.worth user'.shares + 1003 ∧ (user'.shares = 0 → user'.locked = 0) := by
  have hamount := h.amount_eq_min
  have hlocked := extractDust_fst_cases (user.locked - amount)
  rw [← h.locked_left] at hlocked
  obtain ⟨price, hprice, _⟩ := h.amount_eq
  have hshares := h.shares_le
  have hlow := hr.lt_worth hprice (hshares.trans hle)
  have hhigh := (hr.worth_le hle).2
  by_cases hdust : user.shares - shares ≤ 1000
  · obtain ⟨hcheap, hfree, hlock⟩ := hcovers.1 hdust
    have hnone : user'.shares = 0 := by rw [h.shares_left, extractDust_of_le hdust]
    have hpos := totalShares_pos hprice
    have hsplit : user.shares * pool.totalStake =
        shares * pool.totalStake + (user.shares - shares) * pool.totalStake := by
      rw [← Nat.add_mul, Nat.add_sub_of_le hshares]
    have hpaid : pool.worth user.shares ≤ amount + 1000 := by
      refine Nat.lt_succ_iff.mp (Nat.lt_of_mul_lt_mul_right (a := pool.totalShares) ?_)
      have hmin : amount = pool.worth shares ∨ amount = pool.freeStake ∨ amount = user.locked := by omega
      rcases hmin with rfl | rfl | rfl
      · linarith
      · linarith
      · linarith
    rw [hnone, worth_zero]
    exact ⟨by omega, fun _ => by omega⟩
  · have hnondust : 1000 < user.shares - shares := Nat.lt_of_not_le hdust
    have hleft : user'.shares = user.shares - shares := by rw [h.shares_left, extractDust_of_lt hnondust]
    refine ⟨?_, fun hzero => by omega⟩
    rcases hcovers.2 hnondust with hcovers | ⟨hfits, hfree, hlock⟩
    · exact h.loss_of_kept hr hle hnondust (by omega)
    · rcases h.stake hr hle with hkeep | ⟨_, hrest⟩
      · have hget : pool.OthersGet 996 user shares amount := by
          have hmin : amount = pool.worth shares ∨ amount = pool.freeStake ∨ amount = user.locked := by omega
          rcases hmin with rfl | rfl | rfl
          · exact (othersGet_of_short hshares hlow.le).mono (by omega) le_rfl
          · exact hfree
          · exact hlock
        have := (h.loss_iff hr hle hkeep hnondust hfits 996).1 hget
        omega
      · have := (hr.worth_le hle).1
        omega

omit [DecidableEq A] in
/-- And of what costs no more than that. -/
theorem Removed.covers_of_loss (hr : pool.InRange) (h : pool.Removed user shares pool' user' amount dust)
    (hle : user.shares ≤ pool.totalShares)
    (hfits : 1000 < user.shares - shares → pool.totalStake ≤ (toFixed (pool.totalShares - shares)).bits)
    (hloss : pool.worth user.shares ≤ amount + pool'.worth user'.shares + 1003) :
    pool.CoversRemoval 1008 user shares := by
  have hamount := h.amount_eq_min
  obtain ⟨price, hprice, _⟩ := h.amount_eq
  have hshares := h.shares_le
  have hlow := hr.lt_worth hprice hle
  have hhigh := (hr.worth_le (hshares.trans hle)).2
  refine ⟨fun hdust => ?_, fun hnondust => ?_⟩
  · have hnone : user'.shares = 0 := by rw [h.shares_left, extractDust_of_le hdust]
    rw [hnone, worth_zero] at hloss
    have hsplit : user.shares * pool.totalStake =
        shares * pool.totalStake + (user.shares - shares) * pool.totalStake := by
      rw [← Nat.add_mul, Nat.add_sub_of_le hshares]
    have hall := Nat.mul_le_mul_right pool.totalShares hloss
    have hworth := Nat.mul_le_mul_right pool.totalShares (show amount ≤ pool.worth shares by omega)
    have hfree := Nat.mul_le_mul_right pool.totalShares (show amount ≤ pool.freeStake by omega)
    have hlocked := Nat.mul_le_mul_right pool.totalShares (show amount ≤ user.locked by omega)
    refine ⟨?_, ?_, ?_⟩
    · linarith
    · linarith
    · linarith
  · have hget : pool.OthersGet 1008 user shares amount := by
      rcases h.stake hr hle with hkeep | ⟨_, hrest⟩
      · exact (h.loss_iff hr hle hkeep hnondust (hfits hnondust) 1003).2 hloss
      · refine (othersGet_of_short (n := 1000) hshares ?_).mono (by omega) le_rfl
        calc shares * pool.totalStake ≤ pool.totalShares * pool.totalStake :=
              Nat.mul_le_mul_right _ (hshares.trans hle)
          _ ≤ pool.totalShares * (amount + 1000) := Nat.mul_le_mul_left _ hrest
          _ = (amount + 1000) * pool.totalShares := Nat.mul_comm _ _
    exact .inr ⟨hfits hnondust, hget.mono le_rfl (by omega), hget.mono le_rfl (by omega)⟩

end PoolInfo

variable [DecidableEq W]

/-- **Fair removals.** For a settled staker of a reachable pool in range a removal is fair where the dropped
shares are cheap and the free and the locked stake cover the others, or others get only dust of what these
fall short of. And only there, but for rounding, where the bits of the shares left are no less than the
stake. -/
theorem removeStake_fair (h : Reachable cfg s) {pool pool' : PoolInfo A W} {stored user user' : UserStakeInfo A}
    {shares amount dust : ℕ} (hpool : s.stakePools.lookup pid = some pool)
    (hstored : s.books.poolStakers.lookup (pid, u) = some stored) (hsame : user.shares = stored.shares)
    (hsettled : pool.settledLocked user = user.locked) (hrange : pool.InRange)
    (hrun : pool.removeStake cfg user shares = .ok (some (pool', user', amount, dust))) :
    (pool.CoversRemoval 996 user shares →
      PoolInfo.FairRemoval s.books pid u pool pool' user user' shares amount) ∧
    (PoolInfo.FairRemoval s.books pid u pool pool' user user' shares amount →
      (1000 < user.shares - shares → pool.totalStake ≤ (toFixed (pool.totalShares - shares)).bits) →
      pool.CoversRemoval 1008 user shares) := by
  have hends : Outcome.Ends (pool.removeStake cfg user shares) _ fun _ => True :=
    PoolInfo.removeStake_ends ⟨trivial, trivial, trivial, trivial⟩ fun _ _ _ => trivial
  have hremoved : pool.Removed user shares pool' user' amount dust := hends.ok hrun
  have hagree : pool.totalShares = s.books.heldShares pid := sharesAgree_of_reachable h pid pool hpool
  have hle : user.shares ≤ pool.totalShares := by
    have := PoolInfo.others_shares hagree hstored
    omega
  constructor
  · intro hc
    have hworth : user.locked ≤ pool.worth user.shares := by
      obtain ⟨price, hprice, _⟩ := hremoved.amount_eq
      rw [PoolInfo.settledLocked_eq hprice] at hsettled
      have := extractDust_fst_le (min (bmul user.shares price) user.locked)
      rw [PoolInfo.worth_eq hprice]
      omega
    obtain ⟨hloss, hlocked⟩ := hremoved.fair_of_covers hrange hle hworth hc
    exact ⟨hremoved.paid hrange hle, hloss, hlocked, hremoved.others hrange hagree hstored hsame⟩
  · intro hf hfits
    exact hremoved.covers_of_loss hrange hle hfits hf.loss

namespace Demo

/-- The pool, and what `payOut` would get from it for shares of a staker. -/
def removal (s : State Account ℕ) (who : Account) (shares : ℕ) :
    Option (PoolInfo Account ℕ × UserStakeInfo Account × PoolInfo Account ℕ × UserStakeInfo Account × ℕ × ℕ) := do
  let pool ← s.stakePools.lookup 0
  let stored ← s.books.poolStakers.lookup (0, who)
  let user := { stored with locked := pool.settledLocked stored }
  let result ← (pool.removeStake release user shares).toOption
  let removed ← result
  pure (pool, user, removed)

theorem removal_spec {s : State Account ℕ} {who : Account} {shares amount dust : ℕ}
    {pool pool' : PoolInfo Account ℕ} {user user' : UserStakeInfo Account}
    (h : removal s who shares = some (pool, user, pool', user', amount, dust)) :
    s.stakePools.lookup 0 = some pool ∧ pool.removeStake release user shares =
    .ok (some (pool', user', amount, dust)) ∧
      ∃ stored, s.books.poolStakers.lookup (0, who) = some stored ∧ user.shares = stored.shares ∧
        user = { stored with locked := pool.settledLocked stored } := by
  simp only [removal, Option.bind_eq_bind, Option.bind_eq_some_iff, Option.pure_def,
    Option.some.injEq, Prod.mk.injEq] at h
  obtain ⟨_, hpool, stored, hstored, result, hrun, removed, hremoved, rfl, rfl, rfl⟩ := h
  refine ⟨hpool, ?_, stored, hstored, rfl, rfl⟩
  cases hr : PoolInfo.removeStake release _ _ shares with
  | error e => rw [hr] at hrun; cases hrun
  | ok r => rw [hr] at hrun; cases hrun; cases hremoved; rfl

/-- One staker leaves dust behind for another one with little stake, which doubles
the price, and comes back. -/
def doubled : List (Op Account ℕ) :=
  [.create (.user 0), .contribute (.user 1) 0 10000000000, .contribute (.user 2) 0 10000000000,
    .withdraw (.user 1) 0 9999998999, .withdraw (.user 2) 0 9999997999, .withdraw (.user 2) 0 1001,
    .contribute (.user 2) 0 10000000000]

end Demo

/-- Half of a stake is with a miner, and more than the other half is removed: what the free stake falls
short of comes back with the shares that stay. -/
theorem removeStake_fair_demo : ∃ s pool user pool' user' amount dust, Reachable Demo.release s ∧
    Demo.removal s (.user 1) 600000000000 = some (pool, user, pool', user', amount, dust) ∧
    amount = 500000000000 ∧ user'.shares = 400000000000 ∧
    PoolInfo.FairRemoval s.books 0 (.user 1) pool pool' user user' 600000000000 amount := by
  obtain ⟨s, hrun, hs⟩ := ranTo_iff.mp (by decide +kernel :
    ranTo (run Demo.release 9 Demo.genesis (Demo.setup ++
      [.contribute (.user 1) 0 1000000000000, .startMining (.user 0) 0 0 500000000000])) (fun s =>
      (Demo.removal s (.user 1) 600000000000).any fun (pool, user, pool', user', amount, dust) =>
        pool.settledLocked user = user.locked ∧ pool.totalStake < 18446744 * 10 ^ 12 ∧
          pool.totalShares < 18446744 * 10 ^ 12 ∧ pool.totalStake ≤ (toFixed pool.totalShares).bits ∧
          pool.CoversRemoval 996 user 600000000000 ∧ amount = 500000000000 ∧ user'.shares = 400000000000) = true)
  obtain ⟨⟨pool, user, pool', user', amount, dust⟩, hremoval, hs⟩ := (Option.any_eq_true _ _).mp hs
  obtain ⟨hsettled, hstake, hshares, hprice, hcovers, hamount, huser⟩ := of_decide_eq_true hs
  obtain ⟨hpool, hremove, stored, hstored, hsame, _⟩ := Demo.removal_spec hremoval
  have hfair := removeStake_fair (Demo.run_genesis hrun) hpool hstored hsame hsettled
      ⟨hstake, hshares, hprice⟩ hremove
  exact ⟨s, pool, user, pool', user', amount, dust, Demo.run_genesis hrun, hremoval,
    hamount, huser, hfair.1 hcovers⟩

/-- At a price of two the dust shares are worth more than dust: they are dropped
with the rest, their two thousand planck stay locked behind no shares. -/
theorem removeStake_drops_worth : ∃ s pool user pool' user' amount dust, Reachable Demo.release s ∧
    Demo.removal s (.user 2) 5002497750 = some (pool, user, pool', user', amount, dust) ∧
    pool.settledLocked user = user.locked ∧ 5002497750 ≤ min user.shares (Desk.freeShares pool 5002497750) ∧
    pool.worth user.shares = 9999999999 ∧ amount = 9999998000 ∧ user'.shares = 0 ∧ user'.locked = 1999 ∧
    ¬PoolInfo.FairRemoval s.books 0 (.user 2) pool pool' user user' 5002497750 amount := by
  obtain ⟨s, hrun, hs⟩ := ranTo_iff.mp (by decide +kernel :
    ranTo (run Demo.release 9 Demo.genesis Demo.doubled) (fun s =>
      (Demo.removal s (.user 2) 5002497750).any fun (pool, user, pool', user', amount, dust) =>
        pool.settledLocked user = user.locked ∧ 5002497750 ≤ min user.shares (Desk.freeShares pool 5002497750) ∧
          pool.worth user.shares = 9999999999 ∧ amount = 9999998000 ∧ user'.shares = 0 ∧ user'.locked = 1999) =
          true)
  obtain ⟨⟨pool, user, pool', user', amount, dust⟩, hremoval, hs⟩ := (Option.any_eq_true _ _).mp hs
  obtain ⟨hsettled, hfree, hworth, hamount, hshares, hlocked⟩ := of_decide_eq_true hs
  refine ⟨s, pool, user, pool', user', amount, dust, Demo.run_genesis hrun, hremoval,
    hsettled, hfree, hworth, hamount,
    hshares, hlocked, fun h => ?_⟩
  have := h.locked hshares
  omega

end Khala
