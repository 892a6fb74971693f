/-
What a batch of settled rewards does to the pools.

`on_reward` goes through a batch up to the first worker that is in no pool,
and returns there. Handling each entry alone goes on: the two agree just where
the entries after that worker pay nothing.
-/
import Khala.Agreement

namespace Khala

open Outcome

variable {A W : Type} [DecidableEq W] {s s' : State A W}

theorem U64F64.add_zero (x : U64F64) : x + 0 = x := by
  refine U64F64.ext_bits ?_
  change (x.bits + 0) % 2 ^ 128 = x.bits
  rw [Nat.add_zero, Nat.mod_eq_of_lt x.lt]

theorem U64F64.add_assoc (x y z : U64F64) : x + y + z = x + (y + z) := by
  refine U64F64.ext_bits ?_
  change ((x.bits + y.bits) % 2 ^ 128 + z.bits) % 2 ^ 128 = (x.bits + (y.bits + z.bits) % 2 ^ 128) % 2 ^ 128
  omega

theorem U64F64.add_eq_self {x y : U64F64} : x + y = x ↔ y = 0 := by
  refine ⟨fun h => ?_, fun h => h ▸ x.add_zero⟩
  have hbits : (x.bits + y.bits) % 2 ^ 128 = x.bits := congrArg U64F64.bits h
  have hx := x.lt
  have hy := y.lt
  refine U64F64.bits_eq_zero.mp ?_
  omega

/-! ## One payout -/

namespace PoolInfo

variable (pool : PoolInfo A W) (rewards : ℕ)

/-- The rewards are anything to the pool. -/
def Receives : Prop := rewards > 0 ∧ balanceCloseToZero pool.totalShares = false

instance : Decidable (pool.Receives rewards) := inferInstanceAs (Decidable (_ ∧ _))

/-- What the owner gets of the rewards. -/
def commissionOf : ℕ := if pool.Receives rewards then (pool.payoutCommission.getD Permill.zero).mul rewards else 0

/-- What is left to the stakers, unless it is dust. -/
def distributable : ℕ :=
  if pool.Receives rewards then (extractDust (rewards - pool.commissionOf rewards)).1 else 0

/-- What one share gets of it. -/
def incrementOf : FixedPoint :=
  if pool.distributable rewards = 0 then 0 else toFixed (pool.distributable rewards) / toFixed pool.totalShares

/-- The distribution divides by zero. -/
def Indivisible : Prop := pool.distributable rewards ≠ 0 ∧ (toFixed pool.totalShares).bits = 0

instance : Decidable (pool.Indivisible rewards) := inferInstanceAs (Decidable (_ ∧ _))

/-- The pool with so much more for its owner and for each share. -/
def paid (commission : ℕ) (increment : FixedPoint) : PoolInfo A W :=
  { pool with ownerReward := pool.ownerReward + commission, rewardAcc := pool.rewardAcc + increment }

variable {pool rewards}

omit [DecidableEq W] in
theorem paid_zero : pool.paid 0 0 = pool := by
  simp only [paid, Nat.add_zero, U64F64.add_zero]

omit [DecidableEq W] in
theorem paid_paid {c c' : ℕ} {i i' : FixedPoint} : (pool.paid c i).paid c' i' = pool.paid (c + c') (i + i') := by
  simp only [paid, Nat.add_assoc, U64F64.add_assoc]

omit [DecidableEq W] in
theorem paid_eq_self {c : ℕ} {i : FixedPoint} : pool.paid c i = pool ↔ c = 0 ∧ i = 0 := by
  refine ⟨fun h => ?_, fun ⟨hc, hi⟩ => by rw [hc, hi, paid_zero]⟩
  have hc : pool.ownerReward + c = pool.ownerReward := congrArg PoolInfo.ownerReward h
  have hi : pool.rewardAcc + i = pool.rewardAcc := congrArg PoolInfo.rewardAcc h
  exact ⟨by omega, U64F64.add_eq_self.mp hi⟩

omit [DecidableEq W] in
/-- The owner gets the commission and the accumulator the rest's share. -/
theorem handlePoolNewReward_eq : State.handlePoolNewReward pool rewards =
    if pool.Indivisible rewards then .error (.panic .divideByZero)
    else .ok (pool.paid (pool.commissionOf rewards) (pool.incrementOf rewards)) := by
  unfold State.handlePoolNewReward
  split
  · next hpos =>
    split
    · next hclose =>
      have hn : ¬pool.Receives rewards := fun h => by rw [h.2] at hclose; cases hclose
      simp [Indivisible, incrementOf, distributable, commissionOf, hn, paid_zero]
      rfl
    · next hclose =>
      have hr : pool.Receives rewards := ⟨hpos, by simpa using hclose⟩
      have hc : pool.commissionOf rewards = (pool.payoutCommission.getD Permill.zero).mul rewards := if_pos hr
      have hd : pool.distributable rewards = (extractDust (rewards - pool.commissionOf rewards)).1 := if_pos hr
      have hshares : isNondustBalance pool.totalShares = true := by simpa [isNondustBalance] using hclose
      rw [← hc]
      dsimp only
      split
      · next hnd =>
        have hlt := isNondustBalance_iff.mp hnd
        have hd : pool.distributable rewards = rewards - pool.commissionOf rewards := by
          rw [hd, extractDust_of_lt hlt]
        have hne : pool.distributable rewards ≠ 0 := by omega
        have hi : pool.incrementOf rewards = toFixed (pool.distributable rewards) / toFixed pool.totalShares :=
          if_neg hne
        unfold distributeReward Outcome.require
        by_cases hzero : (toFixed pool.totalShares).bits = 0
        · rw [if_neg fun h => h.2 hzero, if_pos ⟨hne, hzero⟩]
          rfl
        · rw [if_pos ⟨hshares, hzero⟩, if_neg fun h => hzero h.2, paid, hi, hd]
          rfl
      · next hnd =>
        have hle : rewards - pool.commissionOf rewards ≤ 1000 := by
          by_contra hlt
          exact hnd (isNondustBalance_iff.mpr (by omega))
        have hd : pool.distributable rewards = 0 := by rw [hd, extractDust_of_le hle]
        have hi : pool.incrementOf rewards = 0 := if_pos hd
        rw [if_neg fun h => h.1 hd, paid, hi, U64F64.add_zero]
        rfl
  · next hpos =>
    have hn : ¬pool.Receives rewards := fun h => hpos h.1
    simp [Indivisible, incrementOf, distributable, commissionOf, hn, paid_zero]
    rfl

end PoolInfo

/-! ## Batches -/

namespace State

/-- Each entry handled alone, one after the other. -/
def handleEach (s : State A W) (settle : List (SettleInfo W)) : Except Fault (State A W) :=
  settle.foldlM (fun s info => s.onReward [info]) s

/-- Handling the entry does not panic. -/
def Payable (s : State A W) (info : SettleInfo W) : Prop :=
  ∀ pid ∈ s.workerAssignments.lookup info.pubkey,
    ∃ pool ∈ s.stakePools.lookup pid, ¬pool.Indivisible (fromFixed info.payout)

/-- The entries that the batch gets to. -/
def reached (s : State A W) (settle : List (SettleInfo W)) : List (SettleInfo W) :=
  settle.takeWhile fun info => s.workerAssignments.lookup info.pubkey ≠ none

/-- The entries from the first one of a worker in no pool. -/
def dropped (s : State A W) (settle : List (SettleInfo W)) : List (SettleInfo W) :=
  settle.dropWhile fun info => s.workerAssignments.lookup info.pubkey ≠ none

/-- What the entries give a pool's owner. -/
def commissions (s : State A W) (pid : ℕ) (pool : PoolInfo A W) (settle : List (SettleInfo W)) : ℕ :=
  (settle.map fun info =>
    if s.workerAssignments.lookup info.pubkey = some pid then pool.commissionOf (fromFixed info.payout) else 0).sum

/-- What the entries give each share of a pool. -/
def increments (s : State A W) (pid : ℕ) (pool : PoolInfo A W) (settle : List (SettleInfo W)) : FixedPoint :=
  (settle.map fun info =>
    if s.workerAssignments.lookup info.pubkey = some pid then pool.incrementOf (fromFixed info.payout) else 0).sum

/-- The state with every pool paid for its entries. -/
structure PaidFor (s : State A W) (settle : List (SettleInfo W)) (s' : State A W) : Prop where
  pools : ∀ pid, s'.stakePools.lookup pid =
    (s.stakePools.lookup pid).map fun pool => pool.paid (s.commissions pid pool settle)
    (s.increments pid pool settle)
  rest : s' = { s with stakePools := s'.stakePools }

namespace PaidFor

variable {settle : List (SettleInfo W)} {info : SettleInfo W}

theorem assignments (h : s.PaidFor settle s') : s'.workerAssignments = s.workerAssignments := by
  rw [h.rest]

theorem payable (h : s.PaidFor settle s') : s'.Payable info ↔ s.Payable info := by
  unfold Payable
  rw [h.assignments]
  refine forall₂_congr fun pid _ => ?_
  rw [h.pools pid]
  cases s.stakePools.lookup pid with
  | none => simp
  | some pool =>
    simp only [Option.map_some, Option.mem_def, Option.some.injEq, exists_eq_left']
    rfl

/-- Being paid changes nothing of what later entries pay. -/
theorem commissions_eq {settle' : List (SettleInfo W)} {pid c : ℕ} {pool : PoolInfo A W} {i : FixedPoint}
    (h : s.PaidFor settle s') : s'.commissions pid (pool.paid c i) settle' = s.commissions pid pool settle' := by
  unfold commissions
  rw [h.assignments]
  rfl

theorem increments_eq {settle' : List (SettleInfo W)} {pid c : ℕ} {pool : PoolInfo A W} {i : FixedPoint}
    (h : s.PaidFor settle s') : s'.increments pid (pool.paid c i) settle' = s.increments pid pool settle' := by
  unfold increments
  rw [h.assignments]
  rfl

theorem cons {s'' : State A W} (h : s.PaidFor [info] s') (h' : s'.PaidFor settle s'') :
    s.PaidFor (info :: settle) s'' where
  pools pid := by
    rw [h'.pools pid, h.pools pid, Option.map_map]
    refine congrArg (Option.map · _) (funext fun pool => ?_)
    change (pool.paid _ _).paid _ _ = _
    rw [PoolInfo.paid_paid, h.commissions_eq, h.increments_eq]
    simp only [commissions, increments, List.map_cons, List.map_nil, List.sum_cons, List.sum_nil, Nat.add_zero,
      U64F64.add_zero]
  rest := h'.rest.trans (by rw [h.rest])

end PaidFor

variable {settle : List (SettleInfo W)} {info : SettleInfo W}

theorem onReward_cons_none {rest : List (SettleInfo W)} (h : s.workerAssignments.lookup info.pubkey = none) :
    s.onReward (info :: rest) = .ok s := by
  simp only [onReward, h]
  rfl

theorem onReward_cons_some {rest : List (SettleInfo W)} {pid : ℕ} {pool : PoolInfo A W}
    (h : s.workerAssignments.lookup info.pubkey = some pid) (hpool : s.stakePools.lookup pid = some pool) :
    s.onReward (info :: rest) = if pool.Indivisible (fromFixed info.payout) then .error (.panic .divideByZero)
      else (s.putPool pid (pool.paid (pool.commissionOf (fromFixed info.payout))
        (pool.incrementOf (fromFixed info.payout)))).onReward rest := by
  simp only [onReward, h, ensurePool, hpool]
  change (handlePoolNewReward pool _ >>= fun pool => (s.putPool pid pool).onReward rest) = _
  rw [PoolInfo.handlePoolNewReward_eq]
  split
  · rfl
  · rfl

theorem onReward_cons_missing {rest : List (SettleInfo W)} {pid : ℕ}
    (h : s.workerAssignments.lookup info.pubkey = some pid) (hpool : s.stakePools.lookup pid = none) :
    s.onReward (info :: rest) = .error (.panic .stakePoolMustExist) := by
  simp only [onReward, h, ensurePool, hpool]
  rfl

/-- One entry pays its worker's pool, or changes nothing. -/
theorem onReward_single (h : s.Payable info) : ∃ s', s.onReward [info] = .ok s' ∧ s.PaidFor [info] s' := by
  cases hw : s.workerAssignments.lookup info.pubkey with
  | none =>
    refine ⟨s, onReward_cons_none hw, fun pid => ?_, rfl⟩
    simp [commissions, increments, hw, PoolInfo.paid_zero, U64F64.add_zero]
  | some pid =>
    obtain ⟨pool, hpool, hdiv⟩ := h pid hw
    refine ⟨_, (onReward_cons_some hw hpool).trans (if_neg hdiv), fun pid' => ?_, rfl⟩
    rw [lookup_putPool]
    split
    · next he =>
      subst he
      rw [hpool]
      simp [commissions, increments, hw, U64F64.add_zero]
    · next hne =>
      have hw' : s.workerAssignments.lookup info.pubkey ≠ some pid' :=
        fun he => hne (Option.some.inj (he.symm.trans hw))
      simp [commissions, increments, hw', PoolInfo.paid_zero, U64F64.add_zero]

theorem onReward_cons_error (h : ¬s.Payable info) :
    ∃ e, ∀ rest, s.onReward (info :: rest) = .error e := by
  cases hw : s.workerAssignments.lookup info.pubkey with
  | none => exact absurd (fun pid hpid => by rw [hw] at hpid; cases hpid) h
  | some pid =>
    cases hpool : s.stakePools.lookup pid with
    | none => exact ⟨_, fun rest => onReward_cons_missing hw hpool⟩
    | some pool =>
      refine ⟨_, fun rest => (onReward_cons_some hw hpool).trans (if_pos ?_)⟩
      by_contra hdiv
      refine h fun pid' hpid' => ?_
      rw [hw] at hpid'
      cases hpid'
      exact ⟨pool, hpool, hdiv⟩

theorem handleEach_cons (s : State A W) (info : SettleInfo W) (settle : List (SettleInfo W)) :
    s.handleEach (info :: settle) = s.onReward [info] >>= fun s => s.handleEach settle := rfl

theorem handleEach_append (s : State A W) (l l' : List (SettleInfo W)) :
    s.handleEach (l ++ l') = s.handleEach l >>= fun s => s.handleEach l' := List.foldlM_append

theorem handleEach_ok (h : ∀ info ∈ settle, s.Payable info) :
    ∃ s', s.handleEach settle = .ok s' ∧ s.PaidFor settle s' := by
  induction settle generalizing s with
  | nil =>
    refine ⟨s, rfl, fun pid => ?_, rfl⟩
    simp [commissions, increments, PoolInfo.paid_zero]
  | cons info settle ih =>
    obtain ⟨s₁, hs₁, hpaid⟩ := onReward_single (h info List.mem_cons_self)
    obtain ⟨s₂, hs₂, hpaid₂⟩ := ih fun i hi => hpaid.payable.mpr (h i (List.mem_cons_of_mem _ hi))
    refine ⟨s₂, ?_, hpaid.cons hpaid₂⟩
    rw [handleEach_cons, hs₁]
    exact hs₂

theorem handleEach_error (h : ∃ info ∈ settle, ¬s.Payable info) : ∃ e, s.handleEach settle = .error e := by
  induction settle generalizing s with
  | nil =>
    obtain ⟨_, hi, _⟩ := h
    cases hi
  | cons info settle ih =>
    rw [handleEach_cons]
    by_cases hp : s.Payable info
    · obtain ⟨s₁, hs₁, hpaid⟩ := onReward_single hp
      obtain ⟨i, hi, hn⟩ := h
      obtain ⟨e, he⟩ : ∃ e, s₁.handleEach settle = .error e := by
        refine ih ⟨i, (List.mem_cons.mp hi).resolve_left ?_, fun h' => hn (hpaid.payable.mp h')⟩
        rintro rfl
        exact hn hp
      exact ⟨e, by rw [hs₁]; exact he⟩
    · obtain ⟨e, he⟩ := onReward_cons_error hp
      exact ⟨e, by rw [he]; rfl⟩

/-- The batch handles what it reaches. -/
theorem onReward_eq (s : State A W) (settle : List (SettleInfo W)) :
    s.onReward settle = s.handleEach (s.reached settle) := by
  induction settle generalizing s with
  | nil => rfl
  | cons info settle ih =>
    cases hw : s.workerAssignments.lookup info.pubkey with
    | none =>
      rw [onReward_cons_none hw, reached, List.takeWhile_cons_of_neg (by simp [hw])]
      rfl
    | some pid =>
      have hreached : s.reached (info :: settle) = info :: s.reached settle :=
        List.takeWhile_cons_of_pos (by simp [hw])
      rw [hreached, handleEach_cons]
      by_cases hp : s.Payable info
      · obtain ⟨pool, hpool, hdiv⟩ := hp pid hw
        rw [onReward_cons_some hw hpool, onReward_cons_some hw hpool, if_neg hdiv, if_neg hdiv, ih]
        rfl
      · obtain ⟨e, he⟩ := onReward_cons_error hp
        rw [he, he]
        rfl

/-! ## The same effect -/

/-- The same storage: pools are looked up, not listed. -/
structure SameStorage (s s' : State A W) : Prop where
  pools : ∀ pid, s'.stakePools.lookup pid = s.stakePools.lookup pid
  rest : s' = { s with stakePools := s'.stakePools }

/-- Both end well with the same storage, or both panic alike. -/
def SameEffect : Except Fault (State A W) → Except Fault (State A W) → Prop
  | .ok s, .ok s' => s.SameStorage s'
  | .error e, .error e' => e = e'
  | _, _ => False

theorem PaidFor.sameStorage_iff (h : s.PaidFor settle s') : s.SameStorage s' ↔
    ∀ pid pool, s.stakePools.lookup pid = some pool →
      s.commissions pid pool settle = 0 ∧ s.increments pid pool settle = 0 := by
  refine ⟨fun hs pid pool hpool => ?_, fun hs => ⟨fun pid => ?_, h.rest⟩⟩
  · have hp := hs.pools pid
    rw [h.pools pid, hpool] at hp
    exact PoolInfo.paid_eq_self.mp (Option.some.inj hp)
  · rw [h.pools pid]
    cases hpool : s.stakePools.lookup pid with
    | none => rfl
    | some pool => exact congrArg some (PoolInfo.paid_eq_self.mpr (hs pid pool hpool))

end State

/-- **When a batch is handled as its entries are one by one**: where both panic
at an entry that the batch reaches, or the entries from the first worker in no
pool on neither panic nor pay anything to any pool. -/
theorem onReward_sameEffect_iff (s : State A W) (settle : List (SettleInfo W)) :
    State.SameEffect (s.onReward settle) (s.handleEach settle) ↔
      (∃ info ∈ s.reached settle, ¬s.Payable info) ∨
      (∀ info ∈ s.dropped settle, s.Payable info) ∧
        ∀ pid pool, s.stakePools.lookup pid = some pool →
          s.commissions pid pool (s.dropped settle) = 0 ∧ s.increments pid pool (s.dropped settle) = 0 := by
  have hsplit : s.handleEach settle = s.handleEach (s.reached settle) >>= fun s₁ =>
      s₁.handleEach (s.dropped settle) := by
    rw [← State.handleEach_append]
    exact congrArg s.handleEach (List.takeWhile_append_dropWhile).symm
  rw [State.onReward_eq, hsplit]
  by_cases hreached : ∃ info ∈ s.reached settle, ¬s.Payable info
  · obtain ⟨e, he⟩ := State.handleEach_error hreached
    rw [he]
    exact iff_of_true rfl (.inl hreached)
  · have hall : ∀ info ∈ s.reached settle, s.Payable info := fun i hi => by_contra fun hn => hreached ⟨i, hi, hn⟩
    obtain ⟨s₁, hs₁, hpaid⟩ := State.handleEach_ok hall
    rw [hs₁, or_iff_right hreached]
    change State.SameEffect (.ok s₁) (s₁.handleEach (s.dropped settle)) ↔ _
    by_cases hdropped : ∀ info ∈ s.dropped settle, s.Payable info
    · obtain ⟨s₂, hs₂, hpaid₂⟩ := State.handleEach_ok fun i hi => hpaid.payable.mpr (hdropped i hi)
      rw [hs₂, and_iff_right hdropped]
      refine Iff.trans hpaid₂.sameStorage_iff ?_
      -- the entries reached change nothing of what the others pay
      refine forall_congr' fun pid => ?_
      rw [hpaid.pools pid]
      cases s.stakePools.lookup pid with
      | none => simp
      | some pool =>
        simp only [Option.map_some, Option.some.injEq, forall_eq', hpaid.commissions_eq, hpaid.increments_eq]
    · have herr : ∃ info ∈ s.dropped settle, ¬s₁.Payable info := by
        by_contra hn
        exact hdropped fun i hi => by_contra fun h => hn ⟨i, hi, fun h' => h (hpaid.payable.mp h')⟩
      obtain ⟨e, he⟩ := State.handleEach_error herr
      rw [he]
      exact iff_of_false id fun h => hdropped h.1

/-- A worker in no pool comes before one whose pool is due a token: the batch pays nothing. -/
theorem onReward_not_sameEffect : ∃ s, Reachable Demo.release s ∧ s.workerAssignments.lookup 7 = none ∧
    s.workerAssignments.lookup 0 = some 0 ∧
    ¬State.SameEffect (s.onReward [⟨7, 0, 1, 0⟩, ⟨0, 0, 1, 0⟩]) (s.handleEach [⟨7, 0, 1, 0⟩, ⟨0, 0, 1, 0⟩]) := by
  have hrun := ranTo_iff.mp (by decide +kernel :
    ranTo (run Demo.release 9 Demo.genesis (Demo.setup ++ [.contribute (.user 1) 0 1000000000000]))
      (fun s => (s.workerAssignments.lookup 7 = none ∧ s.workerAssignments.lookup 0 = some 0) ∧
        ranTo (s.onReward [⟨7, 0, 1, 0⟩, ⟨0, 0, 1, 0⟩])
          (fun s => (s.stakePools.lookup 0).map PoolInfo.rewardAcc = some 0) = true ∧
        ranTo (s.handleEach [⟨7, 0, 1, 0⟩, ⟨0, 0, 1, 0⟩])
          (fun s => (s.stakePools.lookup 0).map PoolInfo.rewardAcc = some 1) = true) = true)
  obtain ⟨s, hrun, ⟨h₇, h₀⟩, hbatch, heach⟩ := hrun
  refine ⟨s, Demo.run_genesis hrun, h₇, h₀, ?_⟩
  obtain ⟨s₁, hs₁, hacc₁⟩ := ranTo_iff.mp hbatch
  obtain ⟨s₂, hs₂, hacc₂⟩ := ranTo_iff.mp heach
  rw [hs₁, hs₂]
  intro hsame
  rw [hsame.pools 0, hacc₁] at hacc₂
  exact absurd hacc₂ (by decide)

end Khala
