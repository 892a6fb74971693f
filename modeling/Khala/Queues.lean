/-
The withdraw queues are in order: every request is for more shares than dust,
no user has two, and none is older than one before it.

Whatever happens, requests leave the queue, are cut to no less than more than
dust, or come last in place of the same user's earlier one.
-/
import Khala.Sound

namespace Khala

open Outcome

variable {A W : Type} [DecidableEq A] [DecidableEq W] {cfg : Config A W} {s s' : State A W}

theorem Desk.nondust_of_ne_zero {n : ℕ} (h : (extractDust n).1 ≠ 0) : 1000 < (extractDust n).1 := by
  rcases extractDust_fst_cases n with ⟨h0, _⟩ | ⟨he, hlt⟩
  · exact absurd h0 h
  · rw [he]
    exact hlt

omit [DecidableEq A] in
/-- Requests whose shares are cut keep the rest. -/
theorem map_modify_shares {β : Type} {f : WithdrawInfo A → β} (hf : ∀ w shares, f { w with shares } = f w)
    {available idx : ℕ} {q : List (WithdrawInfo A)} :
    ((q.modify idx fun req => { req with shares := available }).map f) = q.map f := by
  refine List.ext_getElem? fun i => ?_
  rw [List.getElem?_map, List.getElem?_map, List.getElem?_modify]
  cases q[i]? with
  | none => rfl
  | some w =>
    simp only [Option.map_some]
    split
    · exact congrArg some (hf w available)
    · rfl

omit [DecidableEq A] in
/-- Requests cut to more than dust are no dust. -/
theorem nondust_reconciledQueue {n idx : ℕ} {q : List (WithdrawInfo A)} (h : ∀ w ∈ q, 1000 < w.shares) :
    ∀ w ∈ reconciledQueue (extractDust n).1 idx q, 1000 < w.shares := by
  intro w hw
  unfold reconciledQueue at hw
  split at hw
  · exact h w (List.mem_of_mem_eraseIdx hw)
  · next hne =>
    obtain ⟨i, hi⟩ := List.mem_iff_getElem?.mp hw
    rw [List.getElem?_modify] at hi
    obtain ⟨w₀, hw₀, he⟩ := Option.map_eq_some_iff.mp hi
    split at he
    · subst he
      exact Desk.nondust_of_ne_zero hne
    · subst he
      exact h w₀ (List.mem_of_getElem? hw₀)

/-! ## One queue -/

/-- Every request is for more than dust, no user has two, and no request is older than one before it. -/
structure QueueInOrder (q : List (WithdrawInfo A)) : Prop where
  nondust : ∀ w ∈ q, 1000 < w.shares
  requesters : (q.map WithdrawInfo.user).Nodup
  ordered : (q.map WithdrawInfo.startTime).Pairwise (· ≤ ·)

namespace QueueInOrder

variable {q q' rest : List (WithdrawInfo A)} {w : WithdrawInfo A}

omit [DecidableEq A] in
theorem nil : QueueInOrder ([] : List (WithdrawInfo A)) := ⟨nofun, List.nodup_nil, List.Pairwise.nil⟩

omit [DecidableEq A] in
theorem sublist (h : QueueInOrder q) (hs : q'.Sublist q) : QueueInOrder q' :=
  ⟨fun w hw => h.nondust w (hs.subset hw), h.requesters.sublist (hs.map _), h.ordered.sublist (hs.map _)⟩

omit [DecidableEq A] in
/-- The requests' shares change, not whose they are or when they were made. -/
theorem of_map (h : QueueInOrder q) (hu : q'.map WithdrawInfo.user = q.map WithdrawInfo.user)
    (ht : q'.map WithdrawInfo.startTime = q.map WithdrawInfo.startTime) (hn : ∀ w ∈ q', 1000 < w.shares) :
    QueueInOrder q' :=
  ⟨hn, hu ▸ h.requesters, ht ▸ h.ordered⟩

omit [DecidableEq A] in
theorem served {shares : ℕ} (h : QueueInOrder (w :: rest)) :
    QueueInOrder (Desk.servedQueue w shares (w :: rest)) := by
  unfold Desk.servedQueue
  dsimp only [List.tail_cons]
  split
  · exact h.sublist (List.sublist_cons_self _ _)
  · next hne =>
    refine h.of_map rfl rfl fun w' hw' => ?_
    rcases List.mem_cons.mp hw' with rfl | hw'
    · exact Desk.nondust_of_ne_zero hne
    · exact h.nondust w' (List.mem_cons_of_mem _ hw')

omit [DecidableEq W] in
theorem fulfilled {price : FixedPoint} {d d' : Desk A W} {user : UserStakeInfo A}
    (h : QueueInOrder d.pool.withdrawQueue) (hq : d.pool.withdrawQueue = w :: rest)
    (hf : d.Fulfilled cfg price w user d') : QueueInOrder d'.pool.withdrawQueue := by
  rw [hq] at h
  rw [hf.queue, hq]
  exact h.served

omit [DecidableEq W] in
theorem tryProcessWithdrawQueue {fuel : ℕ} {d d' : Desk A W} (h : QueueInOrder d.pool.withdrawQueue)
    (hq : d.tryProcessWithdrawQueue cfg fuel = .ok d') : QueueInOrder d'.pool.withdrawQueue := by
  refine (Desk.tryProcessWithdrawQueue_ends (E := fun _ => True) (I := fun d => QueueInOrder d.pool.withdrawQueue)
    trivial (fun d₁ w rest hd _ he _ => ?_) (fun price d₁ w rest user _ hd _ he hu => ?_) h).ok hq
  · rw [he] at hd
    exact hd.sublist (List.sublist_cons_self _ _)
  · exact (Desk.fulfill_ends hu).mono (fun d₂ hf => hd.fulfilled he hf) fun _ _ => trivial

/-- A new request comes last, in place of the user's earlier one. -/
theorem requested {user : A} {now n : ℕ} (h : QueueInOrder q) (hpast : ∀ w ∈ q, w.startTime ≤ now) :
    QueueInOrder (Desk.requestQueue user (extractDust n).1 now q) := by
  unfold Desk.requestQueue
  split
  · next hpos =>
    have hkept := h.sublist (List.filter_sublist (l := q) (p := fun withdraw => withdraw.user ≠ user))
    refine ⟨fun w hw => ?_, ?_, ?_⟩
    · rcases List.mem_append.mp hw with hw | hw
      · exact hkept.nondust w hw
      · rw [List.mem_singleton.mp hw]
        exact Desk.nondust_of_ne_zero hpos.ne'
    · rw [List.map_append]
      refine List.Nodup.append hkept.requesters (by simp) fun x hx hx' => ?_
      obtain ⟨w, hw, rfl⟩ := List.mem_map.mp hx
      have hne := of_decide_eq_true (List.mem_filter.mp hw).2
      simp only [List.map_cons, List.map_nil, List.mem_singleton] at hx'
      exact hne hx'
    · rw [List.map_append]
      refine List.pairwise_append.mpr ⟨hkept.ordered, List.pairwise_singleton _ _, fun x hx y hy => ?_⟩
      obtain ⟨w, hw, rfl⟩ := List.mem_map.mp hx
      simp only [List.map_cons, List.map_nil, List.mem_singleton] at hy
      rw [hy]
      exact hpast w (List.mem_of_mem_filter hw)
  · exact h

omit [DecidableEq A] in
theorem reconciled {n idx : ℕ} (h : QueueInOrder q) : QueueInOrder (reconciledQueue (extractDust n).1 idx q) := by
  have hn : ∀ w ∈ reconciledQueue (extractDust n).1 idx q, 1000 < w.shares := nondust_reconciledQueue h.nondust
  unfold reconciledQueue at hn ⊢
  split at hn
  · next hzero =>
    rw [if_pos hzero]
    exact h.sublist (List.eraseIdx_sublist _ _)
  · next hne =>
    rw [if_neg hne]
    exact h.of_map (map_modify_shares fun _ _ => rfl) (map_modify_shares fun _ _ => rfl) hn

end QueueInOrder

/-! ## All queues -/

namespace State

def QueuesInOrder (s : State A W) : Prop :=
  ∀ pid pool, s.stakePools.lookup pid = some pool → QueueInOrder pool.withdrawQueue

namespace QueuesInOrder

omit [DecidableEq A] [DecidableEq W] in
theorem put {pid : ℕ} {pool' : PoolInfo A W} (h : s.QueuesInOrder)
    (hp : s'.stakePools = s.stakePools.insert pid pool') (hq : QueueInOrder pool'.withdrawQueue) :
    s'.QueuesInOrder := by
  intro pid' p hpool
  rw [hp, StorageMap.lookup_insert_ite] at hpool
  split at hpool
  · cases hpool
    exact hq
  · exact h pid' p hpool

theorem asides {P : Permit} (h : s.QueuesInOrder) (ha : Asides cfg P s s') : s'.QueuesInOrder := by
  intro pid pool' hpool'
  obtain ⟨pool, hpool, hs⟩ := ha.pool_of_lookup hpool'
  exact hs.withdrawQueue ▸ h pid pool hpool

theorem did {op : Op A W} (h : s.QueuesInOrder) (ht : s.Timed s.nowSec s.withdrawalTimestamps)
    (hd : Did cfg s op s') : s'.QueuesInOrder := by
  cases hd with
  | create => exact h.put rfl .nil
  | contribute hpool _ _ hq =>
    have hqueue := h _ _ hpool
    exact h.put rfl (hqueue.tryProcessWithdrawQueue hq)
  | @withdraw who pid shares pool user d user' hpool hu _ _ hw =>
    have hlater : QueueInOrder d.pool.withdrawQueue := by
      obtain ⟨user₁, d₁, -, -, rfl⟩ := hw
      exact (h _ _ hpool).requested (ht.requests _ _ hpool)
    have hpools : (s.scheduled pool shares).stakePools.insert pid d.pool = s.stakePools.insert pid d.pool := by
      rw [(s.scheduled_sameStore pool shares).stakePools]
    exact h.put hpools hlater
  | reconcile hpool _ _ =>
    have hqueue := h _ _ hpool
    exact h.put rfl hqueue.reconciled
  | @start owner pid w stake pool s₁ hpool _ _ hst =>
    have h₁ : s₁.QueuesInOrder := fun pid pool hpool => h pid pool (hst.unchanged.1 ▸ hpool)
    have hqueue := h _ _ hpool
    exact h₁.put rfl hqueue
  | forceStart hst => exact fun pid pool hpool => h pid pool (hst.unchanged.1 ▸ hpool)
  | reclaim hpool _ hq =>
    have hqueue := h _ _ hpool
    exact h.put rfl (hqueue.tryProcessWithdrawQueue hq)
  | balances => exact h
  | time => exact h
  | finalize ha _ => exact h.asides ha
  | aside ha => exact h.asides ha

end QueuesInOrder

end State

/-- The queues are in order in every state that is reached. -/
theorem ReachWhere.queuesInOrder {ok : State A W → Op A W → Prop} (h : RunWhere cfg ok s) : s.QueuesInOrder := by
  refine h.did_invariant _ (fun s hs pid pool hpool => ?_) fun _ _ _ hs hi _ hd => hi.did hs.timed hd
  rw [hs.pools.1] at hpool
  cases hpool

end Khala
