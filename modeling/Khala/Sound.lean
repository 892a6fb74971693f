/-
The records, the bindings and the timetable are in order in every reachable
state, which is what `exec_ends` asks for; so an invariant may be proved from
the cases of `Did` alone (`ReachWhere.did_invariant`).
-/
import Khala.Stakers

namespace Khala

open Outcome Relation

variable {A W : Type} {cfg : Config A W} {s s' : State A W} {P : Permit}

/-! ## What the queue's loop leaves of the requests -/

/-- Requests of `q` only, some of them cut. -/
def QueueShrinks (q q' : List (WithdrawInfo A)) : Prop :=
  ∀ w ∈ q', ∃ w₀ ∈ q, w.user = w₀.user ∧ w.startTime = w₀.startTime ∧ w.shares ≤ w₀.shares

namespace QueueShrinks

variable {q q' q'' : List (WithdrawInfo A)}

theorem refl (q : List (WithdrawInfo A)) : QueueShrinks q q := fun w hw => ⟨w, hw, rfl, rfl, le_rfl⟩

theorem trans (h : QueueShrinks q q') (h' : QueueShrinks q' q'') : QueueShrinks q q'' := by
  intro w hw
  obtain ⟨w₁, hw₁, hu₁, ht₁, hs₁⟩ := h' w hw
  obtain ⟨w₀, hw₀, hu₀, ht₀, hs₀⟩ := h w₁ hw₁
  exact ⟨w₀, hw₀, hu₁.trans hu₀, ht₁.trans ht₀, hs₁.trans hs₀⟩

theorem of_subset (h : ∀ w ∈ q', w ∈ q) : QueueShrinks q q' := fun w hw => ⟨w, h w hw, rfl, rfl, le_rfl⟩

theorem served {w : WithdrawInfo A} {rest : List (WithdrawInfo A)} {shares : ℕ} :
    QueueShrinks (w :: rest) (Desk.servedQueue w shares (w :: rest)) := by
  unfold Desk.servedQueue
  dsimp only
  split
  · exact of_subset fun w' hw' => List.mem_cons_of_mem _ hw'
  · intro w' hw'
    rcases List.mem_cons.mp hw' with rfl | hw'
    · refine ⟨w, List.mem_cons_self, rfl, rfl, ?_⟩
      exact (extractDust_fst_le _).trans (Nat.sub_le _ _)
    · exact ⟨w', List.mem_cons_of_mem _ hw', rfl, rfl, le_rfl⟩

theorem reconciled {available idx : ℕ} (h : ∀ w ∈ q[idx]?, available ≤ w.shares) :
    QueueShrinks q (reconciledQueue available idx q) := by
  unfold reconciledQueue
  split
  · exact of_subset fun w hw => List.mem_of_mem_eraseIdx hw
  · intro w hw
    obtain ⟨i, hi⟩ := List.mem_iff_getElem?.mp hw
    rw [List.getElem?_modify] at hi
    obtain ⟨w₀, hw₀, he⟩ := Option.map_eq_some_iff.mp hi
    refine ⟨w₀, List.mem_of_getElem? hw₀, ?_⟩
    split at he
    · next hidx =>
      subst he
      exact ⟨rfl, rfl, h w₀ (hidx ▸ hw₀)⟩
    · subst he
      exact ⟨rfl, rfl, le_rfl⟩

end QueueShrinks

variable [DecidableEq A]

/-- The request that is cut asks for more than is available. -/
theorem QueueShrinks.of_findIdx {q : List (WithdrawInfo A)} {account : A} {available idx : ℕ}
    (h : (q.findIdx? fun req => req.user = account ∧ req.shares > available) = some idx) :
    QueueShrinks q (reconciledQueue available idx q) := by
  obtain ⟨hlt, hp, _⟩ := List.findIdx?_eq_some_iff_getElem.mp h
  refine .reconciled fun w hw => ?_
  rw [List.getElem?_eq_getElem hlt] at hw
  cases hw
  exact (of_decide_eq_true hp).2.le

/-- A request in the queue is a new one or was there. -/
theorem mem_requestQueue {user : A} {shares now : ℕ} {q : List (WithdrawInfo A)} {w : WithdrawInfo A}
    (h : w ∈ Desk.requestQueue user shares now q) :
    w.startTime = now ∨ ∃ w₀ ∈ q, w.startTime = w₀.startTime := by
  unfold Desk.requestQueue at h
  split at h
  · rcases List.mem_append.mp h with h | h
    · exact .inr ⟨w, List.mem_of_mem_filter h, rfl⟩
    · exact .inl (by rw [List.mem_singleton.mp h])
  · exact .inr ⟨w, h, rfl⟩

theorem Desk.Fulfilled.queue {price : FixedPoint} {d d' : Desk A W} {w : WithdrawInfo A} {user : UserStakeInfo A}
    (h : d.Fulfilled cfg price w user d') : d'.pool.withdrawQueue =
      servedQueue w (withdrawingShares price d.pool w) d.pool.withdrawQueue := by
  obtain ⟨user₁, d₁, user₂, _, _, rfl⟩ := h
  rfl

theorem Desk.tryProcessWithdrawQueue_shrinks {fuel : ℕ} {d d' : Desk A W}
    (h : d.tryProcessWithdrawQueue cfg fuel = .ok d') :
    QueueShrinks d.pool.withdrawQueue d'.pool.withdrawQueue := by
  refine (tryProcessWithdrawQueue_ends (E := fun _ => True)
    (I := fun d₁ => QueueShrinks d.pool.withdrawQueue d₁.pool.withdrawQueue) trivial ?_ ?_ (.refl _)).ok h
  · intro d₁ w rest hq _ he _
    refine hq.trans (.of_subset fun w' hw' => ?_)
    rw [he]
    exact List.mem_cons_of_mem _ hw'
  · intro price d₁ w rest user _ hq _ he hu
    refine (fulfill_ends hu).mono (fun d₂ h₂ => hq.trans ?_) fun _ _ => trivial
    rw [h₂.queue, he]
    exact .served

theorem Move.workers_eq {d d' : Desk A W} (h : Move cfg d d') : d'.pool.workers = d.pool.workers := by
  cases h with
  | remove _ hr => exact hr.unchanged.2.2.2.2
  | _ => rfl

theorem Moves.workers_eq {d d' : Desk A W} (h : Moves cfg d d') : d'.pool.workers = d.pool.workers := by
  induction h with
  | refl => rfl
  | tail _ h ih => rw [h.workers_eq, ih]

variable [DecidableEq W]

namespace State

/-! ## The bindings -/

omit [DecidableEq W] in
theorem WellFiled.fresh (h : s.WellFiled) : s.stakePools.lookup s.poolCount = none := by
  by_contra hn
  obtain ⟨pool, hpool⟩ := Option.ne_none_iff_exists'.mp hn
  exact absurd (h.pool _ _ hpool).2 (Nat.lt_irrefl _)

theorem Bound.create (h : s.Bound cfg) (hf : s.WellFiled) (owner : A) : (s.create owner).Bound cfg where
  assigned w pid := by
    have hp : (s.create owner).stakePools.lookup pid = _ := StorageMap.lookup_insert_ite _ _ _ _
    rw [show (s.create owner).workerAssignments = s.workerAssignments from rfl, h.assigned w pid, hp]
    split
    · next he =>
      rw [he, hf.fresh]
      simp
    · rfl
  nodup pid pool hpool := by
    have hp : (s.create owner).stakePools.lookup pid = _ := StorageMap.lookup_insert_ite _ _ _ _
    rw [hp] at hpool
    split at hpool
    · cases hpool
      exact List.nodup_nil
    · exact h.nodup pid pool hpool
  bound := h.bound
  inverse := h.inverse
  miner := h.miner
  worker := h.worker

/-- A pool with the same workers is stored, and nothing of miners changes but records. -/
theorem Bound.of_put {pid : ℕ} {pool pool' : PoolInfo A W} (h : s.Bound cfg)
    (hpool : s.stakePools.lookup pid = some pool) (hp : s'.stakePools = s.stakePools.insert pid pool')
    (hw : pool'.workers = pool.workers) (ha : s'.workerAssignments = s.workerAssignments)
    (hm : s'.mining.minerBindings = s.mining.minerBindings)
    (hb : s'.mining.workerBindings = s.mining.workerBindings)
    (hi : ∀ m, s.mining.miners.lookup m ≠ none → s'.mining.miners.lookup m ≠ none)
    (hr : s'.registry = s.registry) : s'.Bound cfg :=
  (h.putPool hpool hw).of_eq hp ha hm hb hi fun _ hw => hr ▸ hw

omit [DecidableEq W] in
theorem lookup_putMiner_ne_none {m m' : A} {info : MinerInfo} (h : s.mining.miners.lookup m' ≠ none) :
    (s.mining.miners.insert m info).lookup m' ≠ none := by
  rw [StorageMap.lookup_insert_ite]
  split
  · nofun
  · exact h

theorem Bound.did {op : Op A W} (h : s.Bound cfg) (hf : s.WellFiled) (hd : Did cfg s op s') : s'.Bound cfg := by
  cases hd with
  | create => exact h.create hf _
  | contribute hpool _ _ hq =>
    have hm := (Desk.tryProcessWithdrawQueue_moves.ok hq).workers_eq
    exact h.of_put hpool rfl hm rfl rfl rfl (fun _ hm => hm) rfl
  | @withdraw who pid shares pool user d user' hpool hu _ _ hw =>
    obtain ⟨rfl, -⟩ := hf.pool pid pool hpool
    have hs := s.scheduled_sameStore pool shares
    generalize s.scheduled pool shares = s₁ at hs ⊢
    have ht : s₁.Bound cfg := h.of_eq hs.stakePools hs.workerAssignments hs.minerBindings
      hs.workerBindings (fun _ hm => hs.miners ▸ hm) hs.registry
    have hm : d.pool.workers = pool.workers := (hw.moves (u := who) hu).workers_eq
    exact ht.of_put (hs.stakePools ▸ hpool) rfl hm rfl rfl rfl (fun _ hm => hm) rfl
  | reconcile hpool => exact h.of_put hpool rfl rfl rfl rfl rfl (fun _ hm => hm) rfl
  | start hpool _ _ hs =>
    obtain ⟨_, _, _, _, _, _, _, _, _, _, _, _, rfl⟩ := hs.result
    exact h.of_put hpool rfl rfl rfl rfl rfl (fun _ hm => lookup_putMiner_ne_none hm) rfl
  | forceStart hs =>
    obtain ⟨_, _, _, _, _, _, _, _, _, _, _, _, rfl⟩ := hs.result
    exact h.of_eq rfl rfl rfl rfl (fun _ hm => lookup_putMiner_ne_none hm) fun _ hw => hw
  | reclaim hpool _ hq =>
    have hm := (Desk.tryProcessWithdrawQueue_moves.ok hq).workers_eq
    exact h.of_put hpool rfl hm rfl rfl rfl (fun _ hm => lookup_putMiner_ne_none hm) rfl
  | balances => exact h.of_eq rfl rfl rfl rfl (fun _ hm => hm) fun _ hw => hw
  | time => exact h.of_eq rfl rfl rfl rfl (fun _ hm => hm) fun _ hw => hw
  | finalize ha _ => exact h.asides ha
  | aside ha => exact h.asides ha

/-! ## The timetable -/

omit [DecidableEq A] [DecidableEq W] in
theorem FewerRequests.shrinks {pid : ℕ} {pool pool' : PoolInfo A W} (hpool : s.stakePools.lookup pid = some pool)
    (hs : s'.stakePools = s.stakePools.insert pid pool')
    (hq : QueueShrinks pool.withdrawQueue pool'.withdrawQueue) : s.FewerRequests s' :=
  .of_put hpool hs fun w hw => (hq w hw).imp fun _ h => ⟨h.1, h.2.2.1⟩

omit [DecidableEq A] [DecidableEq W] in
theorem FewerRequests.create (owner : A) : s.FewerRequests (s.create owner) := by
  have hp : ∀ pid, (s.create owner).stakePools.lookup pid = _ := fun _ => StorageMap.lookup_insert_ite _ _ _ _
  refine ⟨fun pid hpid => ?_, fun pid pool hpool w hw => ?_⟩
  · rw [hp]
    split
    · nofun
    · exact hpid
  · rw [hp] at hpool
    split at hpool
    · cases hpool
      cases hw
    · exact ⟨pool, hpool, w, hw, rfl⟩

omit [DecidableEq A] [DecidableEq W] in
/-- The pools listed under a time, once the pool is listed under `now`. -/
theorem lookup_maybeAddWithdrawQueue (now pid x : ℕ) :
    (s.maybeAddWithdrawQueue now pid).withdrawalQueuedPools.lookup x =
      if x = now then some ((s.withdrawalQueuedPools.lookup now).elim [pid] fun pids =>
        if pid ∈ pids then pids else pids ++ [pid])
      else s.withdrawalQueuedPools.lookup x := by
  unfold maybeAddWithdrawQueue
  dsimp only
  split
  · next pids hp =>
    rw [hp, Option.elim_some]
    split
    · split
      · next he => rw [he, hp]
      · rfl
    · exact StorageMap.lookup_insert_ite _ _ _ _
  · next hn =>
    rw [hn]
    exact StorageMap.lookup_insert_ite _ _ _ _

namespace Timed

variable {now : ℕ} {t : List ℕ}

omit [DecidableEq A] [DecidableEq W] in
/-- The timetable as it is stored, as time goes on. -/
theorem of_now (h : s'.Timed s.nowSec t) (hn : s.now ≤ s'.now) (ht : s'.withdrawalTimestamps = t) :
    s'.Timed s'.nowSec s'.withdrawalTimestamps := ht ▸ h.mono (Nat.div_le_div_right hn)

omit [DecidableEq A] [DecidableEq W] in
/-- A new request of the time `now`. -/
theorem putRequest {pid : ℕ} {pool pool' : PoolInfo A W} (h : s.Timed now t)
    (hpool : s.stakePools.lookup pid = some pool) (hs : s'.stakePools = s.stakePools.insert pid pool')
    (ht : s'.withdrawalQueuedPools = s.withdrawalQueuedPools)
    (hq : ∀ w ∈ pool'.withdrawQueue, w.startTime = now ∨ ∃ w₀ ∈ pool.withdrawQueue, w.startTime = w₀.startTime) :
    s'.Timed now t := by
  refine ⟨h.increasing, fun x => ht ▸ h.listed x, h.past, fun x pids hx => ?_, fun pid' p hp w hw => ?_⟩
  · obtain ⟨hnd, hex⟩ := h.pools x pids (ht ▸ hx)
    refine ⟨hnd, fun pid' hmem => ?_⟩
    rw [hs, StorageMap.lookup_insert_ite]
    split
    · nofun
    · exact hex pid' hmem
  · rw [hs, StorageMap.lookup_insert_ite] at hp
    split at hp
    · cases hp
      rcases hq w hw with he | ⟨w₀, hw₀, he⟩
      · exact he.le
      · exact he ▸ h.requests pid pool hpool w₀ hw₀
    · exact h.requests pid' p hp w hw

omit [DecidableEq A] [DecidableEq W] in
/-- The last of the waiting timestamps is the latest. -/
theorem getLast_le (h : s.Timed now t) {last : ℕ} (hl : t.getLast? = some last) : ∀ x ∈ t, x ≤ last := by
  obtain ⟨init, rfl⟩ := List.getLast?_eq_some_iff.mp hl
  intro x hx
  rcases List.mem_append.mp hx with hx | hx
  · exact ((List.pairwise_append.mp h.increasing).2.2 x hx last (by simp)).le
  · exact (List.mem_singleton.mp hx).le

omit [DecidableEq A] [DecidableEq W] in
/-- Listing a pool under the present time. -/
theorem maybeAdd {pid : ℕ} (h : s.Timed now s.withdrawalTimestamps) (hpid : s.stakePools.lookup pid ≠ none) :
    (s.maybeAddWithdrawQueue now pid).Timed now (s.maybeAddWithdrawQueue now pid).withdrawalTimestamps := by
  -- the timestamps: the present time is the last one, or it is appended
  have hmem : ∀ x, x ∈ (s.maybeAddWithdrawQueue now pid).withdrawalTimestamps ↔
      x = now ∨ x ∈ s.withdrawalTimestamps := by
    intro x
    unfold maybeAddWithdrawQueue
    dsimp only
    split
    · next last hl =>
      split
      · simp [or_comm]
      · next hle =>
        have hlast : last ∈ s.withdrawalTimestamps := List.mem_of_getLast? hl
        have heq : last = now := Nat.le_antisymm (h.past last hlast) (Nat.le_of_not_lt hle)
        exact ⟨.inr, fun hx => hx.elim (fun he => he ▸ heq ▸ hlast) id⟩
    · next hl => simp [or_comm]
  refine ⟨?_, fun x => ?_, fun x hx => ?_, fun x pids hx => ?_, h.requests⟩
  · unfold maybeAddWithdrawQueue
    dsimp only
    split
    · next last hl =>
      split
      · next hlt =>
        refine List.pairwise_append.mpr ⟨h.increasing, List.pairwise_singleton _ _, fun x hx y hy => ?_⟩
        rw [List.mem_singleton.mp hy]
        exact (h.getLast_le hl x hx).trans_lt hlt
      · exact h.increasing
    · next hl =>
      rw [List.getLast?_eq_none_iff.mp hl]
      exact List.pairwise_singleton _ _
  · rw [hmem, lookup_maybeAddWithdrawQueue, ← h.listed x]
    split
    · next he => simp [he]
    · next he => simp [he]
  · rcases (hmem x).mp hx with rfl | hx
    · exact le_rfl
    · exact h.past x hx
  · rw [lookup_maybeAddWithdrawQueue] at hx
    split at hx
    · cases hx
      cases hp : s.withdrawalQueuedPools.lookup now with
      | none =>
        exact ⟨List.nodup_singleton pid, fun pid' hmem' => List.mem_singleton.mp hmem' ▸ hpid⟩
      | some pids =>
        obtain ⟨hnd, hex⟩ := h.pools now pids hp
        rw [Option.elim_some]
        split
        · exact ⟨hnd, hex⟩
        · next hn =>
          refine ⟨hnd.append (List.nodup_singleton pid) (by simpa using hn), fun pid' hmem' => ?_⟩
          rcases List.mem_append.mp hmem' with hm | hm
          · exact hex pid' hm
          · exact List.mem_singleton.mp hm ▸ hpid
    · exact h.pools x pids hx

omit [DecidableEq A] [DecidableEq W] in
/-- What the block hook leaves is in order. -/
theorem finalized {processed : List ℕ} (h : s.Timed now t) (hf : s.FewerRequests s')
    (hfin : Finalized cfg now t s s' processed) : s'.Timed now s'.withdrawalTimestamps := by
  have hinc := hfin.split ▸ h.increasing
  obtain ⟨_, hrest, hlt⟩ := List.pairwise_append.mp hinc
  have hmem : ∀ x, x ∈ t ↔ x ∈ processed ∨ x ∈ s'.withdrawalTimestamps := fun x => by
    rw [hfin.split, List.mem_append]
  refine ⟨hrest, fun x => ?_, fun x hx => h.past x ((hmem x).mpr (.inr hx)), fun x pids hx => ?_,
    fun pid pool hp w hw => ?_⟩
  · rw [hfin.pools]
    split
    · next hx => exact ⟨fun hn => absurd rfl hn, fun hx' => absurd (hlt x hx x hx') (Nat.lt_irrefl x)⟩
    · next hx =>
      rw [h.listed x, hmem]
      exact ⟨fun h' => h'.resolve_left hx, .inr⟩
  · rw [hfin.pools] at hx
    split at hx
    · cases hx
    · obtain ⟨hnd, hex⟩ := h.pools x pids hx
      exact ⟨hnd, fun pid hmem => hf.pools pid (hex pid hmem)⟩
  · obtain ⟨pool₀, hp₀, w₀, hw₀, he⟩ := hf.requests pid pool hp w hw
    exact he ▸ h.requests pid pool₀ hp₀ w₀ hw₀

end Timed

end State

/-- Only a withdrawal makes a request. -/
theorem Did.fewerRequests {op : Op A W} (hd : Did cfg s op s')
    (hop : ∀ who pid shares, op ≠ .withdraw who pid shares) :
    s.FewerRequests s' := by
  cases hd with
  | create => exact .create _
  | contribute hpool _ _ hq =>
    have hs := Desk.tryProcessWithdrawQueue_shrinks hq
    exact .shrinks hpool rfl hs
  | withdraw => exact absurd rfl (hop _ _ _)
  | reconcile hpool _ hidx => exact .shrinks hpool rfl (.of_findIdx hidx)
  | start hpool _ _ hs =>
    obtain ⟨mining, rfl⟩ := hs.mining_only
    exact .shrinks hpool rfl (.refl _)
  | forceStart hs =>
    obtain ⟨mining, rfl⟩ := hs.mining_only
    exact .of_eq rfl
  | reclaim hpool _ hq =>
    have hs := Desk.tryProcessWithdrawQueue_shrinks hq
    exact .shrinks hpool rfl hs
  | balances => exact .of_eq rfl
  | time => exact .of_eq rfl
  | finalize ha _ => exact ha.fewerRequests
  | aside ha => exact ha.fewerRequests

/-- Only a withdrawal and the block hook change the timetable. -/
theorem Did.sameTimetable {op : Op A W} (hd : Did cfg s op s')
    (hop : ∀ who pid shares, op ≠ .withdraw who pid shares) (hfin : op ≠ .onFinalize) : s.SameTimetable s' := by
  cases hd with
  | withdraw => exact absurd rfl (hop _ _ _)
  | start _ _ _ hs =>
    obtain ⟨mining, rfl⟩ := hs.mining_only
    exact ⟨rfl, rfl⟩
  | forceStart hs =>
    obtain ⟨mining, rfl⟩ := hs.mining_only
    exact ⟨rfl, rfl⟩
  | finalize => exact absurd rfl hfin
  | aside ha => exact ha.sameTimetable id
  | _ => exact ⟨rfl, rfl⟩

/-- Time does not go back. -/
theorem Did.now_le {op : Op A W} (hd : Did cfg s op s') : s.now ≤ s'.now := by
  cases hd with
  | @withdraw who pid shares pool user d user' => exact (s.scheduled_sameStore pool shares).now.ge
  | start _ _ _ hs =>
    obtain ⟨mining, rfl⟩ := hs.mining_only
    exact le_rfl
  | forceStart hs =>
    obtain ⟨mining, rfl⟩ := hs.mining_only
    exact le_rfl
  | time h => exact h
  | finalize ha => exact ha.now_eq.ge
  | aside ha => exact ha.now_eq.ge
  | _ => exact le_rfl

namespace State

/-- A withdrawal's request is listed under its time. -/
theorem Timed.withdrew {pid shares : ℕ} {who : A} {pool : PoolInfo A W} {user user' : UserStakeInfo A}
    {d : Desk A W} (h : s.Timed s.nowSec s.withdrawalTimestamps) (hpool : s.stakePools.lookup pid = some pool)
    (hpid : pool.pid = pid) (hw : Desk.Withdrew cfg ⟨pool, s.books⟩ user shares s.nowSec d user') :
    (((s.scheduled pool shares).putDesk pid d).putStaker pid who user').Timed
      (((s.scheduled pool shares).putDesk pid d).putStaker pid who user').nowSec
      (((s.scheduled pool shares).putDesk pid d).putStaker pid who user').withdrawalTimestamps := by
  have hs := s.scheduled_sameStore pool shares
  have ht : (s.scheduled pool shares).Timed s.nowSec (s.scheduled pool shares).withdrawalTimestamps := by
    unfold scheduled
    split
    · exact h.maybeAdd (by rw [hpid, hpool]; nofun)
    · exact h
  -- the schedule is not to be unfolded
  generalize s.scheduled pool shares = s₁ at hs ht ⊢
  have hq : d.pool.withdrawQueue = Desk.requestQueue user.user (Desk.sharesLater pool shares) s.nowSec
    pool.withdrawQueue := by
    obtain ⟨user₁, d₁, _, _, rfl⟩ := hw
    rfl
  have htime : ((s₁.putDesk pid d).putStaker pid who user').Timed s.nowSec s₁.withdrawalTimestamps :=
    ht.putRequest (hs.stakePools ▸ hpool) rfl rfl fun w hw => mem_requestQueue (hq ▸ hw)
  exact htime.of_now hs.now.ge rfl

theorem Timed.did {op : Op A W} (h : s.Timed s.nowSec s.withdrawalTimestamps) (hf : s.WellFiled)
    (hd : Did cfg s op s') : s'.Timed s'.nowSec s'.withdrawalTimestamps := by
  have hsame : ∀ s', s.FewerRequests s' → s.SameTimetable s' → s.now ≤ s'.now →
      s'.Timed s'.nowSec s'.withdrawalTimestamps := fun s' hf ht hn =>
    (h.of_fewer hf ht.pools).of_now hn ht.timestamps
  cases op with
  | withdraw who pid shares =>
    cases hd with
    | withdraw hpool _ _ _ hw => exact h.withdrew hpool (hf.pool _ _ hpool).1 hw
    | aside ha => exact hsame _ ha.fewerRequests (ha.sameTimetable id) ha.now_eq.ge
  | onFinalize =>
    cases hd with
    | finalize ha hfin => exact (h.finalized ha.fewerRequests hfin).of_now ha.now_eq.ge rfl
    | aside ha => exact hsame _ ha.fewerRequests (ha.sameTimetable id) ha.now_eq.ge
  | _ => exact hsame _ (hd.fewerRequests nofun) (hd.sameTimetable nofun nofun) hd.now_le

/-! ## In every reachable state -/

theorem Sound.genesis (h : Genesis s) : s.Sound cfg where
  filed := Genesis.wellFiled h
  bound := by
    refine ⟨fun w pid => ?_, fun pid pool hp => ?_, fun w => ?_, fun m w => ?_, fun m hm => ?_, fun w hw => ?_⟩
    · simp [h.pools.2.2, h.pools.1]
    · simp [h.pools.1] at hp
    · simp [h.pools.2.2, h.mining.2.2.2.2.1]
    · simp [h.mining.2.2.2.1, h.mining.2.2.2.2.1]
    · simp [h.mining.2.2.2.1] at hm
    · simp [h.mining.2.2.2.2.1] at hw
  timed := by
    refine ⟨?_, fun x => ?_, fun x hx => ?_, fun x pids hx => ?_, fun pid pool hp => ?_⟩
    · simp [h.timetable.2]
    · simp [h.timetable.1, h.timetable.2]
    · simp [h.timetable.2] at hx
    · simp [h.timetable.1] at hx
    · simp [h.pools.1] at hp

/-- The checks of a build are nothing to the state. -/
theorem Sound.withChecks (h : s.Sound cfg) (checks : Check → Bool) : s.Sound (cfg.withChecks checks) :=
  ⟨h.filed, ⟨h.bound.assigned, h.bound.nodup, h.bound.bound, h.bound.inverse, h.bound.miner, h.bound.worker⟩,
    h.timed⟩

theorem Sound.did {op : Op A W} (h : s.Sound cfg) (hd : Did cfg s op s') : s'.Sound cfg :=
  ⟨h.filed.did hd, h.bound.did h.filed hd, h.timed.did h.filed hd⟩

end State

namespace ReachWhere

variable {ok : State A W → Op A W → Prop}

/-- Every reachable state is in order. -/
theorem sound (h : RunWhere cfg ok s) : s.Sound cfg :=
  h.invariant _ (fun _ => State.Sound.genesis) fun _ _ _ hs _ ⟨_, he⟩ => hs.did ((exec_ends hs).ok he)

theorem wellFiled (h : RunWhere cfg ok s) : s.WellFiled := h.sound.filed

/-- The rule for invariants of the machine: what every admissible case of an operation keeps. -/
theorem did_invariant (I : State A W → Prop) (base : ∀ s, Genesis s → I s)
    (keep : ∀ s op s', s.Sound cfg → I s → ok s op → Did cfg s op s' → I s') (h : RunWhere cfg ok s) : I s := by
  have hI : s.Sound cfg ∧ I s := by
    refine h.invariant (fun s => s.Sound cfg ∧ I s) (fun s hs => ⟨State.Sound.genesis hs, base s hs⟩) ?_
    rintro s op s' ⟨hs, hi⟩ hok ⟨fuel, he⟩
    have hd := (exec_ends hs).ok he
    exact ⟨hs.did hd, keep s op s' hs hi hok hd⟩
  exact hI.2

end ReachWhere

end Khala
