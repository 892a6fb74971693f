/-
The timetable of expiring withdrawals: a deque of timestamps and a map from
them to the pools with a request of that time, maintained in parallel.

`Timed now t` is about a list `t` in place of the stored timestamps, because
the block hook takes the deque out, serves its front and stores what is left.
-/
import Khala.Bindings

namespace Khala

variable {A W : Type} [DecidableEq A] [DecidableEq W] {cfg : Config A W} {s s' : State A W} {P : Permit}

namespace State

/-- The timetable is in order at the time `now` in seconds, with the timestamps `t`. -/
structure Timed (s : State A W) (now : ℕ) (t : List ℕ) : Prop where
  increasing : t.Pairwise (· < ·)
  listed : ∀ x, s.withdrawalQueuedPools.lookup x ≠ none ↔ x ∈ t
  past : ∀ x ∈ t, x ≤ now
  pools : ∀ x pids, s.withdrawalQueuedPools.lookup x = some pids →
    pids.Nodup ∧ ∀ pid ∈ pids, s.stakePools.lookup pid ≠ none
  requests : ∀ pid pool, s.stakePools.lookup pid = some pool → ∀ w ∈ pool.withdrawQueue, w.startTime ≤ now

/-- No pool goes away, and no queue gets a request. -/
structure FewerRequests (s s' : State A W) : Prop where
  pools : ∀ pid, s.stakePools.lookup pid ≠ none → s'.stakePools.lookup pid ≠ none
  requests : ∀ pid pool', s'.stakePools.lookup pid = some pool' → ∀ w ∈ pool'.withdrawQueue,
    ∃ pool, s.stakePools.lookup pid = some pool ∧ ∃ w₀ ∈ pool.withdrawQueue, w.startTime = w₀.startTime

omit [DecidableEq A] [DecidableEq W] in
theorem FewerRequests.of_eq (h : s'.stakePools = s.stakePools) : s.FewerRequests s' :=
  ⟨fun _ hp => h ▸ hp, fun _ pool' hp w hw => ⟨pool', h ▸ hp, w, hw, rfl⟩⟩

omit [DecidableEq A] [DecidableEq W] in
/-- One pool is stored anew, its requests among those it had. -/
theorem FewerRequests.of_put {pid : ℕ} {pool pool' : PoolInfo A W} (hpool : s.stakePools.lookup pid = some pool)
    (hs : s'.stakePools = s.stakePools.insert pid pool')
    (hq : ∀ w ∈ pool'.withdrawQueue, ∃ w₀ ∈ pool.withdrawQueue, w.startTime = w₀.startTime) :
    s.FewerRequests s' := by
  refine ⟨fun pid' hp => ?_, fun pid' p hp w hw => ?_⟩
  · rw [hs, StorageMap.lookup_insert_ite]
    split
    · nofun
    · exact hp
  · rw [hs, StorageMap.lookup_insert_ite] at hp
    split at hp
    · next he =>
      cases hp
      exact ⟨pool, he ▸ hpool, hq w hw⟩
    · exact ⟨p, hp, w, hw, rfl⟩

end State

omit [DecidableEq A] [DecidableEq W] in
theorem State.FewerRequests.trans {s₁ s₂ s₃ : State A W} (h : s₁.FewerRequests s₂) (h' : s₂.FewerRequests s₃) :
    s₁.FewerRequests s₃ := by
  refine ⟨fun pid hp => h'.pools pid (h.pools pid hp), fun pid pool hp w hw => ?_⟩
  obtain ⟨pool₂, hp₂, w₂, hw₂, he₂⟩ := h'.requests pid pool hp w hw
  obtain ⟨pool₁, hp₁, w₁, hw₁, he₁⟩ := h.requests pid pool₂ hp₂ w₂ hw₂
  exact ⟨pool₁, hp₁, w₁, hw₁, he₂.trans he₁⟩

theorem Aside.fewerRequests (h : Aside cfg P s s') : s.FewerRequests s' := by
  cases h with
  | other hs => exact .of_eq hs.stakePools
  | pool hpool hs => exact .of_put hpool rfl fun w hw => ⟨w, hs.withdrawQueue ▸ hw, rfl⟩
  | bind _ hpool => exact .of_put hpool rfl fun w hw => ⟨w, hw, rfl⟩
  | release _ _ hpool => exact .of_put hpool rfl fun w hw => ⟨w, hw, rfl⟩
  | stop _ _ _ _ _ _ hpool => exact .of_put hpool rfl fun w hw => ⟨w, hw, rfl⟩
  | _ => exact .of_eq rfl

theorem Asides.fewerRequests (h : Asides cfg P s s') : s.FewerRequests s' := by
  induction h with
  | refl => exact .of_eq rfl
  | tail _ h ih => exact ih.trans h.fewerRequests

namespace State

namespace Timed

variable {t : List ℕ} {now now' : ℕ}

omit [DecidableEq A] [DecidableEq W] in
theorem mono (h : s.Timed now t) (hn : now ≤ now') : s.Timed now' t :=
  ⟨h.increasing, h.listed, fun x hx => (h.past x hx).trans hn, h.pools,
    fun pid pool hp w hw => (h.requests pid pool hp w hw).trans hn⟩

omit [DecidableEq A] [DecidableEq W] in
/-- Pools and requests may change as they do in small changes. -/
theorem of_fewer (h : s.Timed now t) (hf : s.FewerRequests s')
    (hq : s'.withdrawalQueuedPools = s.withdrawalQueuedPools) : s'.Timed now t := by
  refine ⟨h.increasing, fun x => hq ▸ h.listed x, h.past, fun x pids hx => ?_, fun pid pool hp w hw => ?_⟩
  · obtain ⟨hnd, hex⟩ := h.pools x pids (hq ▸ hx)
    exact ⟨hnd, fun pid hmem => hf.pools pid (hex pid hmem)⟩
  · obtain ⟨pool₀, hp₀, w₀, hw₀, he⟩ := hf.requests pid pool hp w hw
    exact he ▸ h.requests pid pool₀ hp₀ w₀ hw₀

theorem asides (h : s.Timed now t) (ha : Asides cfg P s s') (hP : ¬P.reschedules) : s'.Timed now t :=
  h.of_fewer ha.fewerRequests (ha.sameTimetable hP).pools

omit [DecidableEq A] [DecidableEq W] in
/-- The front of the timetable, taken out with its pools. -/
theorem tail {x : ℕ} (h : s.Timed now (x :: t)) :
    ({ s with withdrawalQueuedPools := s.withdrawalQueuedPools.erase x } : State A W).Timed now t := by
  have hlt : ∀ y ∈ t, x < y := (List.pairwise_cons.mp h.increasing).1
  refine ⟨(List.pairwise_cons.mp h.increasing).2, fun y => ?_, fun y hy => h.past y (List.mem_cons_of_mem x hy),
    fun y pids hy => ?_, h.requests⟩
  · rw [StorageMap.lookup_erase_ite]
    split
    · next he => exact ⟨fun hn => absurd rfl hn, fun hy => absurd (hlt y hy) (he ▸ Nat.lt_irrefl _)⟩
    · next he =>
      rw [h.listed y, List.mem_cons]
      exact ⟨fun hy => hy.resolve_left he, .inr⟩
  · rw [StorageMap.lookup_erase_ite] at hy
    split at hy
    · cases hy
    · exact h.pools y pids hy

end Timed

end State

end Khala
