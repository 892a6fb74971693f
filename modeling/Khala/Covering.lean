/-
Queued withdrawals are covered by the requester's shares, as long as no
withdrawal pays out shares that an earlier request of the same staker waits for.

A request and its staker's shares are stored apart. The queue's loop lowers
both alike; a withdrawal that queues a rest replaces the staker's request.
Only one that is paid in full leaves an earlier request as it was.
-/
import Khala.Shares
import Khala.Queues

namespace Khala

open Outcome Relation

variable {A W : Type} [DecidableEq A] {cfg : Config A W} {s s' : State A W}

/-! ## At the desk -/

/-- Each staker has at most one request, of more shares than dust, and holds its shares. -/
structure Desk.Covered (d : Desk A W) : Prop where
  covered : ∀ w ∈ d.pool.withdrawQueue, ∃ user,
    d.books.poolStakers.lookup (d.pool.pid, w.user) = some user ∧ w.shares ≤ user.shares
  requesters : (d.pool.withdrawQueue.map WithdrawInfo.user).Nodup
  nondust : ∀ w ∈ d.pool.withdrawQueue, 1000 < w.shares

namespace Desk

variable {d d' d₁ : Desk A W} {w : WithdrawInfo A} {rest : List (WithdrawInfo A)}
  {user user₁ user' : UserStakeInfo A} {u : A} {price : FixedPoint} {shares now : ℕ}

theorem Covered.skip (h : d.Covered) (hq : d.pool.withdrawQueue = w :: rest) : (d.setQueue rest).Covered := by
  obtain ⟨hcov, hreq, hnd⟩ := h
  rw [hq] at hcov hreq hnd
  exact ⟨fun w' hw' => hcov w' (List.mem_cons_of_mem _ hw'), (List.nodup_cons.mp hreq).2,
    fun w' hw' => hnd w' (List.mem_cons_of_mem _ hw')⟩

/-- Shares that leave a request leave its staker. -/
theorem left_le {a b now : ℕ} (h : a ≤ b) : (extractDust (a - now)).1 ≤ (extractDust (b - now)).1 :=
  extractDust_fst_mono (Nat.sub_le_sub_right h now)

theorem PaidOut.shares_eq (h : d.PaidOut cfg user shares d₁ user') :
    user'.shares = (extractDust (user.shares - shares)).1 := by
  obtain ⟨amount, dust, hr, -⟩ := h
  rw [hr.user_eq]
  rfl

theorem PaidOut.poolStakers (h : d.PaidOut cfg user shares d₁ user') :
    d₁.books.poolStakers = d.books.poolStakers := by
  obtain ⟨amount, dust, -, hb⟩ := h
  rw [hb, Books.reduced_poolStakers, Books.touch_poolStakers, Books.settled_poolStakers]

theorem PaidOut.unchanged (h : d.PaidOut cfg user shares d₁ user') :
    d₁.pool.pid = d.pool.pid ∧ d₁.pool.withdrawQueue = d.pool.withdrawQueue := by
  obtain ⟨amount, dust, hr, -⟩ := h
  exact ⟨hr.unchanged.1, hr.unchanged.2.1⟩

/-- A pass of the loop takes as many shares from the request as from its staker. -/
theorem Covered.fulfilled (h : d.Covered) (hq : d.pool.withdrawQueue = w :: rest)
    (hu : d.books.poolStakers.lookup (d.pool.pid, w.user) = some user)
    (hf : d.Fulfilled cfg price w user d') : d'.Covered := by
  obtain ⟨user₁, d₁, user₂, hs, hp, rfl⟩ := hf
  obtain ⟨_, _, rfl⟩ := hs
  have hskip := h.skip hq
  have hreq := h.requesters
  rw [hq, List.map_cons, List.nodup_cons] at hreq
  obtain ⟨user', hu', hle⟩ := h.covered w (hq ▸ List.mem_cons_self)
  rw [hu] at hu'
  cases hu'
  have hpid := hp.unchanged.1
  have hshares : user₂.shares = (extractDust (user.shares - withdrawingShares price d.pool w)).1 := hp.shares_eq
  -- the books after the pass
  have hlookup : ∀ u', (d₁.books.putStaker d.pool.pid w.user user₂).poolStakers.lookup (d₁.pool.pid, u') =
      if u' = w.user then some user₂ else d.books.poolStakers.lookup (d.pool.pid, u') := by
    intro u'
    rw [Books.lookup_putStaker, hp.poolStakers, hpid]
    by_cases he : u' = w.user
    · rw [if_pos he, if_pos (by rw [he])]
    · rw [if_neg he, if_neg fun h => he (congrArg Prod.snd h)]
  have htail : ∀ w' ∈ rest, ∃ user', (d₁.books.putStaker d.pool.pid w.user user₂).poolStakers.lookup
      (d₁.pool.pid, w'.user) = some user' ∧ w'.shares ≤ user'.shares := by
    intro w' hw'
    have hne : w'.user ≠ w.user := fun he => hreq.1 (he ▸ List.mem_map_of_mem hw')
    rw [hlookup, if_neg hne]
    exact hskip.covered w' hw'
  rw [hq]
  unfold servedQueue
  dsimp only [List.tail_cons]
  split
  · exact ⟨htail, hreq.2, hskip.nondust⟩
  · next hne =>
    refine ⟨fun w' hw' => ?_, List.nodup_cons.mpr hreq, fun w' hw' => ?_⟩
    · rcases List.mem_cons.mp hw' with rfl | hw'
      · exact ⟨user₂, (hlookup w.user).trans (if_pos rfl), hshares ▸ left_le hle⟩
      · exact htail w' hw'
    · rcases List.mem_cons.mp hw' with rfl | hw'
      · exact nondust_of_ne_zero hne
      · exact hskip.nondust w' hw'

theorem Covered.tryProcessWithdrawQueue {fuel : ℕ} (h : d.Covered)
    (hq : d.tryProcessWithdrawQueue cfg fuel = .ok d') : d'.Covered := by
  refine (tryProcessWithdrawQueue_ends (E := fun _ => True) (I := Covered) trivial
    (fun d₁ w rest hd _ he _ => hd.skip he) (fun price d₁ w rest user _ hd _ he hu => ?_) h).ok hq
  exact (fulfill_ends hu).mono (fun d₂ hf => hd.fulfilled he hu hf) fun _ _ => trivial

/-- The withdrawal is paid in part only, so that its rest replaces the staker's earlier request, or there are
shares for both. -/
def KeepsRequest (pool : PoolInfo A W) (user : UserStakeInfo A) (shares : ℕ) : Prop :=
  (∃ price ∈ pool.sharePrice, price ≠ 0 ∧ bdiv pool.freeStake price + 1000 < shares) ∨
    ∀ w ∈ pool.withdrawQueue, w.user = user.user → w.shares + shares ≤ user.shares

instance (pool : PoolInfo A W) (user : UserStakeInfo A) (shares : ℕ) : Decidable (KeepsRequest pool user shares) :=
  inferInstanceAs (Decidable ((∃ price ∈ _, _ ∧ _) ∨ ∀ w ∈ _, _))

omit [DecidableEq A] in
/-- So a request that stays asks for no more than the staker keeps. -/
theorem KeepsRequest.le {pool : PoolInfo A W} (h : KeepsRequest pool user shares)
    (hlater : sharesLater pool shares = 0)
    (hw : w ∈ pool.withdrawQueue) (hwho : w.user = user.user) (hnd : 1000 < w.shares) :
    w.shares ≤ (extractDust (user.shares - sharesNow pool shares)).1 := by
  have hnow : sharesNow pool shares ≤ min shares (freeShares pool shares) := extractDust_fst_le _
  rcases h with ⟨price, hprice, hne, hlt⟩ | hboth
  · have hfree : freeShares pool shares = bdiv pool.freeStake price := by
      unfold freeShares
      rw [hprice]
      exact if_pos hne
    have hrest := extractDust_fst_cases (shares - sharesNow pool shares)
    unfold sharesLater at hlater
    omega
  · have := hboth w hw hwho
    rw [extractDust_of_lt (by omega)]
    omega

theorem Withdrew.shares_eq (hnd : 1000 < shares) (hle : shares ≤ user.shares)
    (h : d.Withdrew cfg user shares now d' user') :
    user'.shares = (extractDust (user.shares - sharesNow d.pool shares)).1 := by
  obtain ⟨user₁, d₁, hs, hpaid, rfl⟩ := h
  obtain ⟨_, _, rfl⟩ := hs
  rcases hpaid with ⟨_, hp⟩ | ⟨hzero, rfl, rfl⟩
  · exact hp.shares_eq
  · rw [hzero, Nat.sub_zero, extractDust_of_lt (by omega)]

/-- A withdrawal queues no more than it leaves of the shares. -/
theorem Covered.withdrew (h : d.Covered) (hu : d.books.poolStakers.lookup (d.pool.pid, u) = some user)
    (hwho : user.user = u) (hnd : 1000 < shares) (hle : shares ≤ user.shares)
    (hok : KeepsRequest d.pool user shares) (hw : d.Withdrew cfg user shares now d' user') :
    Covered ⟨d'.pool, d'.books.putStaker d.pool.pid u user'⟩ := by
  have hshares := hw.shares_eq hnd hle
  obtain ⟨user₁, d₁, hs, hpaid, rfl⟩ := hw
  have hsame : d₁.pool.pid = d.pool.pid ∧ d₁.books.poolStakers = d.books.poolStakers := by
    rcases hpaid with ⟨_, hp⟩ | ⟨_, rfl, _⟩
    · exact ⟨hp.unchanged.1, hp.poolStakers⟩
    · exact ⟨rfl, rfl⟩
  have hlookup : ∀ u', (d₁.books.putStaker d.pool.pid u user').poolStakers.lookup (d₁.pool.pid, u') =
      if u' = u then some user' else d.books.poolStakers.lookup (d.pool.pid, u') := by
    intro u'
    rw [Books.lookup_putStaker, hsame.1, hsame.2]
    by_cases he : u' = u
    · rw [if_pos he, if_pos (by rw [he])]
    · rw [if_neg he, if_neg fun h => he (congrArg Prod.snd h)]
  -- the requests of others are covered as before
  have hother : ∀ w ∈ d.pool.withdrawQueue, w.user ≠ u → ∃ user'',
      (d₁.books.putStaker d.pool.pid u user').poolStakers.lookup (d₁.pool.pid, w.user) = some user'' ∧
        w.shares ≤ user''.shares := by
    intro w hw hne
    rw [hlookup, if_neg hne]
    exact h.covered w hw
  have hlater : sharesLater d.pool shares ≤ (extractDust (user.shares - sharesNow d.pool shares)).1 := left_le hle
  subst hwho
  by_cases hpos : 0 < sharesLater d.pool shares
  · have hqueue : requestQueue user.user (sharesLater d.pool shares) now d.pool.withdrawQueue = _ := if_pos hpos
    rw [hqueue]
    refine ⟨fun w hw => ?_, ?_, fun w hw => ?_⟩
    · rcases List.mem_append.mp hw with hw | hw
      · obtain ⟨hw, hne⟩ := List.mem_filter.mp hw
        exact hother w hw (of_decide_eq_true hne)
      · rw [List.mem_singleton.mp hw]
        exact ⟨user', (hlookup user.user).trans (if_pos rfl), hshares ▸ hlater⟩
    · change ((d.pool.withdrawQueue.filter _ ++ [_]).map WithdrawInfo.user).Nodup
      rw [List.map_append]
      refine List.Nodup.append (List.Nodup.sublist (List.filter_sublist.map _) h.requesters) (by simp) ?_
      intro x hx hx'
      obtain ⟨w, hw, rfl⟩ := List.mem_map.mp hx
      have hne := of_decide_eq_true (List.mem_filter.mp hw).2
      simp only [List.map_cons, List.map_nil, List.mem_singleton] at hx'
      exact hne hx'
    · rcases List.mem_append.mp hw with hw | hw
      · exact h.nondust w (List.mem_filter.mp hw).1
      · rw [List.mem_singleton.mp hw]
        exact nondust_of_ne_zero hpos.ne'
  · have hqueue : requestQueue user.user (sharesLater d.pool shares) now d.pool.withdrawQueue = _ := if_neg hpos
    rw [hqueue]
    refine ⟨fun w hw => ?_, h.requesters, h.nondust⟩
    by_cases he : w.user = user.user
    · refine ⟨user', (hlookup w.user).trans (if_pos he), ?_⟩
      rw [hshares]
      exact hok.le (Nat.eq_zero_of_not_pos hpos) hw he (h.nondust w hw)
    · exact hother w hw he

end Desk

/-- A contributor's shares only grow. -/
theorem Prepared.requestsCovered {d : Desk A W} {who : A} {books : Books A W} {user : UserStakeInfo A}
    (h : Prepared cfg d who books user) (hd : d.Covered) (amount : ℕ) :
    (Desk.contributed d.pool books who user amount).Covered := by
  have hbooks : books.poolStakers = d.books.poolStakers := by
    cases h with
    | join => rfl
    | settle => exact Books.settled_poolStakers
  refine ⟨fun w hw => ?_, hd.requesters, hd.nondust⟩
  obtain ⟨user₀, hu₀, hle⟩ := hd.covered w hw
  have hlookup : (Desk.contributed d.pool books who user amount).books.poolStakers.lookup
      (d.pool.pid, w.user) = _ :=
    Books.lookup_putStaker _ _ _ _ _
  change ∃ user', (Desk.contributed d.pool books who user amount).books.poolStakers.lookup (d.pool.pid, w.user) =
    some user' ∧ _
  rw [hlookup]
  by_cases he : w.user = who
  · subst he
    refine ⟨_, if_pos rfl, hle.trans ?_⟩
    cases h with
    | join hn =>
      rw [hn] at hu₀
      cases hu₀
    | settle hu hs =>
      obtain ⟨_, _, rfl⟩ := hs
      rw [hu] at hu₀
      cases hu₀
      exact Nat.le_add_right _ _
  · refine ⟨user₀, (if_neg fun h => he (congrArg Prod.snd h)).trans ?_, hle⟩
    rw [Books.touch_poolStakers, hbooks]
    exact hu₀

/-- Cutting a request to what its staker has left uncovers none. -/
theorem Desk.Covered.reconciled {d : Desk A W} {account : A} {user : UserStakeInfo A} {idx : ℕ} (h : d.Covered)
    (hidx : (d.pool.withdrawQueue.findIdx? fun req =>
      req.user = account ∧ req.shares > (extractDust user.shares).1) = some idx) :
    (d.setQueue (reconciledQueue (extractDust user.shares).1 idx d.pool.withdrawQueue)).Covered := by
  have hshrinks := QueueShrinks.of_findIdx hidx
  refine ⟨fun w hw => ?_, ?_, fun w hw => ?_⟩
  · obtain ⟨w₀, hw₀, hu, -, hle⟩ := hshrinks w hw
    obtain ⟨user', hu', hle'⟩ := h.covered w₀ hw₀
    exact ⟨user', hu ▸ hu', hle.trans hle'⟩
  · change ((reconciledQueue _ idx d.pool.withdrawQueue).map WithdrawInfo.user).Nodup
    unfold reconciledQueue
    split
    · exact h.requesters.sublist ((List.eraseIdx_sublist _ _).map _)
    · rw [map_modify_shares fun _ _ => rfl]
      exact h.requesters
  · exact nondust_reconciledQueue h.nondust w hw

/-! ## In the state -/

variable [DecidableEq W]

namespace State

def Covered (s : State A W) : Prop :=
  ∀ pid pool, s.stakePools.lookup pid = some pool → Desk.Covered ⟨pool, s.books⟩

/-- A withdrawal either replaces the staker's earlier request or leaves it its shares. -/
def KeepsRequests (s : State A W) : Op A W → Prop
  | .withdraw who pid shares => ∀ pool ∈ s.stakePools.lookup pid, ∀ user ∈ s.books.poolStakers.lookup (pid, who),
      Desk.KeepsRequest pool user shares
  | _ => True

instance (s : State A W) (op : Op A W) : Decidable (s.KeepsRequests op) :=
  match op with
  | .withdraw .. => inferInstanceAs (Decidable (∀ pool ∈ _, ∀ user ∈ _, Desk.KeepsRequest _ _ _))
  | .create .. | .addWorker .. | .removeWorker .. | .setCap .. | .setPayoutPref ..
    | .setMiningEnable .. | .claimRewards ..
  | .contribute .. | .reconcileWithdrawQueue .. | .startMining .. | .stopMining ..
    | .reclaimPoolWorker .. | .onFinalize
  | .unbind .. | .forceStartMining .. | .forceStopMining .. | .heartbeat .. | .gkMessage ..
    | .setCoolDownExpiration ..
  | .updateTokenomic .. | .finalizeMining | .forceRegisterWorker .. | .registerWorker ..
    | .benchReport .. | .time ..
  | .balances .. => .isTrue trivial

namespace Covered

omit [DecidableEq W] in
theorem of_pools (h : s.Covered) (hp : ∀ pid pool', s'.stakePools.lookup pid = some pool' →
      ∃ pool, s.stakePools.lookup pid = some pool ∧ pool.SameAmounts pool')
    (hu : ∀ k user, s.books.poolStakers.lookup k = some user →
      ∃ user', s'.books.poolStakers.lookup k = some user' ∧ PoolInfo.SameStake user user') : s'.Covered := by
  intro pid pool' hpool'
  obtain ⟨pool, hpool, hs⟩ := hp pid pool' hpool'
  have hc := h pid pool hpool
  refine ⟨fun w hw => ?_, ?_, fun w hw => hc.nondust w (hs.withdrawQueue ▸ hw)⟩
  · obtain ⟨user, hl, hle⟩ := hc.covered w (hs.withdrawQueue ▸ hw)
    obtain ⟨user', hl', hsame⟩ := hu _ user hl
    obtain ⟨availableRewards, rewardDebt, rfl⟩ := hsame
    refine ⟨{ user with availableRewards, rewardDebt }, ?_, hle⟩
    change s'.books.poolStakers.lookup (pool'.pid, w.user) = _
    rw [hs.pid]
    exact hl'
  · exact hs.withdrawQueue ▸ hc.requesters

omit [DecidableEq W] in
theorem of_eq (h : s.Covered) (hp : s'.stakePools = s.stakePools)
    (hb : s'.books.poolStakers = s.books.poolStakers) :
    s'.Covered :=
  h.of_pools (fun _ pool' hpool' => ⟨pool', hp ▸ hpool', .refl pool'⟩) fun _ user hu => ⟨user, hb ▸ hu, .refl user⟩

omit [DecidableEq W] in
/-- A desk goes back to where it came from. -/
theorem putDesk {pid : ℕ} {d : Desk A W} (h : s.Covered) (hf : s.WellFiled) (hd : d.Covered)
    (hother : ∀ k, k.1 ≠ pid → d.books.poolStakers.lookup k = s.books.poolStakers.lookup k) :
    (s.putDesk pid d).Covered := by
  intro pid' pool hpool
  rw [lookup_putDesk] at hpool
  split at hpool
  · cases hpool
    exact hd
  · next hne =>
    have hc := h pid' pool hpool
    refine ⟨fun w hw => ?_, hc.requesters, hc.nondust⟩
    obtain ⟨user, hl, hle⟩ := hc.covered w hw
    refine ⟨user, (hother _ ?_).trans hl, hle⟩
    exact (hf.pool _ _ hpool).1 ▸ hne

omit [DecidableEq W] in
theorem create (h : s.Covered) (owner : A) : (s.create owner).Covered := by
  intro pid pool hp
  rw [show (s.create owner).stakePools = (s.putPool s.poolCount _).stakePools from rfl, lookup_putPool] at hp
  split at hp
  · cases hp
    exact ⟨nofun, List.nodup_nil, nofun⟩
  · exact h pid pool hp

theorem did {op : Op A W} (h : s.Covered) (hf : s.WellFiled) (hok : s.KeepsRequests op) (hd : Did cfg s op s') :
    s'.Covered := by
  cases hd with
  | create => exact h.create _
  | @contribute who pid amount pool books user fuel d hpool _ hprep hq =>
    obtain ⟨rfl, -⟩ := hf.pool _ _ hpool
    have hm := Desk.tryProcessWithdrawQueue_moves.ok hq
    have hc := hprep.requestsCovered (h _ _ hpool) amount
    exact h.putDesk hf (hc.tryProcessWithdrawQueue hq) fun k hk => hprep.lookup_other hm hk
  | @withdraw who pid shares pool user d user' hpool hu hnd hle hw =>
    obtain ⟨rfl, -⟩ := hf.pool _ _ hpool
    have hm := hw.moves (u := who) hu
    have hs := s.scheduled_sameStore pool shares
    generalize s.scheduled pool shares = s₁ at hs ⊢
    have ht : s₁.Covered := h.of_eq hs.stakePools (congrArg _ hs.books)
    have hf₁ : s₁.WellFiled := hf.of_eq hs.stakePools (congrArg _ hs.books) hs.poolCount
    have hc := (h _ _ hpool).withdrew hu (hf.staker _ _ _ hu).1 hnd hle (hok pool hpool user hu) hw
    exact ht.putDesk hf₁ hc fun k hk => (hm.lookup_other hk).trans (by rw [hs.books])
  | @reconcile pid account pool user idx hpool _ hidx =>
    obtain ⟨rfl, -⟩ := hf.pool _ _ hpool
    have hc := (h _ _ hpool).reconciled hidx
    exact h.putDesk hf hc fun _ _ => rfl
  | @start owner pid w stake pool s₁ hpool _ _ hs =>
    obtain ⟨hpools, hbooks, hcount⟩ := hs.unchanged
    have h₁ : s₁.Covered := h.of_eq hpools (by rw [hbooks])
    have hc := h₁ pid pool (hpools ▸ hpool)
    have hc : Desk.Covered ⟨{ pool with freeStake := pool.freeStake - stake }, s₁.books⟩ :=
      ⟨hc.covered, hc.requesters, hc.nondust⟩
    exact h₁.putDesk (hf.of_eq hpools (by rw [hbooks]) hcount) hc fun _ _ => rfl
  | forceStart hs =>
    obtain ⟨hpools, hbooks, _⟩ := hs.unchanged
    exact h.of_eq hpools (by rw [hbooks])
  | @reclaim pid w pool info returned slashed fuel d hpool _ hq =>
    obtain ⟨rfl, -⟩ := hf.pool _ _ hpool
    have hm := Desk.tryProcessWithdrawQueue_moves.ok hq
    have h₁ : (s.reclaimedMiner (cfg.poolSubAccount pool.pid w) info slashed).Covered := h.of_eq rfl rfl
    have hc := h _ _ hpool
    have hc : Desk.Covered ⟨pool.givenBack returned slashed, s.books⟩ := ⟨hc.covered, hc.requesters, hc.nondust⟩
    exact h₁.putDesk (hf.of_eq rfl rfl rfl) (hc.tryProcessWithdrawQueue hq) fun k hk => hm.lookup_other hk
  | balances => exact h.of_eq rfl rfl
  | time => exact h.of_eq rfl rfl
  | finalize ha _ => exact h.of_pools (fun _ _ hp => ha.pool_of_lookup hp) fun _ _ hu => ha.staker_of_lookup hu
  | aside ha => exact h.of_pools (fun _ _ hp => ha.pool_of_lookup hp) fun _ _ hu => ha.staker_of_lookup hu

omit [DecidableEq W] in
theorem genesis (h : Genesis s) : s.Covered := by
  intro pid pool hp
  rw [h.pools.1] at hp
  cases hp

end Covered

end State

theorem ReachWhere.requestsCovered (h : RunWhere cfg State.KeepsRequests s) : s.Covered :=
  h.did_invariant _ (fun _ => State.Covered.genesis) fun _ _ _ hs hc hok hd => hc.did hs.filed hok hd

end Khala
