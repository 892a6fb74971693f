/-
A contribution or a reclaim that serves the withdraw queue does not panic.

What the loop expects holds where the requests are covered. Beside it only a
check that is compiled in can fail; where all of them are, the other records
have to be in order too.
-/
import Khala.Covering
import Khala.DustFree
import Khala.Ledger
import Khala.Lifecycle
import Khala.Waiting

namespace Khala

open Outcome Relation

variable {A W : Type} [DecidableEq A] {cfg : Config A W} {s s' : State A W}

/-! ## The expectation of the loop -/

omit [DecidableEq A] in
/-- Shares that a staker holds are not refused, where the pool's shares fit the format. -/
theorem PoolInfo.not_refused {pool : PoolInfo A W} {user : UserStakeInfo A} {shares : ℕ}
    (hle : shares ≤ user.shares)
    (htotal : user.shares ≤ pool.totalShares) (hnd : 1000 < pool.totalShares) (hlt : pool.totalShares < 2 ^ 64) :
    ¬pool.Refused user shares := by
  rintro (hprice | hless | hless)
  · have hshares : (toFixed pool.totalShares).bits = 2 ^ 64 * pool.totalShares / 10 ^ 12 := bits_toFixed_of_lt hlt
    have hstake : (toFixed pool.totalStake).bits = 2 ^ 64 * (pool.totalStake % 2 ^ 64) / 10 ^ 12 := bits_toFixed _
    rcases U64F64.checkedDiv_eq_none.mp hprice with hzero | hlarge
    · omega
    · have hmod : pool.totalStake % 2 ^ 64 < 2 ^ 64 := Nat.mod_lt _ (by norm_num)
      have hpos : 0 < (toFixed pool.totalShares).bits := by omega
      have hmul := (Nat.le_div_iff_mul_le hpos).mp hlarge
      omega
  · omega
  · have hdust := extractDust_add (user.shares - shares)
    omega

namespace Desk

/-- The desk's requests are covered, and its shares are those of its stakers and fit the format. -/
structure Honest (d : Desk A W) : Prop where
  covered : d.Covered
  agree : d.SharesAgree
  fits : d.pool.totalShares < 2 ^ 64

variable {d d' : Desk A W} {w : WithdrawInfo A} {rest : List (WithdrawInfo A)} {user user₁ : UserStakeInfo A}
  {price : FixedPoint}

/-- A covered request is not refused. -/
theorem Honest.not_refused (h : d.Honest) (hq : d.pool.withdrawQueue = w :: rest)
    (hu : d.books.poolStakers.lookup (d.pool.pid, w.user) = some user) (hs : PoolInfo.SameStake user user₁) :
    ¬d.pool.Refused user₁ (withdrawingShares price d.pool w) := by
  obtain ⟨user', hu', hle⟩ := h.covered.covered w (hq ▸ List.mem_cons_self)
  cases hu.symm.trans hu'
  have hnd := h.covered.nondust w (hq ▸ List.mem_cons_self)
  have htotal : user.shares ≤ d.pool.totalShares := by
    rw [h.agree]
    exact Books.le_stakerSum (f := fun user => user.shares) hu rfl
  obtain ⟨_, _, rfl⟩ := hs
  exact PoolInfo.not_refused ((min_le_right _ _).trans hle) htotal (by omega) h.fits

theorem Honest.pass (h : d.Honest) (hp : Pass cfg price d d') : d'.Honest := by
  cases hp with
  | skip _ hq _ => exact ⟨h.covered.skip hq, h.agree, h.fits⟩
  | serve _ hq hu hd =>
    have hf := (fulfill_ends hu).ok hd
    have hm := hf.moves hu
    exact ⟨h.covered.fulfilled hq hu hf, hm.sharesAgree h.agree, hm.totalShares_le.trans_lt h.fits⟩

theorem Honest.passes (h : d.Honest) (hp : Passes cfg price d d') : d'.Honest := by
  induction hp with
  | refl => exact h
  | tail _ hp ih => exact ih.pass hp

/-- No pass skips a request. -/
theorem Honest.serves (h : d.Honest) (hp : Pass cfg price d d') : ∃ w rest user, 1000 < d.pool.freeStake ∧
    d.pool.withdrawQueue = w :: rest ∧ d.books.poolStakers.lookup (d.pool.pid, w.user) = some user ∧
    d.Fulfilled cfg price w user d' := by
  cases hp with
  | @skip w rest _ hq hnone =>
    obtain ⟨user, hu, -⟩ := h.covered.covered w (hq ▸ List.mem_cons_self)
    cases hnone.symm.trans hu
  | serve hfree hq hu hd => exact ⟨_, _, _, isNondustBalance_iff.mp hfree, hq, hu, (fulfill_ends hu).ok hd⟩

/-! ## Debts -/

/-- No staker has drawn more rewards than its shares of what the pool accrued. -/
def DebtsPaid (d : Desk A W) : Prop :=
  ∀ u user, d.books.poolStakers.lookup (d.pool.pid, u) = some user →
    user.rewardDebt ≤ bmul user.shares d.pool.rewardAcc

/-- A record that is rewritten has its rewards reset. -/
theorem DebtsPaid.put {pool : PoolInfo A W} {b : Books A W} {u : A} {user' : UserStakeInfo A} (h : d.DebtsPaid)
    (hpid : pool.pid = d.pool.pid) (hacc : pool.rewardAcc = d.pool.rewardAcc)
    (hb : b.poolStakers = d.books.poolStakers) (hreset : pool.resetPendingReward user' = user') :
    DebtsPaid ⟨pool, b.putStaker d.pool.pid u user'⟩ := by
  intro v user hv
  replace hv := (Books.lookup_putStaker _ _ _ _ _).symm.trans hv
  rw [hpid] at hv
  split at hv
  · cases hv
    exact (PoolInfo.resetPendingReward_eq_self.mp hreset).le
  · change user.rewardDebt ≤ bmul user.shares pool.rewardAcc
    rw [hacc]
    exact h v user (hb ▸ hv)

theorem DebtsPaid.pass (h : d.DebtsPaid) (hp : Pass cfg price d d') : d'.DebtsPaid := by
  cases hp with
  | skip => exact h
  | serve _ _ hu hd =>
    obtain ⟨user₁, d₁, user₂, _, hpaid, rfl⟩ := (fulfill_ends hu).ok hd
    have hstakers := hpaid.poolStakers
    obtain ⟨amount, dust, hr, -⟩ := hpaid
    exact h.put hr.unchanged.1 hr.unchanged.2.2.1 hstakers hr.reset

end Desk

/-! ## Paying no dust -/

namespace Desk

variable {d d' d₁ : Desk A W} {w : WithdrawInfo A} {rest : List (WithdrawInfo A)} {user : UserStakeInfo A}
  {price : FixedPoint}

/-- What the staker of a request has locked. -/
def lockedBy (d : Desk A W) (w : WithdrawInfo A) : ℕ :=
  (d.books.poolStakers.lookup (d.pool.pid, w.user)).elim 0 UserStakeInfo.locked

/-- The free stake is no less than what the stakers who wait have locked, which buys the shares of each request. -/
def CoversWaiting (d : Desk A W) (price : FixedPoint) : Prop :=
  (∀ w ∈ d.pool.withdrawQueue, w.shares ≤ bdiv (d.lockedBy w) price) ∧
  (d.pool.withdrawQueue.map d.lockedBy).sum ≤ d.pool.freeStake

/-- The first request is the only one and is paid, or it takes the whole free stake but for dust. -/
def SettlesFirst (d : Desk A W) (price : FixedPoint) : Prop :=
  ∀ w ∈ d.pool.withdrawQueue.head?, d.pool.withdrawQueue = [w] ∧ w.shares ≤ bdiv d.pool.freeStake price + 1000 ∨
    bdiv d.pool.freeStake price < w.shares ∧
      ∀ user ∈ d.books.poolStakers.lookup (d.pool.pid, w.user), d.pool.Spendable user price

/-- Where the loop is entered with more than dust, it pays more than dust for each request: 1001 planck buy more
than dust, or the requests are covered, or the first one settles the matter. -/
def PaysNoDust (d : Desk A W) (price : FixedPoint) : Prop :=
  1000 < d.pool.freeStake → price ≠ 0 → (d.pool.freeStake < 2 ^ 64 ∧ d.pool.freeStake < price.bits) ∧
    (1000 < bdiv 1001 price ∨ d.CoversWaiting price ∨ 1000 < bdiv d.pool.freeStake price ∧ d.SettlesFirst price)

instance (d : Desk A W) (price : FixedPoint) : Decidable (d.CoversWaiting price) :=
  inferInstanceAs (Decidable (_ ∧ _))

instance (d : Desk A W) (price : FixedPoint) : Decidable (d.SettlesFirst price) :=
  inferInstanceAs (Decidable (∀ w ∈ _, _ ∨ _ ∧ ∀ user ∈ _, _))

instance (d : Desk A W) (price : FixedPoint) : Decidable (d.PaysNoDust price) :=
  inferInstanceAs (Decidable (_ → _ → _ ∧ (_ ∨ _ ∨ _ ∧ _)))

/-- What is left of the free stake after a pass. -/
theorem Fulfilled.freeStake_eq (h : d.Fulfilled cfg price w user d') : ∃ price', d.pool.sharePrice = some price' ∧
    (d'.pool.freeStake = 0 ∨ d'.pool.freeStake = d.pool.freeStake -
      min (min (bmul (withdrawingShares price d.pool w) price') d.pool.freeStake)
      (d.pool.settledLocked user)) := by
  obtain ⟨user₁, d₁, user₂, hs, ⟨amount, dust, hr, -⟩, rfl⟩ := h
  obtain ⟨price', hprice, hamount⟩ := hr.amount_eq
  obtain ⟨rest, -, hpool⟩ := hr.pool_eq
  obtain ⟨_, _, rfl⟩ := hs
  refine ⟨price', hprice, ?_⟩
  change d₁.pool.freeStake = 0 ∨ d₁.pool.freeStake = _
  rw [hpool]
  dsimp only
  split
  · exact .inr (congrArg _ hamount)
  · exact .inl rfl

theorem lockedBy_of_lookup (hu : d.books.poolStakers.lookup (d.pool.pid, w.user) = some user) :
    d.lockedBy w = user.locked := by
  rw [lockedBy, hu]
  rfl

/-- A pass leaves what the other stakers have locked as it is. -/
theorem Fulfilled.lockedBy {w' : WithdrawInfo A} (h : d.Fulfilled cfg price w user d') (hne : w'.user ≠ w.user) :
    d'.lockedBy w' = d.lockedBy w' := by
  obtain ⟨user₁, d₁, user₂, -, hpaid, rfl⟩ := h
  have hpid : d₁.pool.pid = d.pool.pid := hpaid.unchanged.1
  unfold Desk.lockedBy setQueue
  dsimp only
  rw [hpid, Books.lookup_putStaker, if_neg fun he => hne (congrArg Prod.snd he), hpaid.poolStakers]

/-- A covered queue is paid request by request, until the free stake is dust. -/
theorem CoversWaiting.pass (h : d.CoversWaiting price) (hh : d.Honest) (hp : Pass cfg price d d') (hne : price ≠ 0)
    (hfits : d.pool.freeStake < 2 ^ 64 ∧ d.pool.freeStake < price.bits) :
    d'.pool.freeStake ≤ 1000 ∨ d'.CoversWaiting price := by
  obtain ⟨hshares, hsum⟩ := h
  obtain ⟨w, rest, user, -, hq, hu, hf⟩ := hh.serves hp
  have hw := hshares w (hq ▸ List.mem_cons_self)
  rw [lockedBy_of_lookup hu] at hw
  rw [hq, List.map_cons, List.sum_cons, lockedBy_of_lookup hu] at hsum
  -- the request is paid in full, since the free stake buys no less than the staker's stake does
  have hall : withdrawingShares price d.pool w = w.shares := by
    have hmono := bdiv_mono (show user.locked ≤ d.pool.freeStake by omega) hfits.1 hfits.2
    unfold withdrawingShares
    rw [if_neg hne]
    omega
  have hqueue : d'.pool.withdrawQueue = rest := by
    rw [hf.withdrawQueue, hall, hq]
    unfold servedQueue
    rw [Nat.sub_self, extractDust_of_le (Nat.zero_le _), if_pos rfl, List.tail_cons]
  have hother : ∀ w' ∈ rest, d'.lockedBy w' = d.lockedBy w' := by
    intro w' hw'
    have hnodup := hh.covered.requesters
    rw [hq, List.map_cons, List.nodup_cons] at hnodup
    exact hf.lockedBy fun he => hnodup.1 (he ▸ List.mem_map_of_mem hw')
  obtain ⟨price', -, hzero | hfree⟩ := hf.freeStake_eq
  · exact .inl (by omega)
  · right
    have hle : d.pool.settledLocked user ≤ user.locked := PoolInfo.settledLocked_le
    unfold CoversWaiting
    rw [hqueue, List.map_congr_left hother]
    refine ⟨fun w' hw' => ?_, by omega⟩
    rw [hother w' hw']
    exact hshares w' (hq ▸ List.mem_cons_of_mem _ hw')

theorem CoversWaiting.passes (h : d.CoversWaiting price) (hh : d.Honest) (hp : Passes cfg price d d')
    (hne : price ≠ 0) (hfits : d.pool.freeStake < 2 ^ 64 ∧ d.pool.freeStake < price.bits) :
    d'.pool.freeStake ≤ 1000 ∨ d'.CoversWaiting price := by
  induction hp with
  | refl => exact .inr h
  | tail hp hpass ih =>
    have hh₁ := hh.passes hp
    obtain ⟨_, _, _, hfree, -⟩ := hh₁.serves hpass
    have hle := Passes.freeStake_le hp
    exact (ih.resolve_left (not_le.mpr hfree)).pass hh₁ hpass hne ⟨by omega, by omega⟩

/-- The first pass of a loop that the first request settles leaves dust, or no request. -/
theorem SettlesFirst.pass (h : d.SettlesFirst price) (hh : d.Honest) (hprice : d.pool.sharePrice = some price)
    (hne : price ≠ 0) (hp : Pass cfg price d d') : d'.pool.freeStake ≤ 1000 ∨ d'.pool.withdrawQueue = [] := by
  obtain ⟨w, rest, user, hfree, hq, hu, hf⟩ := hh.serves hp
  rcases h w (by rw [hq]; rfl) with ⟨hsingle, hle⟩ | ⟨hlt, hspend⟩
  · right
    rw [hf.withdrawQueue, hsingle]
    unfold servedQueue withdrawingShares
    rw [if_neg hne, extractDust_of_le (by omega), if_pos rfl, List.tail_cons]
  · left
    have hall : withdrawingShares price d.pool w = bdiv d.pool.freeStake price := by
      unfold withdrawingShares
      rw [if_neg hne]
      omega
    have hspendable := hspend user hu
    obtain ⟨⟨hsmall, hfits, hcheap⟩, -⟩ := hspendable hfree
    have hspent := le_bmul_bdiv hsmall hfits hcheap
    have hlocked := hspendable.le_settledLocked hprice hfree
    obtain ⟨price', hprice', hzero | hleft⟩ := hf.freeStake_eq
    · omega
    · cases hprice.symm.trans hprice'
      rw [hall] at hleft
      omega

/-- So a loop that pays no dust finds more than dust for each request. -/
theorem PaysNoDust.withdrawing (h : d.PaysNoDust price) (hh : d.Honest) (hprice : d.pool.sharePrice = some price)
    (hp : Passes cfg price d d₁) (hfree : 1000 < d₁.pool.freeStake) (hq : d₁.pool.withdrawQueue = w :: rest) :
    1000 < withdrawingShares price d₁.pool w := by
  have hnd : 1000 < w.shares := (hh.passes hp).covered.nondust w (hq ▸ List.mem_cons_self)
  have hle := hp.freeStake_le
  unfold withdrawingShares
  split
  · omega
  · next hne =>
    obtain ⟨⟨hsmall, hfits⟩, hbuys⟩ := h (by omega) hne
    suffices hmore : 1000 < bdiv d₁.pool.freeStake price by omega
    rcases hbuys with hcheap | hcovers | ⟨hmore, hfirst⟩
    · exact hcheap.trans_le (bdiv_mono hfree (by omega) (by omega))
    · obtain ⟨hshares, hsum⟩ := (hcovers.passes hh hp hne ⟨hsmall, hfits⟩).resolve_left (not_le.mpr hfree)
      have hw := hshares w (hq ▸ List.mem_cons_self)
      rw [hq, List.map_cons, List.sum_cons] at hsum
      have hmono :=
        bdiv_mono (show d₁.lockedBy w ≤ d₁.pool.freeStake by omega) (by omega) (show _ < price.bits by omega)
      omega
    · rcases ReflTransGen.cases_head hp with rfl | ⟨d₂, hpass, hp⟩
      · exact hmore
      · have hle₂ := Passes.freeStake_le hp
        rcases hfirst.pass hh hprice hne hpass with hdust | hnil
        · omega
        · rcases ReflTransGen.cases_head hp with rfl | ⟨d₃, hpass₂, -⟩
          · cases hq.symm.trans hnil
          · obtain ⟨_, _, _, -, hcons, -⟩ := (hh.pass hpass).serves hpass₂
            cases hnil.symm.trans hcons

end Desk

/-! ## A miner that cools down -/

omit [DecidableEq A] in
theorem MinerInfo.ve_ne_zero {info : MinerInfo} {origStake : ℕ} {r : ℕ × ℕ}
    (h : info.calcFinalStake cfg origStake = .ok r) :
    info.ve ≠ 0 :=
  (Ends.bind (Ends.require fun _ => trivial) fun _ hve => ends_iff.mpr ⟨fun _ _ => hve, fun _ _ => trivial⟩ :
    Ends (info.calcFinalStake cfg origStake) (fun _ => info.ve ≠ 0) fun _ => True).ok h

variable [DecidableEq W]

namespace State

variable {P : Permit} {m : A} {info : MinerInfo}

/-- A miner that cools down has a `ve` to divide by. -/
def CoolsWithVe (s : State A W) : Prop :=
  ∀ m info, s.mining.miners.lookup m = some info → info.state = .miningCoolingDown → info.ve ≠ 0

namespace CoolsWithVe

omit [DecidableEq W] in
theorem put (h : s.CoolsWithVe) (m : A) (info : MinerInfo) (hs : s'.mining.miners = s.mining.miners.insert m info)
    (hi : info.state = .miningCoolingDown → info.ve ≠ 0) : s'.CoolsWithVe := by
  intro m' info' hm'
  rw [hs, StorageMap.lookup_insert_ite] at hm'
  split at hm'
  · cases hm'
    exact hi
  · exact h m' info' hm'

omit [DecidableEq W] in
theorem of_eq (h : s.CoolsWithVe) (hs : s'.mining.miners = s.mining.miners) : s'.CoolsWithVe := by
  unfold CoolsWithVe
  rw [hs]
  exact h

theorem aside (h : s.CoolsWithVe) (ha : Aside cfg P s s') : s'.CoolsWithVe := by
  cases ha with
  | other hs => exact h.of_eq hs.miners
  | @miner m info info' hi hu =>
    refine h.put m info' rfl fun hcool => ?_
    rw [hu.ve]
    rcases hu.state with he | ⟨-, hmining⟩
    · exact h m info hi (he ▸ hcool)
    · rw [hcool] at hmining
      cases hmining
  | @bind m w pid pool info _ _ _ _ _ _ hready =>
    refine h.put m info rfl fun hcool => ?_
    rw [hready] at hcool
    cases hcool
  | @stop m w info onlineMiners pid pool returned slashed _ _ _ _ _ _ _ hfinal =>
    exact h.put m (info.coolDown s.nowSec) rfl fun _ => info.ve_ne_zero hfinal
  | _ => exact h.of_eq rfl

theorem asides (h : s.CoolsWithVe) (ha : Asides cfg P s s') : s'.CoolsWithVe := by
  induction ha with
  | refl => exact h
  | tail _ ha ih => exact ih.aside ha

omit [DecidableEq W] in
theorem started (h : s.CoolsWithVe) {stake : ℕ} (hs : Started cfg s m stake s') : s'.CoolsWithVe := by
  obtain ⟨w, info, info', onlineMiners, nextSessionId, -, -, -, -, hidle, -, -, rfl⟩ := hs.result
  refine h.put m info' rfl fun hcool => ?_
  rw [hidle] at hcool
  cases hcool

theorem did {op : Op A W} (h : s.CoolsWithVe) (hd : Did cfg s op s') : s'.CoolsWithVe := by
  cases hd with
  | withdraw => exact h.of_eq (scheduled_sameStore _ _ _).miners
  | start _ _ _ hs => exact (h.started hs).of_eq rfl
  | forceStart hs => exact h.started hs
  | @reclaim pid w pool info returned slashed fuel d _ _ _ =>
    exact h.put (cfg.poolSubAccount pid w) { info with state := .ready, coolDownStart := 0 } rfl nofun
  | finalize ha _ => exact h.asides ha
  | aside ha => exact h.asides ha
  | _ => exact h.of_eq rfl

omit [DecidableEq W] in
theorem genesis (h : Genesis s) : s.CoolsWithVe := by
  obtain ⟨_, _, hminers, _⟩ := h.mining
  intro m info hm
  rw [hminers] at hm
  cases hm

end CoolsWithVe

end State

theorem ReachWhere.coolsWithVe {ok : State A W → Op A W → Prop} (h : RunWhere cfg ok s) : s.CoolsWithVe :=
  h.did_invariant _ (fun _ => State.CoolsWithVe.genesis) fun _ _ _ _ hi _ hd => hi.did hd

/-! ## Serving the queue -/

/-- A contribution or a reclaim. -/
def Op.ServesQueue : Op A W → Prop
  | .contribute .. | .reclaimPoolWorker .. => True
  | _ => False

namespace State

variable {op : Op A W} {d d₁ : Desk A W} {e : Fault} {p : Panic} {price : FixedPoint} {fuel : ℕ}

/-- The pool's shares fit the fixed-point format, with those that a contribution mints. -/
def SharesFit (s : State A W) : Op A W → Prop
  | .contribute _ pid amount => ∀ pool ∈ s.stakePools.lookup pid, pool.totalShares + pool.sharesFor amount < 2 ^ 64
  | .reclaimPoolWorker pid _ => ∀ pool ∈ s.stakePools.lookup pid, pool.totalShares < 2 ^ 64
  | _ => True

theorem exec_trips (hop : op.ServesQueue) (hf : s.WellFiled) :
    Ends (exec cfg fuel s op) (fun _ => True) (s.Trips cfg op) := by
  cases op with
  | contribute => exact contribute_trips hf
  | reclaimPoolWorker => exact reclaimPoolWorker_trips
  | _ => exact hop.elim

omit [DecidableEq W] in
/-- The desk that is entered is honest. -/
theorem Enters.honest (h : s.Enters cfg op d) (hf : s.WellFiled) (hc : s.Covered) (ha : s.SharesAgree)
    (hfits : s.SharesFit op) : d.Honest := by
  cases h with
  | @contribute who pid amount pool books user hpool hcon =>
    obtain ⟨rfl, -⟩ := hf.pool _ _ hpool
    have hprep : Prepared cfg ⟨pool, s.books⟩ who books user := contributor_ends.ok hcon
    exact ⟨hprep.requestsCovered (hc _ _ hpool) amount,
      hprep.sharesAgree (ha.desk hpool rfl) amount, hfits pool hpool⟩
  | @reclaim pid w pool info returned slashed hpool =>
    obtain ⟨rfl, -⟩ := hf.pool _ _ hpool
    have hold := hc _ _ hpool
    have hagree : Desk.SharesAgree ⟨pool, s.books⟩ := ha.desk hpool rfl
    exact ⟨⟨hold.covered, hold.requesters, hold.nondust⟩, hagree, hfits pool hpool⟩

omit [DecidableEq W] in
/-- Only a check that is compiled in fails. -/
theorem Trips.compiled_in (h : s.Trips cfg op (.panic p)) (hop : op.ServesQueue) (hve : s.CoolsWithVe)
    (hhonest : ∀ d, s.Enters cfg op d → d.Honest) : ∃ c, p = .check c ∧ cfg.checks c = true := by
  cases h with
  | calm hcalm => exact absurd rfl (hcalm p)
  | pay => exact hop.elim
  | noVe hm hcool hzero => exact absurd hzero (hve _ _ hm hcool)
  | pass he _ hp _ hq hu ht =>
    cases ht with
    | pending hc => exact ⟨_, rfl, hc⟩
    | withdrawing hc => exact ⟨_, rfl, hc⟩
    | pay hs _ ht =>
      cases ht with
      | ledger hc => exact ⟨_, rfl, hc⟩
      | nondust hc => exact ⟨_, rfl, hc⟩
      | clean hc => exact ⟨_, rfl, hc⟩
      | dust hc => exact ⟨_, rfl, hc⟩
      | total hc => exact ⟨_, rfl, hc⟩
      | missing href => exact absurd href (((hhonest _ he).passes hp).not_refused hq hu hs)
  | free hc => exact ⟨_, rfl, hc⟩
  | ledger hc => exact ⟨_, rfl, hc⟩
  | pending _ _ hc => exact ⟨_, rfl, hc⟩
  | addNondust hc => exact ⟨_, rfl, hc⟩
  | addClean _ _ hc => exact ⟨_, rfl, hc⟩
  | coolDown _ _ hc => exact ⟨_, rfl, hc⟩
  | slashShares _ _ _ hc => exact ⟨_, rfl, hc⟩
  | slashStake _ _ hc => exact ⟨_, rfl, hc⟩
  | releasing _ _ hc => exact ⟨_, rfl, hc⟩

/-! ### With every check compiled in -/

/-- What the records that the checks compare ask of an operation. -/
structure Regular (s : State A W) (op : Op A W) : Prop where
  locks : s.RespectsLocks op
  buys : s.BuysShares op
  starts : op.StartsAbove
  left : s.NoneLeft op
  settles : ¬s.SettlesLate op

/-- No staker has drawn too much, and less than dust was left behind in the pool. -/
structure Unhindered (cfg : Config A W) (s : State A W) (op : Op A W) : Prop where
  paid : s.Desks Desk.DebtsPaid
  little : s.LittleLeft cfg op

/-- The loop of the operation pays no dust. -/
def PaysNoDust (cfg : Config A W) (s : State A W) (op : Op A W) : Prop :=
  ∀ d price, s.Enters cfg op d → d.pool.sharePrice = some price → d.PaysNoDust price

omit [DecidableEq W] in
theorem Finds.debtsPaid (h : s.Finds cfg op d) (hf : s.WellFiled) (hpaid : s.Desks Desk.DebtsPaid) :
    d.DebtsPaid := by
  refine h.induction hpaid (fun d he => ?_) fun _ _ _ hd hp => hd.pass hp
  cases he with
  | @contribute who pid amount pool books user hpool hcon =>
    obtain ⟨rfl, -⟩ := hf.pool _ _ hpool
    have hprep : Prepared cfg ⟨pool, s.books⟩ who books user := contributor_ends.ok hcon
    have hbooks : books.poolStakers = s.books.poolStakers := by
      cases hprep with
      | join => rfl
      | settle => exact Books.settled_poolStakers
    have hput : Desk.DebtsPaid ⟨pool.added amount, books.putStaker pool.pid who (pool.addedStaker user amount)⟩ :=
      (hpaid _ _ hpool).put rfl rfl hbooks rfl
    exact hput
  | @reclaim pid w pool info returned slashed hpool =>
    have hold : Desk.DebtsPaid ⟨pool, s.books⟩ := hpaid _ _ hpool
    exact hold

omit [DecidableEq W] in
/-- The checks make no difference to what can be reclaimed. -/
theorem reclaimable_of_withChecks {m : A} {info : MinerInfo} {checks : Check → Bool} {returned slashed : ℕ}
    (hpast : ∀ m t, s.coolDownOf m = some t → t ≤ s.nowSec)
    (h : Reclaimable (cfg.withChecks checks) s m info returned slashed) :
    Reclaimable cfg s m info returned slashed := by
  obtain ⟨hm, hcool, ⟨elapsed, helapsed, hperiod⟩, hfinal⟩ := h
  have hle : info.coolDownStart ≤ s.nowSec := hpast m _ (by rw [coolDownOf, hm, Option.bind_some, if_pos hcool])
  rw [Config.sub64_of_le _ hle] at helapsed
  refine ⟨hm, hcool, ⟨elapsed, ?_, hperiod⟩, ?_⟩
  · rw [Config.sub64_of_le _ hle]
    exact helapsed
  · rw [← calcFinalStake_withChecks info checks]
    exact hfinal

omit [DecidableEq W] in
/-- Where the records are in order, only the loop's own assertion fails, and it only where dust is paid. -/
theorem Trips.pays_dust (h : s.Trips cfg op (.panic p)) (hop : op.ServesQueue) (hve : s.CoolsWithVe)
    (hhonest : ∀ d, s.Enters cfg op d → d.Honest) (hf : s.WellFiled) (hun : s.Unhindered cfg op)
    (hpast : ∀ m t, s.coolDownOf m = some t → t ≤ s.nowSec) (hdust : .panic p ∉ dustFaults)
    (hstake : .panic p ∉ stakeFaults)
    (hledger : Fault.panic p ≠ .panic (.check .contributeFree) ∧ Fault.panic p ≠ .panic (.check .ledgerReduce))
    (hrelease : ∀ pid w pool info returned slashed, op = .reclaimPoolWorker pid w →
      s.stakePools.lookup pid = some pool →
      Reclaimable cfg s (cfg.poolSubAccount pid w) info returned slashed → returned ≤ pool.releasingStake)
    :
    p = .check .withdrawingShares ∧ ¬s.PaysNoDust cfg op := by
  cases h with
  | calm hcalm => exact absurd rfl (hcalm p)
  | pay => exact hop.elim
  | noVe hm hcool hzero => exact absurd hzero (hve _ _ hm hcool)
  | pass he hprice hp hfree hq hu ht =>
    cases ht with
    | pending _ hlt => exact absurd ((Finds.pass he hprice hp).debtsPaid hf hun.paid _ _ hu) (not_le.mpr hlt)
    | withdrawing _ hle =>
      refine ⟨rfl, fun hpays => ?_⟩
      exact absurd ((hpays _ _ he hprice).withdrawing (hhonest _ he) hprice hp hfree hq) (not_lt.mpr hle)
    | pay hs _ ht =>
      cases ht with
      | ledger => exact absurd rfl hledger.2
      | nondust => exact absurd (by decide) hdust
      | clean => exact absurd (by decide) hdust
      | dust => exact absurd (by decide) hdust
      | total => exact absurd (by decide) hstake
      | missing href => exact absurd href (((hhonest _ he).passes hp).not_refused hq hu hs)
  | free => exact absurd rfl hledger.1
  | ledger => exact absurd rfl hledger.2
  | pending hfinds hu _ hlt => exact absurd (hfinds.debtsPaid hf hun.paid _ _ hu) (not_le.mpr hlt)
  | addNondust => exact absurd (by decide) hdust
  | addClean => exact absurd (by decide) hdust
  | @coolDown pid w info hm hcool _ hlt =>
    have hstart : s.coolDownOf (cfg.poolSubAccount pid w) = some info.coolDownStart := by
      rw [coolDownOf, hm, Option.bind_some, if_pos hcool]
    exact absurd (hpast _ _ hstart) (not_le.mpr hlt)
  | slashShares => exact absurd (by decide) hdust
  | slashStake => exact absurd (by decide) hdust
  | releasing hpool hr _ hlt => exact absurd (hrelease _ _ _ _ _ _ rfl hpool hr) (not_le.mpr hlt)

end State

namespace Demo

/-- Neither a gatekeeper's message nor a change of another pallet's balances. -/
def Quiet : Op Account ℕ → Bool
  | .gkMessage .. | .balances .. => false
  | _ => true

/-- The steps meet the conditions of requests, dust and stakes. -/
def Careful (s : State Account ℕ) (op : Op Account ℕ) : Prop :=
  s.KeepsRequests op ∧ s.BuysShares op ∧ op.StartsAbove ∧ s.NoneLeft op ∧ Quiet op = true

instance (s : State Account ℕ) (op : Op Account ℕ) : Decidable (Careful s op) :=
  inferInstanceAs (Decidable (_ ∧ _))

theorem Careful.regular {s : State Account ℕ} {op : Op Account ℕ} (h : Careful s op) : s.Regular op where
  locks free he := by
    subst he
    cases h.2.2.2.2
  buys := h.2.1
  starts := h.2.2.1
  left := h.2.2.2.1
  settles := by
    rintro ⟨event, rfl, -⟩
    cases h.2.2.2.2

abbrev checked : Config Account ℕ := release.withChecks fun _ => true

/-- The desk at which a newcomer's contribution enters the loop. -/
def entered (s : State Account ℕ) (pool : PoolInfo Account ℕ) : Desk Account ℕ :=
  Desk.contributed pool s.books (.user 2) ⟨.user 2, 0, 0, 0, 0⟩ 1000000000000

/-- Little was left behind before the loop and after its first pass, which is the only one and pays no dust. -/
def LeavesLittle (s : State Account ℕ) (pool : PoolInfo Account ℕ) : Prop :=
  (Desk.LittleLeft ⟨pool, s.books⟩ ∧ (entered s pool).LittleLeft) ∧
  ∀ price ∈ (entered s pool).pool.sharePrice, (entered s pool).PaysNoDust price ∧
    ∀ w ∈ pool.withdrawQueue, ∃ user ∈ (entered s pool).books.poolStakers.lookup
    ((entered s pool).pool.pid, w.user),
      ∀ d ∈ ((entered s pool).fulfill checked price w user).toOption, d.LittleLeft ∧ d.pool.withdrawQueue = []

instance (s : State Account ℕ) (pool : PoolInfo Account ℕ) : Decidable (LeavesLittle s pool) :=
  inferInstanceAs (Decidable ((_ ∧ _) ∧ ∀ price ∈ _, _ ∧ ∀ w ∈ _, ∃ user ∈ _, ∀ d ∈ _, _ ∧ _))

variable {s : State Account ℕ} {d : Desk Account ℕ}

theorem entered_of_enters (hnew : s.books.poolStakers.lookup (0, .user 2) = none)
    (he : s.Enters checked (.contribute (.user 2) 0 1000000000000) d) :
    ∃ pool, s.stakePools.lookup 0 = some pool ∧ d = entered s pool := by
  cases he with
  | @contribute _ _ _ pool books user hpool hcon =>
    refine ⟨pool, hpool, ?_⟩
    unfold State.contributor at hcon
    rw [hnew] at hcon
    cases hcon
    rfl

theorem LeavesLittle.pass {pool : PoolInfo Account ℕ} {price : FixedPoint} (h : LeavesLittle s pool)
    (hprice : (entered s pool).pool.sharePrice = some price) (hp : Desk.Pass checked price (entered s pool) d) :
    d.LittleLeft ∧ d.pool.withdrawQueue = [] := by
  cases hp with
  | @skip w rest _ hq hnone =>
    obtain ⟨user, hu, -⟩ := (h.2 price hprice).2 w ((show pool.withdrawQueue = _ from hq) ▸ List.mem_cons_self)
    cases hnone.symm.trans hu
  | @serve w rest user d _ hq hu hd =>
    obtain ⟨user', hu', hlast⟩ := (h.2 price hprice).2 w
        ((show pool.withdrawQueue = _ from hq) ▸ List.mem_cons_self)
    cases hu.symm.trans hu'
    exact hlast d (by rw [hd]; rfl)

theorem LeavesLittle.little (hnew : s.books.poolStakers.lookup (0, .user 2) = none)
    (hserved : ∀ pool ∈ s.stakePools.lookup 0, LeavesLittle s pool) :
    s.LittleLeft checked (.contribute (.user 2) 0 1000000000000) := by
  intro d hd
  cases hd with
  | contribute hpool => exact (hserved _ hpool).1.1
  | pass he hprice hp =>
    obtain ⟨pool, hpool, rfl⟩ := entered_of_enters hnew he
    rcases ReflTransGen.cases_head hp with rfl | ⟨d₁, hpass, hp⟩
    · exact (hserved pool hpool).1.2
    · obtain ⟨hlittle, hnil⟩ := (hserved pool hpool).pass hprice hpass
      rcases ReflTransGen.cases_head hp with rfl | ⟨d₂, hpass, -⟩
      · exact hlittle
      · cases hpass with
        | skip _ hq => cases hnil.symm.trans hq
        | serve _ hq => cases hnil.symm.trans hq

end Demo

end Khala
