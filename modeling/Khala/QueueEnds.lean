/-
The end of the withdraw queue's loop.

Each pass pays for some shares of the first request, or drops it, so the
queue gets lighter, unless the free stake buys no share at all: a price above
the dust limit makes that possible, and then the loop turns on the spot for
ever. At a price at which 1001 planck buy a share it does not happen, since
the loop only goes on with that much.
-/
import Khala.Releasing

namespace Khala

open Outcome Relation

variable {A W : Type} [DecidableEq A] {cfg : Config A W} {s s' : State A W} {fuel n m : ℕ}

namespace Desk

/-! ## Passes -/

/-- One pass of the loop at `price`. -/
inductive Pass (cfg : Config A W) (price : FixedPoint) (d : Desk A W) : Desk A W → Prop
  | skip {w rest} : isNondustBalance d.pool.freeStake = true → d.pool.withdrawQueue = w :: rest →
      d.books.poolStakers.lookup (d.pool.pid, w.user) = none → Pass cfg price d (d.setQueue rest)
  | serve {w rest user d'} : isNondustBalance d.pool.freeStake = true → d.pool.withdrawQueue = w :: rest →
      d.books.poolStakers.lookup (d.pool.pid, w.user) = some user → d.fulfill cfg price w user = .ok d' →
      Pass cfg price d d'

abbrev Passes (cfg : Config A W) (price : FixedPoint) : Desk A W → Desk A W → Prop :=
  ReflTransGen (Pass cfg price)

variable {price : FixedPoint} {d d' : Desk A W} {w : WithdrawInfo A} {rest : List (WithdrawInfo A)}
  {user : UserStakeInfo A}

/-- The request at the front is gone, or has fewer shares, or there is less free stake. -/
def Progress (d d' : Desk A W) : Prop :=
  (∃ w, d.pool.withdrawQueue = w :: d'.pool.withdrawQueue) ∨ d'.pool.freeStake < d.pool.freeStake ∨
    ∃ w shares rest, d.pool.withdrawQueue = w :: rest ∧ shares < w.shares ∧
      d'.pool.withdrawQueue = { w with shares } :: rest

end Desk

/-! ## Cheap shares -/

/-- More stake buys more shares, if their number fits. -/
theorem bdiv_mono {m n : ℕ} {price : FixedPoint} (h : m ≤ n) (hn : n < 2 ^ 64) (hfits : n < price.bits) :
    bdiv m price ≤ bdiv n price := by
  have hbits : ∀ k ≤ n, (toFixed k / price).bits = 2 ^ 64 * (2 ^ 64 * k / 10 ^ 12) / price.bits := by
    intro k hk
    have hle : 2 ^ 64 * (2 ^ 64 * k / 10 ^ 12) / price.bits < 2 ^ 128 := by
      rw [Nat.div_lt_iff_lt_mul (by omega)]
      omega
    rw [U64F64.bits_div, bits_toFixed_of_lt (by omega), Nat.mod_eq_of_lt hle]
  refine fromFixed_mono ?_
  rw [hbits m h, hbits n le_rfl]
  exact Nat.div_le_div_right (Nat.mul_le_mul_left _ (Nat.div_le_div_right (Nat.mul_le_mul_left _ h)))

/-- A free stake above dust is one that the price divides, and 1001 planck buy a share. -/
def PoolInfo.Buys (pool : PoolInfo A W) (price : FixedPoint) : Prop :=
  1000 < pool.freeStake → price ≠ 0 → pool.freeStake < 2 ^ 64 ∧ pool.freeStake < price.bits ∧ 0 < bdiv 1001 price

instance (pool : PoolInfo A W) (price : FixedPoint) : Decidable (pool.Buys price) :=
  inferInstanceAs (Decidable (_ → _ → _))

namespace PoolInfo.Buys

variable {pool pool' : PoolInfo A W} {price : FixedPoint}

omit [DecidableEq A] in
theorem bdiv_pos (h : pool.Buys price) (hfree : 1000 < pool.freeStake) :
    price = 0 ∨ 0 < bdiv pool.freeStake price := by
  rcases eq_or_ne price 0 with hzero | hne
  · exact .inl hzero
  · obtain ⟨hsmall, hfits, hshare⟩ := h hfree hne
    exact .inr (hshare.trans_le (bdiv_mono hfree hsmall hfits))

omit [DecidableEq A] in
/-- Less free stake is as good. -/
theorem of_le (h : pool.Buys price) (hle : pool'.freeStake ≤ pool.freeStake) : pool'.Buys price := by
  intro hfree hne
  obtain ⟨hsmall, hfits, hshare⟩ := h (by omega) hne
  exact ⟨by omega, by omega, hshare⟩

end PoolInfo.Buys

namespace Desk

variable {price : FixedPoint} {d d' : Desk A W} {w : WithdrawInfo A} {rest : List (WithdrawInfo A)}
  {user : UserStakeInfo A}

/-! ## The weight of the queue -/

/-- Each request weighs one more than its shares. -/
def queueWeight (queue : List (WithdrawInfo A)) : ℕ := (queue.map fun w => w.shares + 1).sum

omit [DecidableEq A] in
theorem queueWeight_cons : queueWeight (w :: rest) = w.shares + 1 + queueWeight rest := by
  rw [queueWeight, List.map_cons, List.sum_cons]
  rfl

omit [DecidableEq A] in
/-- A request that is paid some of its shares, or has none, gets lighter. -/
theorem queueWeight_servedQueue {k : ℕ} (hk : 0 < k ∨ w.shares = 0) :
    queueWeight (servedQueue w k (w :: rest)) < queueWeight (w :: rest) := by
  have hle := extractDust_fst_le (w.shares - k)
  rw [queueWeight_cons]
  unfold servedQueue
  dsimp only
  split
  · exact Nat.lt_add_of_pos_left (Nat.succ_pos _)
  · next hne =>
    rw [queueWeight_cons, List.tail_cons]
    dsimp only
    omega

omit [DecidableEq A] in
/-- The shares that a pass pays, of a free stake that buys some. -/
theorem withdrawingShares_pos (h : d.pool.Buys price) (hfree : 1000 < d.pool.freeStake) :
    0 < withdrawingShares price d.pool w ∨ w.shares = 0 := by
  unfold withdrawingShares
  rcases h.bdiv_pos hfree with rfl | hp
  · rw [if_pos rfl, min_self]
    omega
  · split
    · rw [min_self]
      omega
    · omega

theorem Fulfilled.withdrawQueue (h : d.Fulfilled cfg price w user d') :
    d'.pool.withdrawQueue = servedQueue w (withdrawingShares price d.pool w) d.pool.withdrawQueue := by
  obtain ⟨user₁, d₁, user₂, _, _, rfl⟩ := h
  rfl

theorem Fulfilled.freeStake_le (h : d.Fulfilled cfg price w user d') : d'.pool.freeStake ≤ d.pool.freeStake := by
  obtain ⟨user₁, d₁, user₂, _, ⟨amount, dust, hr, _⟩, rfl⟩ := h
  obtain ⟨rest, _, hpool⟩ := hr.pool_eq
  change d₁.pool.freeStake ≤ _
  rw [hpool]
  dsimp only
  split
  · exact Nat.sub_le _ _
  · exact Nat.zero_le _

namespace Pass

theorem freeStake_le (h : Pass cfg price d d') : d'.pool.freeStake ≤ d.pool.freeStake := by
  cases h with
  | skip => exact le_rfl
  | serve _ _ hu hd => exact ((fulfill_ends hu).ok hd).freeStake_le

/-- A pass whose free stake buys a share gets on. -/
theorem progress (h : Pass cfg price d d') (hb : d.pool.Buys price) : d.Progress d' := by
  cases h with
  | @skip w rest _ hq _ => exact .inl ⟨w, hq⟩
  | @serve w rest user d' hfree hq hu hd =>
    have hqueue := ((fulfill_ends hu).ok hd).withdrawQueue
    have hpos := withdrawingShares_pos (w := w) hb (isNondustBalance_iff.mp hfree)
    generalize withdrawingShares price d.pool w = k at hqueue hpos
    have hle := extractDust_fst_le (w.shares - k)
    rw [hq] at hqueue
    unfold servedQueue at hqueue
    dsimp only at hqueue
    split at hqueue
    · exact .inl ⟨w, by rw [hq, hqueue, List.tail_cons]⟩
    · next hne => exact .inr (.inr ⟨w, _, rest, hq, by omega, hqueue⟩)

/-- And makes the queue lighter. -/
theorem queueWeight_lt (h : Pass cfg price d d') (hb : d.pool.Buys price) :
    queueWeight d'.pool.withdrawQueue < queueWeight d.pool.withdrawQueue := by
  cases h with
  | @skip w rest _ hq _ =>
    rw [hq, queueWeight_cons]
    exact (by omega : queueWeight rest < w.shares + 1 + queueWeight rest)
  | @serve w rest user d' hfree hq hu hd =>
    rw [((fulfill_ends hu).ok hd).withdrawQueue, hq]
    exact queueWeight_servedQueue (withdrawingShares_pos hb (isNondustBalance_iff.mp hfree))

end Pass

theorem Passes.freeStake_le (h : Passes cfg price d d') : d'.pool.freeStake ≤ d.pool.freeStake := by
  induction h with
  | refl => exact le_rfl
  | tail _ hpass ih => exact hpass.freeStake_le.trans ih

/-! ## Enough fuel -/

/-- While its free stake buys shares, the queue's weight is fuel enough for the loop. -/
theorem processQueue_ne_outOfFuel (h : d.pool.Buys price) (hfuel : queueWeight d.pool.withdrawQueue < fuel) :
    processQueue cfg price fuel d ≠ .error .outOfFuel := by
  induction fuel generalizing d with
  | zero => exact absurd hfuel (Nat.not_lt_zero _)
  | succ fuel ih =>
    unfold processQueue
    split
    · next hfree =>
      split
      · intro he
        cases he
      · next w rest hq =>
        split
        · next hn =>
          have hpass : Pass cfg price d (d.setQueue rest) := .skip hfree hq hn
          have hlt := hpass.queueWeight_lt h
          exact ih (h.of_le hpass.freeStake_le) (by omega)
        · next user hu =>
          intro he
          rcases bind_error.mp he with he | ⟨d₁, hd₁, he⟩
          · exact ((fulfill_ends hu).error he).ne_outOfFuel rfl
          · have hpass : Pass cfg price d d₁ := .serve hfree hq hu hd₁
            have hlt := hpass.queueWeight_lt h
            exact ih (h.of_le hpass.freeStake_le) (by omega) he
    · intro he
      cases he

/-- More fuel never changes an answer. -/
theorem processQueue_mono (h : processQueue cfg price n d ≠ .error .outOfFuel) (hle : n ≤ m) :
    processQueue cfg price m d = processQueue cfg price n d := by
  induction n generalizing m d with
  | zero => exact absurd rfl h
  | succ n ih =>
    obtain ⟨m, rfl⟩ : ∃ m', m = m' + 1 := ⟨m - 1, by omega⟩
    have hle : n ≤ m := by omega
    unfold processQueue at h ⊢
    split
    · next hfree =>
      rw [if_pos hfree] at h
      split
      · rfl
      · next w rest hq =>
        simp only [hq] at h
        split
        · next hn =>
          simp only [hn] at h
          exact ih h hle
        · next user hu =>
          simp only [hu] at h
          cases hd : d.fulfill cfg price w user with
          | error e => rfl
          | ok d₁ =>
            rw [hd] at h
            exact ih h hle
    · rfl

theorem tryProcessWithdrawQueue_mono (h : d.tryProcessWithdrawQueue cfg n ≠ .error .outOfFuel) (hle : n ≤ m) :
    d.tryProcessWithdrawQueue cfg m = d.tryProcessWithdrawQueue cfg n := by
  unfold tryProcessWithdrawQueue at h ⊢
  split
  · next price hprice =>
    simp only [hprice] at h
    exact processQueue_mono h hle
  · rfl

end Desk

/-! ## Operations -/

namespace State

/-- The desk at which an operation enters the loop. -/
inductive Enters (cfg : Config A W) (s : State A W) : Op A W → Desk A W → Prop
  | contribute {who pid amount pool books user} : s.stakePools.lookup pid = some pool →
      s.contributor cfg pool pid who = .ok (books, user) →
      Enters cfg s (.contribute who pid amount) (Desk.contributed pool books who user amount)
  | reclaim {pid w pool info returned slashed} : s.stakePools.lookup pid = some pool →
      Reclaimable cfg s (cfg.poolSubAccount pid w) info returned slashed →
      Enters cfg s (.reclaimPoolWorker pid w) ⟨pool.givenBack returned slashed, s.books⟩

/-- A contribution or a reclaim leaves a pool in which requests wait a free stake that buys shares. -/
def PricesShares (cfg : Config A W) (s : State A W) : Op A W → Prop
  | .contribute _ pid amount => ∀ pool ∈ s.stakePools.lookup pid, pool.withdrawQueue ≠ [] →
      ∀ price ∈ (pool.added amount).sharePrice, (pool.added amount).Buys price
  | .reclaimPoolWorker pid w => ∀ pool ∈ s.stakePools.lookup pid, pool.withdrawQueue ≠ [] →
      ∀ r ∈ s.finalStakeOf cfg (cfg.poolSubAccount pid w), ∀ price ∈ (pool.givenBack r.1 r.2).sharePrice,
        (pool.givenBack r.1 r.2).Buys price
  | _ => True

instance (s : State A W) (op : Op A W) : Decidable (s.PricesShares cfg op) :=
  match op with
  | .contribute .. => inferInstanceAs (Decidable (∀ pool ∈ _, _ → ∀ price ∈ _, _))
  | .reclaimPoolWorker .. => inferInstanceAs (Decidable (∀ pool ∈ _, _ → ∀ r ∈ _, ∀ price ∈ _, _))
  | .create .. | .addWorker .. | .removeWorker .. | .setCap .. | .setPayoutPref ..
    | .setMiningEnable .. | .claimRewards ..
  | .reconcileWithdrawQueue .. | .withdraw .. | .startMining .. | .stopMining .. | .onFinalize | .unbind ..
  | .forceStartMining .. | .forceStopMining .. | .heartbeat .. | .gkMessage .. | .setCoolDownExpiration ..
  | .updateTokenomic .. | .finalizeMining | .forceRegisterWorker .. | .registerWorker ..
    | .benchReport .. | .time ..
  | .balances .. => .isTrue trivial

/-- The weight of all queues. -/
def queuesWeight (s : State A W) : ℕ :=
  StorageMap.total (fun _ pool => Desk.queueWeight pool.withdrawQueue) s.stakePools

theorem Enters.queueWeight_le {op : Op A W} {d : Desk A W} (h : s.Enters cfg op d) :
    Desk.queueWeight d.pool.withdrawQueue ≤ s.queuesWeight := by
  have hle : ∀ pid pool, s.stakePools.lookup pid = some pool →
      Desk.queueWeight pool.withdrawQueue ≤ s.queuesWeight := fun pid pool hpool =>
    StorageMap.le_total (f := fun _ (pool : PoolInfo A W) => Desk.queueWeight pool.withdrawQueue)
      (fun _ _ _ => Nat.zero_le _) hpool
  cases h with
  | @contribute who pid amount pool books user hpool _ => exact hle pid pool hpool
  | @reclaim pid w pool info returned slashed hpool _ => exact hle pid pool hpool

/-- The desk that an operation enters has nothing to serve, or a free stake that buys shares. -/
theorem Enters.buys {op : Op A W} {d : Desk A W} {price : FixedPoint} (h : s.Enters cfg op d)
    (hok : s.PricesShares cfg op) (hprice : d.pool.sharePrice = some price) :
    d.pool.withdrawQueue = [] ∨ d.pool.Buys price := by
  by_cases hq : d.pool.withdrawQueue = []
  · exact .inl hq
  refine .inr ?_
  cases h with
  | @contribute who pid amount pool books user hpool _ => exact hok pool hpool hq price hprice
  | @reclaim pid w pool info returned slashed hpool hr =>
    exact hok pool hpool hq _ (finalStakeOf_of_lookup hr.miner hr.state hr.final) price hprice

end State

/-- At a pool without requests there is no pass. -/
theorem Desk.Passes.eq_of_no_request {d d' : Desk A W} {price : FixedPoint} (hq : d.pool.withdrawQueue = [])
    (h : Desk.Passes cfg price d d') : d' = d := by
  induction h with
  | refl => rfl
  | tail _ hpass ih =>
    subst ih
    cases hpass with
    | skip _ hq' _ => cases hq.symm.trans hq'
    | serve _ hq' _ _ => cases hq.symm.trans hq'

theorem Desk.processQueue_of_no_request {d : Desk A W} {price : FixedPoint} (hq : d.pool.withdrawQueue = []) :
    processQueue cfg price (fuel + 1) d = .ok d := by
  unfold processQueue
  split
  · simp only [hq]
    rfl
  · rfl

variable [DecidableEq W]

/-- An operation that leaves a free stake that buys shares ends, with fuel for the queues. -/
theorem exec_ne_outOfFuel {op : Op A W} (hs : s.Sound cfg) (hok : s.PricesShares cfg op)
    (hfuel : s.queuesWeight < fuel) :
    exec cfg fuel s op ≠ .error .outOfFuel := by
  have queue : ∀ d, s.Enters cfg op d → d.tryProcessWithdrawQueue cfg fuel ≠ .error .outOfFuel := by
    intro d hd
    unfold Desk.tryProcessWithdrawQueue
    split
    · next price hprice =>
      rcases hd.buys hok hprice with hq | hbuys
      · obtain ⟨n, rfl⟩ := Nat.exists_eq_add_of_lt hfuel
        rw [Desk.processQueue_of_no_request hq]
        exact nofun
      · exact Desk.processQueue_ne_outOfFuel hbuys (hd.queueWeight_le.trans_lt hfuel)
    · exact nofun
  intro he
  cases (exec_ends hs).error he with
  | mild he => exact he (by decide)
  | prepare _ hfail => exact hfail.ne_outOfFuel rfl
  | contribute hpool _ _ hcon hq => exact queue _ (.contribute hpool hcon) hq
  | withdraw _ _ _ hfail => exact hfail.ne_outOfFuel rfl
  | reclaim hpool hr hq => exact queue _ (.reclaim hpool hr) hq

theorem exec_mono {op : Op A W} (h : exec cfg n s op ≠ .error .outOfFuel) (hle : n ≤ m) :
    exec cfg m s op = exec cfg n s op := by
  have queue : ∀ (d : Desk A W) (f : Desk A W → State A W),
      (d.tryProcessWithdrawQueue cfg n >>= fun d => pure (f d)) ≠ .error .outOfFuel →
      (d.tryProcessWithdrawQueue cfg m >>= fun d => pure (f d)) =
        d.tryProcessWithdrawQueue cfg n >>= fun d => pure (f d) := by
    intro d f hd
    rw [Desk.tryProcessWithdrawQueue_mono (fun he => hd (by rw [he]; rfl)) hle]
  cases op with
  | contribute who pid amount =>
    refine bind_congr_ne h fun _ _ h => bind_congr_ne h fun _ _ h => bind_congr_ne h fun _ _ h => ?_
    refine bind_congr_ne h fun _ _ h => bind_congr_ne h fun _ _ h => bind_congr_ne h fun _ _ h => ?_
    refine bind_congr_ne h fun _ _ h => bind_congr_ne h fun _ _ h => ?_
    exact queue _ _ h
  | reclaimPoolWorker pid w =>
    refine bind_congr_ne h fun _ _ h => bind_congr_ne h fun _ _ h => bind_congr_ne h fun _ _ h => ?_
    refine bind_congr_ne h fun _ _ h => ?_
    exact queue _ _ h
  | _ => rfl

/-- An operation depends on its fuel only through the queue of the desk that it enters. -/
theorem exec_congr_queue {op : Op A W} (hf : s.WellFiled)
    (h : ∀ d, s.Enters cfg op d → d.tryProcessWithdrawQueue cfg n = d.tryProcessWithdrawQueue cfg m) :
    exec cfg n s op = exec cfg m s op := by
  cases op with
  | contribute who pid amount =>
    refine bind_congr_ok fun _ _ => bind_congr_ok fun _ _ => bind_congr_ok fun _ _ => ?_
    refine bind_congr_ok fun pool hpool => bind_congr_ok fun _ _ => bind_congr_ok fun _ _ => ?_
    have hpool : s.stakePools.lookup pid = some pool := get_ok.mp hpool
    obtain ⟨rfl, -⟩ := hf.pool _ _ hpool
    refine bind_congr_ok fun ⟨books, user⟩ hcon => bind_congr_ok fun r hr => ?_
    have hr := (PoolInfo.addStake_ends (E := fun _ => True) ⟨trivial, trivial, trivial⟩).ok hr
    subst hr
    have hd := h _ (.contribute hpool hcon)
    exact congrArg (· >>= fun d => pure (s.putDesk pool.pid d)) hd
  | reclaimPoolWorker pid w =>
    refine bind_congr_ok fun _ _ => bind_congr_ok fun r hr => bind_congr_ok fun pool hpool => ?_
    obtain ⟨s₁, origStake, slashed⟩ := r
    obtain ⟨info, returned, hrec, rfl, rfl⟩ :=
      (State.reclaim_ends (E := fun _ => True) ⟨trivial, trivial, trivial, trivial⟩).ok hr
    have hpool : s.stakePools.lookup pid = some pool := get_ok.mp hpool
    refine bind_congr_ok fun pool' hpool' => ?_
    have hpool' := (State.reclaimed_ends (E := fun _ => True) (calcFinalStake_ok hrec.final) (fun _ => trivial)
      (fun _ => trivial) fun _ => trivial).ok hpool'
    subst hpool'
    have hd := h _ (.reclaim hpool hrec)
    exact congrArg (· >>= fun d =>
      pure ((s.reclaimedMiner (cfg.poolSubAccount pid w) info slashed).putDesk pid d)) hd
  | _ => rfl

/-! ## The end -/

/-- **The withdraw queue's loop ends** for every operation, in every reachable
state, that leaves a pool with waiting requests a free stake that buys shares:
there is an outcome, the same for whatever more fuel, and every pass of the
loop pops the request at the front, pays some of its shares or spends free stake. -/
theorem queue_ends (h : Reachable cfg s) {op : Op A W} (hok : s.PricesShares cfg op) :
    (∃ n r, r ≠ .error .outOfFuel ∧ ∀ m ≥ n, exec cfg m s op = r) ∧
    ∀ d price, s.Enters cfg op d → d.pool.sharePrice = some price →
      ∀ d₁ d₂, Desk.Passes cfg price d d₁ → Desk.Pass cfg price d₁ d₂ → d₁.Progress d₂ := by
  constructor
  · have hends := exec_ne_outOfFuel h.sound hok (Nat.lt_succ_self s.queuesWeight)
    exact ⟨s.queuesWeight + 1, _, hends, fun m hm => exec_mono hends hm⟩
  · intro d price hd hprice d₁ d₂ hpasses hpass
    rcases hd.buys hok hprice with hq | hbuys
    · -- no pass without a request
      cases hpasses.eq_of_no_request hq
      cases hpass with
      | skip _ hq' _ => cases hq.symm.trans hq'
      | serve _ hq' _ _ => cases hq.symm.trans hq'
    · exact hpass.progress (hbuys.of_le hpasses.freeStake_le)

/-- A contribution to a pool that owes two requests, of which it pays one and a part of the other. -/
theorem queue_ends_demo : ∃ s, Reachable Demo.release s ∧
    (s.stakePools.lookup 0).map (fun pool => (pool.freeStake, pool.withdrawQueue)) =
      some (0, [⟨.user 1, 400000000000, 1⟩, ⟨.user 2, 900000000000, 1⟩]) ∧
    (∃ n r, r ≠ .error .outOfFuel ∧ ∀ m ≥ n,
      exec Demo.release m s (.contribute (.user 3) 0 1000000000000) = r) ∧
    ∀ d price, s.Enters Demo.release (.contribute (.user 3) 0 1000000000000) d → d.pool.sharePrice = some price →
      ∀ d₁ d₂, Desk.Passes Demo.release price d d₁ → Desk.Pass Demo.release price d₁ d₂ → d₁.Progress d₂ := by
  obtain ⟨s, hrun, hqueue, hok⟩ := ranTo_iff.mp (by decide +kernel :
    ranTo (run Demo.release 9 Demo.genesis (Demo.setup ++
      [.contribute (.user 1) 0 1000000000000, .contribute (.user 2) 0 1000000000000,
        .startMining (.user 0) 0 0 2000000000000, .withdraw (.user 1) 0 400000000000,
        .withdraw (.user 2) 0 900000000000]))
      (fun s => (s.stakePools.lookup 0).map (fun pool => (pool.freeStake, pool.withdrawQueue)) =
          some (0, [⟨.user 1, 400000000000, 1⟩, ⟨.user 2, 900000000000, 1⟩]) ∧
        s.PricesShares Demo.release (.contribute (.user 3) 0 1000000000000)) = true)
  exact ⟨s, Demo.run_genesis hrun, hqueue, queue_ends (Demo.run_genesis hrun) hok⟩

/-! ## Turning on the spot -/

section Unchecked

variable (hchecks : ∀ c, cfg.checks c = false)

include hchecks

omit [DecidableEq W] in
theorem Books.maybeSettleSlash_unchecked (b : Books A W) (pool : PoolInfo A W) (user : UserStakeInfo A) :
    b.maybeSettleSlash cfg pool user =
      .ok (b.settled cfg pool user, { user with locked := pool.settledLocked user }) := by
  have hreduce : ∀ (b : Books A W) who amount dust,
      b.ledgerReduce cfg who amount dust = .ok (b.reduced cfg who amount dust) := by
    intro b who amount dust
    unfold ledgerReduce
    rw [cfg.debugAssert_unchecked (hchecks _)]
    rfl
  unfold maybeSettleSlash PoolInfo.settleSlash
  cases hprice : pool.sharePrice with
  | none =>
    have hl : pool.settledLocked user = user.locked := by simp only [PoolInfo.settledLocked, hprice]
    have hs : pool.shortfall user = 0 := by simp only [PoolInfo.shortfall, hl, Nat.sub_self]
    have hd : ¬isNondustBalance 0 = true := by decide
    simp only [settled, hs, hd, hl]
    rfl
  | some price =>
    have hl : pool.settledLocked user = _ := PoolInfo.settledLocked_eq hprice
    simp only [← hl, PoolInfo.shortfall_def, hreduce]
    split
    · next h =>
      rw [settled, if_pos h]
      rfl
    · next h =>
      rw [settled, if_neg h]
      rfl

omit [DecidableEq A] [DecidableEq W] in
/-- Removing no share changes no pool that has stake, and drops no share. -/
theorem PoolInfo.removeStake_unchecked {pool : PoolInfo A W} {user : UserStakeInfo A} {price : FixedPoint}
    (hprice : pool.sharePrice = some price) (hstake : 1000 < pool.totalStake) (hshares : 1000 < user.shares) :
    pool.removeStake cfg user 0 = .ok (some (pool,
      pool.resetPendingReward { user with locked := (extractDust user.locked).1 }, 0,
      (extractDust user.locked).2)) := by
  have hrest : extractDust pool.totalStake = (pool.totalStake, 0) := extractDust_of_lt hstake
  have hleft : extractDust user.shares = (user.shares, 0) := extractDust_of_lt hshares
  have hpos : pool.totalStake > 0 := by omega
  unfold removeStake assertSlashClean assertRewardClean
  simp only [cfg.debugAssert_unchecked (hchecks _), hprice, bmul_zero, Nat.sub_zero, hleft, Nat.zero_min,
    Nat.add_zero, Nat.not_lt_zero, if_false, Config.sub_of_le cfg (Nat.zero_le _)]
  change Except.ok (some (({ pool with
    totalStake := if (extractDust pool.totalStake).1 > 0 then pool.totalStake else 0
    freeStake := if (extractDust pool.totalStake).1 > 0 then pool.freeStake else 0 } : PoolInfo A W), _, _, _)) = _
  rw [hrest, if_pos hpos, if_pos hpos]

/-- There is a request to serve, of a staker with shares, and the free stake buys none. -/
structure Desk.Stalled (price : FixedPoint) (d : Desk A W) : Prop where
  intro ::
  priced : price ≠ 0 ∧ d.pool.sharePrice ≠ none
  free : 1000 < d.pool.freeStake ∧ bdiv d.pool.freeStake price = 0
  stake : 1000 < d.pool.totalStake
  request : ∃ w rest user, d.pool.withdrawQueue = w :: rest ∧ 1000 < w.shares ∧
    d.books.poolStakers.lookup (d.pool.pid, w.user) = some user ∧ 1000 < user.shares

omit [DecidableEq W] in
/-- A pass for no share leaves the pool and the staker's shares as they are. -/
theorem Desk.Stalled.fulfill {price : FixedPoint} {d : Desk A W} {w : WithdrawInfo A}
    {rest : List (WithdrawInfo A)} {user : UserStakeInfo A} (h : d.Stalled price)
    (hq : d.pool.withdrawQueue = w :: rest) (hw : 1000 < w.shares) (hshares : 1000 < user.shares) :
    ∃ (books : Books A W) (user' : UserStakeInfo A),
      d.fulfill cfg price w user = .ok ⟨d.pool, books.putStaker d.pool.pid w.user user'⟩ ∧
      user'.shares = user.shares := by
  obtain ⟨p, hp⟩ := Option.ne_none_iff_exists'.mp h.priced.2
  obtain ⟨pending, hpending⟩ := cfg.sub_unchecked (hchecks .pendingReward)
    (a := bmul user.shares d.pool.rewardAcc) (b := user.rewardDebt)
  have hnone : withdrawingShares price d.pool w = 0 := by
    unfold withdrawingShares
    rw [if_neg h.priced.1, h.free.2, Nat.zero_min]
  have hserved : servedQueue w 0 d.pool.withdrawQueue = d.pool.withdrawQueue := by
    unfold servedQueue
    rw [Nat.sub_zero, extractDust_of_lt hw, hq, if_neg (by dsimp only; omega)]
    rfl
  have hreduce : ∀ (b : Books A W) who amount dust,
      b.ledgerReduce cfg who amount dust = .ok (b.reduced cfg who amount dust) := by
    intro b who amount dust
    unfold Books.ledgerReduce
    rw [cfg.debugAssert_unchecked (hchecks _)]
    rfl
  have hsettle : d.pool.settleUserPendingReward cfg user = .ok (d.pool.resetPendingReward
      { user with availableRewards := user.availableRewards + pending }) := by
    unfold PoolInfo.settleUserPendingReward PoolInfo.pendingReward
    rw [hpending]
    rfl
  let user₁ := d.pool.resetPendingReward { user with availableRewards := user.availableRewards + pending }
  let user₂ := { user₁ with locked := d.pool.settledLocked user₁ }
  have hremove := PoolInfo.removeStake_unchecked hchecks hp h.stake (show 1000 < user₂.shares from hshares)
  let user₃ := d.pool.resetPendingReward { user₂ with locked := (extractDust user₂.locked).1 }
  let books := ((d.books.settled cfg d.pool user₁).touch (.remove 0) d.pool user₂).reduced cfg user₃.user 0
    (extractDust user₂.locked).2
  have hpaid : d.payOut cfg user₁ 0 .removeOnlyWhatWeHave = .ok (⟨d.pool, books⟩, user₃) := by
    refine bind_ok.mpr ⟨_, Books.maybeSettleSlash_unchecked hchecks _ _ _, ?_⟩
    refine bind_ok.mpr ⟨_, hremove, ?_⟩
    refine bind_ok.mpr ⟨_, rfl, ?_⟩
    exact bind_ok.mpr ⟨_, hreduce _ _ _ _, rfl⟩
  refine ⟨books, d.pool.resetPendingReward user₃, ?_, rfl⟩
  refine bind_ok.mpr ⟨_, hsettle, ?_⟩
  simp only [hnone]
  refine bind_ok.mpr ⟨_, cfg.debugAssert_unchecked (hchecks _), ?_⟩
  refine bind_ok.mpr ⟨_, hpaid, ?_⟩
  simp only [hserved]
  rfl

omit [DecidableEq W] in
/-- A stalled loop turns for ever. -/
theorem Desk.Stalled.outOfFuel {price : FixedPoint} {d : Desk A W} (h : d.Stalled price) (fuel : ℕ) :
    processQueue cfg price fuel d = .error .outOfFuel := by
  induction fuel generalizing d with
  | zero => rfl
  | succ fuel ih =>
    obtain ⟨w, rest, user, hq, hw, hu, hshares⟩ := h.request
    obtain ⟨books, user', hfulfill, hshares'⟩ := h.fulfill hchecks hq hw hshares
    have hstalled : Desk.Stalled price ⟨d.pool, books.putStaker d.pool.pid w.user user'⟩ := by
      refine ⟨h.priced, h.free, h.stake, w, rest, user', hq, hw, ?_, ?_⟩
      · exact Books.lookup_putStaker_self _ _ _ _
      · omega
    unfold processQueue
    rw [if_pos (isNondustBalance_iff.mpr h.free.1)]
    simp only [hq, hu, hfulfill]
    exact ih hstalled

omit [DecidableEq W] in
theorem Desk.Stalled.tryProcessWithdrawQueue {price : FixedPoint} {d : Desk A W} (h : d.Stalled price)
    (hprice : d.pool.sharePrice = some price) (fuel : ℕ) :
    d.tryProcessWithdrawQueue cfg fuel = .error .outOfFuel := by
  unfold Desk.tryProcessWithdrawQueue
  simp only [hprice]
  exact h.outOfFuel hchecks fuel

end Unchecked

/-! ## A loop that never ends -/

namespace Demo

/-- One account is left with 1001 shares; another contributes and withdraws
eleven times, each time dropping 1000 shares as dust, which doubles the price
of the 1001. A third one's stake goes to two miners but for a remainder of
1500 units, less than the price, and its withdrawal has to wait. One of the
miners loses all of its stake and is stopped. -/
def stallingOps : List (Op Account ℕ) :=
  setup ++ [.addWorker (.user 0) 0 1, .contribute (.user 1) 0 (10 ^ 10), .withdraw (.user 1) 0 9999998999] ++
  [9990018960, 4997502744, 2499998999, 1250467457, 625506717, 312899503, 156525090, 78300613, 39169263, 19593908,
    9801347].flatMap (fun shares => [.contribute (.user 2) 0 (10 ^ 10), .withdraw (.user 2) 0 shares]) ++
  [.contribute (.user 3) 0 (10 ^ 12), .startMining (.user 0) 0 1 (10 ^ 11),
    .startMining (.user 0) 0 0 900002039848, .withdraw (.user 3) 0 100000,
    .gkMessage ⟨[], [], [⟨1, 0, 0, 0⟩]⟩, .stopMining (.user 0) 0 1, .time 2000]

end Demo

/-- When the miner that lost everything is reclaimed, the loop finds a price of
1835 units a share and 1500 units to pay from, and never ends. -/
theorem queue_never_ends : ∃ s, Reachable Demo.release s ∧
    ∀ fuel, exec Demo.release fuel s (.reclaimPoolWorker 0 1) = .error .outOfFuel := by
  have hrun := ranTo_iff.mp (by decide +kernel :
    ranTo (run Demo.release 9 Demo.genesis Demo.stallingOps) (fun s =>
      (s.stakePools.lookup 0).map (fun pool => (pool.totalShares, pool.totalStake, pool.freeStake)) =
        some (490363251, 1000002041348, 1500) ∧
      (s.stakePools.lookup 0).map PoolInfo.withdrawQueue = some [⟨.user 3, 100000, 1⟩] ∧
      (s.books.poolStakers.lookup (0, .user 3)).map UserStakeInfo.shares = some 490362250 ∧
      (s.mining.miners.lookup (.miner 0 1)).map (fun info =>
        (info.calcFinalStake Demo.release (s.stakeOf (.miner 0 1))).toOption) = some (some (0, 100000000000)) ∧
      failure (exec Demo.release 9 s (.reclaimPoolWorker 0 1)) = some .outOfFuel) = true)
  obtain ⟨s, hrun, hpool, hqueue, huser, hminer, hexec⟩ := hrun
  have hreach := Demo.run_genesis hrun
  obtain ⟨pool, hpool, hfields⟩ := Option.map_eq_some_iff.mp hpool
  obtain ⟨user, huser, hshares⟩ := Option.map_eq_some_iff.mp huser
  obtain ⟨info, hminer, hfinal⟩ := Option.map_eq_some_iff.mp hminer
  simp only [Prod.mk.injEq] at hfields
  obtain ⟨htotalShares, htotalStake, hfree⟩ := hfields
  rw [hpool] at hqueue
  have hqueue : pool.withdrawQueue = _ := Option.some.inj hqueue
  have hpid := (hreach.wellFiled.pool 0 pool hpool).1
  have hforever : ∀ d, s.Enters Demo.release (.reclaimPoolWorker 0 1) d → ∀ fuel,
      d.tryProcessWithdrawQueue Demo.release fuel = .error .outOfFuel := by
    intro d hd fuel
    cases hd with
    | @reclaim pid w pool' info' returned slashed hpool' hr =>
      cases hpool.symm.trans hpool'
      cases hminer.symm.trans hr.miner
      have hfinal' : info.calcFinalStake Demo.release (s.stakeOf (.miner 0 1)) =
          .ok (returned, slashed) := hr.final
      rw [hfinal'] at hfinal
      cases hfinal
      have hstake : (pool.givenBack 0 100000000000).totalStake = 900002041348 := by
        rw [PoolInfo.givenBack_totalStake (by decide +kernel), htotalStake]
        decide +kernel
      have hq : (pool.givenBack 0 100000000000).withdrawQueue = pool.withdrawQueue :=
        PoolInfo.givenBack_withdrawQueue
      have hid : (pool.givenBack 0 100000000000).pid = 0 := PoolInfo.givenBack_pid.trans hpid
      have hshares : (pool.givenBack 0 100000000000).totalShares = 490363251 :=
        PoolInfo.givenBack_totalShares.trans htotalShares
      have hfree : (pool.givenBack 0 100000000000).freeStake = 1500 :=
        PoolInfo.givenBack_freeStake.trans (by rw [hfree])
      rw [hqueue] at hq
      generalize pool.givenBack 0 100000000000 = pool₁ at hstake hq hid hshares hfree ⊢
      obtain ⟨price, hprice⟩ : ∃ price, (toFixed 900002041348).checkedDiv (toFixed 490363251) = some price :=
        Option.isSome_iff_exists.mp (by decide +kernel)
      obtain ⟨hne, hnone⟩ := (by decide +kernel : ∀ price ∈ (toFixed 900002041348).checkedDiv (toFixed 490363251),
        price ≠ 0 ∧ bdiv 1500 price = 0) price hprice
      have hprice : pool₁.sharePrice = some price := by rw [PoolInfo.sharePrice, hstake, hshares, hprice]
      have hstalled : Desk.Stalled price ⟨pool₁, s.books⟩ := by
        have hfree' : 1000 < pool₁.freeStake := by omega
        have hstake' : 1000 < pool₁.totalStake := by omega
        refine ⟨⟨hne, hprice ▸ nofun⟩, ⟨hfree', hfree ▸ hnone⟩, hstake', ?_⟩
        refine ⟨_, _, user, hq, Nat.lt_of_sub_pos (by decide +kernel), ?_, by omega⟩
        rw [hid]
        exact huser
      exact hstalled.tryProcessWithdrawQueue (fun _ => rfl) hprice fuel
  refine ⟨s, hreach, fun fuel => ?_⟩
  have hsame : exec Demo.release fuel s (.reclaimPoolWorker 0 1) =
      exec Demo.release 9 s (.reclaimPoolWorker 0 1) :=
    exec_congr_queue hreach.wellFiled fun d hd => (hforever d hd fuel).trans (hforever d hd 9).symm
  rw [hsame]
  exact failure_eq_some.mp hexec

end Khala
