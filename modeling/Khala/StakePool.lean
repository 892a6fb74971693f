/-
The stake pool pallet's calls and its block hook (`stakepool.rs`), and the
machine whose steps are all the calls, messages and hooks that touch it.

A step is taken only when it ends well: a dispatch error leaves the state as
it was, and a panic ends the block.
-/
import Khala.Mining
import Khala.Reach

namespace Khala

variable {A W : Type} [DecidableEq A] [DecidableEq W]

namespace State

variable (cfg : Config A W) (s : State A W)

/-- Stores a pool and the books. -/
def putDesk (pid : ℕ) (d : Desk A W) : State A W := { s.putPool pid d.pool with books := d.books }

def putStaker (pid : ℕ) (u : A) (user : UserStakeInfo A) : State A W :=
  { s with books := s.books.putStaker pid u user }

/-! ## Pools and workers -/

def create (owner : A) : State A W :=
  let pid := s.poolCount
  let pool : PoolInfo A W :=
    { pid, owner, payoutCommission := none, ownerReward := 0, cap := none, rewardAcc := 0,
      totalShares := 0, totalStake := 0, freeStake := 0, releasingStake := 0, workers := [],
      withdrawQueue := [] }
  { s.putPool pid pool with poolCount := pid + 1 }

def addWorker (owner : A) (pid : ℕ) (pubkey : W) : Except Fault (State A W) := do
  let workerInfo ← Outcome.get (s.registry.lookup pubkey) (.dispatch .workerNotRegistered)
  Outcome.require (workerInfo.operator = some owner) (.dispatch .unauthorizedOperator)
  Outcome.require (workerInfo.initialScore ≠ none) (.dispatch .benchmarkMissing)
  let pool ← s.ensurePool pid (.dispatch .poolDoesNotExist)
  Outcome.require (pool.owner = owner) (.dispatch .unauthorizedPoolOwner)
  Outcome.require (pubkey ∉ pool.workers) (.dispatch .workerExists)
  Outcome.require (pool.workers.length + 1 ≤ cfg.maxPoolWorkers) (.dispatch .workersExceedLimit)
  let miner := cfg.poolSubAccount pid pubkey
  let s ← match s.bind miner pubkey with
    | .error (.dispatch _) => throw (.dispatch .failedToBindMinerAndWorker)
    | r => r
  let s := s.putPool pid { pool with workers := pool.workers ++ [pubkey] }
  pure (s.putAssignment pubkey pid)

def removeWorker (who : A) (pid : ℕ) (worker : W) : Except Fault (State A W) := do
  let pool ← s.ensurePool pid (.dispatch .poolDoesNotExist)
  Outcome.require (pool.owner = who) (.dispatch .unauthorizedPoolOwner)
  let lookupPid ← Outcome.get (s.workerAssignments.lookup worker) (.dispatch .workerDoesNotExist)
  Outcome.require (pid = lookupPid) (.dispatch .workerInAnotherPool)
  let s ← s.unbindMiner cfg (cfg.poolSubAccount pid worker) false
  s.removeWorkerFromPool worker

def setCap (owner : A) (pid cap : ℕ) : Except Fault (State A W) := do
  let pool ← s.ensurePool pid (.dispatch .poolDoesNotExist)
  Outcome.require (pool.owner = owner) (.dispatch .unauthorizedPoolOwner)
  Outcome.require (pool.totalStake ≤ cap) (.dispatch .inadequateCapacity)
  pure (s.putPool pid { pool with cap := some cap })

def setPayoutPref (owner : A) (pid : ℕ) (payoutCommission : Permill) : Except Fault (State A W) := do
  let pool ← s.ensurePool pid (.dispatch .poolDoesNotExist)
  Outcome.require (pool.owner = owner) (.dispatch .unauthorizedPoolOwner)
  pure (s.putPool pid { pool with payoutCommission := some payoutCommission })

def setMiningEnable (enable : Bool) : State A W := { s with miningEnabled := enable }

/-! ## Rewards -/

/-- The claimer's record with the pending reward settled, if the claimer is a staker. -/
def claimant (pool : PoolInfo A W) (pid : ℕ) (who : A) : Except Fault (Option (UserStakeInfo A)) :=
  match s.books.poolStakers.lookup (pid, who) with
  | none => pure none
  | some userInfo => do
    let userInfo ← pool.settleUserPendingReward cfg userInfo
    pure (some userInfo)

def claimRewards (who : A) (pid : ℕ) (target : A) : Except Fault (State A W) := do
  let pool ← s.ensurePool pid (.dispatch .poolDoesNotExist)
  let ownerRewards := if who = pool.owner then pool.ownerReward else 0
  let pool := if who = pool.owner then { pool with ownerReward := 0 } else pool
  let userInfo ← s.claimant cfg pool pid who
  let rewards := ownerRewards + (userInfo.elim 0 fun userInfo => userInfo.availableRewards)
  Outcome.require (rewards > 0) (.dispatch .noRewardToClaim)
  let balances ← Outcome.get (s.books.balances.transfer cfg cfg.subsidyPool target rewards)
    (.dispatch .internalSubsidyPoolCannotWithdraw)
  let s := (s.setBalances balances).putPool pid pool
  pure (match userInfo with
    | none => s
    | some userInfo => s.putStaker pid who { userInfo with availableRewards := 0 })

/-! ## Contributing and withdrawing -/

/-- The staker about to contribute: settled, or new. -/
def contributor (pool : PoolInfo A W) (pid : ℕ) (who : A) : Except Fault (Books A W × UserStakeInfo A) :=
  match s.books.poolStakers.lookup (pid, who) with
  | some userInfo => do
    let userInfo ← pool.settleUserPendingReward cfg userInfo
    s.books.maybeSettleSlash cfg pool userInfo
  | none => pure (s.books, ⟨who, 0, 0, 0, 0⟩)

def contribute (fuel : ℕ) (who : A) (pid amount : ℕ) : Except Fault (State A W) := do
  Outcome.require (cfg.minContribution ≤ amount) (.dispatch .insufficientContribution)
  let available ← cfg.sub .contributeFree (s.books.balances.free who) (s.books.ledgerQuery who)
  Outcome.require (amount ≤ available) (.dispatch .insufficientBalance)
  let pool ← s.ensurePool pid (.dispatch .poolDoesNotExist)
  Outcome.require (∀ cap ∈ pool.cap, amount ≤ cap - pool.totalStake) (.dispatch .stakeExceedsCapacity)
  Outcome.require (pool.totalShares = 0 ∨ pool.totalStake > 0) (.dispatch .poolBankrupt)
  let (books, userInfo) ← s.contributor cfg pool pid who
  let books := books.touch (.add amount) pool userInfo
  let (pool, userInfo) ← pool.addStake cfg userInfo amount
  let books := (books.putStaker pid who userInfo).ledgerAccrue who amount
  let d ← Desk.tryProcessWithdrawQueue cfg fuel ⟨pool, books⟩
  pure (s.putDesk pid d)

/-- `maybe_add_withdraw_queue` -/
def maybeAddWithdrawQueue (startTime pid : ℕ) : State A W :=
  let t := s.withdrawalTimestamps
  let t := match t.getLast? with
    | some last => if last < startTime then t ++ [startTime] else t
    | none => t ++ [startTime]
  let queued := match s.withdrawalQueuedPools.lookup startTime with
    | some pools =>
      if pid ∈ pools then s.withdrawalQueuedPools
      else s.withdrawalQueuedPools.insert startTime (pools ++ [pid])
    | none => s.withdrawalQueuedPools.insert startTime [pid]
  { s with withdrawalTimestamps := t, withdrawalQueuedPools := queued }

def withdraw (who : A) (pid shares : ℕ) : Except Fault (State A W) := do
  let userInfo ← Outcome.get (s.books.poolStakers.lookup (pid, who)) (.dispatch .poolStakeNotFound)
  Outcome.require (isNondustBalance shares = true ∧ shares ≤ userInfo.shares) (.dispatch .invalidWithdrawalAmount)
  let pool ← s.ensurePool pid (.dispatch .poolDoesNotExist)
  let (d, userInfo) ← Desk.tryWithdraw cfg ⟨pool, s.books⟩ userInfo shares s.nowSec
  let s := if Desk.sharesLater pool shares > 0 then s.maybeAddWithdrawQueue s.nowSec pool.pid else s
  pure ((s.putDesk pid d).putStaker pid who userInfo)

/-- `reconcile_withdraw_queue` -/
def reconcileWithdrawQueue (pid : ℕ) (account : A) : Except Fault (State A W) := do
  let pool ← s.ensurePool pid (.dispatch .poolDoesNotExist)
  let userInfo ← Outcome.get (s.books.poolStakers.lookup (pid, account)) (.dispatch .poolStakeNotFound)
  let availableShares := (extractDust userInfo.shares).1
  pure (match pool.withdrawQueue.findIdx? fun req => req.user = account ∧ req.shares > availableShares with
    | none => s
    | some idx =>
      s.putPool pid { pool with
        withdrawQueue :=
          if availableShares = 0 then pool.withdrawQueue.eraseIdx idx
          else pool.withdrawQueue.modify idx fun req => { req with shares := availableShares } })

/-! ## Mining on behalf of a pool -/

def startPoolMining (owner : A) (pid : ℕ) (worker : W) (stake : ℕ) : Except Fault (State A W) := do
  Outcome.require (s.miningEnabled = true) (.dispatch .featureNotEnabled)
  let pool ← s.ensurePool pid (.dispatch .poolDoesNotExist)
  Outcome.require (pool.owner = owner) (.dispatch .unauthorizedPoolOwner)
  Outcome.require (stake ≤ pool.freeStake) (.dispatch .insufficientFreeStake)
  Outcome.require (worker ∈ pool.workers) (.dispatch .workerDoesNotExist)
  let s ← s.startMining cfg (cfg.poolSubAccount pid worker) stake
  let freeStake ← cfg.sub .startFree pool.freeStake stake
  pure (s.putPool pid { pool with freeStake })

def stopPoolMining (owner : A) (pid : ℕ) (worker : W) : Except Fault (State A W) := do
  Outcome.require (s.miningEnabled = true) (.dispatch .featureNotEnabled)
  let pool ← s.ensurePool pid (.dispatch .poolDoesNotExist)
  Outcome.require (pool.owner = owner) (.dispatch .unauthorizedPoolOwner)
  Outcome.require (worker ∈ pool.workers) (.dispatch .workerDoesNotExist)
  s.stopMining cfg (cfg.poolSubAccount pid worker)

/-- `handle_reclaim`, up to the withdraw queue. -/
def reclaimed (pool : PoolInfo A W) (origStake slashed : ℕ) : Except Fault (PoolInfo A W) := do
  let returned ← cfg.sub .returned origStake slashed
  let pool ← (if slashed ≠ 0 then pool.slash cfg slashed else pure pool)
  cfg.debugAssert .releasing (returned ≤ pool.releasingStake)
  pure { pool with
    freeStake := pool.freeStake + returned, releasingStake := pool.releasingStake - returned }

def reclaimPoolWorker (fuel : ℕ) (pid : ℕ) (worker : W) : Except Fault (State A W) := do
  let _ ← s.ensurePool pid (.dispatch .poolDoesNotExist)
  let (s, origStake, slashed) ← s.reclaim cfg (cfg.poolSubAccount pid worker)
  let pool ← s.ensurePool pid (.panic .stakePoolMustExist)
  let pool ← reclaimed cfg pool origStake slashed
  let d ← Desk.tryProcessWithdrawQueue cfg fuel ⟨pool, s.books⟩
  pure (s.putDesk pid d)

/-! ## Expired requests -/

/-- A miner that cannot be stopped is left alone. -/
def tryStopMining (s : State A W) (miner : A) : Except Fault (State A W) :=
  match s.stopMining cfg miner with
  | .error (.dispatch _) => pure s
  | r => r

/-- Stops all miners of the pool if it has an expired withdrawal. -/
def forceShutdown (now : ℕ) (s : State A W) (pid : ℕ) : Except Fault (State A W) := do
  let pool ← s.ensurePool pid (.panic .stakePoolMustExist)
  if (← pool.hasExpiredWithdrawal cfg now cfg.gracePeriod) = true then
    pool.workers.foldlM (fun s worker => s.tryStopMining cfg (cfg.poolSubAccount pid worker)) s
  else pure s

/-- The loop of `maybe_force_withdraw` over the waiting timestamps. -/
def forceTimestamps (now : ℕ) : List ℕ → State A W → Except Fault (State A W)
  | [], s => pure { s with withdrawalTimestamps := [] }
  | startTime :: t, s => do
    let waiting ← cfg.sub64 .requestTime now startTime
    if waiting ≤ cfg.gracePeriod then pure { s with withdrawalTimestamps := startTime :: t }
    else do
      let pools ← Outcome.get (s.withdrawalQueuedPools.lookup startTime) (.panic .poolListMustExist)
      let s := { s with withdrawalQueuedPools := s.withdrawalQueuedPools.erase startTime }
      let s ← pools.foldlM (forceShutdown cfg now) s
      forceTimestamps now t s

/-- `on_finalize` of the stake pool pallet. -/
def onFinalize : Except Fault (State A W) := s.forceTimestamps cfg s.nowSec s.withdrawalTimestamps

end State

/-! ## The machine -/

/-- Everything that reaches the pallets' storage. `time` is the next block's
timestamp, and `balances` whatever else happens to free balances. -/
inductive Op (A W : Type)
  | create (owner : A)
  | addWorker (owner : A) (pid : ℕ) (pubkey : W)
  | removeWorker (who : A) (pid : ℕ) (worker : W)
  | setCap (owner : A) (pid cap : ℕ)
  | setPayoutPref (owner : A) (pid : ℕ) (payoutCommission : Permill)
  | setMiningEnable (enable : Bool)
  | claimRewards (who : A) (pid : ℕ) (target : A)
  | contribute (who : A) (pid amount : ℕ)
  | withdraw (who : A) (pid shares : ℕ)
  | reconcileWithdrawQueue (pid : ℕ) (account : A)
  | startMining (owner : A) (pid : ℕ) (worker : W) (stake : ℕ)
  | stopMining (owner : A) (pid : ℕ) (worker : W)
  | reclaimPoolWorker (pid : ℕ) (worker : W)
  | onFinalize
  | unbind (who miner : A)
  | forceStartMining (miner : A) (stake : ℕ)
  | forceStopMining (miner : A)
  | heartbeat (worker : W) (iterations challengeTime : ℕ)
  | gkMessage (event : MiningInfoUpdateEvent W)
  | setCoolDownExpiration (period : ℕ)
  | updateTokenomic (params : TokenomicParams)
  | finalizeMining
  | forceRegisterWorker (pubkey : W) (operator : Option A)
  | registerWorker (pubkey : W) (operator : Option A) (confidenceLevel : ℕ)
  | benchReport (worker : W) (startTime iterations : ℕ)
  | time (now : ℕ)
  | balances (free : A → ℕ)

/-- The effect of an operation, with `fuel` for the withdraw queue. -/
def exec (cfg : Config A W) (fuel : ℕ) (s : State A W) : Op A W → Except Fault (State A W)
  | .create owner => pure (s.create owner)
  | .addWorker owner pid pubkey => s.addWorker cfg owner pid pubkey
  | .removeWorker who pid worker => s.removeWorker cfg who pid worker
  | .setCap owner pid cap => s.setCap owner pid cap
  | .setPayoutPref owner pid payoutCommission => s.setPayoutPref owner pid payoutCommission
  | .setMiningEnable enable => pure (s.setMiningEnable enable)
  | .claimRewards who pid target => s.claimRewards cfg who pid target
  | .contribute who pid amount => s.contribute cfg fuel who pid amount
  | .withdraw who pid shares => s.withdraw cfg who pid shares
  | .reconcileWithdrawQueue pid account => s.reconcileWithdrawQueue pid account
  | .startMining owner pid worker stake => s.startPoolMining cfg owner pid worker stake
  | .stopMining owner pid worker => s.stopPoolMining cfg owner pid worker
  | .reclaimPoolWorker pid worker => s.reclaimPoolWorker cfg fuel pid worker
  | .onFinalize => s.onFinalize cfg
  | .unbind who miner => s.unbind cfg who miner
  | .forceStartMining miner stake => s.startMining cfg miner stake
  | .forceStopMining miner => s.stopMining cfg miner
  | .heartbeat worker iterations challengeTime => s.heartbeat cfg worker iterations challengeTime
  | .gkMessage event => s.gkMessage cfg event
  | .setCoolDownExpiration period => pure (s.setCoolDownExpiration period)
  | .updateTokenomic params => pure (s.updateTokenomic params)
  | .finalizeMining => pure s.finalizeMining
  | .forceRegisterWorker pubkey operator => pure (s.forceRegisterWorker pubkey operator)
  | .registerWorker pubkey operator confidenceLevel => pure (s.registerWorker pubkey operator confidenceLevel)
  | .benchReport worker startTime iterations => s.benchReport cfg worker startTime iterations
  | .time now => pure (if s.now < now then { s with now } else s)
  | .balances free => pure (s.setBalances { s.books.balances with free })

/-- The operation ends well, whatever fuel that takes. -/
def Step (cfg : Config A W) (s : State A W) (op : Op A W) (s' : State A W) : Prop :=
  ∃ fuel, exec cfg fuel s op = .ok s'

/-- Empty storage, with any registered workers, any balances, none of them
locked, and any parameters. -/
structure Genesis (s : State A W) : Prop where
  mining : s.mining.scheduledTokenomicUpdate = none ∧ s.mining.onlineMiners = 0 ∧ s.mining.miners = ∅ ∧
    s.mining.minerBindings = ∅ ∧ s.mining.workerBindings = ∅ ∧ s.mining.nextSessionId = 0 ∧
    s.mining.stakes = ∅
  pools : s.stakePools = ∅ ∧ s.poolCount = 0 ∧ s.workerAssignments = ∅
  books : s.books.poolStakers = ∅ ∧ s.books.stakeLedger = ∅ ∧ s.books.balances.lock = (fun _ => none) ∧
    s.books.history = []
  timetable : s.withdrawalQueuedPools = ∅ ∧ s.withdrawalTimestamps = []
  notices : s.notices = []

/-- The states of any run whose operations satisfy `ok` where they are taken. -/
abbrev RunWhere (cfg : Config A W) (ok : State A W → Op A W → Prop) : State A W → Prop :=
  ReachWhere Genesis (Step cfg) ok

abbrev Reachable (cfg : Config A W) : State A W → Prop := RunWhere cfg fun _ _ => True

/-- The operations one after the other, as long as they end well. -/
def run (cfg : Config A W) (fuel : ℕ) (s : State A W) (ops : List (Op A W)) : Except Fault (State A W) :=
  ops.foldlM (exec cfg fuel) s

theorem run_reachable {cfg : Config A W} {fuel : ℕ} {s₀ s : State A W} {ops : List (Op A W)}
    {ok : State A W → Op A W → Prop} (h₀ : RunWhere cfg ok s₀)
    (hok : ∀ s op, op ∈ ops → ok s op) (h : run cfg fuel s₀ ops = .ok s) : RunWhere cfg ok s := by
  induction ops generalizing s₀ with
  | nil =>
    cases h
    exact h₀
  | cons op ops ih =>
    simp only [run, List.foldlM_cons, Outcome.bind_ok] at h
    obtain ⟨s₁, h₁, h⟩ := h
    exact ih (.step h₀ (hok _ _ (by simp)) ⟨fuel, h₁⟩) (fun s op ho => hok s op (by simp [ho])) h

/-- The operations one after the other, as long as they end well and satisfy `ok`. -/
def runWhere (cfg : Config A W) (ok : State A W → Op A W → Prop) [∀ s op, Decidable (ok s op)] (fuel : ℕ)
    (s : State A W) (ops : List (Op A W)) : Except Fault (State A W) :=
  ops.foldlM (fun s op => if ok s op then exec cfg fuel s op else throw .outOfFuel) s

theorem runWhere_reachable {cfg : Config A W} {ok : State A W → Op A W → Prop} [∀ s op, Decidable (ok s op)]
    {fuel : ℕ} {s₀ s : State A W} {ops : List (Op A W)} (h₀ : RunWhere cfg ok s₀)
    (h : runWhere cfg ok fuel s₀ ops = .ok s) : RunWhere cfg ok s := by
  induction ops generalizing s₀ with
  | nil =>
    cases h
    exact h₀
  | cons op ops ih =>
    simp only [runWhere, List.foldlM_cons, Outcome.bind_ok] at h
    obtain ⟨s₁, h₁, h⟩ := h
    split at h₁
    · next hok => exact ih (.step h₀ hok ⟨fuel, h₁⟩) h
    · cases h₁

section

omit [DecidableEq A] [DecidableEq W]

/-- The run ends well, in a state with the property. -/
def ranTo (r : Except Fault (State A W)) (p : State A W → Prop) [DecidablePred p] : Bool :=
  match r with
  | .ok s => p s
  | .error _ => false

theorem ranTo_iff {r : Except Fault (State A W)} {p : State A W → Prop} [DecidablePred p] :
    ranTo r p = true ↔ ∃ s, r = .ok s ∧ p s := by
  cases r with
  | ok s => exact ⟨fun h => ⟨s, rfl, of_decide_eq_true h⟩, fun ⟨_, h, hp⟩ => by cases h; exact decide_eq_true hp⟩
  | error e => exact ⟨nofun, nofun⟩

end

/-! ## A chain to run -/

namespace Demo

inductive Account
  | user (n : ℕ) | miner (pid worker : ℕ) | subsidy | treasury
deriving DecidableEq, Repr

/-- The square root, rounded down. -/
def sqrt (x : FixedPoint) : FixedPoint :=
  U64F64.ofBits ((List.range 96).foldr (fun i r => if (r + 2 ^ i) ^ 2 ≤ 2 ^ 64 * x.bits then r + 2 ^ i else r) 0)

/-- A runtime with these checks compiled in. -/
def cfg (checks : Check → Bool) : Config Account ℕ where
  minContribution := 10 ^ 10
  gracePeriod := 604800
  maxPoolWorkers := 200
  minInitP := 1
  poolSubAccount := .miner
  subsidyPool := .subsidy
  treasury := .treasury
  slashable b who value := min value (b.free who)
  transferable b source _ value := value ≤ b.free source - (b.lock source).getD 0
  withdrawable b who value := value ≤ b.free who - (b.lock who).getD 0
  sqrt := sqrt
  checks

/-- A release build. -/
abbrev release : Config Account ℕ := cfg fun _ => false

/-- Two registered workers, and a thousand tokens for everybody. A miner needs a tenth of a token. -/
def genesis : State Account ℕ where
  registry := (AList.insert 0 ⟨0, some (.user 0), 4, some 100⟩ ∅).insert 1 ⟨0, some (.user 0), 4, some 100⟩
  mining := ⟨some ⟨U64F64.fromNum 30000, 0, 0, U64F64.fromNum 1, U64F64.ofBits (2 ^ 64 / 100)⟩, none, 0, ∅, ∅, ∅,
    0, 0, ∅⟩
  stakePools := ∅
  books := ⟨∅, ∅, ⟨fun _ => 10 ^ 15, fun _ => none⟩, []⟩
  poolCount := 0
  workerAssignments := ∅
  withdrawalQueuedPools := ∅
  withdrawalTimestamps := []
  miningEnabled := true
  now := 1000
  notices := []

theorem genesis_spec : Genesis genesis where
  mining := ⟨rfl, rfl, rfl, rfl, rfl, rfl, rfl⟩
  pools := ⟨rfl, rfl, rfl⟩
  books := ⟨rfl, rfl, rfl, rfl⟩
  timetable := ⟨rfl, rfl⟩
  notices := rfl

theorem run_genesis {cfg : Config Account ℕ} {fuel : ℕ} {s : State Account ℕ} {ops : List (Op Account ℕ)}
    (h : run cfg fuel genesis ops = .ok s) : Reachable cfg s :=
  run_reachable (.init genesis_spec) (fun _ _ _ => trivial) h

/-- A pool with a worker. -/
def setup : List (Op Account ℕ) := [.create (.user 0), .addWorker (.user 0) 0 0]

end Demo

end Khala
