/-
The mining pallet (`mining.rs`), with the hooks by which it notifies the
stake pool pallet, and the parts of the registry that both read.

Every dispatch error is answered before the first write, so a failed call is
`Except.error` and leaves no state behind. The two places where the code goes
on after an error keep what was written: `tryHandleSettle` and, in the stake
pool pallet, `maybeForceWithdraw`.
-/
import Khala.Books

namespace Khala

variable {A W : Type}

/-! ## The registry -/

namespace State

variable [DecidableEq W]

/-- `force_register_worker` -/
def forceRegisterWorker (s : State A W) (pubkey : W) (operator : Option A) : State A W :=
  { s with registry := s.registry.insert pubkey ⟨0, operator, 128, none⟩ }

/-- `register_worker`, of an attested report with this confidence level. -/
def registerWorker (s : State A W) (pubkey : W) (operator : Option A) (confidenceLevel : ℕ) : State A W :=
  let info := match s.registry.lookup pubkey with
    | some info => { info with lastUpdated := s.nowSec, operator }
    | none => ⟨s.nowSec, operator, confidenceLevel, none⟩
  { s with registry := s.registry.insert pubkey info }

/-- `on_message_received` of a `BenchReport`. -/
def benchReport (cfg : Config A W) (s : State A W) (worker : W) (startTime iterations : ℕ) :
    Except Fault (State A W) := do
  Outcome.require (startTime < s.now) (.dispatch .invalidBenchReport)
  Outcome.require ((s.now - startTime) / 1000 ≠ 0) (.panic .zeroDivisor)
  let score ← cfg.fit .benchScore 64 (iterations / ((s.now - startTime) / 1000) * 6)
  let score := min 6000 (score % 2 ^ 32)
  pure { s with registry := match s.registry.lookup worker with
    | some val => s.registry.insert worker { val with initialScore := some score, lastUpdated := s.now }
    | none => s.registry }

end State

/-! ## Miners -/

namespace MinerState

def canUnbind : MinerState → Bool
  | .ready | .miningCoolingDown => true
  | _ => false

def canSettle : MinerState → Bool
  | .miningIdle | .miningActive | .miningUnresponsive => true
  | _ => false

def isMining : MinerState → Bool
  | .miningIdle | .miningUnresponsive => true
  | _ => false

end MinerState

/-- `Benchmark::update`; the caller expects no error. -/
def Benchmark.update (cfg : Config A W) (self : Benchmark) (now iterations challengeTime : ℕ) :
    Except Fault Benchmark := do
  Outcome.require (self.challengeTimeLast < now) (.panic .benchmarkReport)
  let last := min self.iterations iterations
  let deltaTs := now - self.challengeTimeLast
  let deltaIter := iterations - last
  let scaled ← cfg.fit .benchmark 64 (deltaIter * 6)
  let pCap ← cfg.fit .benchmark 32 (self.pInit * 12)
  let pInstant := scaled / deltaTs % 2 ^ 32
  pure { self with challengeTimeLast := challengeTime, iterations, pInstant := min pInstant (pCap / 10) }

/-- Entering the cool down -/
def MinerInfo.coolDown (self : MinerInfo) (now : ℕ) : MinerInfo :=
  { self with state := .miningCoolingDown, coolDownStart := now }

/-- `calc_final_stake`: the returned and the slashed stake. -/
def MinerInfo.calcFinalStake (cfg : Config A W) (self : MinerInfo) (origStake : ℕ) :
    Except Fault (ℕ × ℕ) := do
  Outcome.require (self.ve ≠ 0) (.panic .zeroDivisor)
  let returnRate := min (self.v / self.ve) 1
  let returned := fromFixed (returnRate * toFixed origStake)
  let slashed ← cfg.sub .finalStake origStake returned
  pure (returned, slashed)

namespace TokenomicParams

variable (cfg : Config A W) (self : TokenomicParams)

def minimalStake (p : ℕ) : ℕ := fromFixed (self.k * cfg.sqrt (U64F64.fromNum p))

def rigCost (p : ℕ) : FixedPoint := self.rigK * U64F64.fromNum p + self.rigB

/-- `fp!(0.8)` and `fp!(0.7)` are the nearest numbers of the format. -/
def confidenceScore (confidenceLevel : ℕ) : FixedPoint :=
  if confidenceLevel = 4 then U64F64.ofBits 14757395258967641293
  else if confidenceLevel = 5 then U64F64.ofBits 12912720851596686131
  else 1

def initialVe (stake p confidenceLevel : ℕ) : FixedPoint :=
  let tweakedRe := (self.re - 1) * confidenceScore confidenceLevel + 1
  tweakedRe * (toFixed stake + self.rigCost p)

end TokenomicParams

/-! ## The stake pool's hooks -/

namespace State

variable [DecidableEq A] [DecidableEq W] (cfg : Config A W)

/-- `ensure_pool` -/
def ensurePool (s : State A W) (pid : ℕ) (e : Fault) : Except Fault (PoolInfo A W) :=
  Outcome.get (s.stakePools.lookup pid) e

def putPool (s : State A W) (pid : ℕ) (pool : PoolInfo A W) : State A W :=
  { s with stakePools := s.stakePools.insert pid pool }

def putAssignment (s : State A W) (worker : W) (pid : ℕ) : State A W :=
  { s with workerAssignments := s.workerAssignments.insert worker pid }

def removeAssignment (s : State A W) (worker : W) : State A W :=
  { s with workerAssignments := s.workerAssignments.erase worker }

def setBalances (s : State A W) (balances : Balances A) : State A W :=
  { s with books := { s.books with balances } }

/-- `handle_pool_new_reward` -/
def handlePoolNewReward (pool : PoolInfo A W) (rewards : ℕ) : Except Fault (PoolInfo A W) :=
  if rewards > 0 then
    if balanceCloseToZero pool.totalShares = true then pure pool
    else
      let commission := (pool.payoutCommission.getD Permill.zero).mul rewards
      let pool := { pool with ownerReward := pool.ownerReward + commission }
      -- a commission is at most the rewards (`Permill.mul_le`)
      let toDistribute := rewards - commission
      if isNondustBalance toDistribute = true then pool.distributeReward toDistribute else pure pool
  else pure pool

/-- It returns at the first worker in no pool. -/
def onReward (s : State A W) : List (SettleInfo W) → Except Fault (State A W)
  | [] => pure s
  | info :: rest =>
    match s.workerAssignments.lookup info.pubkey with
    | none => pure s
    | some pid => do
      let pool ← s.ensurePool pid (.panic .stakePoolMustExist)
      let pool ← handlePoolNewReward pool (fromFixed info.payout)
      (s.putPool pid pool).onReward rest

/-- `remove_worker_from_pool`, which `on_unbound` calls. -/
def removeWorkerFromPool (s : State A W) (worker : W) : Except Fault (State A W) := do
  let pid ← Outcome.get (s.workerAssignments.lookup worker) (.panic .workerMustBeInPool)
  let s := s.removeAssignment worker
  pure (match s.stakePools.lookup pid with
    | some pool => s.putPool pid (pool.removeWorker worker)
    | none => s)

def onStopped (s : State A W) (worker : W) (origStake slashed : ℕ) : Except Fault (State A W) := do
  let pid ← Outcome.get (s.workerAssignments.lookup worker) (.panic .stoppingWorkersHaveAssignment)
  let pool ← s.ensurePool pid (.panic .stakePoolMustExist)
  let returned ← cfg.sub .returned origStake slashed
  pure (s.putPool pid { pool with releasingStake := pool.releasingStake + returned })

/-! ## Writes to the mining pallet's storage -/

def putMiner (s : State A W) (miner : A) (info : MinerInfo) : State A W :=
  { s with mining := { s.mining with miners := s.mining.miners.insert miner info } }

def putBinding (s : State A W) (miner : A) (worker : W) : State A W :=
  { s with mining := { s.mining with
    minerBindings := s.mining.minerBindings.insert miner worker
    workerBindings := s.mining.workerBindings.insert worker miner } }

def removeBinding (s : State A W) (miner : A) (worker : W) : State A W :=
  { s with mining := { s.mining with
    minerBindings := s.mining.minerBindings.erase miner
    workerBindings := s.mining.workerBindings.erase worker } }

def putStake (s : State A W) (miner : A) (stake : ℕ) : State A W :=
  { s with mining := { s.mining with stakes := s.mining.stakes.insert miner stake } }

def removeStake (s : State A W) (miner : A) : State A W :=
  { s with mining := { s.mining with stakes := s.mining.stakes.erase miner } }

def stakeOf (s : State A W) (miner : A) : ℕ := (s.mining.stakes.lookup miner).getD 0

def setOnlineMiners (s : State A W) (onlineMiners : ℕ) : State A W :=
  { s with mining := { s.mining with onlineMiners } }

def setNextSessionId (s : State A W) (nextSessionId : ℕ) : State A W :=
  { s with mining := { s.mining with nextSessionId } }

/-- Writes the history variable. -/
def notice (s : State A W) (n : Notice A) : State A W := { s with notices := n :: s.notices }

/-! ## Binding, starting and stopping -/

def bind (s : State A W) (miner : A) (pubkey : W) : Except Fault (State A W) := do
  let worker ← Outcome.get (s.registry.lookup pubkey) (.dispatch .miningWorkerNotRegistered)
  Outcome.require (worker.initialScore ≠ none) (.dispatch .miningBenchmarkMissing)
  Outcome.require (s.mining.minerBindings.lookup miner = none) (.dispatch .duplicateBoundMiner)
  Outcome.require (s.mining.workerBindings.lookup pubkey = none) (.dispatch .duplicateBoundWorker)
  Outcome.require (∀ info ∈ s.mining.miners.lookup miner, info.state = .ready) (.dispatch .minerNotReady)
  let info : MinerInfo :=
    { state := .ready, ve := 0, v := 0, vUpdatedAt := s.nowSec,
      benchmark := ⟨0, 0, 0, s.nowSec, 0⟩, coolDownStart := 0, totalReward := 0 }
  pure ((s.putBinding miner pubkey).putMiner miner info)

def startMining (s : State A W) (miner : A) (stake : ℕ) : Except Fault (State A W) := do
  let worker ← Outcome.get (s.mining.minerBindings.lookup miner) (.dispatch .minerNotFound)
  let info ← Outcome.get (s.mining.miners.lookup miner) (.panic .minerUnwrap)
  Outcome.require (info.state = .ready) (.dispatch .minerNotReady)
  Outcome.require (s.mining.stakes.lookup miner = none) (.dispatch .internalErrorCannotStartWithExistingStake)
  let workerInfo ← Outcome.get (s.registry.lookup worker) (.panic .boundWorker)
  let p ← Outcome.get workerInfo.initialScore (.dispatch .miningBenchmarkMissing)
  Outcome.require (cfg.minInitP ≤ p) (.dispatch .benchmarkTooLow)
  let tokenomic ← Outcome.get s.mining.tokenomicParameters (.dispatch .internalErrorBadTokenomicParameters)
  Outcome.require (tokenomic.minimalStake cfg p ≤ stake) (.dispatch .insufficientStake)
  let ve := tokenomic.initialVe stake p workerInfo.confidenceLevel
  Outcome.require (ve.bits ≤ tokenomic.vMax.bits) (.dispatch .tooMuchStake)
  let onlineMiners ← cfg.fit .onlineMiners 32 (s.mining.onlineMiners + 1)
  let nextSessionId ← cfg.fit .sessionId 32 (s.mining.nextSessionId + 1)
  let info := { info with
    state := .miningIdle, ve, v := ve, vUpdatedAt := s.nowSec
    benchmark := { info.benchmark with pInit := p } }
  pure ((((s.putStake miner stake).putMiner miner info).setOnlineMiners onlineMiners).setNextSessionId
    nextSessionId)

/-- `*v -= 1` on the 32 bits of `OnlineMiners` -/
def lessOnline (n : ℕ) : Except Fault ℕ :=
  if 0 < n then pure (n - 1)
  else if cfg.checks .onlineMiners then throw (.panic (.check .onlineMiners))
  else pure (2 ^ 32 - 1)

def stopMining (s : State A W) (miner : A) : Except Fault (State A W) := do
  let worker ← Outcome.get (s.mining.minerBindings.lookup miner) (.dispatch .minerNotBound)
  let info ← Outcome.get (s.mining.miners.lookup miner) (.dispatch .minerNotFound)
  Outcome.require (info.state ≠ .ready ∧ info.state ≠ .miningCoolingDown) (.dispatch .minerNotMining)
  let info := info.coolDown s.nowSec
  let onlineMiners ← lessOnline cfg s.mining.onlineMiners
  let s := (s.putMiner miner info).setOnlineMiners onlineMiners
  let origStake := s.stakeOf miner
  let (_, slashed) ← info.calcFinalStake cfg origStake
  let s ← s.onStopped cfg worker origStake slashed
  pure (s.notice (.stopped miner origStake slashed))

def unbindMiner (s : State A W) (miner : A) (notify : Bool) : Except Fault (State A W) := do
  let worker ← Outcome.get (s.mining.minerBindings.lookup miner) (.dispatch .minerNotBound)
  let info ← Outcome.get (s.mining.miners.lookup miner) (.panic .boundMiner)
  let s ← if info.state.canUnbind = true then pure s else s.stopMining cfg miner
  let s := s.removeBinding miner worker
  if notify = true then s.removeWorkerFromPool worker else pure s

/-- The call `unbind`. -/
def unbind (s : State A W) (who miner : A) : Except Fault (State A W) := do
  let pubkey ← Outcome.get (s.mining.minerBindings.lookup miner) (.dispatch .minerNotBound)
  let worker ← Outcome.get (s.registry.lookup pubkey) (.dispatch .miningWorkerNotRegistered)
  Outcome.require (worker.operator = some who) (.dispatch .badSender)
  s.unbindMiner cfg miner true

/-! ## Reclaiming -/

def canReclaim (s : State A W) (info : MinerInfo) : Except Fault Bool :=
  if info.state = .miningCoolingDown then do
    let elapsed ← cfg.sub64 .coolDown s.nowSec info.coolDownStart
    pure (s.mining.coolDownPeriod ≤ elapsed)
  else pure false

/-- The original stake and what is slashed of it. -/
def reclaim (s : State A W) (miner : A) : Except Fault (State A W × ℕ × ℕ) := do
  let info ← Outcome.get (s.mining.miners.lookup miner) (.dispatch .minerNotFound)
  Outcome.require ((← s.canReclaim cfg info) = true) (.dispatch .coolDownNotReady)
  let info := { info with state := .ready, coolDownStart := 0 }
  let origStake := s.stakeOf miner
  let s := (s.putMiner miner info).removeStake miner
  let (_, slashed) ← info.calcFinalStake cfg origStake
  pure (s.notice (.reclaimed miner origStake slashed), origStake, slashed)

/-! ## Messages -/

/-- `on_mining_message_received` of a worker's `Heartbeat`. -/
def heartbeat (s : State A W) (worker : W) (iterations challengeTime : ℕ) : Except Fault (State A W) := do
  let miner ← Outcome.get (s.mining.workerBindings.lookup worker) (.dispatch .workerNotBound)
  let info ← Outcome.get (s.mining.miners.lookup miner) (.panic .boundMiner)
  let _ ← Outcome.get (s.registry.lookup worker) (.panic .boundWorker)
  let benchmark ← info.benchmark.update cfg s.nowSec iterations (challengeTime / 1000)
  pure (s.putMiner miner { info with benchmark })

/-- Moves a worker's mining miner to `state`, and skips any other worker. -/
def setResponsive (state : MinerState) (s : State A W) (worker : W) : State A W :=
  match s.mining.workerBindings.lookup worker with
  | none => s
  | some account =>
    match s.mining.miners.lookup account with
    | none => s
    | some info => if info.state.isMining = true then s.putMiner account { info with state } else s

/-- The state it leaves, also where the subsidy pool refuses the treasury's part
or the bound miner has no record: the caller only reports that error. -/
def tryHandleSettle (s : State A W) (info : SettleInfo W) : Except Fault (State A W) :=
  match s.mining.workerBindings.lookup info.pubkey with
  | none => pure s
  | some account =>
    match s.mining.miners.lookup account with
    | none => pure s
    | some minerInfo => do
      cfg.debugAssert .canSettle (minerInfo.state.canSettle = true)
      let totalReward := minerInfo.totalReward + fromFixed info.payout
      let s := s.putMiner account { minerInfo with v := info.v, vUpdatedAt := s.nowSec, totalReward }
      pure (match s.books.balances.withdraw cfg cfg.subsidyPool (fromFixed info.treasury) with
        | some balances => s.setBalances balances
        | none => s)

/-- `on_gk_message_received` of the gatekeeper. -/
def gkMessage (s : State A W) (event : MiningInfoUpdateEvent W) : Except Fault (State A W) := do
  let s := event.offline.foldl (setResponsive .miningUnresponsive) s
  let s := event.recoveredToOnline.foldl (setResponsive .miningIdle) s
  let s ← event.settle.foldlM (tryHandleSettle cfg) s
  s.onReward event.settle

/-! ## Parameters -/

def setCoolDownExpiration (s : State A W) (period : ℕ) : State A W :=
  { s with mining := { s.mining with coolDownPeriod := period } }

def updateTokenomic (s : State A W) (params : TokenomicParams) : State A W :=
  { s with mining := { s.mining with scheduledTokenomicUpdate := some params } }

/-- `on_finalize` of the mining pallet. -/
def finalizeMining (s : State A W) : State A W :=
  match s.mining.scheduledTokenomicUpdate with
  | none => s
  | some params =>
    { s with mining := { s.mining with
      tokenomicParameters := some params, scheduledTokenomicUpdate := none } }

end State

end Khala
