/-
The storage of the registry, mining and stake pool pallets, and what their
calls can end with.

Accounts `A` and worker keys `W` are any types with decidable equality.
Balances are naturals: sums of balances are not cut at 128 bits, while every
subtraction the code writes as `-` goes through `Config.sub`, which wraps at
128 bits, or panics where the profile has overflow checks. What `Currency`
does and the derivation of pool sub-accounts are parameters (`Config`).
-/
import Khala.Balance
import Khala.Outcome
import Khala.StorageMap

namespace Khala

/-! ## What a call can end with -/

/-- A debug assertion or an overflow check, by the place it guards. -/
inductive Check
  | contributeFree | ledgerReduce
  | addNondust | removeNondust | slashClean | rewardClean | pendingReward
  | totalSharesDust | removeTotal | slashShares | slashStake
  | startFree | returned | releasing | withdrawingShares
  | expiredFree | requestTime
  | onlineMiners | sessionId | coolDown | finalStake | benchmark | canSettle | benchScore
  | migratedShares
deriving DecidableEq, Repr

inductive Panic
  | check (c : Check)
  | stakePoolMustExist | enoughWithdrawingShares | removeOnlyWhatWeHave
  | workerMustBeInPool | stoppingWorkersHaveAssignment | poolListMustExist | divideByZero
  | boundMiner | boundWorker | minerUnwrap | benchmarkReport | zeroDivisor
deriving DecidableEq, Repr

/-- The dispatch errors of the three pallets, and a refusal of `Currency`. -/
inductive Error
  -- stake pool
  | workerNotRegistered | benchmarkMissing | workerExists | workerDoesNotExist | workerInAnotherPool
  | unauthorizedOperator | unauthorizedPoolOwner | inadequateCapacity | stakeExceedsCapacity
  | poolDoesNotExist | insufficientContribution | insufficientBalance | poolStakeNotFound
  | insufficientFreeStake | invalidWithdrawalAmount | failedToBindMinerAndWorker
  | internalSubsidyPoolCannotWithdraw | poolBankrupt | noRewardToClaim | featureNotEnabled
  | workersExceedLimit
  -- mining
  | badSender | miningWorkerNotRegistered | miningBenchmarkMissing | duplicateBoundMiner | minerNotFound
  | minerNotBound | minerNotReady | minerNotMining | workerNotBound | coolDownNotReady | insufficientStake
  | tooMuchStake | internalErrorBadTokenomicParameters | duplicateBoundWorker | benchmarkTooLow
  | internalErrorCannotStartWithExistingStake
  -- registry
  | invalidBenchReport
  -- `Currency`
  | currency
deriving DecidableEq, Repr

inductive Fault
  | dispatch (e : Error)
  | panic (p : Panic)
  | outOfFuel
deriving DecidableEq, Repr

/-! ## Accounts -/

/-- What the pallets see of `Currency`: the free balances and the lock `STAKING_ID` of each account. -/
structure Balances (A : Type) where
  free : A → ℕ
  lock : A → Option ℕ

/-- The pallets' constants and what they take from outside the repository. -/
structure Config (A W : Type) where
  minContribution : ℕ
  gracePeriod : ℕ
  maxPoolWorkers : ℕ
  minInitP : ℕ
  poolSubAccount : ℕ → W → A
  /-- `mining::Pallet::account_id`, the subsidy pool -/
  subsidyPool : A
  /-- Where `OnSlashed` and `OnTreasurySettled` put what they get. -/
  treasury : A
  /-- How much `Currency::slash` takes of what it is asked for. -/
  slashable : Balances A → A → ℕ → ℕ
  /-- Whether `Currency::transfer` between two accounts succeeds. -/
  transferable : Balances A → A → A → ℕ → Bool
  /-- Whether `Currency::withdraw` succeeds. -/
  withdrawable : Balances A → A → ℕ → Bool
  sqrt : FixedPoint → FixedPoint
  /-- The checks the build profile compiles in: none in a release build. -/
  checks : Check → Bool

namespace Config

variable {A W : Type} (cfg : Config A W)

/-- The same runtime, built with other checks. -/
def withChecks (checks : Check → Bool) : Config A W := { cfg with checks }

/-- `debug_assert!` -/
def debugAssert (c : Check) (p : Prop) [Decidable p] : Except Fault Unit :=
  if cfg.checks c = true ∧ ¬p then throw (.panic (.check c)) else pure ()

/-- `-` on balances -/
def sub (c : Check) (a b : ℕ) : Except Fault ℕ :=
  if b ≤ a then pure (a - b)
  else if cfg.checks c then throw (.panic (.check c))
  else pure (2 ^ 128 + a - b)

/-- `-` on `u64` -/
def sub64 (c : Check) (a b : ℕ) : Except Fault ℕ :=
  if b ≤ a then pure (a - b)
  else if cfg.checks c then throw (.panic (.check c))
  else pure (2 ^ 64 + a - b)

/-- A result that must fit `2 ^ w`, cut to it where nothing checks. -/
def fit (c : Check) (w n : ℕ) : Except Fault ℕ :=
  if n < 2 ^ w then pure n
  else if cfg.checks c then throw (.panic (.check c))
  else pure (n % 2 ^ w)

theorem sub_of_le {c : Check} {a b : ℕ} (h : b ≤ a) : cfg.sub c a b = .ok (a - b) := by
  simp [sub, h]; rfl

theorem sub64_of_le {c : Check} {a b : ℕ} (h : b ≤ a) : cfg.sub64 c a b = .ok (a - b) := by
  simp [sub64, h]; rfl

theorem debugAssert_ok {c : Check} {p : Prop} [Decidable p] :
    cfg.debugAssert c p = .ok () ↔ (cfg.checks c = true → p) := by
  unfold debugAssert
  split
  · next h => exact ⟨nofun, fun hp => absurd (hp h.1) h.2⟩
  · next h => exact ⟨fun _ hc => not_not.mp fun hp => h ⟨hc, hp⟩, fun _ => rfl⟩

/-- In a build without checks nothing is asserted. -/
theorem debugAssert_unchecked {c : Check} {p : Prop} [Decidable p] (h : cfg.checks c = false) :
    cfg.debugAssert c p = .ok () := by
  simp [debugAssert, h]; rfl

theorem sub_unchecked {c : Check} {a b : ℕ} (h : cfg.checks c = false) : ∃ n, cfg.sub c a b = .ok n := by
  unfold sub
  split
  · exact ⟨_, rfl⟩
  · exact ⟨_, by rw [h]; rfl⟩

variable {E : Fault → Prop}

theorem debugAssert_ends {c : Check} {p : Prop} [Decidable p] (hE : ¬p → E (.panic (.check c))) :
    Outcome.Ends (cfg.debugAssert c p) (fun _ => cfg.checks c = true → p) E := by
  unfold debugAssert
  split
  · next h => exact hE h.2
  · next h => exact fun hc => by_contra fun hp => h ⟨hc, hp⟩

/-- The difference, or what is left of it at 128 bits. -/
theorem sub_ends {c : Check} {a b : ℕ} (hE : a < b → E (.panic (.check c))) :
    Outcome.Ends (cfg.sub c a b) (fun n => b ≤ a ∧ n = a - b ∨ a < b ∧ n = 2 ^ 128 + a - b) E := by
  unfold sub
  split
  · next h => exact .inl ⟨h, rfl⟩
  · next h =>
    split
    · exact hE (Nat.lt_of_not_le h)
    · exact .inr ⟨Nat.lt_of_not_le h, rfl⟩

theorem sub64_ends {c : Check} {a b : ℕ} (hE : a < b → E (.panic (.check c))) :
    Outcome.Ends (cfg.sub64 c a b) (fun _ => True) E := by
  unfold sub64
  split
  · trivial
  · next h =>
    split
    · exact hE (Nat.lt_of_not_le h)
    · trivial

theorem fit_of_lt {c : Check} {w n : ℕ} (h : n < 2 ^ w) : cfg.fit c w n = .ok n := by
  rw [fit, if_pos h]
  rfl

theorem fit_of_le {c : Check} {w n : ℕ} (h : 2 ^ w ≤ n) :
    cfg.fit c w n = if cfg.checks c = true then .error (.panic (.check c)) else .ok (n % 2 ^ w) := by
  rw [fit, if_neg (Nat.not_lt.mpr h)]
  rfl

theorem fit_ends {c : Check} {w n : ℕ} (hE : E (.panic (.check c))) :
    Outcome.Ends (cfg.fit c w n) (fun _ => True) E := by
  unfold fit
  split
  · trivial
  · split
    · exact hE
    · trivial

end Config

/-! ## The stake pool's records -/

structure UserStakeInfo (A : Type) where
  user : A
  /-- The actual locked stake -/
  locked : ℕ
  shares : ℕ
  availableRewards : ℕ
  rewardDebt : ℕ
deriving DecidableEq, Repr

structure WithdrawInfo (A : Type) where
  user : A
  shares : ℕ
  startTime : ℕ
deriving DecidableEq, Repr

structure PoolInfo (A W : Type) where
  pid : ℕ
  owner : A
  payoutCommission : Option Permill
  ownerReward : ℕ
  cap : Option ℕ
  rewardAcc : FixedPoint
  totalShares : ℕ
  totalStake : ℕ
  freeStake : ℕ
  /-- Stake that stopped miners give back when they are reclaimed -/
  releasingStake : ℕ
  workers : List W
  withdrawQueue : List (WithdrawInfo A)
deriving DecidableEq

/-! ## Mining and registry -/

inductive MinerState
  | ready | miningIdle | miningActive | miningUnresponsive | miningCoolingDown
deriving DecidableEq, Repr

structure Benchmark where
  pInit : ℕ
  pInstant : ℕ
  iterations : ℕ
  miningStartTime : ℕ
  challengeTimeLast : ℕ
deriving DecidableEq

structure MinerInfo where
  state : MinerState
  /-- The initial V -/
  ve : FixedPoint
  /-- The last updated V -/
  v : FixedPoint
  vUpdatedAt : ℕ
  benchmark : Benchmark
  coolDownStart : ℕ
  totalReward : ℕ
deriving DecidableEq

/-- The tokenomic parameters that the chain itself computes with. -/
structure TokenomicParams where
  vMax : FixedPoint
  rigK : FixedPoint
  rigB : FixedPoint
  re : FixedPoint
  k : FixedPoint
deriving DecidableEq

structure WorkerInfo (A : Type) where
  lastUpdated : ℕ
  operator : Option A
  confidenceLevel : ℕ
  initialScore : Option ℕ
deriving DecidableEq

/-- A gatekeeper's report on one worker. -/
structure SettleInfo (W : Type) where
  pubkey : W
  v : FixedPoint
  payout : FixedPoint
  treasury : FixedPoint
deriving DecidableEq

structure MiningInfoUpdateEvent (W : Type) where
  offline : List W
  recoveredToOnline : List W
  settle : List (SettleInfo W)
deriving DecidableEq

structure MiningStorage (A W : Type) where
  tokenomicParameters : Option TokenomicParams
  scheduledTokenomicUpdate : Option TokenomicParams
  onlineMiners : ℕ
  miners : StorageMap A MinerInfo
  minerBindings : StorageMap A W
  workerBindings : StorageMap W A
  coolDownPeriod : ℕ
  nextSessionId : ℕ
  stakes : StorageMap A ℕ

/-! ## The whole state -/

inductive TouchKind
  | settle | add (amount : ℕ) | remove (shares : ℕ)
deriving DecidableEq, Repr

/-- History: a staker's record is about to be settled, added to or withdrawn from. -/
structure Touch (A W : Type) where
  kind : TouchKind
  pool : PoolInfo A W
  user : UserStakeInfo A
  balances : Balances A

/-- History: what a miner's stop announced and what its reclaim returned. -/
inductive Notice (A : Type)
  | stopped (miner : A) (origStake slashed : ℕ)
  | reclaimed (miner : A) (origStake slashed : ℕ)
deriving DecidableEq, Repr

/-- The storage that holds the stakers' side: `PoolStakers`, `StakeLedger` and
the balances; `history` is a history variable, written and never read. -/
structure Books (A W : Type) where
  poolStakers : StorageMap (ℕ × A) (UserStakeInfo A)
  stakeLedger : StorageMap A ℕ
  balances : Balances A
  history : List (Touch A W)

/-- `now` is the block's timestamp in milliseconds; `notices` is a history
variable, written and never read. -/
structure State (A W : Type) where
  registry : StorageMap W (WorkerInfo A)
  mining : MiningStorage A W
  stakePools : StorageMap ℕ (PoolInfo A W)
  books : Books A W
  poolCount : ℕ
  workerAssignments : StorageMap W ℕ
  withdrawalQueuedPools : StorageMap ℕ (List ℕ)
  withdrawalTimestamps : List ℕ
  miningEnabled : Bool
  now : ℕ
  notices : List (Notice A)

namespace State

variable {A W : Type}

/-- `UnixTime::now().as_secs()` -/
def nowSec (s : State A W) : ℕ := s.now / 1000

end State

end Khala
