/-
The tokenomics (`pallets/phala/src/mining.rs`): the parameters that the
gatekeepers compute with, their changes at the end of a block, and the halving
of the subsidy, which in fact leaves three quarters of it.

The other pallets are their own machine (`Khala.StakePool`), which sees of the
parameters what the chain itself computes with. An update waits for the end of
its block; where that is also the last block of an interval, it is halved at once.

`ended` and `applied` are history variables, written
and never read: the parameters at the end of each block, and the updates that came
into force.
-/
import Khala.PowTarget
import Khala.RegistryFrame

namespace Khala.Tokenomics

variable {A W : Type} [DecidableEq A] [DecidableEq W]

/-! ## Parameters -/

structure TokenomicParameters where
  -- V calculation
  phaRate : FixedPoint
  rho : FixedPoint
  budgetPerBlock : FixedPoint
  vMax : FixedPoint
  costK : FixedPoint
  costB : FixedPoint
  slashRate : FixedPoint
  -- Payout
  treasuryRatio : FixedPoint
  heartbeatWindow : ℕ
  -- Ve calculation
  rigK : FixedPoint
  rigB : FixedPoint
  re : FixedPoint
  k : FixedPoint
  -- Slash calculation
  kappa : FixedPoint
deriving DecidableEq

namespace TokenomicParameters

/-- The ones that the chain itself computes with. -/
def onChain (self : TokenomicParameters) : TokenomicParams := ⟨self.vMax, self.rigK, self.rigB, self.re, self.k⟩

/-- `fp!(0.75)` -/
def threeQuarters : FixedPoint := U64F64.ofBits (3 * 2 ^ 62)

/-- What `trigger_subsidy_halving` makes of the parameters. -/
def halved (self : TokenomicParameters) : TokenomicParameters :=
  { self with budgetPerBlock := threeQuarters * self.budgetPerBlock }

/-- `fp!` of a decimal fraction is the nearest number of the format. -/
def decimal (num den : ℕ) : FixedPoint := U64F64.ofBits ((2 ^ 65 * num + den) / (2 * den))

/-- A number for `sec` seconds, for each block of twelve. -/
def perBlock (x : FixedPoint) (sec : ℕ) : FixedPoint := U64F64.ofBits (x.bits * 12 / sec)

/-- What the default of the genesis and the first migration have in common. -/
def standard (phaRate : FixedPoint) (budgetPerDay : ℕ) (re : FixedPoint) (k : ℕ) : TokenomicParameters where
  phaRate := phaRate
  -- hourly: 1.00020
  rho := decimal 1000000666600231 1000000000000000
  budgetPerBlock := perBlock (U64F64.fromNum budgetPerDay) 86400
  vMax := U64F64.fromNum 30000
  costK := perBlock (decimal 415625 10000000) 31536000 / phaRate
  costB := perBlock (decimal 8859375 100000) 31536000 / phaRate
  slashRate := perBlock (decimal 1 1000) 3600
  treasuryRatio := decimal 2 10
  heartbeatWindow := 10
  rigK := decimal 3 10 / phaRate
  rigB := 0 / phaRate
  re := re
  k := U64F64.fromNum k
  kappa := 1

/-- `GenesisConfig::default` -/
def phala : TokenomicParameters := standard 1 720000 (decimal 13 10) 100

/-- `migrations::initialize` -/
def khala : TokenomicParameters := standard (decimal 84 100) 60000 (decimal 15 10) 50

@[simp] theorem halved_onChain (self : TokenomicParameters) : self.halved.onChain = self.onChain := rfl

theorem bits_halved (self : TokenomicParameters) :
    self.halved.budgetPerBlock.bits = 3 * self.budgetPerBlock.bits / 4 := by
  have hlt := self.budgetPerBlock.lt
  have hquarters : threeQuarters.bits = 3 * 2 ^ 62 := by
    rw [threeQuarters, U64F64.bits_ofBits, Nat.mod_eq_of_lt (by norm_num)]
  change (threeQuarters * self.budgetPerBlock).bits = _
  rw [U64F64.bits_mul_of_lt (by rw [hquarters]; omega), hquarters]
  omega

example : phala.budgetPerBlock = U64F64.fromNum 100 := by decide

end TokenomicParameters

/-! ## What is announced -/

/-- The events that the chain has for the gatekeepers. -/
inductive GatekeeperEvent
  | tokenomicParametersChanged (params : TokenomicParameters)
  | repairV
deriving DecidableEq

structure HeartbeatChallenge where
  seed : ℕ
  onlineTarget : ℕ
deriving DecidableEq, Repr

/-- A message of the mining pallet. -/
inductive Announcement
  | gatekeeper (event : GatekeeperEvent)
  | heartbeatChallenge (seedInfo : HeartbeatChallenge)
deriving DecidableEq

inductive Event
  | subsidyBudgetHalved | tokenomicParametersChanged | internalErrorWrongHalvingConfigured
deriving DecidableEq, Repr

/-- A call errs, or the end of a block overflows. -/
inductive Stop
  | call (fault : Fault)
  | overflow (overflow : Overflow)
deriving DecidableEq, Repr

/-! ## The chain -/

abbrev BlockNumber : Type := BitVec 32

structure Config (A W : Type) where
  pallets : Khala.Config A W
  expectedBlockTimeSec : ℕ
  /-- `T::Randomness::random`, in each block. -/
  random : BlockNumber → ℕ
  /-- Whether the build checks its arithmetic. -/
  overflowChecks : Bool

structure Chain (A W : Type) where
  pallets : State A W
  tokenomicParameters : Option TokenomicParameters
  scheduledTokenomicUpdate : Option TokenomicParameters
  expectedHeartbeatCount : Option (BitVec 32)
  miningStartBlock : Option BlockNumber
  miningHalvingInterval : Option BlockNumber
  storageVersion : ℕ
  block : BlockNumber
  /-- Sent when the next block is initialised. -/
  queuedOutboundMessage : List GatekeeperEvent
  pushed : List Announcement
  events : List Event
  ended : List (Option TokenomicParameters)
  applied : List TokenomicParameters

namespace Chain

/-- The pallets' state, over the parameters. -/
def state (c : Chain A W) : State A W :=
  { c.pallets with mining := { c.pallets.mining with
      tokenomicParameters := c.tokenomicParameters.map TokenomicParameters.onChain
      scheduledTokenomicUpdate := c.scheduledTokenomicUpdate.map TokenomicParameters.onChain } }

variable (cfg : Config A W) (c : Chain A W)

def pushMessage (message : Announcement) : Chain A W := { c with pushed := c.pushed ++ [message] }

def depositEvent (event : Event) : Chain A W := { c with events := c.events ++ [event] }

def updateTokenomicParameters (params : TokenomicParameters) : Chain A W :=
  let c := { c with tokenomicParameters := some params }
  let c := c.pushMessage (.gatekeeper (.tokenomicParametersChanged params))
  c.depositEvent .tokenomicParametersChanged

def updateTokenomic (newParams : TokenomicParameters) : Chain A W :=
  { c with scheduledTokenomicUpdate := some newParams }

def triggerSubsidyHalving : Option (Chain A W) := do
  let tokenomic ← c.tokenomicParameters
  pure ((c.depositEvent .subsidyBudgetHalved).updateTokenomicParameters tokenomic.halved)

/-- `DEFAULT_EXPECTED_HEARTBEAT_COUNT` is 20. -/
def heartbeatChallenge : Except Stop (Chain A W) :=
  match powTarget cfg.overflowChecks (c.expectedHeartbeatCount.getD 20).toNat c.pallets.mining.onlineMiners
      cfg.expectedBlockTimeSec with
  | .ok onlineTarget => .ok (c.pushMessage (.heartbeatChallenge ⟨cfg.random c.block, onlineTarget⟩))
  | .error overflow => .error (.overflow overflow)

def applyUpdate : Chain A W :=
  match c.scheduledTokenomicUpdate with
  | none => c
  | some tokenomic => updateTokenomicParameters { c with scheduledTokenomicUpdate := none } tokenomic

/-- `n - MiningStartBlock`, which wraps where nothing checks. -/
def elapsed : BlockNumber := c.block - c.miningStartBlock.getD 0

def applySubsidy : Except Stop (Chain A W) :=
  match c.miningHalvingInterval with
  | none => .ok c
  | some interval =>
    if cfg.overflowChecks = true ∧ c.block < c.miningStartBlock.getD 0 then .error (.overflow .range)
    -- Halve when it reaches the last block in an interval
    else if 0 < interval ∧ c.elapsed % interval = interval - 1 then
      match c.triggerSubsidyHalving with
      | some c' => .ok c'
      | none => .ok (c.depositEvent .internalErrorWrongHalvingConfigured)
    else .ok c

def onFinalize : Except Stop (Chain A W) := do
  let c ← c.heartbeatChallenge cfg
  c.applyUpdate.applySubsidy cfg

def onRuntimeUpgrade : Chain A W :=
  if c.storageVersion = 0 then
    { c with
      pallets := c.pallets.setCoolDownExpiration 604800
      tokenomicParameters := some .khala
      storageVersion := 3 }
  else if c.storageVersion = 2 then
    { c with
      queuedOutboundMessage := c.queuedOutboundMessage ++ [.repairV]
      -- Khala-only halving parameters
      miningStartBlock := some 414189
      miningHalvingInterval := some 324000
      storageVersion := 3 }
  else c

/-- The queue sends what was left to it. -/
def onInitialize : Chain A W :=
  { c with pushed := c.pushed ++ c.queuedOutboundMessage.map .gatekeeper, queuedOutboundMessage := [] }

/-- The block is finalised, and the next one initialised, perhaps with a new runtime. -/
def nextBlock (upgraded : Bool) : Except Stop (Chain A W) := do
  let c' ← c.onFinalize cfg
  let c' := { c' with
    block := c.block + 1
    ended := c.ended ++ [c'.tokenomicParameters]
    applied := c.applied ++ c.scheduledTokenomicUpdate.toList }
  pure (if upgraded = true then c'.onRuntimeUpgrade else c').onInitialize

end Chain

structure GenesisConfig where
  coolDownPeriodSec : ℕ
  tokenomicParameters : TokenomicParameters

/-- Nothing halves until a migration or root sets an interval. -/
def GenesisConfig.build (self : GenesisConfig) (pallets : State A W) : Chain A W where
  pallets := pallets.setCoolDownExpiration self.coolDownPeriodSec
  tokenomicParameters := some self.tokenomicParameters
  scheduledTokenomicUpdate := none
  expectedHeartbeatCount := none
  miningStartBlock := none
  miningHalvingInterval := none
  storageVersion := 3
  block := 1
  queuedOutboundMessage := [.tokenomicParametersChanged self.tokenomicParameters]
  pushed := []
  events := []
  ended := []
  applied := []

inductive Op (A W : Type)
  | pallets (op : Khala.Op A W)
  | updateTokenomic (newParams : TokenomicParameters)
  | nextBlock (upgraded : Bool)

/-- Another call, on the pallets' state. -/
def Chain.call (cfg : Config A W) (fuel : ℕ) (c : Chain A W) (op : Khala.Op A W) : Except Stop (Chain A W) :=
  match Khala.exec cfg.pallets fuel c.state op with
  | .ok s => .ok { c with pallets := s }
  | .error fault => .error (.call fault)

def exec (cfg : Config A W) (fuel : ℕ) (c : Chain A W) : Op A W → Except Stop (Chain A W)
  | .pallets op => c.call cfg fuel op
  | .updateTokenomic newParams => .ok (c.updateTokenomic newParams)
  | .nextBlock upgraded => c.nextBlock cfg upgraded

/-- The parameters are updated and come into force here, and not in the pallets' machine. -/
def Op.Proper : Op A W → Prop
  | .pallets (.updateTokenomic _) | .pallets .finalizeMining => False
  | _ => True

def Step (cfg : Config A W) (c : Chain A W) (op : Op A W) (c' : Chain A W) : Prop :=
  op.Proper ∧ ∃ fuel, exec cfg fuel c op = .ok c'

/-- From `c`, the chain goes on to a state, with operations that satisfy `ok`. -/
abbrev Continues (cfg : Config A W) (ok : Op A W → Prop) (c : Chain A W) : Chain A W → Prop :=
  ReachWhere (· = c) (Step cfg) fun _ op => ok op

/-- The operations one after the other, as long as they end well. -/
def run (cfg : Config A W) (fuel : ℕ) (c : Chain A W) (ops : List (Op A W)) : Except Stop (Chain A W) :=
  ops.foldlM (exec cfg fuel) c

theorem run_continues {cfg : Config A W} {fuel : ℕ} {ok : Op A W → Prop}
    {c c₁ c' : Chain A W} {ops : List (Op A W)}
    (h₁ : Continues cfg ok c c₁) (hops : ∀ op ∈ ops, op.Proper ∧ ok op) (h : run cfg fuel c₁ ops = .ok c') :
    Continues cfg ok c c' := by
  induction ops generalizing c₁ with
  | nil =>
    cases h
    exact h₁
  | cons op ops ih =>
    obtain ⟨c₂, h₂, h⟩ := Outcome.bind_ok.mp h
    have hop := hops op List.mem_cons_self
    exact ih (.step h₁ hop.2 ⟨hop.1, fuel, h₂⟩) (fun op hmem => hops op (List.mem_cons_of_mem _ hmem)) h

end Khala.Tokenomics
