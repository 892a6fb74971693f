/-
The mining and the stake pool pallet only read the registry and the parameters:
of all the operations of their machine, the registrations and the benchmark
reports alone write the one, and the update with its end of the block the other.
-/
import Khala.Runtime

namespace Khala

open Outcome

variable {A W : Type} [DecidableEq A] [DecidableEq W] {cfg : Config A W} {s : State A W}

/-- The registry, the parameters, and those to come. -/
abbrev Settings (A W : Type) : Type :=
  StorageMap W (WorkerInfo A) × Option TokenomicParams × Option TokenomicParams

def State.settings (s : State A W) : Settings A W :=
  (s.registry, s.mining.tokenomicParameters, s.mining.scheduledTokenomicUpdate)

/-- However the computation ends well, the settings are still `settings`. -/
def KeepsSettings (settings : Settings A W) (x : Except Fault (State A W)) : Prop :=
  Ends x (fun s' => s'.settings = settings) fun _ => True

variable {settings : Settings A W}

omit [DecidableEq A] [DecidableEq W] in
/-- What is computed before does not matter. -/
theorem KeepsSettings.after {α : Type} {x : Except Fault α} {f : α → Except Fault (State A W)}
    (h : ∀ a, KeepsSettings settings (f a)) : KeepsSettings settings (x >>= f) := by
  cases x with
  | ok a => exact h a
  | error => trivial

omit [DecidableEq A] [DecidableEq W] in
theorem KeepsSettings.bind {x : Except Fault (State A W)} {f : State A W → Except Fault (State A W)}
    (hx : KeepsSettings settings x) (hf : ∀ s, s.settings = settings → KeepsSettings settings (f s)) :
    KeepsSettings settings (x >>= f) := Ends.bind hx hf

omit [DecidableEq A] [DecidableEq W] in
theorem KeepsSettings.foldlM {α : Type} {f : State A W → α → Except Fault (State A W)}
    (hf : ∀ s a, s.settings = settings → KeepsSettings settings (f s a)) {l : List α}
    (hs : s.settings = settings) :
    KeepsSettings settings (l.foldlM f s) := Ends.foldlM (fun s a _ h => hf s a h) hs

namespace State

theorem bind_settings {m : A} {w : W} : KeepsSettings s.settings (s.bind m w) :=
  .after fun _ => .after fun _ => .after fun _ => .after fun _ => .after fun _ => rfl

theorem addWorker_settings {owner : A} {pid : ℕ} {w : W} :
    KeepsSettings s.settings (s.addWorker cfg owner pid w) := by
  refine .after fun _ => .after fun _ => .after fun _ => .after fun pool => .after fun _ => .after fun _ =>
    .after fun _ => ?_
  dsimp only
  split
  · trivial
  · exact .bind bind_settings fun s' hs' => hs'

theorem startMining_settings {m : A} {stake : ℕ} : KeepsSettings s.settings (s.startMining cfg m stake) :=
  .after fun _ => .after fun _ => .after fun _ => .after fun _ => .after fun _ => .after fun _ => .after fun _ =>
    .after fun _ => .after fun _ => .after fun _ => .after fun _ => .after fun _ => rfl

theorem stopMining_settings {m : A} : KeepsSettings s.settings (s.stopMining cfg m) := by
  refine .after fun _ => .after fun _ => .after fun _ => .after fun _ => .after fun _ => ?_
  refine .bind (.after fun _ => .after fun _ => .after fun _ => rfl) fun s' hs' => ?_
  exact hs'

omit [DecidableEq A] in
theorem removeWorkerFromPool_settings {w : W} : KeepsSettings s.settings (s.removeWorkerFromPool w) := by
  refine .after fun pid => ?_
  dsimp only
  split <;> rfl

theorem unbindMiner_settings {m : A} {notify : Bool} : KeepsSettings s.settings (s.unbindMiner cfg m notify) := by
  refine .after fun w => .after fun info => ?_
  have hrest (s' : State A W) (hs' : s'.settings = s.settings) : KeepsSettings s.settings
      (if notify = true then (s'.removeBinding m w).removeWorkerFromPool w else pure (s'.removeBinding m w)) := by
    split
    · rw [← hs']
      exact removeWorkerFromPool_settings (s := s'.removeBinding m w)
    · exact hs'
  dsimp only
  split
  · exact hrest s rfl
  · exact .bind stopMining_settings hrest

omit [DecidableEq W] in
theorem reclaim_settings {m : A} {f : State A W × ℕ × ℕ → Except Fault (State A W)}
    (hf : ∀ s' origStake slashed, s'.settings = s.settings →
    KeepsSettings s.settings (f (s', origStake, slashed))) :
    KeepsSettings s.settings (s.reclaim cfg m >>= f) := by
  refine Ends.bind (Q := fun r => r.1.settings = s.settings) ?_ fun r hr => hf r.1 r.2.1 r.2.2 hr
  refine Ends.bind (Ends.get fun _ => trivial) fun info _ => ?_
  refine Ends.bind (ends_iff.mpr ⟨fun _ _ => trivial, fun _ _ => trivial⟩) fun _ _ => ?_
  refine Ends.bind (Ends.require fun _ => trivial) fun _ _ => ?_
  refine Ends.bind (ends_iff.mpr ⟨fun _ _ => trivial, fun _ _ => trivial⟩) fun _ _ => ?_
  rfl

theorem setResponsive_sameSettings (state : MinerState) (w : W) :
    (s.setResponsive state w).settings = s.settings := by
  unfold setResponsive
  split
  · rfl
  · split
    · rfl
    · split <;> rfl

theorem tryHandleSettle_settings {info : SettleInfo W} :
    KeepsSettings s.settings (s.tryHandleSettle cfg info) := by
  unfold tryHandleSettle
  split
  · rfl
  · split
    · rfl
    · refine .after fun _ => ?_
      dsimp only
      split <;> rfl

omit [DecidableEq A] in
theorem onReward_settings {settle : List (SettleInfo W)} : KeepsSettings s.settings (s.onReward settle) := by
  induction settle generalizing s with
  | nil => rfl
  | cons info settle ih =>
    unfold onReward
    split
    · rfl
    · exact .after fun pool => .after fun pool => ih

theorem foldl_setResponsive_sameSettings (state : MinerState) (workers : List W) :
    (workers.foldl (setResponsive state) s).settings = s.settings := by
  induction workers generalizing s with
  | nil => rfl
  | cons w workers ih => rw [List.foldl_cons, ih, setResponsive_sameSettings]

theorem gkMessage_settings {event : MiningInfoUpdateEvent W} :
    KeepsSettings s.settings (s.gkMessage cfg event) := by
  unfold gkMessage
  refine .bind (.foldlM (fun s' info hs' => ?_) ?_) fun s' hs' => ?_
  · rw [← hs']
    exact tryHandleSettle_settings
  · rw [foldl_setResponsive_sameSettings, foldl_setResponsive_sameSettings]
  · rw [← hs']
    exact onReward_settings

theorem heartbeat_settings {w : W} {iterations challengeTime : ℕ} :
    KeepsSettings s.settings (s.heartbeat cfg w iterations challengeTime) :=
  .after fun _ => .after fun _ => .after fun _ => .after fun _ => rfl

theorem tryStopMining_settings {m : A} : KeepsSettings s.settings (s.tryStopMining cfg m) := by
  unfold tryStopMining
  split
  · rfl
  · exact stopMining_settings

theorem forceShutdown_settings {now pid : ℕ} : KeepsSettings s.settings (s.forceShutdown cfg now pid) := by
  refine .after fun pool => .after fun expired => ?_
  split
  · refine .foldlM (fun s' w hs' => ?_) rfl
    rw [← hs']
    exact tryStopMining_settings
  · rfl

theorem forceTimestamps_settings {now : ℕ} {t : List ℕ} :
    KeepsSettings s.settings (forceTimestamps cfg now t s) := by
  induction t generalizing s with
  | nil => rfl
  | cons startTime t ih =>
    unfold forceTimestamps
    refine .after fun waiting => ?_
    split
    · rfl
    · refine .after fun pools => .bind (.foldlM (fun s' pid hs' => ?_) rfl) fun s' hs' => ?_
      · rw [← hs']
        exact forceShutdown_settings
      · rw [← hs']
        exact ih

end State

/-- Those that neither write the registry nor the parameters. -/
def Op.Settled : Op A W → Prop
  | .updateTokenomic _ | .finalizeMining | .forceRegisterWorker .. | .registerWorker .. | .benchReport .. => False
  | _ => True

theorem exec_settings {fuel : ℕ} {op : Op A W} (hop : op.Settled) :
    KeepsSettings s.settings (exec cfg fuel s op) := by
  cases op with
  | create owner => rfl
  | addWorker owner pid w => exact State.addWorker_settings
  | removeWorker who pid w =>
    refine .after fun _ => .after fun _ => .after fun _ => .after fun _ =>
      .bind State.unbindMiner_settings fun s' hs' => ?_
    rw [← hs']
    exact State.removeWorkerFromPool_settings
  | setCap owner pid cap => exact .after fun _ => .after fun _ => .after fun _ => rfl
  | setPayoutPref owner pid commission => exact .after fun _ => .after fun _ => rfl
  | setMiningEnable enable => rfl
  | claimRewards who pid target =>
    refine .after fun pool => .after fun userInfo => .after fun _ => .after fun balances => ?_
    dsimp only
    split <;> rfl
  | contribute who pid amount =>
    exact .after fun _ => .after fun _ => .after fun _ => .after fun _ => .after fun _ => .after fun _ =>
      .after fun _ => .after fun _ => .after fun _ => rfl
  | withdraw who pid shares =>
    refine .after fun _ => .after fun _ => .after fun _ => .after fun r => ?_
    dsimp only
    split <;> rfl
  | reconcileWithdrawQueue pid account =>
    refine .after fun _ => .after fun _ => ?_
    dsimp only
    split <;> rfl
  | startMining owner pid w stake =>
    refine .after fun _ => .after fun _ => .after fun _ => .after fun _ => .after fun _ =>
      .bind ?_ fun s' hs' => ?_
    · exact State.startMining_settings
    · exact .after fun _ => hs'
  | stopMining owner pid w =>
    exact .after fun _ => .after fun _ => .after fun _ => .after fun _ => State.stopMining_settings
  | reclaimPoolWorker pid w =>
    exact .after fun _ => State.reclaim_settings fun s' _ _ hs' => .after fun _ =>
      .after fun _ => .after fun _ => hs'
  | onFinalize => exact State.forceTimestamps_settings
  | unbind who m => exact .after fun _ => .after fun _ => .after fun _ => State.unbindMiner_settings
  | forceStartMining m stake => exact State.startMining_settings
  | forceStopMining m => exact State.stopMining_settings
  | setCoolDownExpiration period => rfl
  | heartbeat w iterations challengeTime => exact State.heartbeat_settings
  | gkMessage event => exact State.gkMessage_settings
  | time now =>
    change (if s.now < now then { s with now } else s).settings = s.settings
    split <;> rfl
  | balances free => rfl
  | updateTokenomic | finalizeMining | forceRegisterWorker | registerWorker | benchReport => exact hop.elim

/-- However the computation ends well, the registry is still `registry`. -/
def KeepsRegistry (registry : StorageMap W (WorkerInfo A)) (x : Except Fault (State A W)) : Prop :=
  Ends x (fun s' => s'.registry = registry) fun _ => True

omit [DecidableEq A] [DecidableEq W] in
theorem KeepsSettings.registry {x : Except Fault (State A W)} (h : KeepsSettings s.settings x) :
    KeepsRegistry s.registry x :=
  h.mono (fun _ hs => congrArg Prod.fst hs) fun _ _ => trivial

/-- A direct operation leaves the registry as it is. -/
theorem Runtime.exec_registry {cfg : Khala.Config A Messaging.Key} {s : State A Messaging.Key} {fuel : ℕ}
    {op : Khala.Op A Messaging.Key} (hop : Direct op) : KeepsRegistry s.registry (Khala.exec cfg fuel s op) := by
  cases op with
  | updateTokenomic params => rfl
  | finalizeMining =>
    change (State.finalizeMining s).registry = s.registry
    unfold State.finalizeMining
    split <;> rfl
  | forceRegisterWorker | registerWorker | benchReport | heartbeat | gkMessage => exact hop.elim
  | _ =>
    refine KeepsSettings.registry (exec_settings ?_)
    trivial

end Khala
