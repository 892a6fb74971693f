/-
What the registry's calls and messages write, case by case (`Written`), and
the invariant of its storage.
-/
import Khala.PhalaRegistry

namespace Khala.PhalaRegistry

open Messaging Outcome

variable {A : Type} {cfg : Config A} {s s' : Storage A} {now : ℕ} {events : List Event}

/-! ## Writes -/

/-- Other than the lists of what is allowed, the topics and the benchmark's duration, nothing is written. -/
structure Storage.SameBooks (s s' : Storage A) : Prop where
  gatekeeper : s'.gatekeeper = s.gatekeeper
  master : s'.gatekeeperMasterPubkey = s.gatekeeperMasterPubkey
  workers : s'.workers = s.workers
  contractKeys : s'.contractKeys = s.contractKeys
  registrations : s'.registrations = s.registrations
  pruntimes : s.pruntimeAllowList.Nodup → s'.pruntimeAllowList.Nodup
  relaychains : s.relaychainGenesisBlockHashAllowList.Nodup → s'.relaychainGenesisBlockHashAllowList.Nodup

theorem Storage.SameBooks.refl (s : Storage A) : s.SameBooks s := ⟨rfl, rfl, rfl, rfl, rfl, id, id⟩

def Storage.force (s : Storage A) (pubkey ecdhPubkey : Key) (operator : Option A) : Storage A :=
  (s.putWorker pubkey (Storage.forcedInfo pubkey ecdhPubkey operator)).recordRegistration ⟨pubkey, operator, .root⟩

def Storage.registration (s : Storage A) (nowSec : ℕ) (pruntimeInfo : WorkerRegistrationInfo A)
    (attestation : Sgx.Attestation) (fields : Sgx.IasFields) : Registration A :=
  ⟨pruntimeInfo.pubkey, pruntimeInfo.operator, .attested nowSec pruntimeInfo attestation s.pruntimeAllowList
    s.relaychainGenesisBlockHashAllowList fields⟩

def Storage.attest (s : Storage A) (nowSec : ℕ) (pruntimeInfo : WorkerRegistrationInfo A)
    (attestation : Sgx.Attestation) (fields : Sgx.IasFields) : Storage A :=
  (s.putWorker pruntimeInfo.pubkey (s.attestedInfo nowSec pruntimeInfo fields.confidenceLevel)).recordRegistration
    (s.registration nowSec pruntimeInfo attestation fields)

def Storage.score (s : Storage A) (now : ℕ) (workerPubkey : Key) (score : ℕ) : Storage A :=
  match s.workers.lookup workerPubkey with
  | some val => s.putWorker workerPubkey { val with initialScore := some score, lastUpdated := now }
  | none => s

/-- The first gatekeeper launches, any later one is a change. -/
def gatekeeperEvent (gatekeepers : List Key) (event : NewGatekeeperEvent) : Event :=
  if gatekeepers = [] then .launch (.firstGatekeeper event) else .change ⟨event⟩

/-- What a call writes and pushes. -/
inductive Written (cfg : Config A) (s : Storage A) (now : ℕ) : Storage A → List Event → Prop
  | lists {t : Storage A} : s.SameBooks t → Written cfg s now t []
  | force {pubkey ecdhPubkey operator} :
      Written cfg s now (s.force pubkey ecdhPubkey operator) [Storage.workerEvent pubkey (.registered 128)]
  | attest {pruntimeInfo attestation fields} :
      cfg.validate attestation (cfg.runtimeInfoHash pruntimeInfo) (now / 1000) cfg.verifyPRuntime
        s.pruntimeAllowList = .ok fields →
      (cfg.verifyRelaychainGenesisBlockHash = true →
        pruntimeInfo.genesisBlockHash ∈ s.relaychainGenesisBlockHashAllowList) →
      Written cfg s now (s.attest (now / 1000) pruntimeInfo attestation fields)
        [Storage.workerEvent pruntimeInfo.pubkey (.registered fields.confidenceLevel),
          Storage.workerEvent pruntimeInfo.pubkey (.benchStart (s.benchmarkDuration.getD 0))]
  | gatekeeper {pubkey info} : pubkey ∉ s.gatekeeper → s.gatekeeper = [] ∨ s.gatekeeperMasterPubkey.isSome = true →
      s.workers.lookup pubkey = some info →
      Written cfg s now { s with gatekeeper := s.gatekeeper ++ [pubkey] }
        [gatekeeperEvent s.gatekeeper ⟨pubkey, info.ecdhPubkey⟩]

/-- What a worker's message writes and pushes. -/
inductive Reported (cfg : Config A) (s : Storage A) (now : ℕ) (key : Key) :
    RegistryEvent → Storage A → List Event → Prop
  | score {startTime iterations score} : Storage.benchScore cfg now startTime iterations = .ok score →
      Reported cfg s now key (.benchReport startTime iterations) (s.score now key score)
        [Storage.workerEvent key (.benchScore score)]
  | sameMaster {masterPubkey} : key ∈ s.gatekeeper → s.gatekeeperMasterPubkey = some masterPubkey →
      Reported cfg s now key (.masterPubkey masterPubkey) s []
  | master {masterPubkey} : key ∈ s.gatekeeper → s.gatekeeperMasterPubkey = none →
      Reported cfg s now key (.masterPubkey masterPubkey) { s with gatekeeperMasterPubkey := some masterPubkey }
        [.launch (.masterPubkeyOnChain masterPubkey)]

theorem nodup_concat {α : Type} {l : List α} {a : α} (h : l.Nodup) (ha : a ∉ l) : (l ++ [a]).Nodup := by
  rw [← List.concat_eq_append]
  exact h.concat ha

theorem events_gatekeeper (gatekeepers : List Key) (pubkey : Key) (event : NewGatekeeperEvent) :
    (if (gatekeepers ++ [pubkey]).length = 1 then [Event.launch (.firstGatekeeper event)] else [.change ⟨event⟩]) =
      [gatekeeperEvent gatekeepers event] := by
  unfold gatekeeperEvent
  cases gatekeepers with
  | nil => rfl
  | cons => simp

theorem registerGatekeeper_written {origin : Origin A} {pubkey : Key}
    (h : s.registerGatekeeper cfg origin pubkey = .ok (s', events)) : Written cfg s now s' events := by
  unfold Storage.registerGatekeeper at h
  simp only [bind_ok, require_ok] at h
  obtain ⟨_, -, _, hready, h⟩ := h
  split at h
  · cases h
    exact .lists (.refl s)
  · next hnew =>
    simp only [bind_ok, get_ok] at h
    obtain ⟨info, hinfo, h⟩ := h
    cases h
    rw [events_gatekeeper]
    exact .gatekeeper hnew (hready.imp_left List.isEmpty_iff.mp) hinfo

theorem registerWorker_written {origin : Origin A} {pruntimeInfo : WorkerRegistrationInfo A}
    {attestation : Sgx.Attestation}
    (h : s.registerWorker cfg now origin pruntimeInfo attestation = .ok (s', events)) :
    Written cfg s now s' events := by
  unfold Storage.registerWorker at h
  simp only [bind_ok, require_ok] at h
  obtain ⟨_, -, fields, hfields, _, hgenesis, h⟩ := h
  cases h
  refine .attest ?_ hgenesis
  unfold Storage.attested at hfields
  split at hfields
  · next heq =>
    cases hfields
    exact heq
  · cases hfields
  · cases hfields

theorem not_mem_of_contains {K : Type} [BEq K] [LawfulBEq K] {l : List K} {k : K}
    (h : l.contains k = false) : k ∉ l := by
  simpa using h

theorem exec_written {origin : Origin A} {call : Call A} (h : exec cfg s now origin call = .ok (s', events)) :
    Written cfg s now s' events := by
  cases call with
  | forceSetBenchmarkDuration value =>
    obtain ⟨_, -, h⟩ := bind_ok.mp h
    cases h
    exact .lists ⟨rfl, rfl, rfl, rfl, rfl, id, id⟩
  | forceRegisterWorker pubkey ecdhPubkey operator =>
    obtain ⟨_, -, h⟩ := bind_ok.mp h
    cases h
    exact .force
  | forceRegisterTopicPubkey topic pubkey =>
    obtain ⟨_, -, h⟩ := bind_ok.mp h
    cases h
    exact .lists ⟨rfl, rfl, rfl, rfl, rfl, id, id⟩
  | registerGatekeeper gatekeeper => exact registerGatekeeper_written h
  | unregisterGatekeeper gatekeeper sig => cases h
  | registerWorker pruntimeInfo attestation => exact registerWorker_written h
  | addPruntime pruntimeHash =>
    simp only [exec, Storage.addPruntime, bind_ok, require_ok] at h
    obtain ⟨_, -, _, hnew, h⟩ := h
    cases h
    exact .lists ⟨rfl, rfl, rfl, rfl, rfl, fun hs => nodup_concat hs (not_mem_of_contains hnew), id⟩
  | removePruntime pruntimeHash =>
    simp only [exec, Storage.removePruntime, bind_ok, require_ok] at h
    obtain ⟨_, -, _, -, h⟩ := h
    cases h
    exact .lists ⟨rfl, rfl, rfl, rfl, rfl, fun hs => hs.filter _, id⟩
  | addRelaychainGenesisBlockHash genesisBlockHash =>
    simp only [exec, Storage.addRelaychainGenesisBlockHash, bind_ok, require_ok] at h
    obtain ⟨_, -, _, hnew, h⟩ := h
    cases h
    exact .lists ⟨rfl, rfl, rfl, rfl, rfl, id, fun hs => nodup_concat hs (not_mem_of_contains hnew)⟩
  | removeRelaychainGenesisBlockHash genesisBlockHash =>
    simp only [exec, Storage.removeRelaychainGenesisBlockHash, bind_ok, require_ok] at h
    obtain ⟨_, -, _, -, h⟩ := h
    cases h
    exact .lists ⟨rfl, rfl, rfl, rfl, rfl, id, fun hs => hs.filter _⟩

theorem onMessageReceived_reported {sender : Mq.MessageOrigin} {payload : RegistryEvent}
    (h : s.onMessageReceived cfg now sender payload = .ok (s', events)) :
    ∃ key, Storage.workerPubkey sender = .ok key ∧ Reported cfg s now key payload s' events := by
  obtain ⟨key, hkey, h⟩ := bind_ok.mp h
  refine ⟨key, hkey, ?_⟩
  cases payload with
  | benchReport startTime iterations =>
    obtain ⟨score, hscore, h⟩ := bind_ok.mp h
    cases h
    exact .score hscore
  | masterPubkey masterPubkey =>
    simp only [Storage.uploadMasterPubkey, bind_ok, require_ok] at h
    obtain ⟨_, hmem, h⟩ := h
    split at h
    · next savedPubkey hsaved =>
      simp only [bind_ok, require_ok] at h
      obtain ⟨_, heq, h⟩ := h
      cases h
      exact .sameMaster hmem (hsaved.trans (congrArg some heq))
    · next hnone =>
      cases h
      exact .master hmem hnone

end Khala.PhalaRegistry
