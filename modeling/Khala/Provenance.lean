/-
Where the workers' records come from.

Every registration is root's or has passed an attestation, and is on record
(`Storage.registrations`). What the registry says of a worker is settled by its
registrations: the operator is the latest one's, while the level of confidence is
that of the first attestation, or 128 for good once root has registered the worker.
-/
import Khala.Authenticity

namespace Khala.Runtime

open Messaging PhalaRegistry

variable {A : Type} [DecidableEq A] {cfg : Config A} {n n' : Node A} {config : GenesisConfig A}

/-! ## Registrations -/

/-- A registration is root's, or what it says was attested then: by a fresh report of
an enclave that was allowed, which commits to it, on a relay chain that was allowed. -/
def Justified (cfg : Config A) (registration : Registration A) : Prop :=
  match registration.source with
  | .root => True
  | .attested nowSec info attestation pruntimes relaychains fields =>
    registration.pubkey = info.pubkey ∧ registration.operator = info.operator ∧
      Sgx.Vouches cfg.ias attestation (cfg.runtimeInfoHash info) nowSec cfg.verifyPRuntime pruntimes fields ∧
      (cfg.verifyRelaychainGenesisBlockHash = true → info.genesisBlockHash ∈ relaychains)

/-- The level of confidence that a registration gives a new worker. -/
def levelOf : Source A → ℕ
  | .root => 128
  | .attested _ _ _ _ _ fields => fields.confidenceLevel

/-- A worker's registrations, the latest first. -/
def registrationsOf (s : Storage A) (key : Key) : List (Registration A) :=
  s.registrations.filter fun registration => registration.pubkey = key

omit [DecidableEq A] in
theorem registrationsOf_record (s : Storage A) (registration : Registration A) (key : Key) :
    registrationsOf (s.recordRegistration registration) key =
      if registration.pubkey = key then registration :: registrationsOf s key else registrationsOf s key := by
  change (registration :: s.registrations).filter _ = _
  rw [List.filter_cons]
  by_cases h : registration.pubkey = key
  · rw [if_pos h, if_pos (by simpa using h)]
    rfl
  · rw [if_neg h, if_neg (by simpa using h)]
    rfl

/-! ## Records -/

/-- What a worker's record owes to its registrations. -/
structure Recorded (registrations : List (Registration A)) (key : Key)
    (info : PhalaRegistry.WorkerInfo A) : Prop where
  pubkey : info.pubkey = key
  score : ∀ score ∈ info.initialScore, score ≤ 6000
  operator : registrations.head?.map Registration.operator = some info.operator
  /-- Root's, or that of the first attestation. -/
  level : info.confidenceLevel = 128 ∧ (∃ registration ∈ registrations, registration.source = .root) ∨
    (∃ first ∈ registrations.getLast?, info.confidenceLevel = levelOf first.source) ∧
      ∀ registration ∈ registrations, registration.source ≠ .root

structure Vouched (cfg : Config A) (s : Storage A) : Prop where
  justified : ∀ registration ∈ s.registrations, Justified cfg registration
  recorded : ∀ key info, s.workers.lookup key = some info → Recorded (registrationsOf s key) key info
  unknown : ∀ key, s.workers.lookup key = none → registrationsOf s key = []

omit [DecidableEq A] in
/-- Root registers a worker, whatever was there. -/
theorem Recorded.force (registrations : List (Registration A)) (key ecdhPubkey : Key) (operator : Option A) :
    Recorded (⟨key, operator, .root⟩ :: registrations) key (Storage.forcedInfo key ecdhPubkey operator) where
  pubkey := rfl
  score _ h := by cases h
  operator := rfl
  level := .inl ⟨rfl, _, List.mem_cons_self, rfl⟩

omit [DecidableEq A] in
/-- An attestation renews a record. -/
theorem Recorded.renew {registrations : List (Registration A)} {key : Key} {info : PhalaRegistry.WorkerInfo A}
    (h : Recorded registrations key info) (registration : Registration A) (hsource : registration.source ≠ .root)
    (lastUpdated : ℕ) :
    Recorded (registration :: registrations) key { info with lastUpdated, operator := registration.operator } where
  pubkey := h.pubkey
  score := h.score
  operator := rfl
  level := by
    rcases h.level with ⟨hlevel, root, hroot, heq⟩ | ⟨⟨first, hfirst, hlevel⟩, hnone⟩
    · exact .inl ⟨hlevel, root, List.mem_cons_of_mem _ hroot, heq⟩
    · refine .inr ⟨⟨first, ?_, hlevel⟩, List.forall_mem_cons.mpr ⟨hsource, hnone⟩⟩
      rw [List.getLast?_cons, Option.mem_def.mp hfirst]
      rfl

namespace Vouched

variable {s s' : Storage A} {events : List Event} {now : ℕ}

omit [DecidableEq A] in
theorem empty : Vouched cfg (.empty : Storage A) where
  justified _ h := by cases h
  recorded _ _ h := by cases h
  unknown _ _ := rfl

omit [DecidableEq A] in
/-- A worker is registered: its record answers to the new registration. -/
theorem register (h : Vouched cfg s) (registration : Registration A) {info : PhalaRegistry.WorkerInfo A}
    (hjust : Justified cfg registration)
    (hrec : Recorded (registration :: registrationsOf s registration.pubkey) registration.pubkey info) :
    Vouched cfg ((s.putWorker registration.pubkey info).recordRegistration registration) := by
  have hlookup (key : Key) :
      ((s.putWorker registration.pubkey info).recordRegistration registration).workers.lookup key =
      if key = registration.pubkey then some info else s.workers.lookup key := StorageMap.lookup_insert_ite _ _ _ _
  refine ⟨List.forall_mem_cons.mpr ⟨hjust, h.justified⟩, fun key info' hkey => ?_, fun key hkey => ?_⟩
  · rw [registrationsOf_record]
    rw [hlookup] at hkey
    split at hkey
    · next heq =>
      subst heq
      cases hkey
      rw [if_pos rfl]
      exact hrec
    · next hne =>
      rw [if_neg (Ne.symm hne)]
      exact h.recorded key info' hkey
  · rw [hlookup] at hkey
    split at hkey
    · cases hkey
    · next hne =>
      rw [registrationsOf_record, if_neg (Ne.symm hne)]
      exact h.unknown key hkey

omit [DecidableEq A] in
theorem force (h : Vouched cfg s) (pubkey ecdhPubkey : Key) (operator : Option A) :
    Vouched cfg (s.force pubkey ecdhPubkey operator) :=
  h.register ⟨pubkey, operator, .root⟩ trivial (.force _ _ _ _)

omit [DecidableEq A] in
theorem attest (h : Vouched cfg s) {info : WorkerRegistrationInfo A} {attestation : Sgx.Attestation}
    {fields : Sgx.IasFields}
    (hvouches : Sgx.Vouches cfg.ias attestation (cfg.runtimeInfoHash info) (now / 1000) cfg.verifyPRuntime
      s.pruntimeAllowList fields)
    (hgenesis : cfg.verifyRelaychainGenesisBlockHash = true →
      info.genesisBlockHash ∈ s.relaychainGenesisBlockHashAllowList) :
    Vouched cfg (s.attest (now / 1000) info attestation fields) := by
  refine h.register (s.registration (now / 1000) info attestation fields)
    ⟨rfl, rfl, hvouches, hgenesis⟩ ?_
  change Recorded (_ :: registrationsOf s info.pubkey) info.pubkey _
  unfold Storage.attestedInfo
  cases hlookup : s.workers.lookup info.pubkey with
  | none =>
    rw [h.unknown _ hlookup]
    refine ⟨rfl, fun _ h => (by cases h), rfl, .inr ⟨⟨_, rfl, rfl⟩, ?_⟩⟩
    rw [List.forall_mem_singleton]
    nofun
  | some old =>
    exact (h.recorded _ _ hlookup).renew (s.registration (now / 1000) info attestation fields) nofun (now / 1000)

omit [DecidableEq A] in
theorem written (h : Vouched cfg s) (hw : Written cfg.registry s now s' events) : Vouched cfg s' := by
  cases hw with
  | lists hsame =>
    refine ⟨hsame.registrations ▸ h.justified, fun key info hkey => ?_, fun key hkey => ?_⟩
    · unfold registrationsOf
      rw [hsame.registrations]
      exact h.recorded key info (hsame.workers ▸ hkey)
    · unfold registrationsOf
      rw [hsame.registrations]
      exact h.unknown key (hsame.workers ▸ hkey)
  | force => exact h.force _ _ _
  | attest hvalid hgenesis => exact h.attest (Sgx.validate_vouches hvalid) hgenesis
  | gatekeeper => exact ⟨h.justified, h.recorded, h.unknown⟩

omit [DecidableEq A] in
/-- A benchmark's score is at most 6000. -/
theorem score_le {start iterations score : ℕ}
    (h : Storage.benchScore cfg.registry now start iterations = .ok score) :
    score ≤ 6000 := by
  unfold Storage.benchScore at h
  simp only [Outcome.bind_ok] at h
  obtain ⟨_, -, _, -, _, -, h⟩ := h
  cases h
  exact Nat.min_le_left _ _

omit [DecidableEq A] in
theorem reported (h : Vouched cfg s) {key : Key} {payload : RegistryEvent}
    (hr : Reported cfg.registry s now key payload s' events) : Vouched cfg s' := by
  cases hr with
  | @score start iterations score hscore =>
    unfold Storage.score
    split
    · next val hval =>
      have hlookup (k : Key) :
          (s.putWorker key { val with initialScore := some score, lastUpdated := now }).workers.lookup k =
          if k = key then some { val with initialScore := some score, lastUpdated := now }
            else s.workers.lookup k :=
        StorageMap.lookup_insert_ite _ _ _ _
      refine ⟨h.justified, fun k info hk => ?_, fun k hk => ?_⟩
      · rw [hlookup] at hk
        split at hk
        · next heq =>
          subst heq
          cases hk
          have hold := h.recorded k val hval
          refine ⟨hold.pubkey, fun score' hscore' => ?_, hold.operator, hold.level⟩
          cases hscore'
          exact score_le hscore
        · exact h.recorded k info hk
      · rw [hlookup] at hk
        split at hk
        · cases hk
        · exact h.unknown k hk
    · exact h
  | sameMaster => exact h
  | master => exact ⟨h.justified, h.recorded, h.unknown⟩

omit [DecidableEq A] in
theorem build : Vouched cfg config.build.1 := by
  have hworkers :
      Vouched cfg (config.workers.foldl (GenesisConfig.addWorker config.benchmarkDuration) (.empty, [])).1 := by
    refine List.foldlRecOn (motive := fun b : Storage A × List Event => Vouched cfg b.1) _ _ empty
      fun b h worker _ => ?_
    have hforce := h.force worker.1 worker.2.1 worker.2.2
    exact ⟨hforce.justified, hforce.recorded, hforce.unknown⟩
  refine List.foldlRecOn (motive := fun b : Storage A × List Event => Vouched cfg b.1) _ _ hworkers
    fun b h gatekeeper _ => ?_
  rcases addGatekeeper_cases b gatekeeper with ⟨-, heq⟩ | ⟨info, -, heq⟩
  · rw [heq]
    exact h
  · rw [heq]
    exact ⟨h.justified, h.recorded, h.unknown⟩

theorem change (h : Vouched cfg n.world.registry) (hc : Change cfg n n') : Vouched cfg n'.world.registry := by
  cases hc with
  | call hexec => exact h.written (exec_written hexec)
  | received _ _ hrouted =>
    cases hrouted with
    | registry _ hreceived =>
      obtain ⟨key, -, hreported⟩ := onMessageReceived_reported hreceived
      exact h.reported hreported
    | nothing | panic | update | report => exact h
  | log | pallets | queue | nextBlock => exact h

end Vouched

/-- **Every worker is vouched for.** In every run, a worker's record stands under its
own key, has a score of at most 6000, and the operator of its latest registration. Its
level of confidence is 128 if root has ever registered it, and else the one, from 1 to 5,
that its first attestation gave. Every registration that is not root's was attested: the
service had signed a report less than two hours old of an enclave that commits to the
registered data; the enclave and the relay chain were on the lists of then, each where
the runtime verifies it. -/
theorem workers_vouched (h : Reachable cfg config n) :
    (∀ registration ∈ n.world.registry.registrations, Justified cfg registration) ∧
    ∀ key info, n.world.registry.workers.lookup key = some info →
      info.pubkey = key ∧ (∀ score ∈ info.initialScore, score ≤ 6000) ∧
      (registrationsOf n.world.registry key).head?.map Registration.operator = some info.operator ∧
      ((∃ registration ∈ registrationsOf n.world.registry key, registration.source = .root) →
        info.confidenceLevel = 128) ∧
      ((∀ registration ∈ registrationsOf n.world.registry key, registration.source ≠ .root) →
        ∃ first ∈ (registrationsOf n.world.registry key).getLast?,
          ∃ nowSec pruntimeInfo attestation pruntimes relaychains fields,
            first.source = .attested nowSec pruntimeInfo attestation pruntimes relaychains fields ∧
            info.confidenceLevel = fields.confidenceLevel ∧ 1 ≤ fields.confidenceLevel ∧
              fields.confidenceLevel ≤ 5) := by
  have hn : Vouched cfg n.world.registry := by
    refine h.invariant (fun n => Vouched cfg n.world.registry) (fun n hn => ?_)
      fun n n' _ hn hchange => hn.change hchange
    change Vouched cfg n.world.registry
    rw [hn.registry]
    exact .build
  refine ⟨hn.justified, fun key info hkey => ?_⟩
  have hrecorded := hn.recorded key info hkey
  refine ⟨hrecorded.pubkey, hrecorded.score, hrecorded.operator, ?_, ?_⟩
  · rintro ⟨root, hroot, heq⟩
    rcases hrecorded.level with ⟨hlevel, -⟩ | ⟨-, hnone⟩
    · exact hlevel
    · exact absurd heq (hnone root hroot)
  · intro hnone
    rcases hrecorded.level with ⟨-, root, hroot, heq⟩ | ⟨⟨first, hfirst, hlevel⟩, -⟩
    · exact absurd heq (hnone root hroot)
    have hmem := List.mem_of_getLast? (Option.mem_def.mp hfirst)
    have hjust := hn.justified first (List.mem_of_mem_filter hmem)
    have hsource := hnone first hmem
    unfold Justified at hjust
    cases hs : first.source with
    | root => exact absurd hs hsource
    | attested nowSec pruntimeInfo attestation pruntimes relaychains fields =>
      rw [hs] at hjust hlevel
      exact ⟨first, hfirst, _, _, _, _, _, _, hs, hlevel, hjust.2.2.1.level_le⟩

/-- The second worker is attested at level 1. -/
theorem workers_vouched_demo :
    (∀ registration ∈ Demo.node.world.registry.registrations, Justified Demo.config registration) ∧
    ∃ info nowSec pruntimeInfo attestation pruntimes relaychains fields,
      Demo.node.world.registry.workers.lookup (Demo.key 7) = some info ∧
      ((registrationsOf Demo.node.world.registry (Demo.key 7)).map Registration.source) =
        [.attested nowSec pruntimeInfo attestation pruntimes relaychains fields] ∧
      info.confidenceLevel = fields.confidenceLevel := by
  obtain ⟨hjustified, hworkers⟩ := workers_vouched Demo.node_reachable
  obtain ⟨info, hinfo⟩ := Option.isSome_iff_exists.mp
    (by decide +kernel : (Demo.node.world.registry.workers.lookup (Demo.key 7)).isSome = true)
  obtain ⟨registration, hone⟩ := List.length_eq_one_iff.mp
    (by decide +kernel : (registrationsOf Demo.node.world.registry (Demo.key 7)).length = 1)
  have hlevel : ∀ r ∈ registrationsOf Demo.node.world.registry (Demo.key 7), levelOf r.source = 1 := by
    decide +kernel
  obtain ⟨-, -, -, -, hattested⟩ := hworkers _ info hinfo
  obtain ⟨first, hfirst, nowSec, pruntimeInfo, attestation, pruntimes, relaychains, fields, hsource, heq, -⟩ :=
    hattested fun r hr hroot => by
      have := hlevel r hr
      rw [hroot] at this
      cases this
  have hsame : first = registration := by
    rw [hone] at hfirst
    exact (Option.some.inj hfirst).symm
  refine ⟨hjustified, info, nowSec, pruntimeInfo, attestation, pruntimes, relaychains, fields, hinfo, ?_, heq⟩
  rw [hone, List.map_singleton, ← hsame, hsource]

end Khala.Runtime
