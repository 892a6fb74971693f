/-
The validation of a remote attestation report of Intel's service
(`pallets/phala/src/utils/attestation.rs`, `constants.rs`).

Certificates, JSON, base64 and dates are read by other crates (`Ias`). A quote
body that is too short is a panic: the slices are taken out of it unchecked.
-/
import Khala.Outcome

namespace Khala.Sgx

abbrev Bytes : Type := List UInt8

/-! ## JSON -/

inductive Json
  | null
  | bool (b : Bool)
  | number (literal : String)
  | string (s : String)
  | array (items : List Json)
  | object (fields : List (String × Json))

namespace Json

/-- Indexing by a key: `null` where there is none. -/
def get (value : Json) (key : String) : Json :=
  match value with
  | .object fields => (fields.lookup key).getD .null
  | _ => .null

def asStr : Json → Option String
  | .string s => some s
  | _ => none

def asArray : Json → Option (List Json)
  | .array items => some items
  | _ => none

end Json

/-! ## Reports -/

/-- `SgxIas` -/
structure Attestation where
  raReport : Bytes
  signature : Bytes
  rawSigningCert : Bytes

inductive Error
  | pRuntimeRejected
  | invalidIasSigningCert
  | invalidReport
  | invalidQuoteStatus
  | badIasReport
  | outdatedIasReport
  | unknownQuoteBodyFormat
  | invalidUserDataHash
deriving DecidableEq, Repr

inductive Fault
  | error (e : Error)
  | sliceOutOfRange
deriving DecidableEq, Repr

structure IasFields where
  mrEnclave : Bytes
  mrSigner : Bytes
  isvProdId : Bytes
  isvSvn : Bytes
  reportData : Bytes
  confidenceLevel : ℕ
deriving DecidableEq, Repr

/-- What other crates read: `webpki`, `serde_json`, `base64` and `chrono`. -/
structure Ias where
  Cert : Type
  endEntityCert : Bytes → Option Cert
  verifySignature : Cert → Bytes → Bytes → Bool
  verifyIsValidTlsServerCert : Cert → ℕ → Bool
  fromSlice : Bytes → Option Json
  base64Decode : String → Option Bytes
  /-- The seconds since 1970. -/
  parseFromRfc3339 : String → Option ℤ

/-! ## Levels of confidence -/

def iasQuoteStatusLevel1 : List String := ["OK"]

def iasQuoteStatusLevel2 : List String := ["SW_HARDENING_NEEDED"]

def iasQuoteStatusLevel3 : List String := ["CONFIGURATION_NEEDED", "CONFIGURATION_AND_SW_HARDENING_NEEDED"]

def iasQuoteStatusLevel5 : List String := ["GROUP_OUT_OF_DATE"]

def iasQuoteAdvisoryIdWhitelist : List String :=
  ["INTEL-SA-00334", "INTEL-SA-00219", "INTEL-SA-00381", "INTEL-SA-00389"]

/-- The level of the quote's status; 128 is none of them. -/
def statusLevel (quoteStatus : String) : ℕ :=
  if quoteStatus ∈ iasQuoteStatusLevel1 then 1
  else if quoteStatus ∈ iasQuoteStatusLevel2 then 2
  else if quoteStatus ∈ iasQuoteStatusLevel3 then 3
  else if quoteStatus ∈ iasQuoteStatusLevel5 then 5
  else 128

/-- An advisory that is not on the whitelist makes it level 4. -/
def adviseLevel (confidenceLevel : ℕ) : List Json → Except Fault ℕ
  | [] => pure confidenceLevel
  | advisoryId :: rest => do
    let advisoryId ← Outcome.get advisoryId.asStr (.error .badIasReport)
    adviseLevel (if advisoryId ∈ iasQuoteAdvisoryIdWhitelist then confidenceLevel else 4) rest

/-! ## Validation -/

/-- `&bytes[start..stop]` -/
def slice (bytes : Bytes) (start stop : ℕ) : Except Fault Bytes :=
  if stop ≤ bytes.length then pure ((bytes.drop start).take (stop - start)) else throw .sliceOutOfRange

def extendMrenclave (mrEnclave mrSigner isvProdId isvSvn : Bytes) : Bytes :=
  mrEnclave ++ isvProdId ++ isvSvn ++ mrSigner

variable (ias : Ias)

def validateIasReport (report signature rawSigningCert : Bytes) (now : ℕ) (verifyPruntime : Bool)
    (pruntimeAllowlist : List Bytes) : Except Fault IasFields := do
  let sigCert ← Outcome.get (ias.endEntityCert rawSigningCert) (.error .invalidIasSigningCert)
  Outcome.require (ias.verifySignature sigCert report signature = true) (.error .invalidIasSigningCert)
  Outcome.require (ias.verifyIsValidTlsServerCert sigCert now = true) (.error .invalidIasSigningCert)
  let parsedReport ← Outcome.get (ias.fromSlice report) (.error .invalidReport)
  let rawQuoteBody ← Outcome.get (parsedReport.get "isvEnclaveQuoteBody").asStr (.error .unknownQuoteBodyFormat)
  let quoteBody ← Outcome.get (ias.base64Decode rawQuoteBody) (.error .unknownQuoteBodyFormat)
  let mrEnclave ← slice quoteBody 112 144
  let mrSigner ← slice quoteBody 176 208
  let isvProdId ← slice quoteBody 304 306
  let isvSvn ← slice quoteBody 306 308
  let tMrenclave := extendMrenclave mrEnclave mrSigner isvProdId isvSvn
  Outcome.require (verifyPruntime = true → tMrenclave ∈ pruntimeAllowlist) (.error .pRuntimeRejected)
  let rawReportTimestamp := (parsedReport.get "timestamp").asStr.getD "UNKNOWN" ++ "Z"
  let reportTimestamp ← Outcome.get (ias.parseFromRfc3339 rawReportTimestamp) (.error .badIasReport)
  Outcome.require ((now : ℤ) - reportTimestamp < 7200) (.error .outdatedIasReport)
  let quoteStatus := (parsedReport.get "isvEnclaveQuoteStatus").asStr.getD "UNKNOWN"
  let confidenceLevel := statusLevel quoteStatus
  Outcome.require (confidenceLevel ≠ 128) (.error .invalidQuoteStatus)
  let confidenceLevel ←
    (if confidenceLevel < 5 then adviseLevel confidenceLevel ((parsedReport.get "advisoryIDs").asArray.getD [])
    else pure confidenceLevel)
  let reportData ← slice quoteBody 368 432
  pure { mrEnclave, mrSigner, isvProdId, isvSvn, reportData, confidenceLevel }

/-- `IasValidator::validate` -/
def validate (attestation : Attestation) (userDataHash : Bytes) (now : ℕ) (verifyPruntime : Bool)
    (pruntimeAllowlist : List Bytes) : Except Fault IasFields := do
  let fields ← validateIasReport ias attestation.raReport attestation.signature attestation.rawSigningCert now
    verifyPruntime pruntimeAllowlist
  if fields.reportData.take 32 ≠ userDataHash then throw (.error .invalidUserDataHash)
  pure fields

/-! ## What an accepted report says -/

/-- The digest by which an enclave is allowed. -/
def IasFields.digest (fields : IasFields) : Bytes :=
  extendMrenclave fields.mrEnclave fields.mrSigner fields.isvProdId fields.isvSvn

/-- The advisories that a report names are all on the whitelist. -/
def Advised (report : Json) : Prop :=
  ∀ advisoryId ∈ (report.get "advisoryIDs").asArray.getD [], ∃ id ∈ iasQuoteAdvisoryIdWhitelist,
    advisoryId.asStr = some id

variable {ias : Ias} {now : ℕ} {verifyPruntime : Bool} {pruntimeAllowlist : List Bytes} {level level' : ℕ}

theorem statusLevel_spec {status : String} (h : statusLevel status ≠ 128) :
    statusLevel status = 1 ∨ statusLevel status = 2 ∨ statusLevel status = 3 ∨ statusLevel status = 5 := by
  unfold statusLevel at h ⊢
  split_ifs at h ⊢ <;> first | exact absurd rfl h | simp

/-- The level stays where it was, or becomes 4 at an advisory of another kind. -/
theorem adviseLevel_spec {items : List Json} (h : adviseLevel level items = .ok level') :
    level' = level ∧ (∀ advisoryId ∈ items, ∃ id ∈ iasQuoteAdvisoryIdWhitelist, advisoryId.asStr = some id) ∨
      level' = 4 ∧ ¬∀ advisoryId ∈ items, ∃ id ∈ iasQuoteAdvisoryIdWhitelist, advisoryId.asStr = some id := by
  induction items generalizing level with
  | nil =>
    cases h
    exact .inl ⟨rfl, fun _ h => absurd h List.not_mem_nil⟩
  | cons item items ih =>
    rw [adviseLevel] at h
    obtain ⟨id, hid, h⟩ := Outcome.bind_ok.mp h
    have hid := Outcome.get_ok.mp hid
    rw [List.forall_mem_cons]
    by_cases hlisted : id ∈ iasQuoteAdvisoryIdWhitelist
    · rw [if_pos hlisted] at h
      rcases ih h with ⟨rfl, hall⟩ | ⟨rfl, hnot⟩
      · exact .inl ⟨rfl, ⟨id, hlisted, hid⟩, hall⟩
      · exact .inr ⟨rfl, fun hall => hnot hall.2⟩
    · rw [if_neg hlisted] at h
      have hfour : level' = 4 := by
        rcases ih h with ⟨rfl, -⟩ | ⟨rfl, -⟩
        · rfl
        · rfl
      refine .inr ⟨hfour, fun hall => ?_⟩
      obtain ⟨id', hlisted', hid'⟩ := hall.1
      cases hid.symm.trans hid'
      exact hlisted hlisted'

/-- What an accepted attestation vouches for. -/
structure Vouches (ias : Ias) (attestation : Attestation) (userDataHash : Bytes) (now : ℕ) (verifyPruntime : Bool)
    (pruntimeAllowlist : List Bytes) (fields : IasFields) : Prop where
  /-- The service has signed the report, with a certificate that is good now. -/
  signed : ∃ cert, ias.endEntityCert attestation.rawSigningCert = some cert ∧
    ias.verifySignature cert attestation.raReport attestation.signature = true ∧
    ias.verifyIsValidTlsServerCert cert now = true
  /-- The report is less than two hours old. -/
  fresh : ∃ report timestamp, ias.fromSlice attestation.raReport = some report ∧
    ias.parseFromRfc3339 ((report.get "timestamp").asStr.getD "UNKNOWN" ++ "Z") = some timestamp ∧
    (now : ℤ) - timestamp < 7200
  /-- The enclave is an allowed one. -/
  allowed : verifyPruntime = true → fields.digest ∈ pruntimeAllowlist
  /-- The enclave commits to the data. -/
  committed : fields.reportData.take 32 = userDataHash
  /-- Levels 1 to 3 have no advisory to worry about; level 5 is not looked at. -/
  confidence : ∃ report, ias.fromSlice attestation.raReport = some report ∧
    (fields.confidenceLevel ∈ [1, 2, 3] ∧ Advised report ∨ fields.confidenceLevel = 4 ∧ ¬Advised report ∨
      fields.confidenceLevel = 5)

theorem validate_vouches {attestation : Attestation} {userDataHash : Bytes} {fields : IasFields}
    (h : validate ias attestation userDataHash now verifyPruntime pruntimeAllowlist = .ok fields) :
    Vouches ias attestation userDataHash now verifyPruntime pruntimeAllowlist fields := by
  unfold validate validateIasReport at h
  simp only [Outcome.bind_ok, Outcome.get_ok, Outcome.require_ok] at h
  obtain ⟨fields', ⟨cert, hcert, _, hsigned, _, hvalid, report, hreport, body, _, quote, _, h⟩, hcommit⟩ := h
  obtain ⟨mrEnclave, _, mrSigner, _, isvProdId, _, isvSvn, _, _, hallowed, timestamp, htime, _, hfresh, h⟩ := h
  obtain ⟨_, hstatus, level, hlevel, reportData, _, hfields⟩ := h
  cases hfields
  split at hcommit
  · cases hcommit
  next hdata =>
  cases hcommit
  refine ⟨⟨cert, hcert, hsigned, hvalid⟩, ⟨report, timestamp, hreport, htime, hfresh⟩, hallowed, not_not.mp hdata,
    report, hreport, ?_⟩
  change level ∈ [1, 2, 3] ∧ _ ∨ level = 4 ∧ _ ∨ level = 5
  have hcases := statusLevel_spec hstatus
  split at hlevel
  · next hlow =>
    rcases adviseLevel_spec hlevel with ⟨rfl, hadvised⟩ | ⟨rfl, hnot⟩
    · refine .inl ⟨?_, hadvised⟩
      simp only [List.mem_cons, List.not_mem_nil, or_false]
      omega
    · exact .inr (.inl ⟨rfl, hnot⟩)
  · next hhigh =>
    cases hlevel
    exact .inr (.inr (by omega))

theorem Vouches.level_le {attestation : Attestation} {userDataHash : Bytes} {fields : IasFields}
    (h : Vouches ias attestation userDataHash now verifyPruntime pruntimeAllowlist fields) :
    1 ≤ fields.confidenceLevel ∧ fields.confidenceLevel ≤ 5 := by
  obtain ⟨report, -, ⟨hmem, -⟩ | ⟨heq, -⟩ | heq⟩ := h.confidence
  · simp only [List.mem_cons, List.not_mem_nil, or_false] at hmem
    omega
  · omega
  · omega

end Khala.Sgx
