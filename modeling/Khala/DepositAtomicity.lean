/-
What an XCM deposit leaves behind when it errs.

A deposit that goes over the bridge pays the fee first and looks at the
reserve's location, the reserve's account and the chain after. The executor
does not roll back a deposit that errs, it traps the assets for a later claim:
what was paid before the error is there twice.
-/
import Khala.Reserves

namespace Khala.XTransfer

open Bridge (BridgeChainId ResourceId)

variable {S P : Type} {rt : Runtime S} {s s' : State S P} {what : MultiAsset} {who location : MultiLocation}

/-! ## The parts of the call -/

/-- Every balance and every deposit nonce is as it was. -/
structure State.Untouched (T : Tokens S) (s s' : State S P) : Prop where
  balance : T.balance s'.tokens = T.balance s.tokens
  nonces : s'.bridge.chainNonces = s.bridge.chainNonces

/-- What is documented of the primitives that deposit: they lower no balance; and the native
currency arrives, unless it is below the least balance and the account is empty; a mint does. -/
structure Tokens.Credits (T : Tokens S) : Prop where
  minimum_native : ∀ t t', T.minimum t' .native = T.minimum t .native
  deposit_mono : ∀ t who amount token x, T.balance t token x ≤ T.balance (T.depositCreating t who amount) token x
  deposit_arrives : ∀ t who amount, T.minimum t .native ≤ amount ∨ T.balance t .native who ≠ 0 →
    T.balance (T.depositCreating t who amount) .native who = T.balance t .native who + amount
  deposit_dust : ∀ t who amount, amount = 0 ∨ ¬(T.minimum t .native ≤ amount ∨ T.balance t .native who ≠ 0) →
    T.balance (T.depositCreating t who amount) = T.balance t
  mint_mono : ∀ {t t' id who amount}, T.mintInto t id who amount = .ok t' → ∀ token x,
    T.balance t token x ≤ T.balance t' token x
  mint_arrives : ∀ {t t' id who amount}, T.mintInto t id who amount = .ok t' →
    T.balance t' (.asset id) who = T.balance t (.asset id) who + amount
  mint_zero : ∀ {t t' id who}, T.mintInto t id who 0 = .ok t' → T.balance t' = T.balance t

/-- A deposit over the bridge whose fee is paid. -/
structure Forwarding (S : Type) where
  chain : BridgeChainId
  recipient : Bytes
  location : MultiLocation
  fee : ℕ
  /-- What is left to forward. -/
  rest : ℕ
  /-- The tokens with the fee deposited. -/
  tokens : S

namespace Runtime

variable (rt)

/-- The chain is one, and there is a fee below the amount that the treasury takes. -/
def payFee (s : State S P) (location : MultiLocation) (amount destId : ℕ) (recipient : Bytes) :
    Option (Forwarding S) := do
  let chain ← toChainId destId
  let fee ← s.getFee rt chain location amount
  if amount > fee then
    let t ← (rt.adapterDeposit s.registry (.of location fee) rt.treasury.location s.tokens).toOption
    some ⟨chain, recipient, location, fee, amount - fee, t⟩
  else none

/-- The deposit of a concrete fungible asset at a location of the bridge. -/
def forwarding (s : State S P) (what : MultiAsset) (who : MultiLocation) : Option (Forwarding S) :=
  match who.parents, who.interior with
  | 0, [.generalKey cbKey, .generalIndex destId, .generalKey recipient] =>
    if cbKey = cbAssetKey then
      match what.id, what.fungibility with
      | .concrete location, .fungible amount => rt.payFee s location amount destId recipient
      | _, _ => none
    else none
  | _, _ => none

/-- The tokens with the rest in the reserve too, where the asset is not at home on the chain. -/
def reserved (registry : Registry) (fwd : Forwarding S) : Except Error S :=
  match fwd.location.reserveLocation with
  | none => throw (.xcmFailedToTransactAsset "FailedGetreserve")
  | some reserve =>
    if reserve ≠ .ofChain fwd.chain then
      mapErr (rt.adapterDeposit registry (.of fwd.location fwd.rest)
        (rt.hashing.intoAccount (.ofChain fwd.chain)).location fwd.tokens)
        (.xcmFailedToTransactAsset "ReserveTransferFailed")
    else pure fwd.tokens

/-- An amount of the asset changes the account's balance: it is not nothing, and PHA is no dust to the account. -/
def Arrives (t : S) (location : MultiLocation) (who : AccountId) (amount : ℕ) : Prop :=
  amount ≠ 0 ∧ (rt.isNativeAssetId location = true →
    rt.tokens.minimum t .native ≤ amount ∨ rt.tokens.balance t .native who ≠ 0)

/-- The deposit is not over once the fee is paid: the reserve's location is not known or its
account refuses the rest, or the chain is not whitelisted. -/
def Refused (s : State S P) (fwd : Forwarding S) : Prop :=
  (∃ e, rt.reserved s.registry fwd = .error e) ∨ s.bridge.chainWhitelisted fwd.chain = false

/-- The rest goes to an account here, which takes it. -/
def RestPaid (s : State S P) (fwd : Forwarding S) : Prop :=
  fwd.location.reserveLocation ≠ some (.ofChain fwd.chain) ∧ ∃ t, rt.reserved s.registry fwd = .ok t

/-- Something arrived before the deposit errs: the fee, or the rest in the reserve. -/
def Duplicates (s : State S P) (what : MultiAsset) (who : MultiLocation) : Prop :=
  ∃ fwd, rt.forwarding s what who = some fwd ∧ rt.Refused s fwd ∧
    (rt.Arrives s.tokens fwd.location rt.treasury fwd.fee ∨
      rt.RestPaid s fwd ∧ rt.Arrives s.tokens fwd.location (rt.hashing.intoAccount (.ofChain fwd.chain)) fwd.rest)

end Runtime

/-! ## What the call does -/

variable {amount destId : ℕ} {recipient : Bytes}

theorem toOption_eq_some {x : Except Error S} {t : S} : x.toOption = some t ↔ x = .ok t := by
  cases x with
  | ok => exact ⟨fun h => by cases h; rfl, fun h => by cases h; rfl⟩
  | error => exact ⟨nofun, nofun⟩

/-- An error before the fee is paid changes nothing. -/
theorem depositOverBridge_of_none (h : rt.payFee s location amount destId recipient = none) :
    (depositOverBridge rt location amount destId recipient).Ends s (fun _ _ => True) fun _ s' => s' = s := by
  refine Call.Ends.unwrap_then (fun _ => rfl) fun chain hchain => ?_
  refine Call.Ends.read_then ?_
  refine Call.Ends.unwrap_then (fun _ => rfl) fun fee hfee => ?_
  refine Call.Ends.ensure_then (fun _ => rfl) fun hlt => ?_
  have hdeposit : ∃ e, rt.adapterDeposit s.registry (.of location fee) rt.treasury.location s.tokens =
      .error e := by
    cases hd : rt.adapterDeposit s.registry (.of location fee) rt.treasury.location s.tokens with
    | error e => exact ⟨e, rfl⟩
    | ok t => simp [Runtime.payFee, hchain, hfee, hlt, hd, Except.toOption] at h
  obtain ⟨e, he⟩ := hdeposit
  refine Call.Ends.bind (Q := fun _ _ => False) (Call.ends_of (fun _ s' h => ?_) fun _ s' h => ?_)
    fun _ _ => False.elim
  · simp [onTokens, mapErr, he, Except.mapError] at h
  · simp [onTokens, mapErr, he, Except.mapError] at h
    exact h.2.symm

/-- The native asset has the resource id of `here` on solo chains. -/
def Forwarding.rid (fwd : Forwarding S) (rt : Runtime S) : ResourceId :=
  if rt.isNativeAssetId fwd.location = true then rt.hashing.genPhaRid fwd.chain
  else rt.hashing.intoRid fwd.location fwd.chain

/-- The deposit after its fee is paid. -/
def forwardOn (rt : Runtime S) (registry : Registry) (fwd : Forwarding S) : Call (State S P) Error Unit := do
  let assetReserveLocation ← Call.unwrap fwd.location.reserveLocation
      (.xcmFailedToTransactAsset "FailedGetreserve")
  if assetReserveLocation ≠ .ofChain fwd.chain then
    onTokens fun t => mapErr (rt.adapterDeposit registry (.of fwd.location fwd.rest)
      (rt.hashing.intoAccount (.ofChain fwd.chain)).location t) (.xcmFailedToTransactAsset "ReserveTransferFailed")
  announceXcm fwd.chain (fwd.rid rt) fwd.recipient fwd.rest

theorem depositOverBridge_of_some {fwd : Forwarding S}
    (h : rt.payFee s location amount destId recipient = some fwd) :
    depositOverBridge rt location amount destId recipient s =
    forwardOn rt s.registry fwd { s with tokens := fwd.tokens } := by
  simp only [Runtime.payFee, Option.bind_eq_bind, Option.bind_eq_some_iff] at h
  obtain ⟨chain, hchain, fee, hfee, h⟩ := h
  split at h
  · next hlt =>
    obtain ⟨t, hpaid, h⟩ := Option.bind_eq_some_iff.mp h
    cases h
    refine (Call.bind_ok (Call.unwrap_some hchain)).trans ((Call.bind_ok (t := s) rfl).trans ?_)
    refine (Call.bind_ok (Call.unwrap_some hfee)).trans ((Call.bind_ok (Call.ensure_of hlt)).trans ?_)
    exact Call.bind_ok (onTokens_ok (mapErr_ok.mpr (toOption_eq_some.mp hpaid)))
  · cases h

/-- It goes on with the reserve, and then the bridge. -/
theorem forwardOn_error {registry : Registry} {fwd : Forwarding S} {e : Error}
    (h : rt.reserved registry fwd = .error e)
    (hs : s.tokens = fwd.tokens) : ∃ e', forwardOn rt registry fwd s = (.error e', s) := by
  unfold Runtime.reserved at h
  cases hreserve : fwd.location.reserveLocation with
  | none => exact ⟨_, Call.bind_error (Call.unwrap_none hreserve)⟩
  | some reserve =>
    rw [hreserve] at h
    dsimp only at h
    split at h
    · next haway =>
      rw [← hs] at h
      refine ⟨e, (Call.bind_ok (Call.unwrap_some hreserve)).trans ?_⟩
      rw [if_pos haway]
      exact Call.bind_error (onTokens_error h)
    · cases h

theorem forwardOn_ok {registry : Registry} {fwd : Forwarding S} {t : S} (h : rt.reserved registry fwd = .ok t)
    (hs : s.tokens = fwd.tokens) :
    forwardOn rt registry fwd s = announceXcm fwd.chain (fwd.rid rt) fwd.recipient fwd.rest
    { s with tokens := t } := by
  unfold Runtime.reserved at h
  cases hreserve : fwd.location.reserveLocation with
  | none =>
    rw [hreserve] at h
    cases h
  | some reserve =>
    rw [hreserve] at h
    dsimp only at h
    split at h
    · next haway =>
      rw [← hs] at h
      refine (Call.bind_ok (Call.unwrap_some hreserve)).trans ?_
      rw [if_pos haway]
      exact Call.bind_ok (onTokens_ok h)
    · next hhome =>
      cases h
      refine (Call.bind_ok (Call.unwrap_some hreserve)).trans ?_
      rw [if_neg hhome, ← hs]

/-- A deposit over the bridge whose fee is paid. -/
theorem depositAsset_of_some {fwd : Forwarding S} (h : rt.forwarding s what who = some fwd) :
    depositAsset rt what who s = forwardOn rt s.registry fwd { s with tokens := fwd.tokens } := by
  unfold Runtime.forwarding at h
  split at h
  · next cbKey destId recipient hparents hinterior =>
    split at h
    · next hkey =>
      split at h
      · next location amount hid hfun =>
        rw [← depositOverBridge_of_some h]
        simp only [depositAsset, hparents, hinterior, hid, hfun]
        exact Call.bind_ok (Call.ensure_of hkey)
      · cases h
    · cases h
  · cases h

/-- Any other deposit: an error leaves everything as it was. -/
theorem depositAsset_of_none (h : rt.forwarding s what who = none) :
    (depositAsset rt what who).Ends s (fun _ _ => True) fun _ s' => s' = s := by
  unfold depositAsset
  split
  · next cbKey destId recipient hparents hinterior =>
    refine Call.Ends.ensure_then (fun _ => rfl) fun hkey => ?_
    split
    · next location amount hid hfun =>
      refine depositOverBridge_of_none ?_
      unfold Runtime.forwarding at h
      simp only [hparents, hinterior, hid, hfun, if_pos hkey] at h
      exact h
    · exact rfl
  · refine Call.Ends.read_then (Call.ends_of (fun _ _ _ => trivial) fun e s' h => ?_)
    unfold onTokens at h
    split at h
    · cases h
    · cases h
      rfl

/-! ## What arrives -/

variable {t t' : S} {fwd : Forwarding S} {account : AccountId} {registry : Registry}

theorem adapterDeposit_mono (ha : rt.Adapts) (hc : rt.tokens.Credits)
    (h : rt.adapterDeposit registry (.of location amount) account.location t = .ok t')
    (token : Token) (x : AccountId) :
    rt.tokens.balance t token x ≤ rt.tokens.balance t' token x := by
  rcases adapterDeposit_cases ha h with ⟨-, rfl⟩ | ⟨-, id, -, hmint⟩
  · exact hc.deposit_mono _ _ _ _ _
  · exact hc.mint_mono hmint _ _

theorem adapterDeposit_balance_iff (ha : rt.Adapts) (hc : rt.tokens.Credits)
    (h : rt.adapterDeposit registry (.of location amount) account.location t = .ok t') :
    rt.tokens.balance t' = rt.tokens.balance t ↔ ¬rt.Arrives t location account amount := by
  unfold Runtime.Arrives
  rcases adapterDeposit_cases ha h with ⟨hnative, rfl⟩ | ⟨hforeign, id, -, hmint⟩
  · constructor
    · intro hsame ⟨hpos, hlarge⟩
      have harrives := hc.deposit_arrives t account amount (hlarge hnative)
      rw [hsame] at harrives
      omega
    · intro hdust
      refine hc.deposit_dust t account amount ?_
      by_cases hzero : amount = 0
      · exact .inl hzero
      · exact .inr fun hlarge => hdust ⟨hzero, fun _ => hlarge⟩
  · constructor
    · intro hsame ⟨hpos, _⟩
      have harrives := hc.mint_arrives hmint
      rw [hsame] at harrives
      omega
    · intro hdust
      have hzero : amount = 0 := by
        by_contra hpos
        exact hdust ⟨hpos, fun hnative => by simp [hforeign] at hnative⟩
      subst hzero
      exact hc.mint_zero hmint

theorem Runtime.Arrives.congr (hc : rt.tokens.Credits) (hsame : rt.tokens.balance t' = rt.tokens.balance t) :
    rt.Arrives t' location account amount ↔ rt.Arrives t location account amount := by
  unfold Runtime.Arrives
  rw [hsame, hc.minimum_native t t']

/-- The fee is paid to the treasury. -/
theorem forwarding_fee (h : rt.forwarding s what who = some fwd) :
    rt.adapterDeposit s.registry (.of fwd.location fwd.fee) rt.treasury.location s.tokens = .ok fwd.tokens := by
  unfold Runtime.forwarding at h
  split at h
  · split at h
    · split at h
      · simp only [Runtime.payFee, Option.bind_eq_bind, Option.bind_eq_some_iff] at h
        obtain ⟨chain, -, fee, -, h⟩ := h
        split at h
        · obtain ⟨t, hpaid, h⟩ := Option.bind_eq_some_iff.mp h
          cases h
          exact toOption_eq_some.mp hpaid
        · cases h
      · cases h
    · cases h
  · cases h

/-- The rest is paid to the reserve, or stays out of this chain. -/
theorem reserved_cases (h : rt.reserved registry fwd = .ok t) :
    (fwd.location.reserveLocation ≠ some (.ofChain fwd.chain) ∧
      rt.adapterDeposit registry (.of fwd.location fwd.rest) (rt.hashing.intoAccount (.ofChain fwd.chain)).location
        fwd.tokens = .ok t) ∨
    fwd.location.reserveLocation = some (.ofChain fwd.chain) ∧ t = fwd.tokens := by
  unfold Runtime.reserved at h
  split at h
  · cases h
  · next reserve hreserve =>
    rw [hreserve]
    split at h
    · next haway => exact .inl ⟨fun he => haway (Option.some.inj he), mapErr_ok.mp h⟩
    · next hhome =>
      cases h
      exact .inr ⟨congrArg some (not_not.mp hhome), rfl⟩

/-- With fee and rest deposited, the balances are the same exactly if neither arrived. -/
theorem reserved_balance_iff (ha : rt.Adapts) (hc : rt.tokens.Credits) (hfwd : rt.forwarding s what who = some fwd)
    (h : rt.reserved s.registry fwd = .ok t) :
    rt.tokens.balance t = rt.tokens.balance s.tokens ↔
      ¬(rt.Arrives s.tokens fwd.location rt.treasury fwd.fee ∨
        rt.RestPaid s fwd ∧ rt.Arrives s.tokens fwd.location
        (rt.hashing.intoAccount (.ofChain fwd.chain)) fwd.rest) := by
  have hfee := adapterDeposit_balance_iff ha hc (forwarding_fee hfwd)
  rw [not_or, ← hfee]
  rcases reserved_cases h with ⟨haway, hrest⟩ | ⟨hhome, rfl⟩
  · have hpaid : rt.RestPaid s fwd := ⟨haway, t, h⟩
    have hiff := adapterDeposit_balance_iff ha hc hrest
    simp only [hpaid, true_and]
    constructor
    · intro hsame
      -- no balance falls, so what is the same in the end was the same after the fee
      have hbetween : rt.tokens.balance fwd.tokens = rt.tokens.balance s.tokens := by
        funext token x
        have hle := adapterDeposit_mono ha hc (forwarding_fee hfwd) token x
        have hge := adapterDeposit_mono ha hc hrest token x
        rw [hsame] at hge
        exact Nat.le_antisymm hge hle
      exact ⟨hbetween, (Runtime.Arrives.congr hc hbetween).not.mp (hiff.mp (hsame.trans hbetween.symm))⟩
    · intro ⟨hbetween, hdust⟩
      exact (hiff.mpr ((Runtime.Arrives.congr hc hbetween).not.mpr hdust)).trans hbetween
  · have hunpaid : ¬rt.RestPaid s fwd := fun hpaid => hpaid.1 hhome
    simp [hunpaid]

/-- **When a deposit is all or nothing.** A deposit that errs leaves all
balances and nonces as they were, exactly if it is not refused after the fee, or
the rest in the reserve, arrived. -/
theorem depositAsset_atomic_iff (ha : rt.Adapts) (hc : rt.tokens.Credits) (s : State S P) (what : MultiAsset)
    (who : MultiLocation) :
    (∀ e s', depositAsset rt what who s = (.error e, s') → s.Untouched rt.tokens s') ↔
    ¬rt.Duplicates s what who := by
  cases hfwd : rt.forwarding s what who with
  | none =>
    refine iff_of_true (fun e s' h => ?_) ?_
    · rw [(depositAsset_of_none hfwd).error h]
      exact ⟨rfl, rfl⟩
    · rintro ⟨fwd, hsome, -⟩
      cases hfwd.symm.trans hsome
  | some fwd =>
    have hdup : rt.Duplicates s what who ↔ rt.Refused s fwd ∧
        (rt.Arrives s.tokens fwd.location rt.treasury fwd.fee ∨
          rt.RestPaid s fwd ∧
            rt.Arrives s.tokens fwd.location (rt.hashing.intoAccount (.ofChain fwd.chain)) fwd.rest) := by
      simp [Runtime.Duplicates, hfwd]
    rw [depositAsset_of_some hfwd, hdup]
    have herror {e : Error} {t : S} :
        (∀ e' s', ((.error e, { s with tokens := t }) : Except Error Unit × State S P) = (.error e', s') →
          s.Untouched rt.tokens s') ↔ rt.tokens.balance t = rt.tokens.balance s.tokens := by
      constructor
      · intro h
        exact (h e _ rfl).balance
      · intro h e' s' he
        cases he
        exact ⟨h, rfl⟩
    cases hreserved : rt.reserved s.registry fwd with
    | error e =>
      obtain ⟨e', he'⟩ := forwardOn_error (s := { s with tokens := fwd.tokens }) hreserved rfl
      have hrefused : rt.Refused s fwd := .inl ⟨e, hreserved⟩
      have hunpaid : ¬rt.RestPaid s fwd := fun ⟨_, t, ht⟩ => by simp [hreserved] at ht
      rw [he', herror, adapterDeposit_balance_iff ha hc (forwarding_fee hfwd)]
      simp [hrefused, hunpaid]
    | ok t =>
      rw [forwardOn_ok (s := { s with tokens := fwd.tokens }) hreserved rfl]
      have hends : (announceXcm fwd.chain (fwd.rid rt) fwd.recipient fwd.rest).Ends { s with tokens := t } _ _ :=
        announceXcm_ends
      cases hr : announceXcm fwd.chain (fwd.rid rt) fwd.recipient fwd.rest { s with tokens := t } with
      | mk result s₁ =>
        cases result with
        | ok =>
          have hlisted : s.bridge.chainWhitelisted fwd.chain = true := (hends.ok hr).2
          have htaken : ¬rt.Refused s fwd := by simp [Runtime.Refused, hreserved, hlisted]
          simp [htaken]
        | error e =>
          obtain ⟨rfl, hlisted⟩ := hends.error hr
          have hrefused : rt.Refused s fwd := .inr hlisted
          rw [herror, reserved_balance_iff ha hc hfwd hreserved]
          simp [hrefused]

/-! ## A deposit on a chain that is not whitelisted -/

namespace Demo

/-- The native asset is registered, and there is a fee for the chain 2. -/
def unlisted : State Ledger Unit :=
  { state with
    registry := { Registry.empty with idByAssets := (∅ : StorageMap MultiLocation AssetId).insert .here 0 }
    bridgeFee := (∅ : StorageMap BridgeChainId (ℕ × ℕ)).insert 2 (10, 0) }

theorem runtime_adapts : runtime.Adapts where
  currency {found who t t'} h := by
    cases found with
    | none => cases h
    | some amount =>
      cases h
      exact ⟨amount, rfl, rfl⟩
  fungibles {found who t t'} h := by
    cases found with
    | error => cases h
    | ok found =>
      cases h
      exact ⟨found.1, found.2, rfl, rfl⟩

theorem add_mono (l : Ledger) (token token' : Token) (who x : AccountId) (amount : ℕ) :
    l.balance token' x ≤ (l.add token who amount).balance token' x := by
  unfold Ledger.add
  by_cases htoken : token' = token
  · subst htoken
    by_cases hx : x = who
    · subst hx
      simp
    · simp [hx]
  · simp [htoken]

theorem tokens_credits : tokens.Credits where
  minimum_native _ _ := rfl
  deposit_mono l who amount token x := add_mono l .native token who x amount
  deposit_arrives l who amount _ := by simp [tokens, Ledger.add]
  deposit_dust l who amount h := by
    have hzero : amount = 0 := by
      rcases h with hzero | hsmall
      · exact hzero
      · have hone : tokens.minimum l .native = 1 := rfl
        omega
    subst hzero
    exact (add_zero l .native who).balance
  mint_mono h token x := by
    cases h
    exact add_mono _ _ _ _ _ _
  mint_arrives h := by
    cases h
    simp [tokens, Ledger.add]
  mint_zero h := by
    cases h
    exact (add_zero _ _ _).balance

/-- An asset that is at home on the chain 2 is registered, has a price, and the fee is nothing. -/
def athome : State Ledger Unit :=
  { state with
    registry := { Registry.empty with idByAssets := (∅ : StorageMap MultiLocation AssetId).insert evmAsset 1 }
    bridgeFee := (∅ : StorageMap BridgeChainId (ℕ × ℕ)).insert 2 (0, 0) }

def pricing : Runtime Ledger := { runtime with executionPriceInfo := [(evmAsset, 1)] }

theorem pricing_adapts : pricing.Adapts := ⟨runtime_adapts.currency, runtime_adapts.fungibles⟩

end Demo

/-- The asset to a chain that is not whitelisted: the deposit errs, and nothing changed. PHA, though, is
there twice. -/
theorem depositAsset_atomic_demo :
    (∃ s', depositAsset Demo.pricing (.of Demo.evmAsset 7) Demo.evmPlace Demo.athome =
        (.error (.xcmFailedToTransactAsset "ChainNotWhitelisted"), s') ∧
      Demo.athome.Untouched Demo.pricing.tokens s') ∧
    Demo.runtime.Duplicates Demo.unlisted (.of .here 100) Demo.evmPlace := by
  constructor
  · have hkeeps : ¬Demo.pricing.Duplicates Demo.athome (.of Demo.evmAsset 7) Demo.evmPlace := by
      rintro ⟨fwd, hfwd, -, hfee | ⟨hrest, -⟩⟩
      · cases hfwd
        exact hfee.1 rfl
      · cases hfwd
        exact hrest.1 rfl
    obtain ⟨s', hs'⟩ : ∃ s', depositAsset Demo.pricing (.of Demo.evmAsset 7) Demo.evmPlace Demo.athome =
        (.error (.xcmFailedToTransactAsset "ChainNotWhitelisted"), s') := ⟨_, rfl⟩
    exact ⟨s', hs', (depositAsset_atomic_iff Demo.pricing_adapts Demo.tokens_credits _ _ _).mpr hkeeps _ s' hs'⟩
  · obtain ⟨s', hs', hten⟩ : ∃ s',
        depositAsset Demo.runtime (.of .here 100) Demo.evmPlace Demo.unlisted =
          (.error (.xcmFailedToTransactAsset "ChainNotWhitelisted"), s') ∧
        Demo.runtime.tokens.balance s'.tokens .native Demo.runtime.treasury = 10 :=
      ⟨_, rfl, by decide +kernel⟩
    by_contra hkeeps
    have huntouched := (depositAsset_atomic_iff Demo.runtime_adapts Demo.tokens_credits _ _ _).mpr hkeeps _ s' hs'
    have hsame := congrFun (congrFun huntouched.balance .native) Demo.runtime.treasury
    rw [hten] at hsame
    exact absurd hsame (by decide +kernel)

/-- A hundred PHA to a chain that is not whitelisted: the deposit errs, and the treasury has its fee. -/
theorem deposit_not_atomic : ∃ e s',
    depositAsset Demo.runtime (.of .here 100) Demo.evmPlace Demo.unlisted = (.error e, s') ∧
      Demo.tokens.balance Demo.unlisted.tokens .native Demo.runtime.treasury = 0 ∧
      Demo.tokens.balance s'.tokens .native Demo.runtime.treasury = 10 ∧
      ¬Demo.unlisted.Untouched Demo.runtime.tokens s' := by
  obtain ⟨s', hs', hten⟩ : ∃ s',
      depositAsset Demo.runtime (.of .here 100) Demo.evmPlace Demo.unlisted =
        (.error (.xcmFailedToTransactAsset "ChainNotWhitelisted"), s') ∧
      Demo.tokens.balance s'.tokens .native Demo.runtime.treasury = 10 :=
    ⟨_, rfl, by decide +kernel⟩
  refine ⟨_, s', hs', by decide +kernel, hten, fun h => ?_⟩
  have hsame : Demo.tokens.balance s'.tokens .native Demo.runtime.treasury =
      Demo.tokens.balance Demo.unlisted.tokens .native Demo.runtime.treasury :=
    congrFun (congrFun h.balance .native) Demo.runtime.treasury
  rw [hten] at hsame
  exact absurd hsame (by decide +kernel)

end Khala.XTransfer
