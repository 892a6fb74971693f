/-
The reserves of the bridge.

What is announced out of the chain is put into the reserve that a transfer into
the chain takes it from. Per reserve, the books balance over every run whose
steps meet `Backs`: a call that errs midway, dust, and PHA that XCM sends over
the bridge are what it leaves out.
-/
import Khala.TransferAtomicity
import Khala.Deposits

namespace Khala.XTransfer

open Bridge (BridgeChainId ResourceId BridgeEvent Origin)

variable {S P : Type} {rt : Runtime S} {s s' s₀ : State S P} {t t' : S} {rid : ResourceId} {token : Token}
  {account : AccountId} {amount : ℕ}

/-! ## Runs -/

inductive Op (S P : Type)
  | transferNative (origin : Origin AccountId) (amount : ℕ) (recipient : Bytes) (destId : BridgeChainId)
  | transferAssets (origin : Origin AccountId) (asset : MultiLocation) (destId : BridgeChainId) (recipient : Bytes)
    (amount : ℕ)
  /-- `deposit_asset` on the location of an account on an EVM chain. -/
  | depositAsset (what : MultiAsset) (destId : ℕ) (recipient : Bytes)
  | transfer (origin : Origin AccountId) (dest : Bytes) (amount : ℕ) (rid : ResourceId)
  /-- Whatever else happens, to the tokens, the bridge and the fees. -/
  | other (tokens : S) (bridge : Bridge.Storage AccountId P) (bridgeFee : StorageMap BridgeChainId (ℕ × ℕ))

/-- The location of an account on an EVM chain. -/
def evmLocation (destId : ℕ) (recipient : Bytes) : MultiLocation :=
  ⟨0, [.generalKey cbAssetKey, .generalIndex destId, .generalKey recipient]⟩

section Machine

variable (rt : Runtime S)

def exec (s : State S P) : Op S P → State S P
  | .transferNative origin amount recipient destId => (transferNative rt origin amount recipient destId s).2
  | .transferAssets origin asset destId recipient amount =>
    (transferAssets rt origin asset destId recipient amount s).2
  | .depositAsset what destId recipient => (depositAsset rt what (evmLocation destId recipient) s).2
  | .transfer origin dest amount rid => (transfer rt origin dest amount rid s).2
  | .other tokens bridge bridgeFee => { s with tokens, bridge, bridgeFee }

/-- From `s₀`, by steps that meet a condition. -/
abbrev ReachableWhere (ok : State S P → Op S P → Prop) (s₀ : State S P) : State S P → Prop :=
  ReachWhere (· = s₀) (fun s op s' => s' = exec rt s op) ok

/-! ## Reserves -/

/-- The token and the account that a transfer into the chain is released from. -/
def Runtime.reserveOf (registry : Registry) (rid : ResourceId) : Option (Token × AccountId) :=
  if rid = rt.hashing.genPhaRid (getChainid rid) then some (.native, rt.bridgeAccount)
  else match registry.assetByResourceIds.lookup rid with
    | none => none
    | some location =>
      match location.reserveLocation, registry.idByAssets.lookup location with
      | some reserve, some id =>
        if reserve ≠ .ofChain (getChainid rid) then
          some (.asset id, rt.hashing.intoAccount (.ofChain (getChainid rid)))
        else none
      | _, _ => none

/-- What flows are of one reserve. -/
def Runtime.through (registry : Registry) (reserve : Token × AccountId) (flows : List (ResourceId × ℕ)) : ℕ :=
  ((flows.filter fun flow => rt.reserveOf registry flow.1 = some reserve).map Prod.snd).sum

/-- The announced transfers, by resource id. -/
def State.flowsOut (s : State S P) : List (ResourceId × ℕ) := s.announced.map fun e => (e.resourceId, e.amount)

def ofRid (flows : List (ResourceId × ℕ)) (rid : ResourceId) : ℕ :=
  ((flows.filter fun flow => flow.1 = rid).map Prod.snd).sum

/-- Announced and not yet released. -/
def State.outstanding (s : State S P) (rid : ResourceId) : ℕ := ofRid s.flowsOut rid - ofRid s.released rid

end Machine

/-! ## What is documented -/

/-- Taking the amount leaves nothing, or no less than the least balance. -/
def NoDust (balance amount least : ℕ) : Prop := balance ≤ amount ∨ amount + least ≤ balance

/-- What the token pallets do to balances. What a debit leaves below the least
balance goes too, with a transfer of an asset to the recipient. -/
structure Tokens.Documented (T : Tokens S) : Prop where
  withdraw_exact : ∀ {t t' who amount}, T.withdraw t who amount = .ok t' →
    NoDust (T.balance t .native who) amount (T.minimum t .native) →
    T.balance t' .native who + amount = T.balance t .native who
  withdraw_frame : ∀ {t t' who amount}, T.withdraw t who amount = .ok t' →
    ∀ token x, x ≠ who ∨ token ≠ .native → T.balance t' token x = T.balance t token x
  transfer_dest : ∀ {t t' source dest amount}, T.transfer t source dest amount = .ok t' → source ≠ dest →
    T.balance t' .native dest = T.balance t .native dest + amount
  transfer_frame : ∀ {t t' source dest amount}, T.transfer t source dest amount = .ok t' →
    ∀ token x, (x ≠ source ∧ x ≠ dest) ∨ token ≠ .native → T.balance t' token x = T.balance t token x
  deposit_frame : ∀ {t who amount} token x, x ≠ who ∨ token ≠ .native →
    T.balance (T.depositCreating t who amount) token x = T.balance t token x
  burn_exact : ∀ {t t' id who amount}, T.burnFrom t id who amount = .ok t' →
    NoDust (T.balance t (.asset id) who) amount (T.minimum t (.asset id)) →
    T.balance t' (.asset id) who + amount = T.balance t (.asset id) who
  burn_frame : ∀ {t t' id who amount}, T.burnFrom t id who amount = .ok t' →
    ∀ token x, x ≠ who ∨ (∃ id', token = .asset id' ∧ id' ≠ id) → T.balance t' token x = T.balance t token x
  mint_exact : ∀ {t t' id who amount}, T.mintInto t id who amount = .ok t' →
    T.balance t' (.asset id) who = T.balance t (.asset id) who + amount
  mint_frame : ∀ {t t' id who amount}, T.mintInto t id who amount = .ok t' →
    ∀ token x, x ≠ who ∨ token ≠ .asset id → T.balance t' token x = T.balance t token x
  transferAsset_source : ∀ {t t' id source dest amount}, T.transferAsset t id source dest amount = .ok t' →
    source ≠ dest → amount ≤ T.balance t (.asset id) source ∧
      (T.balance t' (.asset id) source = 0 ∨ T.balance t' (.asset id) source + amount =
      T.balance t (.asset id) source)
  transferAsset_dest : ∀ {t t' id source dest amount}, T.transferAsset t id source dest amount = .ok t' →
    source ≠ dest → NoDust (T.balance t (.asset id) source) amount (T.minimum t (.asset id)) →
    T.balance t' (.asset id) dest = T.balance t (.asset id) dest + amount
  transferAsset_frame : ∀ {t t' id source dest amount}, T.transferAsset t id source dest amount = .ok t' →
    ∀ token x, x ≠ source → x ≠ dest ∨ token ≠ .asset id → T.balance t' token x = T.balance t token x
  transferAsset_minimum : ∀ {t t' id source dest amount}, T.transferAsset t id source dest amount = .ok t' →
    T.minimum t' = T.minimum t
  /-- `BalanceConverter` is the identity. -/
  converts : ∀ {t amount amount' id}, T.toAssetBalance t amount id = .ok amount' → amount' = amount

/-- The accounts are what they are for: nobody else's are reserves, and hashes
of what this chain knows do not collide. -/
structure Runtime.Apart (rt : Runtime S) (registry : Registry) : Prop where
  chains : ∀ chain chain', rt.hashing.intoAccount (.ofChain chain) = rt.hashing.intoAccount (.ofChain chain') →
    chain = chain'
  bridge : ∀ chain, rt.bridgeAccount ≠ rt.hashing.intoAccount (.ofChain chain)
  treasury : ¬rt.IsReserve rt.treasury
  temporary : ¬rt.IsReserve rt.temporaryAccount
  onFeePay : ∀ t amount token who, rt.IsReserve who →
    rt.tokens.balance (rt.onFeePay t amount) token who = rt.tokens.balance t token who
  xcm : ∀ t location amount place weight token who, rt.IsReserve who →
    rt.tokens.balance (rt.xcmTransfer t rt.temporaryAccount location amount place weight).2 token who =
      rt.tokens.balance t token who
  adapters : rt.Adapts
  rids : ∀ asset asset' chain, (asset = .here ∨ registry.idByAssets.lookup asset ≠ none) →
    (asset' = .here ∨ registry.idByAssets.lookup asset' ≠ none) →
    rt.hashing.intoRid asset chain = rt.hashing.intoRid asset' chain → asset = asset'

/-! ## When the books balance -/

section Conditions

variable (rt)

/-- Past its fee, a deposit over the bridge is of an asset other than PHA, and
goes to a chain that the bridge takes it to; or else nothing comes of it. -/
def BacksDeposit (s : State S P) (what : MultiAsset) (destId : ℕ) : Prop :=
  ∀ location amount chain fee, what = .of location amount → toChainId destId = some chain →
    s.getFee rt chain location amount = some fee → fee < amount →
    if rt.isNativeAssetId location = true then s.bridge.chainWhitelisted chain = false
    else location.reserveLocation = some (.ofChain chain) ∨ s.bridge.chainWhitelisted chain = true

/-- No reserve sends or receives, there is no dust, and deposits over the bridge are backed. -/
def Backs (s : State S P) : Op S P → Prop
  | .transferNative origin _ _ _ => ∀ who, origin = .signed who → ¬rt.IsReserve who
  | .transferAssets origin asset destId _ amount =>
    ∀ who, origin = .signed who → ¬rt.IsReserve who ∧ who ≠ rt.treasury ∧
    (asset.reserveLocation ≠ some (.ofChain destId) → ∀ id, s.registry.idByAssets.lookup asset = some id →
      NoDust (rt.tokens.balance s.tokens (.asset id) who) amount (rt.tokens.minimum s.tokens (.asset id)))
  | .depositAsset what destId _ => BacksDeposit rt s what destId
  | .transfer origin dest amount rid => origin = .signed rt.bridgeAccount →
    (∀ network id, rt.hashing.decode dest = some ⟨0, [.accountId32 network id]⟩ → ¬rt.IsReserve id) ∧
    ∀ token account, rt.reserveOf s.registry rid = some (token, account) →
      NoDust (rt.tokens.balance s.tokens token account) amount (rt.tokens.minimum s.tokens token)
  | .other tokens _ _ =>
    ∀ token who, rt.IsReserve who → rt.tokens.balance tokens token who = rt.tokens.balance s.tokens token who

/-- What the bridge asks of a reserve is outstanding. -/
def Within (s : State S P) : Op S P → Prop
  | .transfer origin _ amount rid =>
    origin = .signed rt.bridgeAccount → rt.reserveOf s.registry rid ≠ none → amount ≤ s.outstanding rid
  | _ => True

end Conditions

/-! ## Which reserve -/

theorem reserveOf_genPhaRid (registry : Registry) (chain : BridgeChainId) :
    rt.reserveOf registry (rt.hashing.genPhaRid chain) = some (.native, rt.bridgeAccount) := by
  unfold Runtime.reserveOf
  rw [if_pos]
  unfold Hashing.genPhaRid
  rw [getChainid_intoRid]

/-- The reserve of PHA is the bridge's account; of another asset, the account of the chain. -/
theorem reserveOf_cases {registry : Registry} (h : rt.reserveOf registry rid = some (token, account)) :
    (rid = rt.hashing.genPhaRid (getChainid rid) ∧ token = .native ∧ account = rt.bridgeAccount) ∨
    rid ≠ rt.hashing.genPhaRid (getChainid rid) ∧ ∃ location reserve id,
      registry.assetByResourceIds.lookup rid = some location ∧ location.reserveLocation = some reserve ∧
      registry.idByAssets.lookup location = some id ∧ reserve ≠ .ofChain (getChainid rid) ∧ token = .asset id ∧
      account = rt.hashing.intoAccount (.ofChain (getChainid rid)) := by
  unfold Runtime.reserveOf at h
  split at h
  · next hpha =>
    cases h
    exact .inl ⟨hpha, rfl, rfl⟩
  · next hpha =>
    split at h
    · cases h
    · next location hlocation =>
      split at h
      · next reserve id hreserve hid =>
        split at h
        · next hdue =>
          cases h
          exact .inr ⟨hpha, location, reserve, id, hlocation, hreserve, hid, hdue, rfl, rfl⟩
        · cases h
      · cases h

theorem isReserve_of_reserveOf {registry : Registry} (h : rt.reserveOf registry rid = some (token, account)) :
    rt.IsReserve account := by
  rcases reserveOf_cases h with ⟨-, -, rfl⟩ | ⟨-, -, -, -, -, -, -, -, -, rfl⟩
  · exact .inl rfl
  · exact .inr ⟨_, rfl⟩

theorem eq_bridge_of_native {registry : Registry} (h : rt.reserveOf registry rid = some (.native, account)) :
    account = rt.bridgeAccount := by
  rcases reserveOf_cases h with ⟨-, -, rfl⟩ | ⟨-, _, _, _, -, -, -, -, htoken, -⟩
  · rfl
  · cases htoken

/-- Whether the resource id of a registered asset and a chain is of a given reserve. -/
theorem reserveOf_intoRid_iff {registry : Registry} {asset reserve : MultiLocation} {id : AssetId}
    (chain : BridgeChainId) (hs : registry.Sound rt.hashing) (ha : rt.Apart registry)
    (h : rt.reserveOf registry rid = some (token, account)) (hid : registry.idByAssets.lookup asset = some id)
    (hreserve : asset.reserveLocation = some reserve)
    (hne : rt.hashing.intoRid asset chain ≠ rt.hashing.genPhaRid chain) :
    rt.reserveOf registry (rt.hashing.intoRid asset chain) = some (token, account) ↔
      reserve ≠ .ofChain chain ∧ token = .asset id ∧ account = rt.hashing.intoAccount (.ofChain chain) := by
  have hregistered : registry.idByAssets.lookup asset ≠ none := by simp [hid]
  constructor
  · intro h'
    rcases reserveOf_cases h' with ⟨hpha, -, -⟩
      | ⟨-, location, reserve', id', hlocation, hreserve', hid', hdue, rfl, rfl⟩
    · rw [getChainid_intoRid] at hpha
      exact (hne hpha).elim
    · have heq := hs.resourceIds _ _ hlocation
      rw [getChainid_intoRid] at heq hdue ⊢
      have hsame : asset = location := ha.rids _ _ chain (.inr hregistered) (.inr (by simp [hid'])) heq
      subst hsame
      rw [hid] at hid'
      cases hid'
      rw [hreserve] at hreserve'
      cases hreserve'
      exact ⟨hdue, rfl, rfl⟩
  · rintro ⟨-, rfl, rfl⟩
    rcases reserveOf_cases h with ⟨-, htoken, -⟩
      | ⟨-, location, reserve', id', hlocation, -, hid', -, htoken, haccount⟩
    · cases htoken
    · cases htoken
      have hsame := hs.id_inj hid hid'
      subst hsame
      have heq := hs.resourceIds _ _ hlocation
      rw [← ha.chains _ _ haccount] at heq
      rw [← heq]
      exact h

/-! ## Books -/

theorem through_append {registry : Registry} {reserve : Token × AccountId} {flows : List (ResourceId × ℕ)} :
    rt.through registry reserve (flows ++ [(rid, amount)]) =
      rt.through registry reserve flows + if rt.reserveOf registry rid = some reserve then amount else 0 := by
  unfold Runtime.through
  rw [List.filter_append, List.map_append, List.sum_append]
  by_cases h : rt.reserveOf registry rid = some reserve
  · simp [h]
  · simp [h]

section

variable (rt)

/-- The books of a reserve balance from one state to another. -/
structure Balanced (reserve : Token × AccountId) (s s' : State S P) : Prop where
  registry : s'.registry = s.registry
  books : rt.tokens.balance s'.tokens reserve.1 reserve.2 + rt.through s.registry reserve s'.released +
      rt.through s.registry reserve s.flowsOut =
    rt.tokens.balance s.tokens reserve.1 reserve.2 + rt.through s.registry reserve s.released +
      rt.through s.registry reserve s'.flowsOut

end

namespace Balanced

variable {reserve : Token × AccountId} {s'' : State S P}

theorem refl (s : State S P) : Balanced rt reserve s s := ⟨rfl, rfl⟩

theorem trans (h : Balanced rt reserve s s') (h' : Balanced rt reserve s' s'') : Balanced rt reserve s s'' := by
  refine ⟨h'.registry.trans h.registry, ?_⟩
  have hbooks := h.books
  have hbooks' := h'.books
  rw [h.registry] at hbooks'
  omega

/-- Where nothing of the reserve is moved and nothing is announced or released. -/
theorem of_quiet (hregistry : s'.registry = s.registry) (hannounced : s'.announced = s.announced)
    (hreleased : s'.released = s.released)
    (hbalance : rt.tokens.balance s'.tokens reserve.1 reserve.2 = rt.tokens.balance s.tokens reserve.1 reserve.2) :
    Balanced rt reserve s s' := by
  refine ⟨hregistry, ?_⟩
  unfold State.flowsOut
  rw [hbalance, hreleased, hannounced]

end Balanced

/-- The bridge announced a transfer, and the rest is as it was. -/
structure Announced (rid : ResourceId) (amount : ℕ) (s s' : State S P) : Prop where
  tokens : s'.tokens = s.tokens
  registry : s'.registry = s.registry
  released : s'.released = s.released
  flows : s'.flowsOut = s.flowsOut ++ [(rid, amount)]

/-- What is announced is put into the reserve before, if it is of it. -/
theorem Announced.balanced {rid : ResourceId} {reserve : Token × AccountId} {s₁ : State S P}
    (h : Announced rid amount s₁ s') (h₁ : s₁ = { s with tokens := t })
    (hbalance : rt.tokens.balance t reserve.1 reserve.2 = rt.tokens.balance s.tokens reserve.1 reserve.2 +
      if rt.reserveOf s.registry rid = some reserve then amount else 0) : Balanced rt reserve s s' := by
  subst h₁
  have hflows : s'.flowsOut = s.flowsOut ++ [(rid, amount)] := h.flows
  have hreleased : s'.released = s.released := h.released
  refine ⟨h.registry, ?_⟩
  rw [h.tokens, hbalance, hreleased, hflows, through_append]
  omega

/-- The bridge announces, or nothing happens. -/
theorem announce_ends {destId : BridgeChainId} {recipient : Bytes} : (announce destId rid recipient amount).Ends s
    (fun _ s' => Announced rid amount s s' ∧ s.bridge.chainWhitelisted destId = true)
    fun _ s' => s' = s ∧ s.bridge.chainWhitelisted destId = false := by
  unfold Call.Ends announce
  rw [deposit_eq]
  split
  · next h =>
    split at h
    · next hlisted =>
      cases h
      refine ⟨⟨rfl, rfl, rfl, ?_⟩, hlisted⟩
      unfold State.flowsOut
      rw [List.map_append]
      rfl
    · cases h
  · next h =>
    split at h
    · cases h
    · next hlisted =>
      cases h
      exact ⟨rfl, by simpa using hlisted⟩

theorem onTokens_then {f : S → Except Error S} {g : Unit → Call (State S P) Error Unit}
    {Q : Unit → State S P → Prop}
    {R : Error → State S P → Prop} (hok : ∀ t, f s.tokens = .ok t → (g ()).Ends { s with tokens := t } Q R)
    (herr : ∀ e, R e s) : (onTokens f >>= g).Ends s Q R := by
  refine Call.Ends.bind (Q := fun _ s' => ∃ t, f s.tokens = .ok t ∧ s' = { s with tokens := t }) ?_ ?_
  · refine Call.ends_of (fun _ s' h => ?_) fun e s' h => ?_
    · unfold onTokens at h
      split at h
      · next t ht =>
        cases h
        exact ⟨t, ht, rfl⟩
      · cases h
    · unfold onTokens at h
      split at h
      · cases h
      · cases h
        exact herr e
  · rintro _ _ ⟨t, ht, rfl⟩
    exact hok t ht

/-! ## Out of the chain -/

theorem transferNative_balanced {origin : Origin AccountId} {recipient : Bytes} {destId : BridgeChainId}
    (hd : rt.tokens.Documented) (ha : rt.Apart s.registry)
    (hr : rt.reserveOf s.registry rid = some (token, account))
    (hsender : ∀ who, origin = .signed who → ¬rt.IsReserve who) :
    (transferNative rt origin amount recipient destId).Ends s (fun _ s' => Balanced rt (token, account) s s')
      fun _ s' => Balanced rt (token, account) s s' := by
  have hreserve := isReserve_of_reserveOf hr
  refine Call.Ends.transactional (R := fun _ _ => True) ?_ fun _ => .refl s
  cases origin with
  | signed sender =>
    have hne : account ≠ sender := by
      rintro rfl
      exact hsender account rfl hreserve
    have hbridge : sender ≠ rt.bridgeAccount := by
      rintro rfl
      exact hsender _ rfl (.inl rfl)
    refine Call.Ends.read_then ?_
    refine Call.Ends.ensure_then (fun _ => trivial) fun _ => ?_
    refine Call.Ends.ensure_then (fun _ => trivial) fun _ => ?_
    refine Call.Ends.ensure_then (fun _ => trivial) fun _ => ?_
    refine onTokens_then (fun t₁ h₁ => ?_) fun _ => trivial
    refine onTokens_then (fun t₂ h₂ => ?_) fun _ => trivial
    refine onTokens_then (fun t₃ h₃ => ?_) fun _ => trivial
    cases h₂
    have hfee : rt.tokens.balance (rt.onFeePay t₁ (s.estimateFeeInPha destId amount)) token account =
        rt.tokens.balance s.tokens token account :=
      (ha.onFeePay _ _ _ _ hreserve).trans (hd.withdraw_frame h₁ _ _ (.inl hne))
    refine announce_ends.mono ?_ fun _ _ _ => trivial
    rintro _ s' ⟨hannounced, -⟩
    refine hannounced.balanced rfl ?_
    rw [reserveOf_genPhaRid]
    by_cases htoken : token = .native
    · subst htoken
      obtain rfl := eq_bridge_of_native hr
      simp only [if_true]
      exact (hd.transfer_dest h₃ hbridge).trans (congrArg (· + amount) hfee)
    · rw [if_neg (by simp [Ne.symm htoken])]
      exact (hd.transfer_frame h₃ _ _ (.inr htoken)).trans hfee
  | committee => trivial
  | other => trivial

theorem transferAssets_balanced {origin : Origin AccountId} {asset : MultiLocation} {recipient : Bytes}
    {destId : BridgeChainId} (hd : rt.tokens.Documented) (ha : rt.Apart s.registry)
    (hs : s.registry.Sound rt.hashing) (hr : rt.reserveOf s.registry rid = some (token, account))
    (hbacks : Backs rt s (.transferAssets origin asset destId recipient amount)) :
    (transferAssets rt origin asset destId recipient amount).Ends s (fun _ s' => Balanced rt (token, account) s s')
      fun _ s' => Balanced rt (token, account) s s' := by
  have hreserve := isReserve_of_reserveOf hr
  refine Call.Ends.transactional (R := fun _ _ => True) ?_ fun _ => .refl s
  cases origin with
  | signed sender =>
    obtain ⟨hsender, htreasury, hdust⟩ := hbacks sender rfl
    have hne : account ≠ sender := by
      rintro rfl
      exact hsender hreserve
    have hnt : account ≠ rt.treasury := by
      rintro rfl
      exact ha.treasury hreserve
    have hnr : sender ≠ rt.hashing.intoAccount (.ofChain destId) := by
      rintro rfl
      exact hsender (.inr ⟨_, rfl⟩)
    refine Call.Ends.unwrap_then (fun _ => trivial) fun reserve hreserveLocation => ?_
    refine Call.Ends.read_then ?_
    refine Call.Ends.ensure_then (fun _ => trivial) fun _ => ?_
    refine Call.Ends.ensure_then (fun _ => trivial) fun _ => ?_
    refine Call.Ends.unwrap_then (fun _ => trivial) fun id hid => ?_
    refine Call.Ends.lift_then (fun _ _ => trivial) fun _ hrid => ?_
    refine Call.Ends.lift_then (fun _ _ => trivial) fun _ _ => ?_
    refine Call.Ends.ensure_then (fun _ => trivial) fun _ => ?_
    refine Call.Ends.unwrap_then (fun _ => trivial) fun fee hfee => ?_
    refine Call.Ends.ensure_then (fun _ => trivial) fun hlt => ?_
    refine Call.Ends.lift_then (fun _ _ => trivial) fun feeAmount hfeeAmount => ?_
    obtain rfl := hd.converts (mapErr_ok.mp hfeeAmount)
    refine onTokens_then (fun t₁ h₁ => ?_) fun _ => trivial
    rw [mapErr_ok] at h₁
    refine Call.Ends.read_then ?_
    refine Call.Ends.lift_then (fun _ _ => trivial) fun assetAmount hassetAmount => ?_
    obtain rfl := hd.converts (mapErr_ok.mp hassetAmount)
    have hbalance : rt.tokens.balance t₁ token account = rt.tokens.balance s.tokens token account :=
      hd.transferAsset_frame h₁ _ _ hne (.inl hnt)
    have hpha : rt.hashing.intoRid asset destId ≠ rt.hashing.genPhaRid destId := by
      intro he
      have := mapErr_ok.mp hrid
      unfold Runtime.ridToAssetid at this
      rw [getChainid_intoRid, if_pos he] at this
      cases this
    have hiff := reserveOf_intoRid_iff destId hs ha hr hid hreserveLocation hpha
    split
    · next hhome =>
      refine onTokens_then (fun t₂ h₂ => ?_) fun _ => trivial
      rw [mapErr_ok] at h₂
      refine announce_ends.mono ?_ fun _ _ _ => trivial
      rintro _ s' ⟨hannounced, -⟩
      refine hannounced.balanced rfl ?_
      rw [if_neg (fun h => (hiff.mp h).1 hhome)]
      exact (hd.burn_frame h₂ _ _ (.inl hne)).trans hbalance
    · next haway =>
      refine onTokens_then (fun t₂ h₂ => ?_) fun _ => trivial
      rw [mapErr_ok] at h₂
      refine announce_ends.mono ?_ fun _ _ _ => trivial
      rintro _ s' ⟨hannounced, -⟩
      refine hannounced.balanced rfl ?_
      by_cases hmine : token = .asset id ∧ account = rt.hashing.intoAccount (.ofChain destId)
      · rw [if_pos (hiff.mpr ⟨haway, hmine⟩)]
        obtain ⟨rfl, rfl⟩ := hmine
        have hpaid := hd.transferAsset_source h₁ htreasury
        have hleft := hd.transferAsset_source h₂ hnr
        have hdust := hdust (by rw [hreserveLocation]; simpa using haway) id hid
        have hnodust : NoDust (rt.tokens.balance t₁ (.asset id) sender) (amount - feeAmount)
            (rt.tokens.minimum t₁ (.asset id)) := by
          rw [hd.transferAsset_minimum h₁]
          unfold NoDust at hdust ⊢
          omega
        exact (hd.transferAsset_dest h₂ hnr hnodust).trans (congrArg (· + (amount - feeAmount)) hbalance)
      · rw [if_neg (fun h => hmine (hiff.mp h).2)]
        refine (hd.transferAsset_frame h₂ _ _ hne ?_).trans hbalance
        by_cases htoken : token = .asset id
        · exact .inl fun haccount => hmine ⟨htoken, haccount⟩
        · exact .inr htoken
  | committee => trivial
  | other => trivial

/-! ## Deposits over the bridge -/

/-- A deposit on another account leaves the reserve. -/
theorem adapterDeposit_frame {registry : Registry} {location : MultiLocation} {who : AccountId}
    (hd : rt.tokens.Documented) (ha : rt.Apart registry) (hne : account ≠ who)
    (h : rt.adapterDeposit registry (.of location amount) who.location t = .ok t') :
    rt.tokens.balance t' token account = rt.tokens.balance t token account := by
  rcases adapterDeposit_cases ha.adapters h with ⟨-, rfl⟩ | ⟨-, id, -, hmint⟩
  · exact hd.deposit_frame _ _ (.inl hne)
  · exact hd.mint_frame hmint _ _ (.inl hne)

theorem announceXcm_ends {destId : BridgeChainId} {recipient : Bytes} :
    (announceXcm destId rid recipient amount).Ends s
    (fun _ s' => Announced rid amount s s' ∧ s.bridge.chainWhitelisted destId = true)
    fun _ s' => s' = s ∧ s.bridge.chainWhitelisted destId = false := by
  refine Call.ends_of (fun _ s' h => ?_) fun e s' h => ?_
  · unfold announceXcm at h
    split at h
    · next h' =>
      cases h
      exact announce_ends.ok h'
    · cases h
  · unfold announceXcm at h
    split at h
    · cases h
    · next h' =>
      cases h
      exact announce_ends.error h'

theorem getFee_registered {chain : BridgeChainId} {location : MultiLocation} {fee : ℕ}
    (h : s.getFee rt chain location amount = some fee) :
    ∃ id, s.registry.idByAssets.lookup location = some id := by
  unfold State.getFee at h
  split at h
  · cases h
  · next id hid => exact ⟨id, hid⟩

theorem depositOverBridge_balanced {location : MultiLocation} {recipient : Bytes} {destId : ℕ}
    (hd : rt.tokens.Documented) (ha : rt.Apart s.registry) (hs : s.registry.Sound rt.hashing)
    (hr : rt.reserveOf s.registry rid = some (token, account))
    (hbacks : BacksDeposit rt s (.of location amount) destId) :
    (depositOverBridge rt location amount destId recipient).Ends s (fun _ s' => Balanced rt (token, account) s s')
      fun _ s' => Balanced rt (token, account) s s' := by
  have hreserve := isReserve_of_reserveOf hr
  have hnt : account ≠ rt.treasury := by
    rintro rfl
    exact ha.treasury hreserve
  refine Call.Ends.unwrap_then (fun _ => .refl s) fun chain hchain => ?_
  refine Call.Ends.read_then ?_
  refine Call.Ends.unwrap_then (fun _ => .refl s) fun fee hfee => ?_
  refine Call.Ends.ensure_then (fun _ => .refl s) fun hlt => ?_
  have hbacks := hbacks location amount chain fee rfl hchain hfee hlt
  obtain ⟨id, hid⟩ := getFee_registered hfee
  refine onTokens_then (fun t₁ h₁ => ?_) fun _ => .refl s
  have hbalance : rt.tokens.balance t₁ token account = rt.tokens.balance s.tokens token account :=
    adapterDeposit_frame hd ha hnt (mapErr_ok.mp h₁)
  have hquiet : Balanced rt (token, account) s { s with tokens := t₁ } := .of_quiet rfl rfl rfl hbalance
  refine Call.Ends.unwrap_then (fun _ => hquiet) fun reserve hreserveLocation => ?_
  cases hnative : rt.isNativeAssetId location with
  | true =>
    rw [if_pos hnative] at hbacks
    -- PHA goes to an account that is no reserve of it, and is not announced
    by_cases hhome : reserve = .ofChain chain
    · simp only [hhome, ne_eq, not_true_eq_false, if_false]
      refine announceXcm_ends.mono ?_ ?_
      · rintro _ s' ⟨-, hlisted⟩
        exact absurd hlisted (by simpa using hbacks)
      · rintro _ _ ⟨rfl, -⟩
        exact hquiet
    · simp only [hhome, ne_eq, not_false_eq_true, if_true]
      refine onTokens_then (fun t₂ h₂ => ?_) fun _ => hquiet
      have hkept : rt.tokens.balance t₂ token account = rt.tokens.balance s.tokens token account := by
        rcases adapterDeposit_cases ha.adapters (mapErr_ok.mp h₂) with ⟨-, rfl⟩ | ⟨hn, -⟩
        · refine (hd.deposit_frame _ _ ?_).trans hbalance
          by_cases htoken : token = .native
          · subst htoken
            obtain rfl := eq_bridge_of_native hr
            exact .inl (ha.bridge chain)
          · exact .inr htoken
        · rw [hnative] at hn
          cases hn
      refine announceXcm_ends.mono ?_ ?_
      · rintro _ s' ⟨-, hlisted⟩
        exact absurd hlisted (by simpa using hbacks)
      · rintro _ _ ⟨rfl, -⟩
        exact .of_quiet rfl rfl rfl hkept
  | false =>
    rw [if_neg (by simp [hnative])] at hbacks
    have hpha : rt.hashing.intoRid location chain ≠ rt.hashing.genPhaRid chain := by
      intro he
      obtain rfl := ha.rids location .here chain (.inr (by simp [hid])) (.inl rfl) he
      simp [Runtime.isNativeAssetId] at hnative
    have hiff := reserveOf_intoRid_iff chain hs ha hr hid hreserveLocation hpha
    simp only [Bool.false_eq_true, if_false]
    split
    · next haway =>
      have hlisted : s.bridge.chainWhitelisted chain = true := by
        refine hbacks.resolve_left fun he => haway ?_
        rw [hreserveLocation] at he
        exact Option.some.inj he
      refine onTokens_then (fun t₂ h₂ => ?_) fun _ => hquiet
      refine announceXcm_ends.mono ?_ ?_
      · rintro _ s' ⟨hannounced, -⟩
        refine hannounced.balanced rfl ?_
        rcases adapterDeposit_cases ha.adapters (mapErr_ok.mp h₂) with ⟨hn, -⟩ | ⟨-, id', hid', hmint⟩
        · rw [hnative] at hn
          cases hn
        · rw [hid] at hid'
          cases hid'
          by_cases hmine : token = .asset id ∧ account = rt.hashing.intoAccount (.ofChain chain)
          · rw [if_pos (hiff.mpr ⟨haway, hmine⟩)]
            obtain ⟨rfl, rfl⟩ := hmine
            exact (hd.mint_exact hmint).trans (congrArg (· + (amount - fee)) hbalance)
          · rw [if_neg (fun h => hmine (hiff.mp h).2)]
            refine (hd.mint_frame hmint _ _ ?_).trans hbalance
            by_cases htoken : token = .asset id
            · exact .inl fun haccount => hmine ⟨htoken, haccount⟩
            · exact .inr htoken
      · rintro _ _ ⟨-, hunlisted⟩
        exact absurd hlisted (by simpa using hunlisted)
    · next hhome =>
      refine announceXcm_ends.mono ?_ ?_
      · rintro _ s' ⟨hannounced, -⟩
        refine hannounced.balanced rfl ?_
        rw [if_neg (fun h => (hiff.mp h).1 (not_not.mp hhome))]
        exact hbalance
      · rintro _ _ ⟨rfl, -⟩
        exact hquiet

theorem depositAsset_balanced {what : MultiAsset} {recipient : Bytes} {destId : ℕ}
    (hd : rt.tokens.Documented) (ha : rt.Apart s.registry) (hs : s.registry.Sound rt.hashing)
    (hr : rt.reserveOf s.registry rid = some (token, account)) (hbacks : BacksDeposit rt s what destId) :
    (depositAsset rt what (evmLocation destId recipient)).Ends s (fun _ s' => Balanced rt (token, account) s s')
      fun _ s' => Balanced rt (token, account) s s' := by
  refine Call.Ends.ensure_then (fun _ => .refl s) fun _ => ?_
  obtain ⟨id, fungibility⟩ := what
  cases id with
  | concrete location =>
    cases fungibility with
    | fungible amount => exact depositOverBridge_balanced hd ha hs hr hbacks
    | nonFungible index => exact .refl s
  | abstract name => exact .refl s

/-! ## Into the chain -/

/-- What is due is taken out of the one reserve of the resource id. -/
theorem release_reserve {registry : Registry} {rid : ResourceId} (hd : rt.tokens.Documented)
    (ha : rt.Apart registry) (hdue : rt.ReleaseDue registry rid) (h : rt.release registry rid amount t = .ok t') :
    ∃ token account, rt.reserveOf registry rid = some (token, account) ∧
      (NoDust (rt.tokens.balance t token account) amount (rt.tokens.minimum t token) →
        rt.tokens.balance t' token account + amount = rt.tokens.balance t token account) ∧
      ∀ rid' token' account', rt.reserveOf registry rid' = some (token', account') →
        (token', account') ≠ (token, account) →
        rt.tokens.balance t' token' account' = rt.tokens.balance t token' account' := by
  unfold Runtime.release at h
  split at h
  · next hpha =>
    refine ⟨.native, rt.bridgeAccount, ?_, hd.withdraw_exact h, fun rid' token' account' hr' hne => ?_⟩
    · rw [hpha]
      exact reserveOf_genPhaRid registry _
    · refine hd.withdraw_frame h _ _ (.inr ?_)
      rintro rfl
      exact hne (by rw [eq_bridge_of_native hr'])
  · next hpha =>
    obtain ⟨id, hid, hrest⟩ := Outcome.bind_ok.mp h
    obtain ⟨assetAmount, hconverted, hburn⟩ := Outcome.bind_ok.mp hrest
    rw [mapErr_ok] at hconverted hburn
    rw [hd.converts hconverted] at hburn
    obtain ⟨location, reserve, hlocation, hreserve, hneq⟩ := hdue
    have hof : rt.reserveOf registry rid =
        some (.asset id, rt.hashing.intoAccount (.ofChain (getChainid rid))) := by
      unfold Runtime.ridToLocation at hlocation
      unfold Runtime.ridToAssetid at hid
      unfold Runtime.reserveOf
      rw [if_neg hpha] at hlocation hid ⊢
      split at hlocation
      · next asset hasset =>
        cases hlocation
        rw [hasset] at hid ⊢
        dsimp only at hid ⊢
        split at hid
        · next id' hid' =>
          cases hid
          rw [hreserve, hid']
          exact if_pos hneq
        · cases hid
      · cases hlocation
    refine ⟨_, _, hof, hd.burn_exact hburn, fun rid' token' account' hr' hne => hd.burn_frame hburn _ _ ?_⟩
    cases token' with
    | native =>
      rw [eq_bridge_of_native hr']
      exact .inl (ha.bridge _)
    | asset id' =>
      by_cases haccount : account' = rt.hashing.intoAccount (.ofChain (getChainid rid))
      · refine .inr ⟨id', rfl, ?_⟩
        rintro rfl
        exact hne (by rw [haccount])
      · exact .inl haccount

/-- What goes to an account that is no reserve. -/
theorem settle_frame {registry : Registry} {rid : ResourceId} {who : AccountId} (hd : rt.tokens.Documented)
    (hne : account ≠ who) (h : rt.settle registry rid who amount t = .ok t') :
    rt.tokens.balance t' token account = rt.tokens.balance t token account := by
  unfold Runtime.settle at h
  split at h
  · cases h
    exact hd.deposit_frame _ _ (.inl hne)
  · obtain ⟨id, -, h⟩ := Outcome.bind_ok.mp h
    obtain ⟨assetAmount, -, h⟩ := Outcome.bind_ok.mp h
    exact hd.mint_frame (mapErr_ok.mp h) _ _ (.inl hne)

theorem payOut_balanced {registry : Registry} {rid' : ResourceId} {location place : MultiLocation}
    (hd : rt.tokens.Documented) (ha : rt.Apart s.registry)
    (hr : rt.reserveOf s.registry rid = some (token, account))
    (hplace : ∀ network id, place = ⟨0, [.accountId32 network id]⟩ → ¬rt.IsReserve id) :
    Balanced rt (token, account) s (payOut rt registry rid' location place amount s).2 := by
  have hreserve := isReserve_of_reserveOf hr
  cases hpayee : rt.payee place with
  | none =>
    rw [payOut_of_none hpayee]
    exact .refl s
  | some who =>
    have hne : account ≠ who := by
      rintro rfl
      unfold Runtime.payee at hpayee
      split at hpayee
      · next network id hparents hinterior =>
        cases hpayee
        refine hplace network account ?_ hreserve
        cases place
        cases hparents
        cases hinterior
        rfl
      · cases hpayee
        exact ha.temporary hreserve
      · cases hpayee
        exact ha.temporary hreserve
      · cases hpayee
    cases hsettle : rt.settle registry rid' who amount s.tokens with
    | error e =>
      rcases payOut_of_some hpayee registry rid' location amount s with ⟨-, hpay⟩ | ⟨-, rfl, hpay⟩
      · rw [hpay, onTokens_error hsettle]
        exact .refl s
      · rw [hpay, forward_error hsettle]
        exact .refl s
    | ok t =>
      have hframe : rt.tokens.balance t token account = rt.tokens.balance s.tokens token account :=
        settle_frame hd hne hsettle
      rcases payOut_of_some hpayee registry rid' location amount s with ⟨-, hpay⟩ | ⟨-, rfl, hpay⟩
      · rw [hpay, onTokens_ok hsettle]
        exact .of_quiet rfl rfl rfl hframe
      · rw [hpay, forward_ok hsettle]
        exact .of_quiet rfl rfl rfl ((ha.xcm _ _ _ _ _ _ _ hreserve).trans hframe)

theorem transfer_of_stranger {origin : Origin AccountId} {dest : Bytes} (h : origin ≠ .signed rt.bridgeAccount) :
    transfer rt origin dest amount rid s = (.error .badOrigin, s) := by
  refine Call.bind_error ?_
  cases origin with
  | signed who =>
    unfold ensureBridge
    exact congrFun (if_neg fun hw => h (by rw [hw])) s
  | committee => rfl
  | other => rfl

theorem transfer_balanced {origin : Origin AccountId} {dest : Bytes} {rid' : ResourceId}
    (hd : rt.tokens.Documented) (ha : rt.Apart s.registry)
    (hr : rt.reserveOf s.registry rid = some (token, account))
    (hbacks : Backs rt s (.transfer origin dest amount rid')) :
    Balanced rt (token, account) s (transfer rt origin dest amount rid' s).2 := by
  by_cases horigin : origin = .signed rt.bridgeAccount
  · subst horigin
    obtain ⟨hplace, hdust⟩ := hbacks rfl
    cases hdecode : rt.hashing.decode dest with
    | none =>
      rw [transfer_of_undecoded hdecode]
      exact .refl s
    | some place =>
      cases hdrawn : rt.drawn s.registry rid' amount s.tokens with
      | error e =>
        rw [transfer_of_undrawn hdecode hdrawn]
        exact .refl s
      | ok t =>
        obtain ⟨location, released, -, hcases, htransfer⟩ := transfer_of_drawn hdecode hdrawn
        rw [htransfer]
        have hdrew : Balanced rt (token, account) s { s with tokens := t, released } := by
          rcases hcases with ⟨hdue, hrelease, rfl⟩ | ⟨-, rfl, rfl⟩
          · obtain ⟨token', account', hof, hpaid, hframe⟩ := release_reserve hd ha hdue hrelease
            refine ⟨rfl, ?_⟩
            dsimp only
            rw [through_append, hof]
            by_cases hmine : (token, account) = (token', account')
            · cases hmine
              have := hpaid (hdust _ _ hof)
              unfold State.flowsOut
              simp only [if_true]
              omega
            · rw [hframe rid token account hr hmine, if_neg (fun he => hmine (Option.some.inj he).symm)]
              rfl
          · exact .of_quiet rfl rfl rfl rfl
        refine hdrew.trans
          (payOut_balanced (s := { s with tokens := t, released }) hd ha hr fun network id hp => ?_)
        exact hplace network id (by rw [hdecode, hp])
  · rw [transfer_of_stranger horigin]
    exact .refl s

/-! ## Runs -/

theorem step_balanced {op : Op S P} (hd : rt.tokens.Documented) (ha : rt.Apart s.registry)
    (hs : s.registry.Sound rt.hashing) (hr : rt.reserveOf s.registry rid = some (token, account))
    (hbacks : Backs rt s op) :
    Balanced rt (token, account) s (exec rt s op) := by
  cases op with
  | transferNative origin amount recipient destId => exact (transferNative_balanced hd ha hr hbacks).state
  | transferAssets origin asset destId recipient amount => exact (transferAssets_balanced hd ha hs hr hbacks).state
  | depositAsset what destId recipient => exact (depositAsset_balanced hd ha hs hr hbacks).state
  | transfer origin dest amount rid' => exact transfer_balanced hd ha hr hbacks
  | other tokens bridge bridgeFee => exact .of_quiet rfl rfl rfl (hbacks token account (isReserve_of_reserveOf hr))

theorem balanced_of_reachable (hd : rt.tokens.Documented) (ha : rt.Apart s₀.registry)
    (hs : s₀.registry.Sound rt.hashing) (hr : rt.reserveOf s₀.registry rid = some (token, account))
    (h : ReachableWhere rt (Backs rt) s₀ s) : Balanced rt (token, account) s₀ s := by
  refine h.invariant (fun s => Balanced rt (token, account) s₀ s) ?_ ?_
  · rintro _ rfl
    exact .refl _
  · rintro s op _ hb hbacks rfl
    have hregistry := hb.registry
    exact hb.trans (step_balanced hd (hregistry ▸ ha) (hregistry ▸ hs) (hregistry ▸ hr) hbacks)

end Khala.XTransfer
