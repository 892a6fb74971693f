/-
What a transfer into the chain leaves behind when it errs.

The reserve is drawn on first, and the destination looked at after. The call is
not transactional, unlike the transfers out of the chain: where it errs after
the reserve paid, what the reserve paid is gone.
-/
import Khala.BridgeTransfer
import Khala.Outcome

namespace Khala.XTransfer

open Bridge (ResourceId)

variable {S P : Type} {rt : Runtime S} {s s' : State S P} {t t' : S} {dest : Bytes} {amount : ℕ} {rid : ResourceId}
  {place : MultiLocation} {who : AccountId} {registry : Registry}

/-! ## Balances -/

namespace Tokens

/-- All balances and both total issuances are the same. -/
structure Same (T : Tokens S) (t t' : S) : Prop where
  balance : T.balance t' = T.balance t
  issuance : T.issuance t' = T.issuance t

theorem Same.refl (T : Tokens S) (t : S) : T.Same t t := ⟨rfl, rfl⟩

theorem Same.trans {T : Tokens S} {t t' t'' : S} (h : T.Same t t') (h' : T.Same t' t'') : T.Same t t'' :=
  ⟨h'.balance.trans h.balance, h'.issuance.trans h.issuance⟩

/-- What is documented of the primitives that the call uses: a debit takes at least the
amount from the account, what is paid in stays out of other accounts, a mint arrives, and
nothing is nothing. -/
structure Primitives (T : Tokens S) : Prop where
  withdraw_le : ∀ {t t' who amount}, T.withdraw t who amount = .ok t' →
    T.balance t' .native who + amount ≤ T.balance t .native who
  withdraw_zero : ∀ {t t' who}, T.withdraw t who 0 = .ok t' → T.Same t t'
  burn_le : ∀ {t t' id who amount}, T.burnFrom t id who amount = .ok t' →
    T.balance t' (.asset id) who + amount ≤ T.balance t (.asset id) who
  burn_zero : ∀ {t t' id who}, T.burnFrom t id who 0 = .ok t' → T.Same t t'
  deposit_frame : ∀ {t who amount} token x, x ≠ who →
    T.balance (T.depositCreating t who amount) token x = T.balance t token x
  deposit_zero : ∀ t who, T.Same t (T.depositCreating t who 0)
  mint_frame : ∀ {t t' id who amount}, T.mintInto t id who amount = .ok t' →
    ∀ token x, x ≠ who → T.balance t' token x = T.balance t token x
  mint_le : ∀ {t t' id who amount}, T.mintInto t id who amount = .ok t' →
    T.balance t (.asset id) who + amount ≤ T.balance t' (.asset id) who
  mint_zero : ∀ {t t' id who}, T.mintInto t id who 0 = .ok t' → T.Same t t'
  /-- The least balance of an asset is the existential deposit. -/
  converts : ∀ {t amount amount' id}, T.toAssetBalance t amount id = .ok amount' → amount' = amount

end Tokens

/-! ## The parts of the call -/

namespace Runtime

variable (rt)

/-- The account that the funds for a destination go to first, if the destination is served. -/
def payee (place : MultiLocation) : Option AccountId :=
  match place.parents, place.interior with
  | 0, [.accountId32 _ id] => some id
  | 1, [.accountId32 _ _] => some rt.temporaryAccount
  | 1, [.parachain _, .accountId32 _ _] => some rt.temporaryAccount
  | _, _ => none

/-- The asset is not reserved on the chain that it comes from. -/
def ReleaseDue (registry : Registry) (rid : ResourceId) : Prop :=
  ∃ location reserve, rt.ridToLocation registry rid = .ok location ∧ location.reserveLocation = some reserve ∧
    reserve ≠ .ofChain (getChainid rid)

/-- The tokens after the reserve is drawn on, where that is due. -/
def drawn (registry : Registry) (rid : ResourceId) (amount : ℕ) (t : S) : Except Error S := do
  let location ← rt.ridToLocation registry rid
  match location.reserveLocation with
  | none => throw .cannotDetermineReservedLocation
  | some reserve => if reserve ≠ .ofChain (getChainid rid) then rt.release registry rid amount t else pure t

def IsReserve (who : AccountId) : Prop :=
  who = rt.bridgeAccount ∨ ∃ chain, who = rt.hashing.intoAccount (.ofChain chain)

/-- Nothing is reserved in the account that XCM takes the funds from, XCM pays no
reserve, and an XCM of nothing that errs changes nothing. -/
structure Separate : Prop where
  temporary : ¬rt.IsReserve rt.temporaryAccount
  xcm_reserve : ∀ t location amount place weight token who, rt.IsReserve who →
    rt.tokens.balance (rt.xcmTransfer t rt.temporaryAccount location amount place weight).2 token who =
      rt.tokens.balance t token who
  xcm_zero : ∀ t location place weight e,
    (rt.xcmTransfer t rt.temporaryAccount location 0 place weight).1 = .error e →
    rt.tokens.Same t (rt.xcmTransfer t rt.temporaryAccount location 0 place weight).2

/-- An XCM that errs leaves the temporary account with what it had. -/
def Stays : Prop := ∀ t location amount place weight e,
  (rt.xcmTransfer t rt.temporaryAccount location amount place weight).1 = .error e → ∀ token,
    rt.tokens.balance (rt.xcmTransfer t rt.temporaryAccount location amount place weight).2
    token rt.temporaryAccount =
      rt.tokens.balance t token rt.temporaryAccount

/-- The destination of the funds is not served, or refuses them. -/
def Unserved (registry : Registry) (rid : ResourceId) (amount : ℕ) (place : MultiLocation) (t : S) : Prop :=
  rt.payee place = none ∨ ∃ who e, rt.payee place = some who ∧ rt.settle registry rid who amount t = .error e

/-- The XCM of the transfer, once the funds are in the temporary account. -/
def forwarded (location : MultiLocation) (amount : ℕ) (place : MultiLocation) (t : S) : Except Error Unit × S :=
  rt.xcmTransfer t rt.temporaryAccount location amount place 6000000000

/-- The funds go into the temporary account, and XCM does not take them on. -/
def XcmFails (registry : Registry) (rid : ResourceId) (amount : ℕ) (place : MultiLocation) (t : S) : Prop :=
  place.parents = 1 ∧ rt.payee place = some rt.temporaryAccount ∧ ∃ t' location e,
    rt.settle registry rid rt.temporaryAccount amount t = .ok t' ∧ rt.ridToLocation registry rid = .ok location ∧
      (rt.forwarded location amount place t').1 = .error e

/-- Of an amount that is not nothing, the reserve has paid and the destination is not
served or refuses, or XCM fails. -/
def Loses (s : State S P) (dest : Bytes) (amount : ℕ) (rid : ResourceId) : Prop :=
  amount ≠ 0 ∧ ∃ place t, rt.hashing.decode dest = some place ∧ rt.drawn s.registry rid amount s.tokens = .ok t ∧
    (rt.ReleaseDue s.registry rid ∧ rt.Unserved s.registry rid amount place t ∨
      rt.XcmFails s.registry rid amount place t)

end Runtime

/-! ## What the call does -/

variable {location : MultiLocation}

theorem onTokens_ok {f : S → Except Error S} (h : f s.tokens = .ok t) :
    onTokens f s = (.ok (), { s with tokens := t }) := by
  unfold onTokens
  rw [h]

theorem onTokens_error {f : S → Except Error S} {e : Error} (h : f s.tokens = .error e) :
    onTokens f s = (.error e, s) := by
  unfold onTokens
  rw [h]

theorem payOut_of_none (hpayee : rt.payee place = none) :
    payOut rt registry rid location place amount s = (.error .destUnrecognized, s) := by
  unfold Runtime.payee at hpayee
  unfold payOut
  split at hpayee
  · cases hpayee
  · cases hpayee
  · cases hpayee
  · next hlocal hrelay hsibling =>
    refine congrFun (?_ : _ = (throw .destUnrecognized : Call (State S P) Error Unit)) s
    split
    · next hparents hinterior => exact (hlocal _ _ hparents hinterior).elim
    · next hparents hinterior => exact (hrelay _ _ hparents hinterior).elim
    · next hparents hinterior => exact (hsibling _ _ _ hparents hinterior).elim
    · rfl
    · rfl

/-- To an account of this chain, or by XCM. -/
theorem payOut_of_some (hpayee : rt.payee place = some who) (registry : Registry) (rid : ResourceId)
    (location : MultiLocation) (amount : ℕ) (s : State S P) :
    (place.parents ≠ 1 ∧
      payOut rt registry rid location place amount s = onTokens (rt.settle registry rid who amount) s) ∨
    place.parents = 1 ∧ who = rt.temporaryAccount ∧
      payOut rt registry rid location place amount s = forward rt registry rid location place amount s := by
  unfold Runtime.payee at hpayee
  unfold payOut
  split at hpayee
  · next hparents hinterior =>
    cases hpayee
    refine .inl ⟨by omega, ?_⟩
    rw [hparents, hinterior]
    rfl
  · next hparents hinterior =>
    cases hpayee
    refine .inr ⟨hparents, rfl, ?_⟩
    rw [hparents, hinterior]
    rfl
  · next hparents hinterior =>
    cases hpayee
    refine .inr ⟨hparents, rfl, ?_⟩
    rw [hparents, hinterior]
    rfl
  · cases hpayee

theorem forward_error {e : Error} (h : rt.settle registry rid rt.temporaryAccount amount s.tokens = .error e) :
    forward rt registry rid location place amount s = (.error e, s) :=
  Call.bind_error (onTokens_error h)

theorem forward_ok (h : rt.settle registry rid rt.temporaryAccount amount s.tokens = .ok t) :
    forward rt registry rid location place amount s =
      ((rt.forwarded location amount place t).1, { s with tokens := (rt.forwarded location amount place t).2 }) :=
  Call.bind_ok (onTokens_ok h)

/-! The call of the bridge, part by part. -/

theorem ensureBridge_self : ensureBridge rt (.signed rt.bridgeAccount) s = (.ok rt.bridgeAccount, s) :=
  congrFun (if_pos rfl) s

theorem transfer_of_undecoded (h : rt.hashing.decode dest = none) :
    transfer rt (.signed rt.bridgeAccount) dest amount rid s = (.error .destUnrecognized, s) :=
  (Call.bind_ok ensureBridge_self).trans (Call.bind_error (Call.unwrap_none h))

/-- Where the reserve is not drawn on, nothing happened. -/
theorem transfer_of_undrawn {e : Error} (h : rt.hashing.decode dest = some place)
    (hdrawn : rt.drawn s.registry rid amount s.tokens = .error e) :
    transfer rt (.signed rt.bridgeAccount) dest amount rid s = (.error e, s) := by
  refine (Call.bind_ok ensureBridge_self).trans ((Call.bind_ok (Call.unwrap_some h)).trans ?_)
  refine (Call.bind_ok (t := s) rfl).trans ?_
  unfold Runtime.drawn at hdrawn
  rcases Outcome.bind_error.mp hdrawn with hlocation | ⟨location, hlocation, hdrawn⟩
  · exact Call.bind_error (Call.lift_error hlocation)
  · refine (Call.bind_ok (Call.lift_ok hlocation)).trans ?_
    split at hdrawn
    · next hreserve =>
      cases hdrawn
      exact Call.bind_error (Call.unwrap_none hreserve)
    · next reserve hreserve =>
      refine (Call.bind_ok (Call.unwrap_some hreserve)).trans ?_
      split at hdrawn
      · next hdue =>
        rw [if_pos hdue]
        exact Call.bind_error (onTokens_error hdrawn)
      · cases hdrawn

theorem releaseDue_iff {reserve : MultiLocation} (hlocation : rt.ridToLocation registry rid = .ok location)
    (hreserve : location.reserveLocation = some reserve) :
    rt.ReleaseDue registry rid ↔ reserve ≠ .ofChain (getChainid rid) := by
  refine ⟨?_, fun hdue => ⟨location, reserve, hlocation, hreserve, hdue⟩⟩
  rintro ⟨location', reserve', hlocation', hreserve', hdue⟩
  rw [hlocation] at hlocation'
  cases hlocation'
  rw [hreserve] at hreserve'
  cases hreserve'
  exact hdue

theorem transfer_of_drawn (h : rt.hashing.decode dest = some place)
    (hdrawn : rt.drawn s.registry rid amount s.tokens = .ok t) :
    ∃ location released, rt.ridToLocation s.registry rid = .ok location ∧
      ((rt.ReleaseDue s.registry rid ∧ rt.release s.registry rid amount s.tokens = .ok t ∧
          released = s.released ++ [(rid, amount)]) ∨
        ¬rt.ReleaseDue s.registry rid ∧ t = s.tokens ∧ released = s.released) ∧
      transfer rt (.signed rt.bridgeAccount) dest amount rid s =
        payOut rt s.registry rid location place amount { s with tokens := t, released } := by
  unfold Runtime.drawn at hdrawn
  obtain ⟨location, hlocation, hdrawn⟩ := Outcome.bind_ok.mp hdrawn
  split at hdrawn
  · cases hdrawn
  · next reserve hreserve =>
    split at hdrawn
    · next hdue =>
      refine ⟨location, s.released ++ [(rid, amount)], hlocation,
        .inl ⟨⟨location, reserve, hlocation, hreserve, hdue⟩, hdrawn, rfl⟩, ?_⟩
      refine (Call.bind_ok ensureBridge_self).trans ((Call.bind_ok (Call.unwrap_some h)).trans ?_)
      refine (Call.bind_ok (t := s) rfl).trans ((Call.bind_ok (Call.lift_ok hlocation)).trans ?_)
      refine (Call.bind_ok (Call.unwrap_some hreserve)).trans ?_
      rw [if_pos hdue]
      exact Call.bind_ok (onTokens_ok hdrawn)
    · next hdue =>
      cases hdrawn
      refine ⟨location, s.released, hlocation,
        .inr ⟨fun h => hdue ((releaseDue_iff hlocation hreserve).mp h), rfl, rfl⟩, ?_⟩
      refine (Call.bind_ok ensureBridge_self).trans ((Call.bind_ok (Call.unwrap_some h)).trans ?_)
      refine (Call.bind_ok (t := s) rfl).trans ((Call.bind_ok (Call.lift_ok hlocation)).trans ?_)
      refine (Call.bind_ok (Call.unwrap_some hreserve)).trans ?_
      rw [if_neg hdue]

/-! ## What the reserve pays -/

theorem drawn_cases (h : rt.drawn registry rid amount t = .ok t') :
    (rt.ReleaseDue registry rid ∧ rt.release registry rid amount t = .ok t') ∨
    (¬rt.ReleaseDue registry rid ∧ t' = t) := by
  unfold Runtime.drawn at h
  obtain ⟨location, hlocation, h⟩ := Outcome.bind_ok.mp h
  split at h
  · cases h
  · next reserve hreserve =>
    split at h
    · next hdue => exact .inl ⟨(releaseDue_iff hlocation hreserve).mpr hdue, h⟩
    · next hdue =>
      cases h
      exact .inr ⟨fun h => hdue ((releaseDue_iff hlocation hreserve).mp h), rfl⟩

theorem mapErr_ok {E α : Type} {x : Except E α} {e : Error} {a : α} : mapErr x e = .ok a ↔ x = .ok a := by
  cases x with
  | ok b => exact ⟨fun h => by cases h; rfl, fun h => by cases h; rfl⟩
  | error => exact ⟨nofun, nofun⟩

theorem release_zero (hp : rt.tokens.Primitives) (h : rt.release registry rid 0 t = .ok t') :
    rt.tokens.Same t t' := by
  unfold Runtime.release at h
  split at h
  · exact hp.withdraw_zero h
  · obtain ⟨id, -, h⟩ := Outcome.bind_ok.mp h
    obtain ⟨assetAmount, hconverted, hburn⟩ := Outcome.bind_ok.mp h
    rw [mapErr_ok] at hconverted hburn
    obtain rfl := hp.converts hconverted
    exact hp.burn_zero hburn

theorem drawn_zero (hp : rt.tokens.Primitives) (h : rt.drawn registry rid 0 t = .ok t') : rt.tokens.Same t t' := by
  rcases drawn_cases h with ⟨-, hrelease⟩ | ⟨-, rfl⟩
  · exact release_zero hp hrelease
  · exact .refl _ _

/-- The reserve pays the amount. -/
theorem release_le (hp : rt.tokens.Primitives) (h : rt.release registry rid amount t = .ok t') :
    ∃ token who, rt.IsReserve who ∧ rt.tokens.balance t' token who + amount ≤ rt.tokens.balance t token who := by
  unfold Runtime.release at h
  split at h
  · exact ⟨.native, rt.bridgeAccount, .inl rfl, hp.withdraw_le h⟩
  · obtain ⟨id, -, h⟩ := Outcome.bind_ok.mp h
    obtain ⟨assetAmount, hconverted, hburn⟩ := Outcome.bind_ok.mp h
    rw [mapErr_ok] at hconverted hburn
    obtain rfl := hp.converts hconverted
    exact ⟨.asset id, _, .inr ⟨_, rfl⟩, hp.burn_le hburn⟩

/-- PHA is at home here. -/
theorem releaseDue_of_pha (hrid : rid = rt.hashing.genPhaRid (getChainid rid)) : rt.ReleaseDue registry rid := by
  refine ⟨.here, .here, ?_, rfl, by simp [MultiLocation.here, MultiLocation.ofChain]⟩
  unfold Runtime.ridToLocation
  rw [if_pos hrid]
  rfl

/-! ## What is paid in -/

theorem settle_zero (hp : rt.tokens.Primitives) (h : rt.settle registry rid who 0 t = .ok t') :
    rt.tokens.Same t t' := by
  unfold Runtime.settle at h
  split at h
  · cases h
    exact hp.deposit_zero _ _
  · obtain ⟨id, -, h⟩ := Outcome.bind_ok.mp h
    obtain ⟨assetAmount, hconverted, hmint⟩ := Outcome.bind_ok.mp h
    rw [mapErr_ok] at hconverted hmint
    obtain rfl := hp.converts hconverted
    exact hp.mint_zero hmint

theorem settle_others (hp : rt.tokens.Primitives) (h : rt.settle registry rid who amount t = .ok t')
    (token : Token)
    {x : AccountId} (hne : x ≠ who) : rt.tokens.balance t' token x = rt.tokens.balance t token x := by
  unfold Runtime.settle at h
  split at h
  · cases h
    exact hp.deposit_frame token x hne
  · obtain ⟨id, -, h⟩ := Outcome.bind_ok.mp h
    obtain ⟨assetAmount, -, hmint⟩ := Outcome.bind_ok.mp h
    exact hp.mint_frame (mapErr_ok.mp hmint) token x hne

/-- What is not drawn from a reserve is an asset, and minted. -/
theorem settle_le (hp : rt.tokens.Primitives) (hdue : ¬rt.ReleaseDue registry rid)
    (h : rt.settle registry rid who amount t = .ok t') :
    ∃ token, rt.tokens.balance t token who + amount ≤ rt.tokens.balance t' token who := by
  unfold Runtime.settle at h
  split at h
  · next hrid => exact absurd (releaseDue_of_pha hrid) hdue
  · obtain ⟨id, -, h⟩ := Outcome.bind_ok.mp h
    obtain ⟨assetAmount, hconverted, hmint⟩ := Outcome.bind_ok.mp h
    rw [mapErr_ok] at hconverted hmint
    obtain rfl := hp.converts hconverted
    exact ⟨.asset id, hp.mint_le hmint⟩

/-! ## How the call errs -/

/-- Where the call errs: before it changed anything, after the reserve paid, or after the
funds went into the temporary account; with the tokens as they are then. -/
inductive Errs (rt : Runtime S) (s : State S P) (dest : Bytes) (amount : ℕ) (rid : ResourceId) : S → Prop
  | early
      (hearly : ∀ place t, rt.hashing.decode dest = some place → rt.drawn s.registry rid amount s.tokens ≠ .ok t) :
      Errs rt s dest amount rid s.tokens
  | unserved {place : MultiLocation} {t : S} (hdecode : rt.hashing.decode dest = some place)
      (hdrawn : rt.drawn s.registry rid amount s.tokens = .ok t)
      (hunserved : rt.Unserved s.registry rid amount place t) : Errs rt s dest amount rid t
  | xcm {place location : MultiLocation} {t t' : S} {e : Error} (hdecode : rt.hashing.decode dest = some place)
      (hdrawn : rt.drawn s.registry rid amount s.tokens = .ok t)
      (hparents : place.parents = 1) (hpayee : rt.payee place = some rt.temporaryAccount)
      (hsettle : rt.settle s.registry rid rt.temporaryAccount amount t = .ok t')
      (hlocation : rt.ridToLocation s.registry rid = .ok location)
      (herr : (rt.forwarded location amount place t').1 = .error e) :
      Errs rt s dest amount rid (rt.forwarded location amount place t').2

theorem payOut_unserved (location : MultiLocation) (released : List (ResourceId × ℕ))
    (hunserved : rt.Unserved s.registry rid amount place t) :
    ∃ e, payOut rt s.registry rid location place amount { s with tokens := t, released } =
      (.error e, { s with tokens := t, released }) := by
  rcases hunserved with hnone | ⟨who, e, hpayee, hsettle⟩
  · exact ⟨.destUnrecognized, payOut_of_none hnone⟩
  · refine ⟨e, ?_⟩
    rcases payOut_of_some hpayee s.registry rid location amount { s with tokens := t, released } with
      ⟨-, hpay⟩ | ⟨-, rfl, hpay⟩
    · rw [hpay]
      exact onTokens_error hsettle
    · rw [hpay]
      exact forward_error hsettle

theorem payOut_forwarded {released : List (ResourceId × ℕ)} (hparents : place.parents = 1)
    (hpayee : rt.payee place = some rt.temporaryAccount)
    (hsettle : rt.settle s.registry rid rt.temporaryAccount amount t = .ok t') :
    payOut rt s.registry rid location place amount { s with tokens := t, released } =
      ((rt.forwarded location amount place t').1,
        { s with tokens := (rt.forwarded location amount place t').2, released }) := by
  rcases payOut_of_some hpayee s.registry rid location amount { s with tokens := t, released } with
    ⟨hlocal, -⟩ | ⟨-, -, hpay⟩
  · exact absurd hparents hlocal
  · rw [hpay]
    exact forward_ok hsettle

theorem transfer_errs {e : Error} (h : transfer rt (.signed rt.bridgeAccount) dest amount rid s = (.error e, s')) :
    Errs rt s dest amount rid s'.tokens := by
  cases hdecode : rt.hashing.decode dest with
  | none =>
    rw [transfer_of_undecoded hdecode] at h
    cases h
    exact .early fun _ _ hplace => by simp [hdecode] at hplace
  | some place =>
    cases hdrawn : rt.drawn s.registry rid amount s.tokens with
    | error e' =>
      rw [transfer_of_undrawn hdecode hdrawn] at h
      cases h
      exact .early fun _ _ _ ht => by simp [hdrawn] at ht
    | ok t =>
      obtain ⟨location, released, hlocation, -, htransfer⟩ := transfer_of_drawn hdecode hdrawn
      rw [htransfer] at h
      by_cases hunserved : rt.Unserved s.registry rid amount place t
      · obtain ⟨e', hpaid⟩ := payOut_unserved location released hunserved
        rw [hpaid] at h
        cases h
        exact .unserved hdecode hdrawn hunserved
      · obtain ⟨who, hpayee⟩ := Option.ne_none_iff_exists'.mp fun hnone => hunserved (.inl hnone)
        cases hsettle : rt.settle s.registry rid who amount t with
        | error e' => exact absurd (.inr ⟨who, e', hpayee, hsettle⟩) hunserved
        | ok t' =>
          rcases payOut_of_some hpayee s.registry rid location amount { s with tokens := t, released } with
            ⟨-, hpay⟩ | ⟨hparents, rfl, -⟩
          · rw [hpay, onTokens_ok (t := t') hsettle] at h
            cases h
          · rw [payOut_forwarded hparents hpayee hsettle] at h
            obtain ⟨herr, rfl⟩ := Prod.mk.inj h
            exact .xcm hdecode hdrawn hparents hpayee hsettle hlocation herr

/-- The call loses funds exactly where it errs with an amount that left the reserve or came in. -/
theorem Runtime.Loses.errs (h : rt.Loses s dest amount rid) : ∃ e s',
    transfer rt (.signed rt.bridgeAccount) dest amount rid s = (.error e, s') ∧ amount ≠ 0 ∧
      ((∃ t, rt.drawn s.registry rid amount s.tokens = .ok t ∧ rt.ReleaseDue s.registry rid ∧ s'.tokens = t) ∨
        ∃ t t' location place, rt.drawn s.registry rid amount s.tokens = .ok t ∧
          rt.settle s.registry rid rt.temporaryAccount amount t = .ok t' ∧
          (∃ e, (rt.forwarded location amount place t').1 = .error e) ∧
          s'.tokens = (rt.forwarded location amount place t').2) := by
  obtain ⟨hamount, place, t, hdecode, hdrawn, hfails⟩ := h
  obtain ⟨location, released, hlocation, -, htransfer⟩ := transfer_of_drawn hdecode hdrawn
  rcases hfails with ⟨hdue, hunserved⟩ | ⟨hparents, hpayee, t', location', e, hsettle, hlocation', herr⟩
  · obtain ⟨e, hpaid⟩ := payOut_unserved location released hunserved
    exact ⟨e, _, htransfer.trans hpaid, hamount, .inl ⟨t, hdrawn, hdue, rfl⟩⟩
  · rw [hlocation] at hlocation'
    cases hlocation'
    refine ⟨e, _, htransfer.trans ((payOut_forwarded hparents hpayee hsettle).trans (by rw [herr])),
      hamount, .inr ?_⟩
    exact ⟨t, t', location, place, hdrawn, hsettle, ⟨e, herr⟩, rfl⟩

/-- Nothing that is drawn, paid in and sent on leaves all as it was. -/
theorem Errs.same_of_zero {t : S} (hp : rt.tokens.Primitives) (hx : rt.Separate) (h : Errs rt s dest 0 rid t) :
    rt.tokens.Same s.tokens t := by
  cases h with
  | early => exact .refl _ _
  | unserved _ hdrawn _ => exact drawn_zero hp hdrawn
  | xcm _ hdrawn _ _ hsettle _ herr =>
    exact ((drawn_zero hp hdrawn).trans (settle_zero hp hsettle)).trans (hx.xcm_zero _ _ _ _ _ herr)

namespace Demo

structure Ledger where
  balance : Token → AccountId → ℕ
  issuance : Token → ℕ

namespace Ledger

def add (l : Ledger) (token : Token) (who : AccountId) (amount : ℕ) : Ledger where
  balance := Function.update l.balance token
    (Function.update (l.balance token) who (l.balance token who + amount))
  issuance := Function.update l.issuance token (l.issuance token + amount)

def sub (l : Ledger) (token : Token) (who : AccountId) (amount : ℕ) : Except Error Ledger :=
  if amount ≤ l.balance token who then pure
    { balance := Function.update l.balance token
        (Function.update (l.balance token) who (l.balance token who - amount))
      issuance := Function.update l.issuance token (l.issuance token - amount) }
  else throw (.other 0)

def move (l : Ledger) (token : Token) (source dest : AccountId) (amount : ℕ) : Except Error Ledger :=
  (l.sub token source amount).map fun l => l.add token dest amount

end Ledger

/-- Where the least balance is one unit, there is no dust. -/
def tokens : Tokens Ledger where
  balance := Ledger.balance
  issuance := Ledger.issuance
  minimum _ _ := 1
  reducibleBalance l id who := l.balance (.asset id) who
  withdraw l who amount := l.sub .native who amount
  transfer l source dest amount := l.move .native source dest amount
  depositCreating l who amount := l.add .native who amount
  burnFrom l id who amount := l.sub (.asset id) who amount
  mintInto l id who amount := pure (l.add (.asset id) who amount)
  transferAsset l id source dest amount := l.move (.asset id) source dest amount
  toAssetBalance _ amount _ := pure amount

theorem sub_le {l l' : Ledger} {token : Token} {who : AccountId} {amount : ℕ}
    (h : l.sub token who amount = .ok l') :
    l'.balance token who + amount ≤ l.balance token who := by
  unfold Ledger.sub at h
  split at h
  · cases h
    simp
    omega
  · cases h

theorem sub_zero {l l' : Ledger} {token : Token} {who : AccountId} (h : l.sub token who 0 = .ok l') :
    tokens.Same l l' := by
  cases h
  exact ⟨by simp [tokens], by simp [tokens]⟩

theorem add_zero (l : Ledger) (token : Token) (who : AccountId) : tokens.Same l (l.add token who 0) :=
  ⟨by simp [tokens, Ledger.add], by simp [tokens, Ledger.add]⟩

theorem add_frame (l : Ledger) {who x : AccountId} (hne : x ≠ who) (token token' : Token) (amount : ℕ) :
    (l.add token who amount).balance token' x = l.balance token' x := by
  unfold Ledger.add
  by_cases htoken : token' = token
  · subst htoken
    simp [hne]
  · simp [htoken]

theorem tokens_primitives : tokens.Primitives where
  withdraw_le := sub_le
  withdraw_zero := sub_zero
  burn_le := sub_le
  burn_zero := sub_zero
  deposit_frame token _ hne := add_frame _ hne .native token _
  deposit_zero l who := add_zero l .native who
  mint_frame h token _ hne := by
    cases h
    exact add_frame _ hne _ token _
  mint_le h := by
    cases h
    simp [tokens, Ledger.add]
  mint_zero h := by
    cases h
    exact add_zero _ _ _
  converts h := by
    cases h
    rfl

/-- `(0, X3(GeneralKey("cb"), GeneralIndex(2), GeneralKey("x")))`, encoded. -/
def evmDest : Bytes := [0, 3, 6, 8, 0x63, 0x62, 5, 8, 6, 4, 0x78]

def evmPlace : MultiLocation := ⟨0, [.generalKey cbAssetKey, .generalIndex 2, .generalKey [0x78]]⟩

/-- BLAKE2 of the encoding of `MultiLocation::here()`. -/
def hereHash : Bytes32 :=
  #v[158, 230, 223, 182, 26, 47, 185, 3, 223, 72, 124, 64, 22, 99, 130, 86,
    67, 187, 130, 93, 65, 105, 94, 99, 223, 138, 246, 22, 42, 177, 69, 166]

def hashing : Hashing where
  encode location :=
    if location = .here then [0, 0]
    else if location = ⟨0, [.generalKey bridgeTransferKey]⟩ then [0, 1]
    else [1, 0]
  decode bytes := if bytes = evmDest then some evmPlace else none
  blake2 bytes :=
    if bytes = [0, 0] then hereHash
    else if bytes = [0, 1] then Vector.replicate 32 1
    else Vector.replicate 32 0

/-- `modlphala/bg`, filled up with zeros. -/
def bridgeAccount : AccountId :=
  #v[109, 111, 100, 108, 112, 104, 97, 108, 97, 47, 98, 103, 0, 0, 0, 0,
    0, 0, 0, 0, 0, 0, 0, 0, 0, 0, 0, 0, 0, 0, 0, 0]

def accountOf (location : MultiLocation) : Except Error AccountId :=
  match location.parents, location.interior with
  | 0, [.accountId32 _ id] => pure id
  | _, _ => throw (.other 2)

def currencyAdapter (found : Option ℕ) (who : MultiLocation) (l : Ledger) : Except Error Ledger := do
  let amount ← found.elim (throw (.other 1)) pure
  let who ← accountOf who
  pure (l.add .native who amount)

def fungiblesAdapter (found : Except MatchError (AssetId × ℕ)) (who : MultiLocation) (l : Ledger) :
    Except Error Ledger := do
  let (id, amount) ← found.mapError fun _ => .other 1
  let who ← accountOf who
  pure (l.add (.asset id) who amount)

def runtime : Runtime Ledger where
  hashing := hashing
  tokens := tokens
  bridgeAccount := bridgeAccount
  treasury := Vector.replicate 32 4
  parachainId := 2004
  onFeePay l amount := l.add .native (Vector.replicate 32 4) amount
  nativeExecutionPrice := 1
  executionPriceInfo := []
  xcmTransfer l _ _ _ _ _ := (.ok (), l)
  currencyAdapter := currencyAdapter
  fungiblesAdapter := fungiblesAdapter

/-- The bridge's account holds a hundred. -/
def state : State Ledger Unit where
  tokens := ⟨fun token who => if token = .native ∧ who = bridgeAccount then 100 else 0,
    fun token => if token = .native then 100 else 0⟩
  bridge := .default
  bridgeFee := ∅
  registry := .empty
  announced := []
  released := []

/-- PHA of the chain 0. -/
def phaRid : ResourceId := hashing.genPhaRid 0

/-- An asset at home on the chain 2. -/
def evmAsset : MultiLocation := ⟨0, [.generalKey cbAssetKey, .generalIndex 2, .generalKey [1]]⟩

/-- It is registered. -/
def knowing : State Ledger Unit :=
  { state with
    registry := { Registry.empty with
      idByAssets := (∅ : StorageMap MultiLocation AssetId).insert evmAsset 1
      assetByResourceIds := (∅ : StorageMap ResourceId MultiLocation).insert
        (hashing.intoRid evmAsset 2) evmAsset } }

theorem runtime_separate : runtime.Separate where
  temporary := by
    rintro (hbridge | ⟨chain, hchain⟩)
    · exact absurd hbridge (by decide +kernel)
    · have htemporary : runtime.temporaryAccount = Vector.replicate 32 1 := by decide +kernel
      have hofChain : runtime.hashing.intoAccount (.ofChain chain) = Vector.replicate 32 0 := by
        simp [runtime, hashing, Hashing.intoAccount, MultiLocation.ofChain, MultiLocation.here]
      rw [htemporary, hofChain] at hchain
      exact absurd hchain (by decide)
  xcm_reserve _ _ _ _ _ _ _ _ := rfl
  xcm_zero _ _ _ _ _ h := by cases h

end Demo

end Khala.XTransfer
