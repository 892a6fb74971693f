/-
Through which chains the assets of a transfer go.

Every asset of a message leaves this chain together. They go through their
reserves exactly if PHA does not ride along with an asset of another chain, and
if the reserve chain is told a place that is the destination.
-/
import Khala.XcmTransfer

namespace Khala.XTransfer

open MultiLocation

variable {rt : XcmRuntime} {asset fee a : MultiAsset} {home dest place location origin : MultiLocation}
  {message xcm rest : Xcm} {held assets : List MultiAsset} {n amount destWeight : ℕ}

/-! ## What a message does -/

/-- The place that the chain at a location calls by another one. -/
def MultiLocation.prepend (place l : MultiLocation) : MultiLocation where
  parents := place.parents + (l.parents - place.interior.length)
  interior := place.interior.take (place.interior.length - l.parents) ++ l.interior

theorem prepend_here (l : MultiLocation) : MultiLocation.here.prepend l = l := by
  unfold MultiLocation.prepend here
  simp

def Xcm.withdrawn : Xcm → List MultiAsset
  | .withdrawAsset assets :: _ => assets
  | _ => []

/-- All numbers of assets in a message are this one. -/
inductive Xcm.Limits (n : ℕ) : Xcm → Prop
  | nil : Limits n []
  | withdraw (assets : List MultiAsset) {rest : Xcm} : Limits n rest → Limits n (.withdrawAsset assets :: rest)
  | buy (fees : MultiAsset) (weight : ℕ) {rest : Xcm} :
      Limits n rest → Limits n (.buyExecution fees weight :: rest)
  | deposit (filter : AssetFilter) (beneficiary : MultiLocation) {rest : Xcm} : Limits n rest →
      Limits n (.depositAsset filter n beneficiary :: rest)
  | reserve (filter : AssetFilter) (dest : MultiLocation) {xcm rest : Xcm} : Limits n xcm → Limits n rest →
      Limits n (.depositReserveAsset filter n dest xcm :: rest)
  | initiate (filter : AssetFilter) (reserve : MultiLocation) {xcm rest : Xcm} : Limits n xcm → Limits n rest →
      Limits n (.initiateReserveWithdraw filter reserve xcm :: rest)

namespace XcmRuntime

variable (rt)

/-- The asset is reserved here and deposited for the next chain, or withdrawn from the reserve on its own chain. -/
def Routed (message : Xcm) (asset : MultiAsset) : Prop :=
  match message with
  | [_, .depositReserveAsset .wildAll _ _ _] =>
    ∃ home, ConcrateAsset.origin asset = some home ∧ rt.isNativeAssetId home = true
  | [_, .initiateReserveWithdraw .wildAll reserve _] => ConcrateAsset.origin asset = some reserve
  | _ => False

/-- The assets once a fee is paid out of the one with an id. -/
def paid (id : XcmAssetId) (fee : ℕ) (held : List MultiAsset) : List MultiAsset :=
  held.map fun asset =>
    if asset.id = id then
      match asset.fungibility with
      | .fungible amount => { asset with fungibility := .fungible (amount - fee) }
      | .nonFungible _ => asset
    else asset

/-- On the chain at a place, where some assets are held, each fee that the
program asks for there and on the chains after is part of what arrives. The ids
of the assets are those of this chain. -/
inductive Covered : MultiLocation → List MultiAsset → Xcm → Prop
  | nil (place : MultiLocation) (held : List MultiAsset) : Covered place held []
  | withdraw {place : MultiLocation} {held assets : List MultiAsset} {rest : Xcm} : Covered place assets rest →
      Covered place held (.withdrawAsset assets :: rest)
  | buy {place : MultiLocation} {held : List MultiAsset} {asset : MultiAsset} {amount : ℕ} {id : XcmAssetId}
      {fee weight : ℕ} {rest : Xcm} : asset ∈ held → asset.fungibility = .fungible amount →
      rt.reanchorId place asset.id = some id → fee ≤ amount → Covered place (paid asset.id fee held) rest →
      Covered place held (.buyExecution ⟨id, .fungible fee⟩ weight :: rest)
  | deposit {place : MultiLocation} {held : List MultiAsset} {filter : AssetFilter} {n : ℕ}
      {beneficiary : MultiLocation}
      {rest : Xcm} : Covered place held rest → Covered place held (.depositAsset filter n beneficiary :: rest)
  | reserve {place dest : MultiLocation} {held : List MultiAsset} {filter : AssetFilter} {n : ℕ} {xcm rest : Xcm} :
      Covered (place.prepend dest) held xcm → Covered place [] rest →
      Covered place held (.depositReserveAsset filter n dest xcm :: rest)
  | initiate {place reserve : MultiLocation} {held : List MultiAsset} {filter : AssetFilter} {xcm rest : Xcm} :
      Covered (place.prepend reserve) held xcm → Covered place [] rest →
      Covered place held (.initiateReserveWithdraw filter reserve xcm :: rest)

/-- What is documented of `MultiAsset::contains`. -/
structure Documented : Prop where
  contains_of : ∀ location n m, rt.contains (.of location n) (.of location m) = true ↔ m ≤ n
  contains_id : ∀ a b, rt.contains a b = true → a.id = b.id

end XcmRuntime

/-! ## How a message is built -/

theorem origin_some (h : ConcrateAsset.origin asset = some home) :
    ∃ location amount, asset = .of location amount := by
  obtain ⟨id, fungibility⟩ := asset
  cases id with
  | abstract name => cases h
  | concrete location =>
    cases fungibility with
    | nonFungible index => cases h
    | fungible amount => exact ⟨location, amount, rfl⟩

/-- PHA is at home here, under both of its locations. -/
theorem origin_native (h : rt.isNativeAssetId location = true) (amount : ℕ) :
    ConcrateAsset.origin (.of location amount) = some location := by
  unfold XcmRuntime.isNativeAssetId at h
  rw [Bool.or_eq_true, decide_eq_true_eq, decide_eq_true_eq] at h
  rcases h with rfl | rfl
  · rfl
  · rfl

theorem isNativeAssetId_nativeAssetId (rt : XcmRuntime) : rt.isNativeAssetId rt.nativeAssetId = true := by
  unfold XcmRuntime.isNativeAssetId XcmRuntime.nativeAssetId
  simp

/-- The fee is half of the asset, or PHA for an asset that is neither a fee asset nor PHA. -/
theorem feeOf_cases (h : rt.feeOf (.of location amount) = .ok fee) :
    fee = .of location (amount / 2) ∧
    (rt.isFeeAsset (.of location amount) = true ∨ rt.isNativeAssetId location = true) ∨
      fee = .of rt.nativeAssetId rt.defaultFee ∧ location ≠ rt.nativeAssetId ∧
        rt.isFeeAsset (.of location amount) = false ∧ rt.isNativeAssetId location = false := by
  unfold XcmRuntime.feeOf at h
  split at h
  · next hfee =>
    cases h
    exact .inl ⟨rfl, hfee⟩
  · next hfee =>
    cases h
    rw [not_or, Bool.not_eq_true, Bool.not_eq_true] at hfee
    have hforeign : rt.isNativeAssetId location = false := hfee.2
    refine .inr ⟨rfl, ?_, hfee.1, hforeign⟩
    intro heq
    rw [heq, isNativeAssetId_nativeAssetId] at hforeign
    cases hforeign

/-- What is withdrawn: the asset, and the fee where it is another asset. -/
theorem withdrawal_cases (hdoc : rt.Documented) {session : XcmSession}
    (hasset : session.asset = .of location amount) (h : rt.feeOf (.of location amount) = .ok session.fee) :
    (session.fee = .of location (amount / 2) ∧ session.withdrawal rt = ([.of location amount], 1) ∧
        (rt.isFeeAsset (.of location amount) = true ∨ rt.isNativeAssetId location = true)) ∨
      session.fee = .of rt.nativeAssetId rt.defaultFee ∧ location ≠ rt.nativeAssetId ∧
        session.withdrawal rt = ([.of location amount, .of rt.nativeAssetId rt.defaultFee], 2) ∧
        rt.isFeeAsset (.of location amount) = false ∧ rt.isNativeAssetId location = false := by
  unfold XcmSession.withdrawal
  rw [hasset]
  rcases feeOf_cases h with ⟨hfee, hcase⟩ | ⟨hfee, hne, hcase⟩
  · rw [hfee]
    exact .inl ⟨rfl, if_pos ((hdoc.contains_of location amount (amount / 2)).mpr (Nat.div_le_self _ _)), hcase⟩
  · rw [hfee]
    refine .inr ⟨rfl, hne, if_neg ?_, hcase⟩
    intro hcontains
    have hid := hdoc.contains_id _ _ hcontains
    cases hid
    exact hne rfl

/-- Where a message is built, the asset is fungible and at home on some chain, and
the message has one of three shapes. -/
theorem message_cases {session : XcmSession} (h : session.message rt = .ok message) :
    ∃ home recipient, ConcrateAsset.origin session.asset = some home ∧
      let (withdrawn, n) := session.withdrawal rt
      let depositAsset : Instruction := .depositAsset .wildAll n recipient
      (rt.isNativeAssetId home = true ∧ ∃ fees, rt.reanchored session.fee session.destLocation = some fees ∧
          message = [.withdrawAsset withdrawn, .depositReserveAsset .wildAll n session.destLocation
            [.buyExecution fees session.destWeight, depositAsset]]) ∨
        rt.isNativeAssetId home = false ∧ home = session.destLocation ∧
          (∃ fees, rt.reanchored session.fee home = some fees ∧
            message = [.withdrawAsset withdrawn, .initiateReserveWithdraw .wildAll home
              [.buyExecution fees session.destWeight, depositAsset]]) ∨
        rt.isNativeAssetId home = false ∧ home ≠ session.destLocation ∧
          ∃ fees fees', rt.reanchored session.fee home = some fees ∧
            rt.reanchored session.fee session.destLocation = some fees' ∧
            message = [.withdrawAsset withdrawn, .initiateReserveWithdraw .wildAll home
              [.buyExecution fees session.destWeight,
                .depositReserveAsset .wildAll n (XcmSession.invertBasedReserve home session.destLocation)
                  [.buyExecution fees' session.destWeight, depositAsset]]] := by
  have hbuy {location : MultiLocation} {i : Instruction} (h : session.buyExecutionOn rt location = .ok i) :
      ∃ fees, rt.reanchored session.fee location = some fees ∧ i = .buyExecution fees session.destWeight := by
    unfold XcmSession.buyExecutionOn at h
    cases hfees : rt.reanchored session.fee location with
    | none =>
      rw [hfees] at h
      cases h
    | some fees =>
      rw [hfees] at h
      cases h
      exact ⟨fees, rfl, rfl⟩
  unfold XcmSession.message XcmSession.kind at h
  cases hhome : ConcrateAsset.origin session.asset with
  | none =>
    rw [hhome] at h
    cases h
  | some home =>
    rw [hhome] at h
    refine ⟨home, session.recipient.location, rfl, ?_⟩
    by_cases hnative : rt.isNativeAssetId home = true
    · rw [Option.map_some, if_pos hnative] at h
      dsimp only at h
      cases hdest : session.buyExecutionOn rt session.destLocation with
      | error e =>
        rw [hdest] at h
        cases h
      | ok buy =>
        obtain ⟨fees, hfees, rfl⟩ := hbuy hdest
        rw [hdest] at h
        cases h
        exact .inl ⟨hnative, fees, hfees, rfl⟩
    · have hforeign : rt.isNativeAssetId home = false := Bool.eq_false_of_not_eq_true hnative
      by_cases hreserve : home = session.destLocation
      · rw [Option.map_some, if_neg hnative, if_pos hreserve] at h
        dsimp only at h
        cases hdest : session.buyExecutionOn rt session.destLocation with
        | error e =>
          rw [hdest] at h
          cases h
        | ok buy =>
          obtain ⟨fees, hfees, rfl⟩ := hbuy hdest
          rw [hdest] at h
          cases h
          rw [← hreserve] at hfees
          exact .inr (.inl ⟨hforeign, hreserve, fees, hfees, by rw [hreserve]; rfl⟩)
      · rw [Option.map_some, if_neg hnative, if_neg hreserve] at h
        dsimp only at h
        cases hfirst : session.buyExecutionOn rt home with
        | error e =>
          rw [hfirst] at h
          cases h
        | ok buy =>
          obtain ⟨fees, hfees, rfl⟩ := hbuy hfirst
          rw [hfirst] at h
          cases hdest : session.buyExecutionOn rt session.destLocation with
          | error e =>
            rw [hdest] at h
            cases h
          | ok buy' =>
            obtain ⟨fees', hfees', rfl⟩ := hbuy hdest
            rw [hdest] at h
            cases h
            exact .inr (.inr ⟨hforeign, hreserve, fees, fees', hfees, hfees', rfl⟩)

theorem buildMessage_session (h : buildMessage rt origin asset dest destWeight = .ok message) :
    ∃ session : XcmSession, rt.feeOf asset = .ok session.fee ∧ session.asset = asset ∧
      session.destLocation = ⟨dest.parents, dest.interior.dropLast⟩ ∧ session.message rt = .ok message := by
  unfold buildMessage at h
  cases hsession : sessionOf rt origin asset dest destWeight with
  | error e =>
    rw [hsession] at h
    cases h
  | ok session =>
    rw [hsession] at h
    refine ⟨session, ?_, ?_, ?_, h⟩ <;>
    · unfold sessionOf at hsession
      split at hsession
      · cases hsession
      · split at hsession
        · cases hfee : rt.feeOf asset with
          | error e =>
            rw [hfee] at hsession
            cases hsession
          | ok fee =>
            rw [hfee] at hsession
            cases hsession
            rfl
        · cases hsession

/-! ## Its fees -/

theorem reanchored_some {fees : MultiAsset} (h : rt.reanchored asset place = some fees) :
    ∃ id, rt.reanchorId place asset.id = some id ∧ fees = ⟨id, asset.fungibility⟩ := by
  unfold XcmRuntime.reanchored at h
  obtain ⟨id, hid, rfl⟩ := Option.map_eq_some_iff.mp h
  exact ⟨id, hid, rfl⟩

/-- On a chain where it arrives, the fee is covered by what is withdrawn with it. -/
theorem covered_last {fees : MultiAsset} {weight : ℕ} {beneficiary : MultiLocation}
    (hheld : .of location amount ∈ held) (hfees : rt.reanchored (.of location n) place = some fees)
    (hle : n ≤ amount)
    {limit : ℕ} : rt.Covered place held [.buyExecution fees weight, .depositAsset .wildAll limit beneficiary] := by
  obtain ⟨id, hid, rfl⟩ := reanchored_some hfees
  exact .buy hheld rfl hid hle (.deposit (.nil _ _))

/-- Half of the asset is left for the chain after, where the fee has this id
exactly if the place that the reserve chain is told is that chain. -/
theorem covered_twice_iff {fees fees' : MultiAsset} {weight limit : ℕ} {beneficiary place' : MultiLocation}
    (hfees : rt.reanchored (.of location (amount / 2)) place = some fees)
    (hfees' : rt.reanchored (.of location (amount / 2)) home = some fees') :
    rt.Covered place [.of location amount]
        [.buyExecution fees weight,
          .depositReserveAsset .wildAll limit place'
            [.buyExecution fees' weight, .depositAsset .wildAll limit beneficiary]] ↔
      rt.reanchorId (place.prepend place') (.concrete location) = rt.reanchorId home (.concrete location) := by
  obtain ⟨id, hid, rfl⟩ := reanchored_some hfees
  obtain ⟨id', hid', rfl⟩ := reanchored_some hfees'
  have hpaid : XcmRuntime.paid (.concrete location) (amount / 2) [.of location amount] =
      [.of location (amount - amount / 2)] := by
    simp [XcmRuntime.paid, MultiAsset.of]
  constructor
  · intro h
    cases h with
    | buy hmem hamount _ _ hrest =>
      rcases List.mem_singleton.mp hmem with rfl
      cases hamount
      change rt.Covered place (XcmRuntime.paid (.concrete location) (amount / 2) _) _ at hrest
      rw [hpaid] at hrest
      cases hrest with
      | reserve hxcm _ =>
        cases hxcm with
        | buy hmem _ hreanchor _ _ =>
          rcases List.mem_singleton.mp hmem with rfl
          exact hreanchor.trans hid'.symm
  · intro heq
    refine .buy (List.mem_singleton.mpr rfl) rfl hid (Nat.div_le_self _ _) ?_
    change rt.Covered place (XcmRuntime.paid (.concrete location) (amount / 2) _) _
    rw [hpaid]
    refine .reserve (covered_last (List.mem_singleton.mpr rfl) ?_ (by omega : amount / 2 ≤ _)) (.nil _ _)
    unfold XcmRuntime.reanchored
    rw [show (MultiAsset.of location (amount / 2)).id = .concrete location from rfl, heq]
    change (rt.reanchorId home (MultiAsset.of location (amount / 2)).id).map _ = _
    rw [hid']
    rfl

/-! ## The routes -/

variable (rt) in
/-- All assets of a message go through their reserves, are what is to be sent and
its fee, are as many as the message says, and cover its fees. -/
structure SentWell (asset fee : MultiAsset) (message : Xcm) : Prop where
  routed : ∀ a ∈ message.withdrawn, rt.Routed message a
  withdrawn : message.withdrawn = if fee.id = asset.id then [asset] else [asset, fee]
  limits : message.Limits (message.withdrawn.map (·.id)).dedup.length
  covered : rt.Covered .here [] message

variable (rt) in
/-- No other asset rides along to another chain, and the reserve chain sends what
arrives to a place where the asset has the id that it has at the destination. -/
def Straight (asset : MultiAsset) (destLocation : MultiLocation) : Prop :=
  (rt.isFeeAsset asset = true ∨ ∃ home, ConcrateAsset.origin asset = some home ∧ rt.isNativeAssetId home = true) ∧
    ∀ home, ConcrateAsset.origin asset = some home → rt.isNativeAssetId home = false → home ≠ destLocation →
      rt.reanchorId (home.prepend (XcmSession.invertBasedReserve home destLocation)) asset.id =
        rt.reanchorId destLocation asset.id

theorem of_id_ne {l l' : MultiLocation} (h : l ≠ l') (m n : ℕ) :
    (MultiAsset.of l m).id ≠ (MultiAsset.of l' n).id := by
  intro heq
  cases heq
  exact h rfl

/-- The ids of two assets. -/
theorem length_two_ids {l l' : MultiLocation} (h : l ≠ l') (m n : ℕ) :
    (([MultiAsset.of l m, .of l' n] : List MultiAsset).map (·.id)).dedup.length = 2 := by
  have hnodup : (([MultiAsset.of l m, .of l' n] : List MultiAsset).map (·.id)).Nodup := by
    simpa using of_id_ne h m n
  rw [hnodup.dedup]
  rfl

/-- What is not at home here is not PHA. -/
theorem not_native (hhome : ConcrateAsset.origin (.of location amount) = some home)
    (hforeign : rt.isNativeAssetId home = false) : rt.isNativeAssetId location ≠ true := by
  intro hnative
  rw [origin_native hnative] at hhome
  cases hhome
  rw [hnative] at hforeign
  cases hforeign

section Shapes

variable {destLocation recipient : MultiLocation} {fees fees' : MultiAsset} {weight : ℕ}

/-- The asset alone, reserved on this chain. -/
theorem sentWell_native (hhome : ConcrateAsset.origin (.of location amount) = some home)
    (hnative : rt.isNativeAssetId home = true)
    (hfees : rt.reanchored (.of location (amount / 2)) destLocation = some fees) :
    SentWell rt (.of location amount) (.of location (amount / 2))
      [.withdrawAsset [.of location amount], .depositReserveAsset .wildAll 1 destLocation
        [.buyExecution fees weight, .depositAsset .wildAll 1 recipient]] where
  routed a ha := by
    rcases List.mem_singleton.mp ha with rfl
    exact ⟨home, hhome, hnative⟩
  withdrawn := (if_pos rfl).symm
  limits := .withdraw _ (.reserve _ _ (.buy _ _ (.deposit _ _ .nil)) .nil)
  covered := by
    refine .withdraw (.reserve ?_ (.nil _ _))
    rw [prepend_here]
    exact covered_last (List.mem_singleton.mpr rfl) hfees (Nat.div_le_self _ _)

/-- With PHA, both reserved on this chain. -/
theorem sentWell_native_pair (hne : location ≠ rt.nativeAssetId)
    (hhome : ConcrateAsset.origin (.of location amount) = some home) (hnative : rt.isNativeAssetId home = true)
    (hfees : rt.reanchored (.of rt.nativeAssetId n) destLocation = some fees) :
    SentWell rt (.of location amount) (.of rt.nativeAssetId n)
      [.withdrawAsset [.of location amount, .of rt.nativeAssetId n], .depositReserveAsset .wildAll 2 destLocation
        [.buyExecution fees weight, .depositAsset .wildAll 2 recipient]] where
  routed a ha := by
    rcases List.mem_cons.mp ha with rfl | ha
    · exact ⟨home, hhome, hnative⟩
    · rcases List.mem_singleton.mp ha with rfl
      exact ⟨_, origin_native (isNativeAssetId_nativeAssetId rt) _, isNativeAssetId_nativeAssetId rt⟩
  withdrawn := (if_neg (of_id_ne hne.symm _ _)).symm
  limits := by
    change Xcm.Limits
      (([MultiAsset.of location amount, .of rt.nativeAssetId n] : List MultiAsset).map (·.id)).dedup.length _
    rw [length_two_ids hne]
    exact .withdraw _ (.reserve _ _ (.buy _ _ (.deposit _ _ .nil)) .nil)
  covered := by
    refine .withdraw (.reserve ?_ (.nil _ _))
    rw [prepend_here]
    exact covered_last (List.mem_cons_of_mem _ (List.mem_singleton.mpr rfl)) hfees le_rfl

/-- The asset alone, to the chain of its reserve. -/
theorem sentWell_reserve (hhome : ConcrateAsset.origin (.of location amount) = some home)
    (hfees : rt.reanchored (.of location (amount / 2)) home = some fees) :
    SentWell rt (.of location amount) (.of location (amount / 2))
      [.withdrawAsset [.of location amount], .initiateReserveWithdraw .wildAll home
        [.buyExecution fees weight, .depositAsset .wildAll 1 recipient]] where
  routed a ha := by
    rcases List.mem_singleton.mp ha with rfl
    exact hhome
  withdrawn := (if_pos rfl).symm
  limits := .withdraw _ (.initiate _ _ (.buy _ _ (.deposit _ _ .nil)) .nil)
  covered := by
    refine .withdraw (.initiate ?_ (.nil _ _))
    rw [prepend_here]
    exact covered_last (List.mem_singleton.mpr rfl) hfees (Nat.div_le_self _ _)

/-- The asset alone, by the chain of its reserve. -/
theorem sentWell_forward_iff {place : MultiLocation}
    (hhome : ConcrateAsset.origin (.of location amount) = some home)
    (hfees : rt.reanchored (.of location (amount / 2)) home = some fees)
    (hfees' : rt.reanchored (.of location (amount / 2)) destLocation = some fees') :
    SentWell rt (.of location amount) (.of location (amount / 2))
        [.withdrawAsset [.of location amount], .initiateReserveWithdraw .wildAll home
          [.buyExecution fees weight, .depositReserveAsset .wildAll 1 place
            [.buyExecution fees' weight, .depositAsset .wildAll 1 recipient]]] ↔
      rt.reanchorId (home.prepend place) (.concrete location) =
        rt.reanchorId destLocation (.concrete location) := by
  rw [← covered_twice_iff hfees hfees']
  constructor
  · intro h
    cases h.covered with
    | withdraw hcovered =>
      cases hcovered with
      | initiate hxcm _ =>
        rw [prepend_here] at hxcm
        exact hxcm
  · intro hcovered
    refine ⟨?_, (if_pos rfl).symm, .withdraw _
      (.initiate _ _ (.buy _ _ (.reserve _ _ (.buy _ _ (.deposit _ _ .nil)) .nil)) .nil), ?_⟩
    · intro a ha
      rcases List.mem_singleton.mp ha with rfl
      exact hhome
    · refine .withdraw (.initiate ?_ (.nil _ _))
      rw [prepend_here]
      exact hcovered

/-- PHA that rides along to the chain of a reserve is not at home there. -/
theorem not_sentWell (hforeign : rt.isNativeAssetId home = false) {xcm : Xcm} :
    ¬SentWell rt asset fee
    [.withdrawAsset [asset, .of rt.nativeAssetId n], .initiateReserveWithdraw .wildAll home xcm] := by
  intro h
  have hhome : ConcrateAsset.origin (.of rt.nativeAssetId n) = some home :=
    h.routed _ (List.mem_cons_of_mem _ (List.mem_singleton.mpr rfl))
  rw [origin_native (isNativeAssetId_nativeAssetId rt)] at hhome
  cases hhome
  rw [isNativeAssetId_nativeAssetId] at hforeign
  cases hforeign

end Shapes

theorem straight_iff {destLocation : MultiLocation}
    (hhome : ConcrateAsset.origin (.of location amount) = some home) :
    Straight rt (.of location amount) destLocation ↔
      (rt.isFeeAsset (.of location amount) = true ∨ rt.isNativeAssetId home = true) ∧
        (rt.isNativeAssetId home = false → home ≠ destLocation →
          rt.reanchorId (home.prepend (XcmSession.invertBasedReserve home destLocation)) (.concrete location) =
            rt.reanchorId destLocation (.concrete location)) := by
  constructor
  · intro ⟨hpays, hplace⟩
    refine ⟨hpays.imp_right ?_, fun hforeign hforward => hplace home hhome hforeign hforward⟩
    intro ⟨l, hl, hnative⟩
    rw [hhome] at hl
    cases hl
    exact hnative
  · intro ⟨hpays, hplace⟩
    refine ⟨hpays.imp_right fun hnative => ⟨home, hhome, hnative⟩, ?_⟩
    intro l hl hforeign hforward
    rw [hhome] at hl
    cases hl
    exact hplace hforeign hforward

/-- **Assets go through their reserves**, and all else of a message is as it
should be, exactly if the transfer is a straight one. -/
theorem sent_through_reserves_iff (hdoc : rt.Documented) {dest : MultiLocation} (hfee : rt.feeOf asset = .ok fee)
    (hbuilt : buildMessage rt origin asset dest destWeight = .ok message) :
    SentWell rt asset fee message ↔ Straight rt asset ⟨dest.parents, dest.interior.dropLast⟩ := by
  obtain ⟨session, hfee', rfl, hdest, hmessage⟩ := buildMessage_session hbuilt
  rw [hfee] at hfee'
  cases hfee'
  rw [← hdest]
  obtain ⟨home, recipient, hhome, hshape⟩ := message_cases hmessage
  obtain ⟨location, amount, hasset⟩ := origin_some hhome
  have hcases := withdrawal_cases hdoc hasset (hasset ▸ hfee)
  rw [hasset] at hhome ⊢
  rw [straight_iff hhome]
  rcases hcases with ⟨hsame, hw, hpays⟩ | ⟨hpha, hne, hw, hnotfee, hlocation⟩
  · rw [hw, hsame] at hshape
    rw [hsame]
    rcases hshape with ⟨hnative, fees, hfees, rfl⟩ | ⟨hforeign, hreserve, fees, hfees, rfl⟩ |
      ⟨hforeign, hforward, fees, fees', hfees, hfees', rfl⟩
    · refine iff_of_true (sentWell_native hhome hnative hfees) ⟨.inr hnative, ?_⟩
      intro hforeign
      rw [hnative] at hforeign
      cases hforeign
    · refine iff_of_true (sentWell_reserve hhome hfees) ⟨.inl ?_, fun _ hforward => absurd hreserve hforward⟩
      exact hpays.resolve_right fun hnative => not_native hhome hforeign hnative
    · rw [sentWell_forward_iff hhome hfees hfees']
      constructor
      · intro heq
        exact ⟨.inl (hpays.resolve_right fun hnative => not_native hhome hforeign hnative), fun _ _ => heq⟩
      · intro ⟨_, heq⟩
        exact heq hforeign hforward
  · rw [hw, hpha] at hshape
    rw [hpha]
    have hnot (hforeign : rt.isNativeAssetId home = false) :
        ¬(rt.isFeeAsset (.of location amount) = true ∨ rt.isNativeAssetId home = true) := by
      rw [hnotfee, hforeign]
      simp
    rcases hshape with ⟨hnative, fees, hfees, rfl⟩ | ⟨hforeign, hreserve, fees, hfees, rfl⟩ |
      ⟨hforeign, hforward, fees, fees', hfees, hfees', rfl⟩
    · refine iff_of_true (sentWell_native_pair hne hhome hnative hfees) ⟨.inr hnative, ?_⟩
      intro hforeign
      rw [hnative] at hforeign
      cases hforeign
    · exact iff_of_false (not_sentWell hforeign) fun h => hnot hforeign h.1
    · exact iff_of_false (not_sentWell hforeign) fun h => hnot hforeign h.1

/-! ## A token of another parachain -/

namespace Demo

/-- The parachain 2004 with one fee asset, the token of the parachain 2001. The
ids are those that its siblings have for PHA and for their own token. -/
def sending : XcmRuntime where
  parachainId := 2004
  isFeeAsset asset := asset.id = .concrete ⟨1, [.parachain 2001]⟩
  defaultFee := 100000000000
  contains a b := match a.fungibility, b.fungibility with
    | .fungible n, .fungible m => a.id = b.id && m ≤ n
    | .nonFungible n, .nonFungible m => a.id = b.id && n = m
    | _, _ => false
  reanchorId target id :=
    if id = .concrete .here then some (.concrete ⟨1, [.parachain 2004]⟩)
    else if id = .concrete target then some (.concrete .here)
    else some id

theorem sending_documented : sending.Documented where
  contains_of location n m := by
    change ((XcmAssetId.concrete location = .concrete location) && decide (m ≤ n)) = true ↔ m ≤ n
    simp
  contains_id a b h := by
    unfold sending at h
    dsimp only at h
    split at h
    · exact of_decide_eq_true (Bool.and_eq_true_iff.mp h).1
    · exact of_decide_eq_true (Bool.and_eq_true_iff.mp h).1
    · cases h

def sender : MultiLocation := ⟨0, [.accountId32 .any (Vector.replicate 32 1)]⟩

/-- An account of a sibling. -/
def sibling (id : ℕ) : MultiLocation := ⟨1, [.parachain id, .accountId32 .any (Vector.replicate 32 2)]⟩

end Demo

/-- The token of the parachain 2001, home to it. -/
theorem sent_through_reserves_demo : ∃ message,
    buildMessage Demo.sending Demo.sender (.of ⟨1, [.parachain 2001]⟩ 10) (Demo.sibling 2001) 1 = .ok message ∧
      SentWell Demo.sending (.of ⟨1, [.parachain 2001]⟩ 10) (.of ⟨1, [.parachain 2001]⟩ 5) message := by
  have hfee : Demo.sending.feeOf (.of ⟨1, [.parachain 2001]⟩ 10) = .ok (.of ⟨1, [.parachain 2001]⟩ 5) := rfl
  have hbuilt : buildMessage Demo.sending Demo.sender (.of ⟨1, [.parachain 2001]⟩ 10) (Demo.sibling 2001) 1 =
      .ok [.withdrawAsset [.of ⟨1, [.parachain 2001]⟩ 10], .initiateReserveWithdraw .wildAll ⟨1, [.parachain 2001]⟩
        [.buyExecution (.of .here 5) 1,
          .depositAsset .wildAll 1 ⟨0, [.accountId32 .any (Vector.replicate 32 2)]⟩]] := rfl
  refine ⟨_, hbuilt, (sent_through_reserves_iff Demo.sending_documented hfee hbuilt).mpr ⟨.inl (by decide), ?_⟩⟩
  intro home hhome _ hforward
  cases hhome
  exact absurd rfl hforward

/-- A token of the parachain 2000 that is no fee asset, home to it: PHA is to be
withdrawn there, which is reserved on this chain. -/
theorem pha_rides_along : ∃ message,
    buildMessage Demo.sending Demo.sender (.of ⟨1, [.parachain 2000]⟩ 10) (Demo.sibling 2000) 1 = .ok message ∧
      .of ⟨1, [.parachain 2004]⟩ 100000000000 ∈ message.withdrawn ∧
      ¬Demo.sending.Routed message (.of ⟨1, [.parachain 2004]⟩ 100000000000) := by
  have hbuilt : buildMessage Demo.sending Demo.sender (.of ⟨1, [.parachain 2000]⟩ 10) (Demo.sibling 2000) 1 =
      .ok [.withdrawAsset [.of ⟨1, [.parachain 2000]⟩ 10, .of ⟨1, [.parachain 2004]⟩ 100000000000],
        .initiateReserveWithdraw .wildAll ⟨1, [.parachain 2000]⟩
          [.buyExecution (.of ⟨1, [.parachain 2004]⟩ 100000000000) 1,
            .depositAsset .wildAll 2 ⟨0, [.accountId32 .any (Vector.replicate 32 2)]⟩]] := rfl
  refine ⟨_, hbuilt, List.mem_cons_of_mem _ (List.mem_singleton.mpr rfl), ?_⟩
  intro hrouted
  cases hrouted

end Khala.XTransfer
