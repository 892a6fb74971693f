/-
Whether the reserves can pay.

Over every run whose steps meet `Backs`, a reserve holds what it held at first
and what was announced, less what was released. If the bridge never asks for
more than is outstanding, a reserve can pay what is outstanding of any of its
resource ids. PHA that XCM sends over the bridge goes to another account than
the one that PHA is released from.
-/
import Khala.DepositAtomicity

namespace Khala.XTransfer

open Bridge (BridgeChainId ResourceId BridgeEvent Origin)

variable {S P : Type} {rt : Runtime S} {s s' s₀ : State S P} {rid : ResourceId} {token : Token}
  {account : AccountId} {reserve : Token × AccountId} {registry : Registry} {flows : List (ResourceId × ℕ)}

/-! ## Flows by resource id -/

theorem ofRid_cons (flow : ResourceId × ℕ) :
    ofRid (flow :: flows) rid = (if flow.1 = rid then flow.2 else 0) + ofRid flows rid := by
  unfold ofRid
  by_cases h : flow.1 = rid
  · simp [h]
  · simp [h]

theorem ofRid_append (flows' : List (ResourceId × ℕ)) :
    ofRid (flows ++ flows') rid = ofRid flows rid + ofRid flows' rid := by
  simp [ofRid]

theorem through_cons (flow : ResourceId × ℕ) : rt.through registry reserve (flow :: flows) =
    (if rt.reserveOf registry flow.1 = some reserve then flow.2 else 0) + rt.through registry reserve flows := by
  unfold Runtime.through
  by_cases h : rt.reserveOf registry flow.1 = some reserve
  · simp [h]
  · simp [h]

/-- What flows of one reserve, resource id by resource id. -/
theorem through_eq_sum (rids : Finset ResourceId) (hrids : ∀ flow ∈ flows, flow.1 ∈ rids) :
    rt.through registry reserve flows = ∑ rid ∈ rids with rt.reserveOf registry rid =
    some reserve, ofRid flows rid := by
  induction flows with
  | nil => simp [Runtime.through, ofRid]
  | cons flow flows ih =>
    have hflow : flow.1 ∈ rids := hrids flow (by simp)
    simp only [through_cons, ofRid_cons, Finset.sum_add_distrib, Finset.sum_ite_eq,
      Finset.mem_filter, hflow, true_and]
    rw [ih fun flow' h => hrids flow' (by simp [h])]

/-- No more is released of a resource id than is announced. -/
def Solvent (rt : Runtime S) (s : State S P) : Prop :=
  ∀ rid, rt.reserveOf s.registry rid ≠ none → ofRid s.released rid ≤ ofRid s.flowsOut rid

/-- What is outstanding of one resource id is outstanding of its reserve. -/
theorem Solvent.outstanding_le (h : Solvent rt s) (hr : rt.reserveOf s.registry rid = some reserve) :
    s.outstanding rid + rt.through s.registry reserve s.released ≤ rt.through s.registry reserve s.flowsOut := by
  let rids := (rid :: (s.flowsOut ++ s.released).map Prod.fst).toFinset
  have hout : ∀ flow ∈ s.flowsOut, flow.1 ∈ rids := fun flow hf => by
    simp only [rids, List.mem_toFinset, List.mem_cons, List.mem_map, List.mem_append]
    exact .inr ⟨flow, .inl hf, rfl⟩
  have hback : ∀ flow ∈ s.released, flow.1 ∈ rids := fun flow hf => by
    simp only [rids, List.mem_toFinset, List.mem_cons, List.mem_map, List.mem_append]
    exact .inr ⟨flow, .inr hf, rfl⟩
  have hmem : rid ∈ rids.filter fun rid => rt.reserveOf s.registry rid = some reserve := by simp [rids, hr]
  rw [through_eq_sum rids hout, through_eq_sum rids hback]
  calc s.outstanding rid + ∑ rid ∈ rids with rt.reserveOf s.registry rid = some reserve, ofRid s.released rid
      = ∑ rid' ∈ rids with rt.reserveOf s.registry rid' = some reserve,
          ((if rid = rid' then s.outstanding rid else 0) + ofRid s.released rid') := by
        rw [Finset.sum_add_distrib, Finset.sum_ite_eq, if_pos hmem]
    _ ≤ _ := by
        refine Finset.sum_le_sum fun rid' hrid' => ?_
        have hle := h rid' (by simp [(Finset.mem_filter.mp hrid').2])
        by_cases he : rid = rid'
        · subst he
          unfold State.outstanding
          simp only [if_true]
          omega
        · simpa [he] using hle

/-! ## What is released -/

/-- More may be announced, and nothing is released. -/
structure Listed (s s' : State S P) : Prop where
  registry : s'.registry = s.registry
  released : s'.released = s.released
  flows : ∀ rid, ofRid s.flowsOut rid ≤ ofRid s'.flowsOut rid

namespace Listed

theorem refl (s : State S P) : Listed s s := ⟨rfl, rfl, fun _ => le_refl _⟩

theorem solvent (h : Listed s s') (hs : Solvent rt s) : Solvent rt s' := by
  intro rid hr
  rw [h.registry] at hr
  rw [h.released]
  exact (hs rid hr).trans (h.flows rid)

end Listed

theorem listed_kept : KeptByDeposits Set.univ (Listed s₀) where
  tokens _ _ h := ⟨h.registry, h.released, h.flows⟩
  deposit s destId event _ _ _ h := by
    refine ⟨h.registry, h.released, fun rid => (h.flows rid).trans ?_⟩
    unfold State.deposited State.flowsOut
    rw [List.map_append, ofRid_append]
    omega

/-- Within what is outstanding, a release leaves no resource id overdrawn. -/
theorem transfer_solvent {origin : Origin AccountId} {dest : Bytes} {amount : ℕ} (hd : rt.tokens.Documented)
    (ha : rt.Apart s.registry) (hs : Solvent rt s) (hwithin : Within rt s (.transfer origin dest amount rid)) :
    Solvent rt (transfer rt origin dest amount rid s).2 := by
  by_cases horigin : origin = .signed rt.bridgeAccount
  · subst horigin
    cases hdecode : rt.hashing.decode dest with
    | none =>
      rw [transfer_of_undecoded hdecode]
      exact hs
    | some place =>
      cases hdrawn : rt.drawn s.registry rid amount s.tokens with
      | error e =>
        rw [transfer_of_undrawn hdecode hdrawn]
        exact hs
      | ok t =>
        obtain ⟨location, released, -, hcases, htransfer⟩ := transfer_of_drawn hdecode hdrawn
        rw [htransfer]
        refine ((listed_kept.payOut s.registry location place amount).state (Listed.refl _)).solvent ?_
        rcases hcases with ⟨hdue, hrelease, rfl⟩ | ⟨-, rfl, rfl⟩
        · obtain ⟨token, account, hof, -, -⟩ := release_reserve hd ha hdue hrelease
          have hle := hwithin rfl (by rw [hof]; nofun)
          intro rid' hr'
          have hsolvent : ofRid s.released rid' ≤ ofRid s.flowsOut rid' := hs rid' hr'
          change ofRid (s.released ++ [(rid, amount)]) rid' ≤ ofRid s.flowsOut rid'
          rw [ofRid_append, ofRid_cons]
          by_cases he : rid = rid'
          · subst he
            unfold State.outstanding at hle
            simp only [if_true, ofRid, List.filter_nil, List.map_nil, List.sum_nil] at hle hsolvent ⊢
            omega
          · simpa [he, ofRid] using hsolvent
        · exact hs
  · rw [transfer_of_stranger horigin]
    exact hs

/-! ## Runs -/

theorem step_solvent {op : Op S P} (hd : rt.tokens.Documented) (ha : rt.Apart s.registry) (hs : Solvent rt s)
    (hwithin : Within rt s op) : Solvent rt (exec rt s op) := by
  cases op with
  | transferNative origin amount recipient destId =>
    exact ((listed_kept.transferNative origin amount recipient (Set.mem_univ destId)).state
      (Listed.refl s)).solvent hs
  | transferAssets origin asset destId recipient amount =>
    exact ((listed_kept.transferAssets origin asset (Set.mem_univ destId) recipient amount).state
      (Listed.refl s)).solvent hs
  | depositAsset what destId recipient =>
    exact ((listed_kept.depositAsset what fun _ _ => Set.mem_univ _).state (Listed.refl s)).solvent hs
  | transfer origin dest amount rid' => exact transfer_solvent hd ha hs hwithin
  | other tokens bridge bridgeFee => exact hs

theorem solvent_of_reachable (hd : rt.tokens.Documented) (ha : rt.Apart s₀.registry)
    (hs : s₀.registry.Sound rt.hashing) (hr : rt.reserveOf s₀.registry rid = some (token, account))
    (hreleased : s₀.released = []) (h : ReachableWhere rt (fun s op => Backs rt s op ∧ Within rt s op) s₀ s) :
    Solvent rt s := by
  have hboth : Solvent rt s ∧ Balanced rt (token, account) s₀ s := by
    refine h.invariant (fun s => Solvent rt s ∧ Balanced rt (token, account) s₀ s) ?_ ?_
    · rintro _ rfl
      refine ⟨fun rid' _ => ?_, .refl _⟩
      simp [hreleased, ofRid]
    · rintro s op _ ⟨hsolvent, hb⟩ ⟨hbacks, hwithin⟩ rfl
      have hregistry := hb.registry
      refine ⟨step_solvent hd (hregistry ▸ ha) hsolvent hwithin, ?_⟩
      exact hb.trans (step_balanced hd (hregistry ▸ ha) (hregistry ▸ hs) (hregistry ▸ hr) hbacks)
  exact hboth.1

/-- **The reserves are backed.** Where every step meets `Backs`, a reserve holds
what it held at first and what was announced of it, less what was released. If
the bridge asks for what is outstanding only, the reserve can pay all that is
outstanding of any of its resource ids. -/
theorem reserve_backed (hd : rt.tokens.Documented) (hregistry : Registry.Reachable rt.hashing s₀.registry)
    (ha : rt.Apart s₀.registry) (hannounced : s₀.announced = []) (hreleased : s₀.released = [])
    (hr : rt.reserveOf s₀.registry rid = some (token, account)) (h : ReachableWhere rt (Backs rt) s₀ s) :
    rt.tokens.balance s.tokens token account + rt.through s₀.registry (token, account) s.released =
        rt.tokens.balance s₀.tokens token account + rt.through s₀.registry (token, account) s.flowsOut ∧
      (ReachableWhere rt (fun s op => Backs rt s op ∧ Within rt s op) s₀ s →
        ∀ amount ≤ s.outstanding rid, amount ≤ rt.tokens.balance s.tokens token account) := by
  have hb := balanced_of_reachable hd ha hregistry.sound hr h
  have hbooks : rt.tokens.balance s.tokens token account + rt.through s₀.registry (token, account) s.released =
      rt.tokens.balance s₀.tokens token account + rt.through s₀.registry (token, account) s.flowsOut := by
    have := hb.books
    unfold Runtime.through State.flowsOut at this ⊢
    rw [hannounced, hreleased] at this
    simpa using this
  refine ⟨hbooks, fun hwithin amount hamount => ?_⟩
  have hsolvent := solvent_of_reachable hd ha hregistry.sound hr hreleased hwithin
  have hle := hsolvent.outstanding_le (by rwa [hb.registry])
  rw [hb.registry] at hle
  omega

/-! ## PHA over the bridge by XCM -/

namespace Demo

/-- BLAKE2 of the encoding of the location of chain 0. -/
def chainHash : Bytes32 :=
  #v[175, 189, 75, 152, 93, 83, 128, 181, 70, 181, 105, 165, 131, 147, 50, 152,
    76, 254, 34, 99, 13, 139, 81, 229, 101, 255, 246, 115, 109, 63, 165, 124]

/-- BLAKE2 of the encoding of the location of the temporary account. -/
def temporaryHash : Bytes32 :=
  #v[76, 70, 185, 195, 171, 189, 180, 146, 56, 60, 163, 187, 212, 250, 161, 123,
    229, 0, 29, 207, 117, 68, 242, 11, 249, 77, 71, 195, 47, 96, 182, 27]

def alice : AccountId := Vector.replicate 32 1

/-- `(0, X1(AccountId32(Any, alice)))`, encoded. -/
def aliceDest : Bytes := [0, 1, 1, 0] ++ alice.toList

/-- A hash that starts with `n`. -/
def tagged (n : UInt8) : Bytes32 := Vector.ofFn fun i => if i = 0 then n else 0

/-- What is not hashed here is told apart by one byte. -/
def codec : Hashing where
  encode location := match location.interior with
    | [] => [0, 0]
    | [.generalKey _, .generalIndex n] => if n = 0 then [0, 2, 6, 8, 0x63, 0x62, 5, 0] else [UInt8.ofNat n]
    | _ => [0, 1, 6, 60] ++ bridgeTransferKey
  decode bytes := if bytes = aliceDest then some alice.location else none
  blake2
    | [0, 0] => hereHash
    | [0, 2, 6, 8, 0x63, 0x62, 5, 0] => chainHash
    | [n] => tagged n
    | _ => temporaryHash

def bridged : Runtime Ledger := { runtime with hashing := codec }

def registered : Registry where
  idByAssets := (∅ : StorageMap MultiLocation AssetId).insert .here 0
  assetByIds := (∅ : StorageMap AssetId MultiLocation).insert 0 .here
  assetByResourceIds := ∅
  registryInfoByIds := (∅ : StorageMap AssetId AssetRegistryInfo).insert 0
    ⟨.here, some .here, [.xcmp], ⟨[], [], 12⟩⟩

/-- Alice has a hundred, and the bridge leads to chain 0. -/
def funded : State Ledger Unit where
  tokens := ⟨fun token who => if token = .native ∧ who = alice then 100 else 0,
    fun token => if token = .native then 100 else 0⟩
  bridge := { Bridge.Storage.default with chainNonces := (∅ : StorageMap BridgeChainId ℕ).insert 0 0 }
  bridgeFee := (∅ : StorageMap BridgeChainId (ℕ × ℕ)).insert 0 (10, 0)
  registry := registered
  announced := []
  released := []

theorem registered_reachable : Registry.Reachable codec registered :=
  .step (o := .register .here 0 ⟨[], [], 12⟩ true) (.init rfl) trivial rfl

theorem add_balance (l : Ledger) (token token' : Token) (who x : AccountId) (amount : ℕ) :
    (l.add token who amount).balance token' x =
      l.balance token' x + if token' = token ∧ x = who then amount else 0 := by
  unfold Ledger.add
  by_cases htoken : token' = token
  · subst htoken
    by_cases hx : x = who
    · simp [hx]
    · simp [hx]
  · simp [htoken]

theorem sub_balance {l l' : Ledger} {token : Token} {who : AccountId} {amount : ℕ}
    (h : l.sub token who amount = .ok l') (token' : Token) (x : AccountId) :
    l'.balance token' x + (if token' = token ∧ x = who then amount else 0) = l.balance token' x := by
  unfold Ledger.sub at h
  split at h
  · next hle =>
    cases h
    by_cases htoken : token' = token
    · subst htoken
      by_cases hx : x = who
      · subst hx
        simp
        omega
      · simp [hx]
    · simp [htoken]
  · cases h

theorem move_balance {l l' : Ledger} {token : Token} {source dest : AccountId} {amount : ℕ}
    (h : l.move token source dest amount = .ok l') (token' : Token) (x : AccountId) :
    l'.balance token' x + (if token' = token ∧ x = source then amount else 0) =
      l.balance token' x + if token' = token ∧ x = dest then amount else 0 := by
  unfold Ledger.move at h
  cases hsub : l.sub token source amount with
  | error e =>
    rw [hsub] at h
    cases h
  | ok l₁ =>
    rw [hsub] at h
    cases h
    have := sub_balance hsub token' x
    rw [add_balance]
    omega

theorem tokens_documented : tokens.Documented where
  withdraw_exact {t t' who amount} h _ := by simpa [tokens] using sub_balance h .native who
  withdraw_frame {t t' who amount} h token x hne := by
    have := sub_balance h token x
    rwa [if_neg (by tauto)] at this
  transfer_dest {t t' source dest amount} h hne := by simpa [tokens, hne.symm] using move_balance h .native dest
  transfer_frame {t t' source dest amount} h token x hne := by
    have := move_balance h token x
    rwa [if_neg (by tauto), if_neg (by tauto)] at this
  deposit_frame {t who amount} token x hne := by
    refine (add_balance t .native token who x amount).trans ?_
    rw [if_neg (by tauto)]
    rfl
  burn_exact {t t' id who amount} h _ := by simpa [tokens] using sub_balance h (.asset id) who
  burn_frame {t t' id who amount} h token x hne := by
    have hother : ¬(token = .asset id ∧ x = who) := by
      rintro ⟨rfl, rfl⟩
      rcases hne with hne | ⟨id', hid, hne⟩
      · exact hne rfl
      · cases hid
        exact hne rfl
    have := sub_balance h token x
    rwa [if_neg hother] at this
  mint_exact {t t' id who amount} h := by
    cases h
    refine (add_balance t (.asset id) (.asset id) who who amount).trans ?_
    simp [tokens]
  mint_frame {t t' id who amount} h token x hne := by
    cases h
    refine (add_balance t (.asset id) token who x amount).trans ?_
    rw [if_neg (by tauto)]
    rfl
  transferAsset_source {t t' id source dest amount} h hne := by
    have := move_balance h (.asset id) source
    simp only [hne, and_true, and_false, if_true, if_false] at this
    change amount ≤ t.balance _ _ ∧ (t'.balance _ _ = 0 ∨ t'.balance _ _ + amount = t.balance _ _)
    omega
  transferAsset_dest {t t' id source dest amount} h hne _ := by
    simpa [tokens, hne.symm] using move_balance h (.asset id) dest
  transferAsset_frame {t t' id source dest amount} h token x hsource hne := by
    have := move_balance h token x
    rwa [if_neg (by tauto), if_neg (by tauto)] at this
  transferAsset_minimum _ := rfl
  converts h := by
    cases h
    rfl

theorem chain_account (chain : BridgeChainId) (h : chain ≠ 0) :
    codec.intoAccount (.ofChain chain) = tagged chain := by
  have hn : chain.toNat ≠ 0 := fun hz => h (UInt8.toNat_inj.mp hz)
  simp [Hashing.intoAccount, codec, MultiLocation.ofChain, hn]

theorem chain_zero_account : codec.intoAccount (.ofChain 0) = chainHash := rfl

/-- A reserve is the bridge's account, that of chain 0, or ends with a zero. -/
theorem not_isReserve {who : AccountId} (hbridge : who ≠ bridgeAccount)
    (hzero : who ≠ chainHash) (hlast : who[31] ≠ 0) :
    ¬bridged.IsReserve who := by
  rintro (h | ⟨chain, h⟩)
  · exact hbridge h
  · by_cases hc : chain = 0
    · subst hc
      exact hzero h
    · have h : who = codec.intoAccount (.ofChain chain) := h
      rw [chain_account chain hc] at h
      rw [h] at hlast
      simp [tagged] at hlast

theorem bridged_adapts : bridged.Adapts := ⟨runtime_adapts.currency, runtime_adapts.fungibles⟩

theorem bridged_apart : bridged.Apart registered where
  chains chain chain' h := by
    have h : codec.intoAccount (.ofChain chain) = codec.intoAccount (.ofChain chain') := h
    by_cases hc : chain = 0
    · by_cases hc' : chain' = 0
      · rw [hc, hc']
      · rw [hc, chain_zero_account, chain_account chain' hc'] at h
        have := congrArg (fun v : Bytes32 => v[31]) h
        simp [chainHash, tagged] at this
    · by_cases hc' : chain' = 0
      · rw [hc', chain_zero_account, chain_account chain hc] at h
        have := congrArg (fun v : Bytes32 => v[31]) h
        simp [chainHash, tagged] at this
      · rw [chain_account chain hc, chain_account chain' hc'] at h
        have := congrArg (fun v : Bytes32 => v[0]) h
        simpa [tagged] using this
  bridge chain h := by
    have h : bridgeAccount = codec.intoAccount (.ofChain chain) := h
    by_cases hc : chain = 0
    · subst hc
      exact absurd h (by decide)
    · rw [chain_account chain hc] at h
      have := congrArg (fun v : Bytes32 => v[1]) h
      simp [bridgeAccount, tagged] at this
  treasury := not_isReserve (by decide) (by decide) (by decide)
  temporary := not_isReserve (by decide) (by decide) (by decide)
  onFeePay t amount token who hreserve := by
    refine (add_balance t .native token (Vector.replicate 32 4) who amount).trans ?_
    rw [if_neg ?_]
    · rfl
    · rintro ⟨-, rfl⟩
      exact not_isReserve (by decide) (by decide) (by decide) hreserve
  xcm _ _ _ _ _ _ _ _ := rfl
  adapters := bridged_adapts
  rids asset asset' chain h h' _ := by
    have hhere (a : MultiLocation) (h : a = .here ∨ registered.idByAssets.lookup a ≠ none) : a = .here := by
      rcases h with h | h
      · exact h
      · by_contra hne
        refine h ?_
        unfold registered
        rw [StorageMap.lookup_insert_ite, if_neg hne]
        rfl
    rw [hhere asset h, hhere asset' h']

def sent : State Ledger Unit := exec bridged funded (.transferNative (.signed alice) 40 [0x78] 0)

def returned : State Ledger Unit :=
  exec bridged sent (.transfer (.signed bridgeAccount) aliceDest 15 (codec.genPhaRid 0))

/-- Thirty PHA that XCM sends to chain 0. -/
def deposited : State Ledger Unit := exec bridged funded (.depositAsset (.of .here 30) 0 [0x78])

end Demo

theorem reserve_backed_demo : ReachableWhere Demo.bridged
    (fun s op => Backs Demo.bridged s op ∧ Within Demo.bridged s op)
      Demo.funded Demo.returned ∧
    Demo.returned.outstanding (Demo.codec.genPhaRid 0) = 25 ∧
    25 ≤ Demo.tokens.balance Demo.returned.tokens .native Demo.bridgeAccount := by
  have hrun : ReachableWhere Demo.bridged (fun s op => Backs Demo.bridged s op ∧ Within Demo.bridged s op)
      Demo.funded Demo.returned := by
    have hsent : ReachableWhere Demo.bridged (fun s op => Backs Demo.bridged s op ∧ Within Demo.bridged s op)
        Demo.funded Demo.sent := by
      refine .step (.init rfl) (?_ : Backs Demo.bridged Demo.funded (.transferNative _ 40 [0x78] 0) ∧ True) rfl
      refine ⟨?_, trivial⟩
      rintro _ ⟨⟩
      exact Demo.not_isReserve (by decide) (by decide) (by decide)
    let op : Op Demo.Ledger Unit := .transfer (.signed Demo.bridgeAccount) Demo.aliceDest 15
        (Demo.codec.genPhaRid 0)
    have hbacks : Backs Demo.bridged Demo.sent op := by
      refine fun _ => ⟨?_, fun token account _ => ?_⟩
      · intro network id hplace
        cases hplace
        exact Demo.not_isReserve (by decide) (by decide) (by decide)
      · unfold NoDust
        have hleast : Demo.bridged.tokens.minimum Demo.sent.tokens token = 1 := rfl
        omega
    have hwithin : Within Demo.bridged Demo.sent op := fun _ _ => by decide +kernel
    exact .step hsent ⟨hbacks, hwithin⟩ rfl
  have hout : Demo.returned.outstanding (Demo.codec.genPhaRid 0) = 25 := by decide +kernel
  have hd : Demo.bridged.tokens.Documented := Demo.tokens_documented
  have hregistry : Registry.Reachable Demo.bridged.hashing Demo.funded.registry := Demo.registered_reachable
  have hr : Demo.bridged.reserveOf Demo.funded.registry (Demo.codec.genPhaRid 0) =
      some (.native, Demo.bridgeAccount) :=
    reserveOf_genPhaRid _ 0
  obtain ⟨-, hpays⟩ := reserve_backed hd hregistry Demo.bridged_apart rfl rfl hr (hrun.mono fun _ _ h => h.1)
  exact ⟨hrun, hout, hpays hrun 25 hout.ge⟩

/-- PHA by XCM to chain 0 is announced, and the bridge's account has nothing to pay it back from. -/
theorem reserve_not_backed : Demo.tokens.Documented ∧ Registry.Reachable Demo.codec Demo.funded.registry ∧
    Demo.bridged.Apart Demo.funded.registry ∧
    Demo.bridged.reserveOf Demo.funded.registry (Demo.codec.genPhaRid 0) = some (.native, Demo.bridgeAccount) ∧
    ReachableWhere Demo.bridged (fun _ op => op = .depositAsset (.of .here 30) 0 [0x78])
    Demo.funded Demo.deposited ∧
    Demo.tokens.balance Demo.deposited.tokens .native Demo.bridgeAccount +
        Demo.bridged.through Demo.funded.registry (.native, Demo.bridgeAccount) Demo.deposited.released <
      Demo.tokens.balance Demo.funded.tokens .native Demo.bridgeAccount +
        Demo.bridged.through Demo.funded.registry (.native, Demo.bridgeAccount) Demo.deposited.flowsOut ∧
    Demo.deposited.outstanding (Demo.codec.genPhaRid 0) = 20 ∧
    (transfer Demo.bridged (.signed Demo.bridgeAccount) Demo.aliceDest 20
      (Demo.codec.genPhaRid 0) Demo.deposited).1 =
      .error (.other 0) :=
  ⟨Demo.tokens_documented, Demo.registered_reachable, Demo.bridged_apart, reserveOf_genPhaRid _ 0,
    .step (.init rfl) rfl rfl, by decide +kernel, by decide +kernel, by decide +kernel⟩

end Khala.XTransfer
