/-
The maps of the asset registry agree (`pallets/xtransfer/src/assets_wrapper.rs`).

An asset is registered under one id, its record is kept under that id, and a
resource id leads to the asset whose record lists it. The record is what the
other three maps are read off (`Consistent`); a call changes the record of one
asset. Resource ids of different assets differ, since the hashes differ in more
than the byte that names the chain.
-/
import Khala.ReserveBacking

namespace Khala.XTransfer

open Bridge (BridgeChainId ResourceId)

/-! ## Enabled bridges -/

/-- How often the record lists the bridge of a resource id. -/
def AssetRegistryInfo.timesEnabled (info : AssetRegistryInfo) (rid : ResourceId) : ℕ :=
  info.enabledBridges.countP (Registry.XBridgeConfig.leadsTo (getChainid rid) rid)

/-- The hashes of the assets differ in more than the first byte. -/
def Hashing.TellsApart (hashing : Hashing) (assets : Set MultiLocation) : Prop :=
  ∀ asset ∈ assets, ∀ asset' ∈ assets, (∀ i (_ : 0 < i) (_ : i < 32),
    (hashing.blake2 (hashing.encode asset))[i] = (hashing.blake2 (hashing.encode asset'))[i]) → asset = asset'

namespace Registry

variable {hashing : Hashing} {assets : Set MultiLocation} {r r' : Registry} {assetId : AssetId}
  {chainId : BridgeChainId} {rid : ResourceId} {asset : MultiLocation} {info : AssetRegistryInfo}

theorem leadsTo_iff {bridge : XBridgeConfig} : XBridgeConfig.leadsTo chainId rid bridge = true ↔
    ∃ account isMintable, bridge = .chainBridge chainId rid account isMintable := by
  cases bridge with
  | xcmp => simp [XBridgeConfig.leadsTo]
  | chainBridge cid rid' account isMintable =>
    simp only [XBridgeConfig.leadsTo, Bool.and_eq_true, decide_eq_true_eq]
    constructor
    · rintro ⟨rfl, rfl⟩
      exact ⟨_, _, rfl⟩
    · rintro ⟨_, _, h⟩
      cases h
      exact ⟨rfl, rfl⟩

/-- A bridge leads to one chain under one resource id. -/
theorem leadsTo_unique {bridge : XBridgeConfig} {chainId' : BridgeChainId} {rid' : ResourceId}
    (h : XBridgeConfig.leadsTo chainId rid bridge = true)
    (h' : XBridgeConfig.leadsTo chainId' rid' bridge = true) :
    rid = rid' := by
  obtain ⟨_, _, rfl⟩ := leadsTo_iff.mp h
  obtain ⟨_, _, he⟩ := leadsTo_iff.mp h'
  cases he
  rfl

/-- Erasing the first of a kind takes one from its count. -/
theorem countP_eraseP_self {α : Type} (p : α → Bool) (l : List α) : (l.eraseP p).countP p = l.countP p - 1 := by
  induction l with
  | nil => rfl
  | cons a l ih =>
    cases ha : p a with
    | true => simp [List.eraseP_cons_of_pos ha, List.countP_cons_of_pos ha]
    | false =>
      have hn : ¬p a = true := by simp [ha]
      rw [List.eraseP_cons_of_neg hn, List.countP_cons_of_neg hn, List.countP_cons_of_neg hn, ih]

/-- It takes none from the count of another kind. -/
theorem countP_eraseP_other {α : Type} {p q : α → Bool} (h : ∀ a, p a = true → ¬q a = true) (l : List α) :
    (l.eraseP p).countP q = l.countP q := by
  induction l with
  | nil => rfl
  | cons a l ih =>
    cases ha : p a with
    | true => rw [List.eraseP_cons_of_pos ha, List.countP_cons_of_neg (h a ha)]
    | false => rw [List.eraseP_cons_of_neg (by simp [ha]), List.countP_cons, List.countP_cons, ih]

/-- The record with one more bridge. -/
theorem timesEnabled_push (info : AssetRegistryInfo) (account : AccountId) (isMintable : Bool) (rid' : ResourceId)
    (hc : getChainid rid = chainId) :
    AssetRegistryInfo.timesEnabled
      { info with enabledBridges := info.enabledBridges ++ [.chainBridge chainId rid account isMintable] } rid' =
      info.timesEnabled rid' + if rid' = rid then 1 else 0 := by
  rw [AssetRegistryInfo.timesEnabled, List.countP_append]
  congr 1
  split
  · next he =>
    subst he
    rw [List.countP_cons_of_pos (leadsTo_iff.mpr ⟨account, isMintable, by rw [hc]⟩), List.countP_nil]
  · next he =>
    rw [List.countP_cons_of_neg, List.countP_nil]
    intro h
    obtain ⟨_, _, h⟩ := leadsTo_iff.mp h
    cases h
    exact he rfl

/-- The record with one bridge less. -/
theorem timesEnabled_erase (info : AssetRegistryInfo) (rid rid' : ResourceId) :
    AssetRegistryInfo.timesEnabled
      { info with enabledBridges := info.enabledBridges.eraseP (XBridgeConfig.leadsTo (getChainid rid) rid) }
      rid' =
      info.timesEnabled rid' - if rid' = rid then 1 else 0 := by
  unfold AssetRegistryInfo.timesEnabled
  split
  · next he =>
    subst he
    exact countP_eraseP_self _ _
  · next he => exact countP_eraseP_other (fun bridge h h' => he (leadsTo_unique h' h)) _

/-! ## Consistency -/

/-- The records are those of the registered assets, each lists its own resource
ids, each once, and a resource id leads to the asset whose record lists it. -/
structure Consistent (hashing : Hashing) (assets : Set MultiLocation) (r : Registry) : Prop where
  known : ∀ assetId info, r.registryInfoByIds.lookup assetId = some info → info.location ∈ assets
  ids : ∀ asset assetId, r.idByAssets.lookup asset = some assetId ↔ r.assetByIds.lookup assetId = some asset
  records : ∀ assetId asset, r.assetByIds.lookup assetId = some asset ↔
    ∃ info, r.registryInfoByIds.lookup assetId = some info ∧ info.location = asset
  listed : ∀ assetId info chainId rid account isMintable, r.registryInfoByIds.lookup assetId = some info →
    .chainBridge chainId rid account isMintable ∈ info.enabledBridges → rid = hashing.intoRid info.location chainId
  once : ∀ assetId info rid, r.registryInfoByIds.lookup assetId = some info → info.timesEnabled rid ≤ 1
  bound : ∀ rid asset, r.assetByResourceIds.lookup rid = some asset ↔
    ∃ assetId info, r.registryInfoByIds.lookup assetId = some info ∧ info.location = asset ∧
    info.timesEnabled rid = 1

theorem intoRid_inj (h : hashing.TellsApart assets) {asset' : MultiLocation} {chainId' : BridgeChainId}
    (hasset : asset ∈ assets) (hasset' : asset' ∈ assets)
    (he : hashing.intoRid asset chainId = hashing.intoRid asset' chainId') :
    asset = asset' ∧ chainId = chainId' := by
  constructor
  · apply h asset hasset asset' hasset'
    intro i hpos hi
    have hbyte := congrArg (fun v : Bytes32 => v[i]) he
    simpa only [Hashing.intoRid, Vector.getElem_set_ne _ _ hpos.ne] using hbyte
  · rw [← getChainid_intoRid hashing asset chainId, he, getChainid_intoRid]

/-- Unbinding removes the resource ids that are listed. -/
theorem lookup_unbind_mem {bridges : List XBridgeConfig} {bound : StorageMap ResourceId MultiLocation}
    {account : AccountId} {isMintable : Bool} (h : .chainBridge chainId rid account isMintable ∈ bridges) :
    (bridges.foldl unbindResourceId bound).lookup rid = none := by
  induction bridges generalizing bound with
  | nil => cases h
  | cons bridge bridges ih =>
    rcases List.mem_cons.mp h with rfl | hmem
    · by_contra hne
      obtain ⟨a, ha⟩ := Option.ne_none_iff_exists'.mp hne
      have : (bound.erase rid).lookup rid = some a := Sound.lookup_unbind ha
      rw [AList.lookup_erase] at this
      cases this
    · exact ih hmem

/-- It removes no other. -/
theorem lookup_unbind_not_mem {bridges : List XBridgeConfig} {bound : StorageMap ResourceId MultiLocation}
    (h : ∀ chainId account isMintable, .chainBridge chainId rid account isMintable ∉ bridges) :
    (bridges.foldl unbindResourceId bound).lookup rid = bound.lookup rid := by
  induction bridges generalizing bound with
  | nil => rfl
  | cons bridge bridges ih =>
    rw [List.foldl_cons, ih fun c account m hmem => h c account m (List.mem_cons_of_mem _ hmem)]
    cases bridge with
    | xcmp => rfl
    | chainBridge c rid' account m =>
      apply AList.lookup_erase_ne
      intro he
      exact h c account m (he ▸ List.mem_cons_self)

namespace Consistent

theorem empty : Consistent hashing assets Registry.empty := by
  constructor <;> simp [Registry.empty]

/-- A listed resource id is the asset's own. -/
theorem rid_eq (h : Consistent hashing assets r) (hinfo : r.registryInfoByIds.lookup assetId = some info)
    (ht : info.timesEnabled rid ≠ 0) : rid = hashing.intoRid info.location (getChainid rid) := by
  obtain ⟨bridge, hmem, hleads⟩ := List.countP_pos_iff.mp (Nat.pos_of_ne_zero ht)
  obtain ⟨account, isMintable, rfl⟩ := leadsTo_iff.mp hleads
  exact h.listed assetId info _ rid account isMintable hinfo hmem

/-- No record under the id of no asset. -/
theorem record_none (h : Consistent hashing assets r) (hid : r.assetByIds.lookup assetId = none) :
    r.registryInfoByIds.lookup assetId = none := by
  by_contra hne
  obtain ⟨info, hinfo⟩ := Option.ne_none_iff_exists'.mp hne
  have := (h.records assetId info.location).mpr ⟨info, hinfo, rfl⟩
  rw [hid] at this
  cases this

/-- Two records of one location are one record. -/
theorem id_unique (h : Consistent hashing assets r) {assetId' : AssetId} {info' : AssetRegistryInfo}
    (hinfo : r.registryInfoByIds.lookup assetId = some info)
    (hinfo' : r.registryInfoByIds.lookup assetId' = some info')
    (he : info.location = info'.location) : assetId = assetId' := by
  have hid := (h.ids _ _).mpr ((h.records assetId _).mpr ⟨info, hinfo, rfl⟩)
  have hid' := (h.ids _ _).mpr ((h.records assetId' _).mpr ⟨info', hinfo', rfl⟩)
  rw [he, hid'] at hid
  exact (Option.some.inj hid).symm

/-- Of an asset's own resource ids its record tells. -/
theorem bound_own (h : Consistent hashing assets r) (hinj : hashing.TellsApart assets)
    (hinfo : r.registryInfoByIds.lookup assetId = some info) (hown : rid = hashing.intoRid info.location chainId)
    (asset : MultiLocation) :
    r.assetByResourceIds.lookup rid = some asset ↔ asset = info.location ∧ info.timesEnabled rid = 1 := by
  rw [h.bound]
  constructor
  · rintro ⟨assetId', info', hinfo', rfl, ht⟩
    have hrid := h.rid_eq hinfo' (by omega : info'.timesEnabled rid ≠ 0)
    rw [hown] at hrid
    have hloc := (intoRid_inj hinj (h.known _ _ hinfo) (h.known _ _ hinfo') hrid).1
    obtain rfl := h.id_unique hinfo hinfo' hloc
    cases hinfo.symm.trans hinfo'
    exact ⟨rfl, ht⟩
  · rintro ⟨rfl, ht⟩
    exact ⟨assetId, info, hinfo, rfl, ht⟩

/-- The record of one asset changes, at one of its resource ids. -/
theorem put {info' : AssetRegistryInfo} (h : Consistent hashing assets r) (hinj : hashing.TellsApart assets)
    (hs : Sound hashing r') (hinfo : r.registryInfoByIds.lookup assetId = some info)
    (hown : rid = hashing.intoRid info.location chainId) (hassets : r'.assetByIds = r.assetByIds)
    (hinfos : r'.registryInfoByIds = r.registryInfoByIds.insert assetId info')
    (hloc : info'.location = info.location)
    (hlisted : ∀ bridge ∈ info'.enabledBridges, bridge ∈ info.enabledBridges ∨
      ∃ account isMintable, bridge = .chainBridge chainId rid account isMintable)
    (htimes : ∀ rid' ≠ rid, info'.timesEnabled rid' = info.timesEnabled rid')
    (honce : info'.timesEnabled rid ≤ 1)
    (hbound : ∀ rid' ≠ rid, r'.assetByResourceIds.lookup rid' = r.assetByResourceIds.lookup rid')
    (hrid : r'.assetByResourceIds.lookup rid = if info'.timesEnabled rid = 1 then some info.location else none) :
    Consistent hashing assets r' := by
  have hlookup (id : AssetId) : r'.registryInfoByIds.lookup id =
      if id = assetId then some info' else r.registryInfoByIds.lookup id := by
    rw [hinfos, StorageMap.lookup_insert_ite]
  -- the same records, but for the one
  have hrecord (id : AssetId) (P : AssetRegistryInfo → Prop) :
      (∃ i, r'.registryInfoByIds.lookup id = some i ∧ P i) ↔
      if id = assetId then P info' else ∃ i, r.registryInfoByIds.lookup id = some i ∧ P i := by
    rw [hlookup]
    split
    · simp
    · rfl
  refine ⟨fun id i hi => ?_, hs.ids, fun id a => ?_, fun id i c rid' account m hi hmem => ?_,
    fun id i rid' hi => ?_, fun rid' a => ?_⟩
  · rw [hlookup] at hi
    split at hi
    · cases hi
      exact hloc ▸ h.known assetId info hinfo
    · exact h.known id i hi
  · rw [hassets, h.records, hrecord]
    split
    · next he =>
      subst he
      simp [hinfo, hloc]
    · rfl
  · rw [hlookup] at hi
    split at hi
    · cases hi
      rw [hloc]
      rcases hlisted _ hmem with hold | ⟨_, _, hnew⟩
      · exact h.listed assetId info c rid' account m hinfo hold
      · cases hnew
        exact hown
    · exact h.listed id i c rid' account m hi hmem
  · rw [hlookup] at hi
    split at hi
    · cases hi
      by_cases he : rid' = rid
      · exact he ▸ honce
      · rw [htimes rid' he]
        exact h.once assetId info rid' hinfo
    · exact h.once id i rid' hi
  · simp only [hrecord]
    by_cases he : rid' = rid
    · subst he
      rw [hrid]
      constructor
      · intro ha
        split at ha
        · next ht =>
          cases ha
          exact ⟨assetId, by simp [hloc, ht]⟩
        · cases ha
      · rintro ⟨id, hid⟩
        split at hid
        · rw [if_pos hid.2, ← hid.1, hloc]
        · next hne =>
          obtain ⟨i, hi, rfl, ht⟩ := hid
          have hrid' := h.rid_eq hi (by omega : i.timesEnabled rid' ≠ 0)
          rw [hown] at hrid'
          have hloc' := (intoRid_inj hinj (h.known _ _ hinfo) (h.known _ _ hi) hrid').1
          exact absurd (h.id_unique hi hinfo hloc'.symm) hne
    · rw [hbound rid' he, h.bound]
      constructor
      · rintro ⟨id, i, hi, hl, ht⟩
        refine ⟨id, ?_⟩
        split
        · next hid =>
          subst hid
          cases hi.symm.trans hinfo
          exact ⟨hloc.trans hl, (htimes rid' he).trans ht⟩
        · exact ⟨i, hi, hl, ht⟩
      · rintro ⟨id, hid⟩
        split at hid
        · exact ⟨assetId, info, hinfo, hloc.symm.trans hid.1, (htimes rid' he).symm.trans hid.2⟩
        · obtain ⟨i, hi, hl, ht⟩ := hid
          exact ⟨id, i, hi, hl, ht⟩

theorem setMetadata {properties : AssetProperties} {taken : Bool} (h : Consistent hashing assets r)
    (hinj : hashing.TellsApart assets)
    (hs : Sound hashing r') (hop : r.forceSetMetadata assetId properties taken = .ok r') :
    Consistent hashing assets r' := by
  unfold forceSetMetadata at hop
  split at hop
  · next info hinfo =>
    split at hop
    · cases hop
    · cases hop
      have hown := h.bound_own hinj hinfo (rfl : hashing.intoRid info.location 0 = _)
      refine h.put hinj hs hinfo (rfl : hashing.intoRid info.location 0 = _) rfl rfl rfl (fun _ hmem => .inl hmem)
        (fun _ _ => rfl) (h.once _ info _ hinfo) (fun _ _ => rfl) ?_
      split
      · next ht => exact (hown _).mpr ⟨rfl, ht⟩
      · next ht =>
        by_contra hne
        obtain ⟨a, ha⟩ := Option.ne_none_iff_exists'.mp hne
        exact ht ((hown a).mp ha).2
  · cases hop

theorem enableChainbridge {isMintable : Bool} (h : Consistent hashing assets r)
    (hinj : hashing.TellsApart assets) (hs : Sound hashing r')
    (hop : r.forceEnableChainbridge hashing assetId chainId isMintable = .ok r') :
    Consistent hashing assets r' := by
  unfold forceEnableChainbridge at hop
  split at hop
  · next asset info hasset hinfo =>
    obtain ⟨info₁, hinfo₁, rfl⟩ := (h.records assetId asset).mp hasset
    cases hinfo.symm.trans hinfo₁
    dsimp only at hop
    split at hop
    · cases hop
    · next hfree =>
      rw [not_not] at hfree
      cases hop
      have hzero : info.timesEnabled (hashing.intoRid info.location chainId) = 0 := by
        have honce := h.once assetId info (hashing.intoRid info.location chainId) hinfo
        have hnot : info.timesEnabled (hashing.intoRid info.location chainId) ≠ 1 := by
          intro ht
          have := (h.bound_own hinj hinfo (rfl : hashing.intoRid info.location chainId = _) _).mpr ⟨rfl, ht⟩
          rw [hfree] at this
          cases this
        omega
      have hpush (rid' : ResourceId) := timesEnabled_push info
        (hashing.intoAccount (.ofChain chainId)) isMintable rid'
        (getChainid_intoRid hashing info.location chainId)
      refine h.put hinj hs hinfo (rfl : hashing.intoRid info.location chainId = _) rfl rfl rfl
        (fun bridge hmem => ?_) (fun rid' hne => ?_) ?_ (fun rid' hne => ?_) ?_
      · rcases List.mem_append.mp hmem with hold | hnew
        · exact .inl hold
        · exact .inr ⟨_, _, List.mem_singleton.mp hnew⟩
      · rw [hpush, if_neg hne, Nat.add_zero]
      · rw [hpush, hzero, if_pos rfl]
      · exact AList.lookup_insert_ne hne
      · rw [hpush, hzero, if_pos rfl, if_pos rfl]
        exact AList.lookup_insert _
  · cases hop

theorem disableChainbridge (h : Consistent hashing assets r)
    (hinj : hashing.TellsApart assets) (hs : Sound hashing r')
    (hop : r.forceDisableChainbridge hashing assetId chainId = .ok r') : Consistent hashing assets r' := by
  unfold forceDisableChainbridge at hop
  split at hop
  · next asset info hasset hinfo =>
    obtain ⟨info₁, hinfo₁, rfl⟩ := (h.records assetId asset).mp hasset
    cases hinfo.symm.trans hinfo₁
    dsimp only at hop
    split at hop
    · cases hop
    · next hbound =>
      cases hop
      obtain ⟨a, ha⟩ := Option.ne_none_iff_exists'.mp hbound
      have hone := ((h.bound_own hinj hinfo (rfl : hashing.intoRid info.location chainId = _) a).mp ha).2
      have hchain := getChainid_intoRid hashing info.location chainId
      have herase (rid' : ResourceId) := timesEnabled_erase info (hashing.intoRid info.location chainId) rid'
      simp only [hchain] at herase
      refine h.put hinj hs hinfo (rfl : hashing.intoRid info.location chainId = _) rfl rfl rfl
        (fun bridge hmem => .inl (List.mem_of_mem_eraseP hmem)) (fun rid' hne => ?_)
        ?_ (fun rid' hne => ?_) ?_
      · rw [herase, if_neg hne, Nat.sub_zero]
      · rw [herase, hone, if_pos rfl]
        omega
      · exact AList.lookup_erase_ne hne
      · rw [herase, hone, if_pos rfl, if_neg (by omega)]
        exact AList.lookup_erase _ _
  · cases hop

theorem register {properties : AssetProperties} {created : Bool}
    (h : Consistent hashing assets r) (hs : Sound hashing r')
    (hknown : asset ∈ assets) (hop : r.forceRegisterAsset asset assetId properties created = .ok r') :
    Consistent hashing assets r' := by
  unfold forceRegisterAsset at hop
  split at hop
  · cases hop
  · split at hop
    · cases hop
    · next hid =>
      split at hop
      · cases hop
      · rw [not_not] at hid
        have hnone := h.record_none hid
        cases hop
        have hlookup (id : AssetId) := StorageMap.lookup_insert_ite r.registryInfoByIds assetId id
          (⟨asset, asset.reserveLocation, [.xcmp], properties⟩ : AssetRegistryInfo)
        refine ⟨fun id i hi => ?_, hs.ids, fun id a => ?_,
          fun id i c rid account m hi hmem => ?_, fun id i rid hi => ?_,
          fun rid a => ?_⟩
        · rw [hlookup] at hi
          split at hi
          · cases hi
            exact hknown
          · exact h.known id i hi
        · rw [hlookup, StorageMap.lookup_insert_ite]
          split
          · simp
          · exact h.records id a
        · rw [hlookup] at hi
          split at hi
          · cases hi
            simp at hmem
          · exact h.listed id i c rid account m hi hmem
        · rw [hlookup] at hi
          split at hi
          · cases hi
            exact Nat.zero_le 1
          · exact h.once id i rid hi
        · simp only [hlookup]
          rw [h.bound]
          constructor
          · rintro ⟨id, i, hi, hl, ht⟩
            refine ⟨id, i, ?_, hl, ht⟩
            split
            · next he =>
              rw [he, hnone] at hi
              cases hi
            · exact hi
          · rintro ⟨id, i, hi, hl, ht⟩
            split at hi
            · cases hi
              cases ht
            · exact ⟨id, i, hi, hl, ht⟩

theorem unregister (h : Consistent hashing assets r) (hinj : hashing.TellsApart assets) (hs : Sound hashing r')
    (hop : r.forceUnregisterAsset assetId = .ok r') : Consistent hashing assets r' := by
  unfold forceUnregisterAsset at hop
  split at hop
  · next asset info hasset hinfo =>
    cases hop
    have hlookup (id : AssetId) := StorageMap.lookup_erase_ite r.registryInfoByIds assetId id
    refine ⟨fun id i hi => ?_, hs.ids, fun id a => ?_,
      fun id i c rid account m hi hmem => ?_, fun id i rid hi => ?_,
      fun rid a => ?_⟩
    · rw [hlookup] at hi
      split at hi
      · cases hi
      · exact h.known id i hi
    · rw [hlookup, StorageMap.lookup_erase_ite]
      split
      · simp
      · exact h.records id a
    · rw [hlookup] at hi
      split at hi
      · cases hi
      · exact h.listed id i c rid account m hi hmem
    · rw [hlookup] at hi
      split at hi
      · cases hi
      · exact h.once id i rid hi
    · simp only [hlookup]
      constructor
      · intro ha
        obtain ⟨id, i, hi, hl, ht⟩ := (h.bound rid a).mp (Sound.lookup_unbind ha)
        refine ⟨id, i, ?_, hl, ht⟩
        split
        · next he =>
          -- its own resource ids are gone
          subst he
          cases hi.symm.trans hinfo
          obtain ⟨bridge, hmem, hleads⟩ := List.countP_pos_iff.mp
              (by rw [← AssetRegistryInfo.timesEnabled, ht]; exact one_pos)
          obtain ⟨account, isMintable, rfl⟩ := leadsTo_iff.mp hleads
          rw [lookup_unbind_mem hmem] at ha
          cases ha
        · exact hi
      · rintro ⟨id, i, hi, hl, ht⟩
        split at hi
        · cases hi
        · next hne =>
          rw [lookup_unbind_not_mem]
          · exact (h.bound rid a).mpr ⟨id, i, hi, hl, ht⟩
          · intro c account m hmem
            have hrid := h.rid_eq hi (by omega : i.timesEnabled rid ≠ 0)
            rw [h.listed assetId info c rid account m hinfo hmem] at hrid
            have hloc := (intoRid_inj hinj (h.known _ _ hinfo) (h.known _ _ hi) hrid).1
            exact hne (h.id_unique hinfo hi hloc).symm
  · cases hop

end Consistent

/-! ## Runs -/

/-- What the operation registers is among the assets. -/
def Op.Among (assets : Set MultiLocation) : Op → Prop
  | .register asset _ _ _ => asset ∈ assets
  | _ => True

/-- The committee registers no other assets. -/
abbrev ReachableOver (hashing : Hashing) (assets : Set MultiLocation) : Registry → Prop :=
  ReachWhere (· = empty) (fun r op r' => exec hashing r op = .ok r') fun _ op => op.Among assets

theorem ReachableOver.consistent (hinj : hashing.TellsApart assets) (h : ReachableOver hashing assets r) :
    Consistent hashing assets r := by
  suffices Sound hashing r ∧ Consistent hashing assets r from this.2
  refine h.invariant (fun r => Sound hashing r ∧ Consistent hashing assets r) ?_ ?_
  · intro r hr
    subst hr
    exact ⟨.empty, .empty⟩
  · intro r op r' ⟨hs, hc⟩ hamong hop
    have hs' := hs.exec hop
    refine ⟨hs', ?_⟩
    cases op with
    | register => exact hc.register hs' hamong hop
    | unregister => exact hc.unregister hinj hs' hop
    | setMetadata => exact hc.setMetadata hinj hs' hop
    | enableChainbridge => exact hc.enableChainbridge hinj hs' hop
    | disableChainbridge => exact hc.disableChainbridge hinj hs' hop

end Registry

/-- **The maps of the registry agree.** Whatever the committee registers, unregisters, enables and disables,
in any order: ids and assets are inverse maps, the records are those of the registered assets, and a
resource id leads to an asset exactly where the asset is registered and its record lists the bridge, once.
So a resource id is turned into the id of an asset that is registered at present, and enabled for the chain
in its first byte. -/
theorem registry_consistent {S : Type} (rt : Runtime S) {assets : Set MultiLocation} {r : Registry}
    (hinj : rt.hashing.TellsApart assets) (h : Registry.ReachableOver rt.hashing assets r) :
    (∀ asset assetId, r.idByAssets.lookup asset = some assetId ↔ r.assetByIds.lookup assetId = some asset) ∧
    (∀ assetId asset, r.assetByIds.lookup assetId = some asset ↔
      ∃ info, r.registryInfoByIds.lookup assetId = some info ∧ info.location = asset) ∧
    (∀ rid asset, r.assetByResourceIds.lookup rid = some asset ↔ ∃ assetId info chainId,
      r.assetByIds.lookup assetId = some asset ∧ r.registryInfoByIds.lookup assetId = some info ∧
      rid = rt.hashing.intoRid asset chainId ∧
      info.enabledBridges.countP (Registry.XBridgeConfig.leadsTo chainId rid) = 1) ∧
    (∀ assetId info chainId rid, r.registryInfoByIds.lookup assetId = some info →
      info.enabledBridges.countP (Registry.XBridgeConfig.leadsTo chainId rid) ≤
        if rid = rt.hashing.intoRid info.location chainId then 1 else 0) ∧
    ∀ rid assetId, rt.ridToAssetid r rid = .ok assetId → ∃ asset info,
      r.assetByIds.lookup assetId = some asset ∧ r.registryInfoByIds.lookup assetId = some info ∧
      info.location = asset ∧ rid = rt.hashing.intoRid asset (getChainid rid) ∧
      info.enabledBridges.countP (Registry.XBridgeConfig.leadsTo (getChainid rid) rid) = 1 := by
  have hc := h.consistent hinj
  refine ⟨hc.ids, hc.records, fun rid asset => ?_, fun assetId info chainId rid hinfo => ?_,
    fun rid assetId hrid => ?_⟩
  · rw [hc.bound]
    constructor
    · rintro ⟨assetId, info, hinfo, rfl, ht⟩
      exact ⟨assetId, info, getChainid rid, (hc.records _ _).mpr ⟨info, hinfo, rfl⟩, hinfo,
        hc.rid_eq hinfo (by omega), ht⟩
    · rintro ⟨assetId, info, chainId, hasset, hinfo, hrid, ht⟩
      obtain ⟨info', hinfo', hloc⟩ := (hc.records _ _).mp hasset
      cases hinfo.symm.trans hinfo'
      refine ⟨assetId, info, hinfo, hloc, ?_⟩
      rw [AssetRegistryInfo.timesEnabled, hrid, getChainid_intoRid, ← hrid]
      exact ht
  · split
    · next hrid =>
      have := hc.once assetId info rid hinfo
      rw [AssetRegistryInfo.timesEnabled, hrid, getChainid_intoRid, ← hrid] at this
      exact this
    · next hrid =>
      rw [Nat.le_zero, List.countP_eq_zero]
      intro bridge hmem hleads
      obtain ⟨account, isMintable, rfl⟩ := Registry.leadsTo_iff.mp hleads
      exact hrid (hc.listed assetId info chainId rid account isMintable hinfo hmem)
  · unfold Runtime.ridToAssetid at hrid
    split at hrid
    · cases hrid
    · split at hrid
      · next asset hasset =>
        split at hrid
        · next id hid =>
          cases hrid
          obtain ⟨assetId', info, hinfo, rfl, ht⟩ := (hc.bound rid asset).mp hasset
          have hid' := (hc.ids _ _).mpr ((hc.records assetId' _).mpr ⟨info, hinfo, rfl⟩)
          rw [hid] at hid'
          obtain rfl := Option.some.inj hid'
          exact ⟨info.location, info, (hc.records _ _).mpr ⟨info, hinfo, rfl⟩, hinfo, rfl,
            hc.rid_eq hinfo (by omega), ht⟩
        · cases hrid
      · cases hrid

/-! ### Two assets -/

namespace Demo

def twoAssets : Set MultiLocation := {.here, .ofChain 0}

theorem codec_tellsApart : codec.TellsApart twoAssets := by
  have hne : (codec.blake2 (codec.encode .here))[1] ≠ (codec.blake2 (codec.encode (.ofChain 0)))[1] := by
    decide +kernel
  rintro asset (rfl | rfl) asset' (rfl | rfl) h
  · rfl
  · exact absurd (h 1 one_pos (by omega)) hne
  · exact absurd (h 1 one_pos (by omega)).symm hne
  · rfl

/-- PHA, unregistered again, and then an asset of chain 0, which is enabled. -/
def reused : List Registry.Op :=
  [.register .here 0 ⟨[], [], 12⟩ true, .enableChainbridge 0 0 false, .unregister 0,
    .register (.ofChain 0) 0 ⟨[], [], 18⟩ true, .enableChainbridge 0 0 true]

def runOps (r : Registry) : List Registry.Op → Option Registry
  | [] => some r
  | op :: ops => match Registry.exec codec r op with
    | .ok r' => runOps r' ops
    | .error _ => none

theorem runOps_reachable {ops : List Registry.Op} {assets : Set MultiLocation} {r r' : Registry}
    (h : Registry.ReachableOver codec assets r) (hops : ∀ op ∈ ops, op.Among assets)
    (hrun : runOps r ops = some r') :
    Registry.ReachableOver codec assets r' := by
  induction ops generalizing r with
  | nil =>
    cases hrun
    exact h
  | cons op ops ih =>
    unfold runOps at hrun
    split at hrun
    · next r₁ hop =>
      exact ih (.step h (hops op List.mem_cons_self) hop)
        (fun op' hmem => hops op' (List.mem_cons_of_mem op hmem)) hrun
    · cases hrun

theorem reused_among : ∀ op ∈ reused, op.Among twoAssets := by
  simp [reused, Registry.Op.Among, twoAssets]

end Demo

theorem registry_consistent_demo : ∃ r, Demo.runOps .empty Demo.reused = some r ∧
    Demo.bridged.ridToAssetid r (Demo.codec.intoRid (.ofChain 0) 0) = .ok 0 ∧
    ∃ asset info, r.assetByIds.lookup 0 = some asset ∧ r.registryInfoByIds.lookup 0 = some info ∧
      info.location = asset ∧ Demo.codec.intoRid (.ofChain 0) 0 = Demo.codec.intoRid asset 0 := by
  obtain ⟨r, hrun⟩ : ∃ r, Demo.runOps .empty Demo.reused = some r :=
    Option.isSome_iff_exists.mp (by decide +kernel)
  have hok : (Demo.runOps .empty Demo.reused).all
      (fun r => Demo.bridged.ridToAssetid r (Demo.codec.intoRid (.ofChain 0) 0) = .ok 0) = true := by
    decide +kernel
  rw [hrun, Option.all_some, decide_eq_true_eq] at hok
  have hreach := Demo.runOps_reachable (.init rfl) Demo.reused_among hrun
  obtain ⟨asset, info, hasset, hinfo, hloc, hrid, -⟩ :=
    (registry_consistent Demo.bridged Demo.codec_tellsApart hreach).2.2.2.2 _ _ hok
  refine ⟨r, hrun, hok, asset, info, hasset, hinfo, hloc, ?_⟩
  rwa [getChainid_intoRid] at hrid

end Khala.XTransfer
