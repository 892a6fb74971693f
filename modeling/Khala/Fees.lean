/-
What the bridge charges (`estimate_fee_in_pha`, `get_fee`).

The fee grows with the amount as long as the products that it is computed from
stay below `2^128`. The two routes out of the chain charge PHA alike where the
registry knows PHA, under the location asked for, with twelve decimals.
-/
import Khala.TransferAtomicity

namespace Khala.XTransfer

open Bridge (BridgeChainId)

variable {S P : Type} {rt : Runtime S} {s : State S P} {chain : BridgeChainId} {location : MultiLocation}
  {a b amount digits minFee feeScale price : ℕ} {id : AssetId}

/-! ## Decimals -/

theorem saturating_mono (h : a ≤ b) : saturating a ≤ saturating b := by
  unfold saturating
  omega

theorem saturating_of_lt (h : a < 2 ^ 128) : saturating a = a := by
  unfold saturating
  omega

theorem toE12_mono (h : a ≤ b) : toE12 a digits ≤ toE12 b digits := by
  unfold toE12
  split
  · exact Nat.div_le_div_right h
  · exact saturating_mono (Nat.mul_le_mul_right _ h)

theorem fromE12_mono (h : a ≤ b) : fromE12 a digits ≤ fromE12 b digits := by
  unfold fromE12
  split
  · exact saturating_mono (Nat.mul_le_mul_right _ h)
  · exact Nat.div_le_div_right h

theorem toE12_lt (h : amount < 2 ^ 128) : toE12 amount digits < 2 ^ 128 := by
  unfold toE12
  split
  · exact lt_of_le_of_lt (Nat.div_le_self _ _) h
  · unfold saturating
    omega

/-- Twelve decimals are those of PHA. -/
theorem toE12_twelve (h : amount < 2 ^ 128) : toE12 amount 12 = amount := by
  have hone : saturating (10 ^ (12 - 12)) = 1 := by decide
  unfold toE12
  rw [if_neg (by omega), hone, Nat.mul_one]
  exact saturating_of_lt h

/-- The decimals of an asset, twelve where the registry has no information of it. -/
def Registry.decimalsOf (r : Registry) (id : AssetId) : ℕ :=
  ((r.registryInfoByIds.lookup id).map fun info => info.properties.decimals).getD 12

/-! ## Overflow

A build with overflow checks, as the `testnet` profile is, panics where a
release build wraps. -/

/-- A product of `u128` in such a build. -/
def checkedMul (a b : ℕ) : Option ℕ := if a * b < 2 ^ 128 then some (a * b) else none

def State.checkedEstimateFeeInPha (s : State S P) (destId : BridgeChainId) (amount : ℕ) : Option ℕ :=
  let (minFee, feeScale) := (s.bridgeFee.lookup destId).getD (0, 0)
  (checkedMul amount feeScale).map fun share => if share / 1000 > minFee then share / 1000 else minFee

def Runtime.checkedConvertFeeFromPha (rt : Runtime S) (feeInPha price decimals : ℕ) : Option ℕ :=
  (checkedMul feeInPha price).map fun product => fromE12 (product / rt.nativeExecutionPrice) decimals

/-- `get_fee` in such a build; `none` where it panics. -/
def State.checkedGetFee (rt : Runtime S) (s : State S P) (chainId : BridgeChainId) (location : MultiLocation)
    (amount : ℕ) : Option (Option ℕ) :=
  match s.registry.idByAssets.lookup location with
  | none => some none
  | some id =>
    let decimals := s.registry.decimalsOf id
    (s.checkedEstimateFeeInPha chainId (toE12 amount decimals)).bind fun feeInPha =>
      if rt.isNativeAssetId location = true then some (some feeInPha)
      else match rt.executionPriceInfo.find? fun price => price.1 = location with
        | none => some none
        | some price => (rt.checkedConvertFeeFromPha feeInPha price.2 decimals).map some

theorem checkedMul_eq_some {product : ℕ} : checkedMul a b = some product ↔ a * b < 2 ^ 128 ∧ a * b = product := by
  unfold checkedMul
  split <;> simp_all

/-! ## The fee in PHA -/

namespace State

theorem estimateFeeInPha_eq (hfee : (s.bridgeFee.lookup chain).getD (0, 0) = (minFee, feeScale)) (amount : ℕ) :
    s.estimateFeeInPha chain amount = max minFee (amount * feeScale % 2 ^ 128 / 1000) := by
  unfold estimateFeeInPha
  rw [hfee]
  dsimp only
  split <;> omega

theorem estimateFeeInPha_exact (hfee : s.bridgeFee.lookup chain = some (minFee, feeScale))
    (hfits : amount * feeScale < 2 ^ 128) :
    s.estimateFeeInPha chain amount = max minFee (amount * feeScale / 1000) := by
  have hfee : (s.bridgeFee.lookup chain).getD (0, 0) = (minFee, feeScale) := by rw [hfee, Option.getD_some]
  rw [estimateFeeInPha_eq hfee, Nat.mod_eq_of_lt hfits]

theorem checkedEstimateFeeInPha_eq_some {fee : ℕ} (hfee : s.bridgeFee.lookup chain = some (minFee, feeScale)) :
    s.checkedEstimateFeeInPha chain amount = some fee ↔
      amount * feeScale < 2 ^ 128 ∧ s.estimateFeeInPha chain amount = fee := by
  unfold checkedEstimateFeeInPha estimateFeeInPha
  rw [hfee]
  simp only [Option.getD_some, Option.map_eq_some_iff, checkedMul_eq_some]
  constructor
  · rintro ⟨_, ⟨hfits, rfl⟩, rfl⟩
    exact ⟨hfits, by rw [Nat.mod_eq_of_lt hfits]⟩
  · intro ⟨hfits, hfee⟩
    rw [Nat.mod_eq_of_lt hfits] at hfee
    exact ⟨_, ⟨hfits, rfl⟩, hfee⟩

theorem estimateFeeInPha_mono (hfee : s.bridgeFee.lookup chain = some (minFee, feeScale)) (hab : a ≤ b)
    (hfits : b * feeScale < 2 ^ 128) : s.estimateFeeInPha chain a ≤ s.estimateFeeInPha chain b := by
  have hmul : a * feeScale ≤ b * feeScale := Nat.mul_le_mul_right _ hab
  have hshare : a * feeScale / 1000 ≤ b * feeScale / 1000 := Nat.div_le_div_right hmul
  rw [estimateFeeInPha_exact hfee hfits, estimateFeeInPha_exact hfee (by omega)]
  omega

/-! ## The fee in an asset -/

theorem getFee_of_native (hid : s.registry.idByAssets.lookup location = some id)
    (hnative : rt.isNativeAssetId location = true) (amount : ℕ) :
    s.getFee rt chain location amount =
    some (s.estimateFeeInPha chain (toE12 amount (s.registry.decimalsOf id))) := by
  unfold getFee
  rw [hid]
  dsimp only
  rw [if_pos hnative]
  rfl

theorem getFee_of_foreign (hid : s.registry.idByAssets.lookup location = some id)
    (hforeign : rt.isNativeAssetId location ≠ true) (amount : ℕ) :
    s.getFee rt chain location amount =
      (rt.executionPriceInfo.find? fun price => price.1 = location).map fun price =>
        rt.convertFeeFromPha (s.estimateFeeInPha chain (toE12 amount (s.registry.decimalsOf id))) price.2
          (s.registry.decimalsOf id) := by
  unfold getFee
  rw [hid]
  dsimp only
  rw [if_neg hforeign]
  rfl

end State

/-- The conversion keeps the order as long as its product does not wrap. -/
theorem Runtime.convertFeeFromPha_mono (hab : a ≤ b) (h : b * price < 2 ^ 128) :
    rt.convertFeeFromPha a price digits ≤ rt.convertFeeFromPha b price digits := by
  have hmul : a * price ≤ b * price := Nat.mul_le_mul_right _ hab
  unfold Runtime.convertFeeFromPha
  rw [Nat.mod_eq_of_lt h, Nat.mod_eq_of_lt (by omega)]
  exact fromE12_mono (Nat.div_le_div_right hmul)

/-- For an amount of a foreign asset, the fee times the price of the asset does not wrap either. -/
def Runtime.PriceFits (rt : Runtime S) (location : MultiLocation) (fee : ℕ) : Prop :=
  rt.isNativeAssetId location = true ∨
    ∀ price, rt.executionPriceInfo.find? (fun price => price.1 = location) = some price → fee * price.2 < 2 ^ 128

/-- A build with overflow checks computes the fee, and this one, where both products fit. -/
theorem State.checkedGetFee_iff (hfee : s.bridgeFee.lookup chain = some (minFee, feeScale))
    (hid : s.registry.idByAssets.lookup location = some id) :
    s.checkedGetFee rt chain location amount = some (s.getFee rt chain location amount) ↔
      toE12 amount (s.registry.decimalsOf id) * feeScale < 2 ^ 128 ∧
        rt.PriceFits location (max minFee (toE12 amount (s.registry.decimalsOf id) * feeScale / 1000)) := by
  unfold checkedGetFee
  rw [hid]
  dsimp only
  constructor
  · intro h
    obtain ⟨fee, hestimate, hrest⟩ := Option.bind_eq_some_iff.mp h
    obtain ⟨hfits, rfl⟩ := (checkedEstimateFeeInPha_eq_some hfee).mp hestimate
    refine ⟨hfits, ?_⟩
    rw [← estimateFeeInPha_exact hfee hfits]
    by_cases hnative : rt.isNativeAssetId location = true
    · exact .inl hnative
    · refine .inr fun price hprice => ?_
      rw [if_neg hnative, hprice] at hrest
      obtain ⟨converted, hconverted, _⟩ := Option.map_eq_some_iff.mp hrest
      obtain ⟨product, hproduct, _⟩ := Option.map_eq_some_iff.mp hconverted
      exact (checkedMul_eq_some.mp hproduct).1
  · intro ⟨hfits, hprice⟩
    rw [(checkedEstimateFeeInPha_eq_some hfee).mpr ⟨hfits, rfl⟩, Option.bind_some]
    rw [← estimateFeeInPha_exact hfee hfits] at hprice
    by_cases hnative : rt.isNativeAssetId location = true
    · rw [if_pos hnative, getFee_of_native hid hnative]
    · rw [if_neg hnative, getFee_of_foreign hid hnative]
      cases hfound : rt.executionPriceInfo.find? fun price => price.1 = location with
      | none => rfl
      | some price =>
        have hproduct := (hprice.resolve_left hnative) price hfound
        unfold Runtime.checkedConvertFeeFromPha Runtime.convertFeeFromPha
        simp only [checkedMul_eq_some.mpr ⟨hproduct, rfl⟩, Option.map_some, Nat.mod_eq_of_lt hproduct]

theorem Runtime.PriceFits.anti (h : rt.PriceFits location b) (hab : a ≤ b) : rt.PriceFits location a := by
  rcases h with hnative | hfits
  · exact .inl hnative
  · refine .inr fun price hprice => ?_
    have hmul : a * price.2 ≤ b * price.2 := Nat.mul_le_mul_right _ hab
    have := hfits price hprice
    omega

/-- A fee in an asset is at most the fee of an amount that costs more PHA, where that fits. -/
theorem State.getFee_le {fee : ℕ} (hid : s.registry.idByAssets.lookup location = some id)
    (hmono : s.estimateFeeInPha chain (toE12 a (s.registry.decimalsOf id)) ≤
      s.estimateFeeInPha chain (toE12 b (s.registry.decimalsOf id)))
    (hprice : rt.PriceFits location (s.estimateFeeInPha chain (toE12 b (s.registry.decimalsOf id))))
    (hgot : s.getFee rt chain location a = some fee) :
    ∃ fee', s.getFee rt chain location b = some fee' ∧ fee ≤ fee' := by
  by_cases hnative : rt.isNativeAssetId location = true
  · rw [getFee_of_native hid hnative] at hgot ⊢
    cases hgot
    exact ⟨_, rfl, hmono⟩
  · rw [getFee_of_foreign hid hnative] at hgot ⊢
    cases hfound : rt.executionPriceInfo.find? fun price => price.1 = location with
    | none =>
      rw [hfound] at hgot
      cases hgot
    | some price =>
      rw [hfound] at hgot
      cases hgot
      exact ⟨_, rfl, Runtime.convertFeeFromPha_mono hmono ((hprice.resolve_left hnative) price hfound)⟩

/-- **The fee grows with the amount and never overflows.** Up to an amount, and
with the fee as it should be, this holds in PHA exactly if the product of the
amount with the scale of the fee fits in 128 bits. In a registered asset it
holds exactly if that product fits after the conversion to twelve decimals, and
for an asset other than PHA also the product of the fee with its price. -/
theorem getFee_mono_iff (rt : Runtime S) {s : State S P}
    (hfee : s.bridgeFee.lookup chain = some (minFee, feeScale))
    (hid : s.registry.idByAssets.lookup location = some id) (b : ℕ) :
    ((∀ a ≤ b, s.estimateFeeInPha chain a ≤ s.estimateFeeInPha chain b ∧
          s.checkedEstimateFeeInPha chain a = some (s.estimateFeeInPha chain a)) ∧
        s.estimateFeeInPha chain b = max minFee (b * feeScale / 1000) ↔
      b * feeScale < 2 ^ 128) ∧
    ((∀ a ≤ b, (∀ fee, s.getFee rt chain location a = some fee →
            ∃ fee', s.getFee rt chain location b = some fee' ∧ fee ≤ fee') ∧
          s.checkedGetFee rt chain location a = some (s.getFee rt chain location a)) ↔
      toE12 b (s.registry.decimalsOf id) * feeScale < 2 ^ 128 ∧
        rt.PriceFits location (max minFee (toE12 b (s.registry.decimalsOf id) * feeScale / 1000))) := by
  constructor
  · constructor
    · intro ⟨hmono, _⟩
      exact ((State.checkedEstimateFeeInPha_eq_some hfee).mp (hmono b le_rfl).2).1
    · intro hfits
      refine ⟨fun a hab => ⟨State.estimateFeeInPha_mono hfee hab hfits, ?_⟩,
        State.estimateFeeInPha_exact hfee hfits⟩
      have hmul : a * feeScale ≤ b * feeScale := Nat.mul_le_mul_right _ hab
      exact (State.checkedEstimateFeeInPha_eq_some hfee).mpr ⟨by omega, rfl⟩
  · constructor
    · intro hmono
      exact (State.checkedGetFee_iff hfee hid).mp (hmono b le_rfl).2
    · intro ⟨hfits, hprice⟩ a hab
      have hmul : toE12 a (s.registry.decimalsOf id) * feeScale ≤ toE12 b (s.registry.decimalsOf id) * feeScale :=
        Nat.mul_le_mul_right _ (toE12_mono hab)
      have hle12 : toE12 a (s.registry.decimalsOf id) ≤ toE12 b (s.registry.decimalsOf id) := toE12_mono hab
      have hmono := State.estimateFeeInPha_mono hfee hle12 hfits
      have hle : max minFee (toE12 a (s.registry.decimalsOf id) * feeScale / 1000) ≤
          max minFee (toE12 b (s.registry.decimalsOf id) * feeScale / 1000) := by omega
      refine ⟨fun fee hgot => ?_, (State.checkedGetFee_iff hfee hid).mpr ⟨by omega, hprice.anti hle⟩⟩
      rw [← State.estimateFeeInPha_exact hfee hfits] at hprice
      exact State.getFee_le hid hmono hprice hgot

/-! ## The two routes for PHA -/

/-- No amount's share, as the code wraps it, is above the least fee. -/
def Flat (minFee feeScale : ℕ) : Prop := ∀ amount < 2 ^ 128, amount * feeScale % 2 ^ 128 / 1000 ≤ minFee

/-- Where dividing amounts never changes the fee, it is that of nothing. -/
theorem flat_of_div {scale : ℕ} (hscale : 1 < scale)
    (hequal : ∀ n < 2 ^ 128, max minFee (n / scale * feeScale % 2 ^ 128 / 1000) =
      max minFee (n * feeScale % 2 ^ 128 / 1000)) : Flat minFee feeScale := by
  intro amount
  induction amount using Nat.strong_induction_on with
  | _ amount ih =>
    intro hamount
    by_cases hzero : amount = 0
    · subst hzero
      simp
    · have hsmaller : amount / scale < amount := Nat.div_lt_self (by omega) hscale
      have := ih _ hsmaller (by omega)
      have := hequal amount hamount
      omega

/-- Where multiplying amounts, up to the greatest, never changes the fee, it is the same for
all; and as it is then that of one and of two, it is the least. -/
theorem flat_of_mul {scale : ℕ} (hscale : 1 < scale) (hfee : feeScale < 2 ^ 32)
    (hequal : ∀ n < 2 ^ 128, max minFee (saturating (n * scale) * feeScale % 2 ^ 128 / 1000) =
      max minFee (n * feeScale % 2 ^ 128 / 1000)) : Flat minFee feeScale := by
  have hsame : ∀ gap amount, 0 < amount → amount + gap = 2 ^ 128 - 1 →
      max minFee (amount * feeScale % 2 ^ 128 / 1000) = max minFee
      ((2 ^ 128 - 1) * feeScale % 2 ^ 128 / 1000) := by
    intro gap
    induction gap using Nat.strong_induction_on with
    | _ gap ih =>
      intro amount hpos hgap
      by_cases hzero : gap = 0
      · rw [hzero, Nat.add_zero] at hgap
        rw [hgap]
      · have hgrows : amount * 1 < amount * scale := Nat.mul_lt_mul_of_pos_left hscale hpos
        have hnext : amount < saturating (amount * scale) ∧ saturating (amount * scale) ≤ 2 ^ 128 - 1 := by
          unfold saturating
          omega
        rw [← hequal amount (by omega)]
        exact ih (2 ^ 128 - 1 - saturating (amount * scale)) (by omega) _ (by omega) (by omega)
  have hone := hsame (2 ^ 128 - 2) 1 (by omega) (by omega)
  have htwo := hsame (2 ^ 128 - 3) 2 (by omega) (by omega)
  rw [Nat.mod_eq_of_lt (by omega)] at hone htwo
  have hleast : feeScale / 1000 ≤ minFee := by omega
  intro amount hamount
  by_cases hzero : amount = 0
  · subst hzero
    simp
  · have := hsame (2 ^ 128 - 1 - amount) amount (by omega) (by omega)
    omega

/-- Reading amounts with other decimals never changes the fee of PHA only if that is always the least. -/
theorem flat_of_decimals (hdigits : digits ≠ 12) (hfee : feeScale < 2 ^ 32)
    (hequal : ∀ n < 2 ^ 128, max minFee (toE12 n digits * feeScale % 2 ^ 128 / 1000) =
      max minFee (n * feeScale % 2 ^ 128 / 1000)) : Flat minFee feeScale := by
  have hscale : ∀ k ≠ 0, 1 < saturating (10 ^ k) := by
    intro k hk
    have : 1 < 10 ^ k := Nat.one_lt_pow hk (by omega)
    unfold saturating
    omega
  unfold toE12 at hequal
  split at hequal
  · exact flat_of_div (hscale (digits - 12) (by omega)) hequal
  · exact flat_of_mul (hscale (12 - digits) (by omega)) hfee hequal

/-- **Both routes charge PHA alike**, any amount of it, exactly if the registry
knows PHA under the location asked for, and with twelve decimals, unless the
chain takes the least fee for every amount. -/
theorem getFee_eq_estimate_iff (s : State S P) (chain : BridgeChainId)
    (hnative : rt.isNativeAssetId location = true)
    (hfee : (s.bridgeFee.lookup chain).getD (0, 0) = (minFee, feeScale)) (hscale : feeScale < 2 ^ 32) :
    (∀ amount < 2 ^ 128, s.getFee rt chain location amount = some (s.estimateFeeInPha chain amount)) ↔
      ∃ id, s.registry.idByAssets.lookup location = some id ∧
        (s.registry.decimalsOf id = 12 ∨ Flat minFee feeScale) := by
  constructor
  · intro h
    cases hid : s.registry.idByAssets.lookup location with
    | none =>
      have hnone := h 0 (by omega)
      unfold State.getFee at hnone
      rw [hid] at hnone
      cases hnone
    | some id =>
      refine ⟨id, rfl, ?_⟩
      by_cases htwelve : s.registry.decimalsOf id = 12
      · exact .inl htwelve
      · refine .inr (flat_of_decimals htwelve hscale fun n hn => ?_)
        have hequal := h n hn
        rw [State.getFee_of_native hid hnative] at hequal
        rw [← State.estimateFeeInPha_eq hfee, ← State.estimateFeeInPha_eq hfee]
        exact Option.some.inj hequal
  · intro ⟨id, hid, hdecimals⟩ amount hamount
    rw [State.getFee_of_native hid hnative]
    rcases hdecimals with htwelve | hflat
    · rw [htwelve, toE12_twelve hamount]
    · have hconverted := hflat (toE12 amount (s.registry.decimalsOf id)) (toE12_lt hamount)
      have hdirect := hflat amount hamount
      rw [State.estimateFeeInPha_eq hfee, State.estimateFeeInPha_eq hfee]
      congr 1
      omega

/-! ## Two registries -/

namespace Demo

/-- PHA is registered under one of its locations, and the chain 2 takes a share of the amount. -/
def charging (location : MultiLocation) (decimals feeScale : ℕ) : State Ledger Unit :=
  { state with
    registry := { Registry.empty with
      idByAssets := (∅ : StorageMap MultiLocation AssetId).insert location 0
      registryInfoByIds := (∅ : StorageMap AssetId AssetRegistryInfo).insert 0
        ⟨location, location.reserveLocation, [.xcmp], ⟨[0x50], [0x50], decimals⟩⟩ }
    bridgeFee := (∅ : StorageMap BridgeChainId (ℕ × ℕ)).insert 2 (10, feeScale) }

end Demo

theorem getFee_mono_demo : ∃ fee', (Demo.charging .here 12 4).getFee Demo.runtime 2 .here 300000 =
    some fee' ∧ 800 ≤ fee' := by
  have hfee : (Demo.charging .here 12 4).bridgeFee.lookup 2 = some (10, 4) := rfl
  have hid : (Demo.charging .here 12 4).registry.idByAssets.lookup .here = some 0 := rfl
  have hmono := (getFee_mono_iff Demo.runtime hfee hid 300000).2.mpr ⟨by decide, .inl (by decide)⟩
  exact (hmono 200000 (by decide)).1 800 (by decide +kernel)

/-- Twice as much PHA, for the least fee. -/
theorem getFee_wraps : ∃ fee fee' : ℕ,
    (Demo.charging .here 12 4).getFee Demo.runtime 2 .here (2 ^ 125) = some fee ∧
      (Demo.charging .here 12 4).getFee Demo.runtime 2 .here (2 ^ 126) = some fee' ∧ fee' < fee ∧
      (Demo.charging .here 12 4).estimateFeeInPha 2 (2 ^ 126) ≠ max 10 (2 ^ 126 * 4 / 1000) :=
  ⟨_, _, rfl, rfl, by decide +kernel, by decide +kernel⟩

theorem getFee_eq_estimate_demo :
    (Demo.charging .here 12 4).getFee Demo.runtime 2 .here 300000 =
      some ((Demo.charging .here 12 4).estimateFeeInPha 2 300000) := by
  have hnative : Demo.runtime.isNativeAssetId .here = true := by decide
  have hfee : ((Demo.charging .here 12 4).bridgeFee.lookup 2).getD (0, 0) = (10, 4) := rfl
  have halike := (getFee_eq_estimate_iff (Demo.charging .here 12 4) 2 hnative hfee (by decide)).mpr
      ⟨0, rfl, .inl rfl⟩
  exact halike 300000 (by decide)

/-- PHA is registered as `here`, and asked for as the parachain. -/
theorem getFee_ne_estimate : Demo.runtime.isNativeAssetId ⟨1, [.parachain 2004]⟩ = true ∧
    (Demo.charging .here 12 4).getFee Demo.runtime 2 ⟨1, [.parachain 2004]⟩ 300000 ≠
      some ((Demo.charging .here 12 4).estimateFeeInPha 2 300000) :=
  ⟨by decide, by decide +kernel⟩

end Khala.XTransfer
