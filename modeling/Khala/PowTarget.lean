/-
The target of the heartbeat sampling (`pow_target` of `pallets/phala/src/mining.rs`).

The number of replies asked for in a block, over the number of workers, in three
truncating operations on numbers with 32 integer and 32 fractional bits. What
the shift and the conversion leave of them is one quotient, rounded down once.

`checked` says whether the runtime is built with overflow checks. Multiplying
256-bit numbers is always checked.
-/
import Mathlib

namespace Khala

/-! ## 32 integer and 32 fractional bits -/

/-- What the arithmetic panics with. -/
inductive Overflow
  | range | divisionByZero | shift
deriving DecidableEq, Repr

structure U32F32 where
  bits : ℕ
  lt : bits < 2 ^ 64
deriving DecidableEq

namespace U32F32

/-- Out of range, a checked operation panics, and another one keeps the low bits. -/
def fit (checked : Bool) (n : ℕ) : Except Overflow U32F32 :=
  if h : n < 2 ^ 64 then .ok ⟨n, h⟩
  else if checked = true then .error .range
  else .ok ⟨n % 2 ^ 64, Nat.mod_lt _ (by norm_num)⟩

def fromNum (checked : Bool) (n : ℕ) : Except Overflow U32F32 := fit checked (2 ^ 32 * n)

def mul (x : U32F32) (checked : Bool) (y : U32F32) : Except Overflow U32F32 :=
  fit checked (x.bits * y.bits / 2 ^ 32)

def div (x : U32F32) (checked : Bool) (y : U32F32) : Except Overflow U32F32 :=
  if y.bits = 0 then .error .divisionByZero else fit checked (2 ^ 32 * x.bits / y.bits)

instance : Min U32F32 := ⟨fun x y => if x.bits ≤ y.bits then x else y⟩

/-- The shift is by less than the width; bits may be lost. -/
def checkedShl (x : U32F32) (n : ℕ) : Option U32F32 :=
  if n < 64 then some ⟨2 ^ n * x.bits % 2 ^ 64, Nat.mod_lt _ (by norm_num)⟩ else none

/-- The integer part. -/
def toNum (x : U32F32) : ℕ := x.bits / 2 ^ 32

variable {checked : Bool} {n : ℕ} {x y : U32F32}

theorem fit_ok (checked : Bool) (h : n < 2 ^ 64) : ∃ x, fit checked n = .ok x ∧ x.bits = n :=
  ⟨⟨n, h⟩, dif_pos h, rfl⟩

theorem fromNum_ok (checked : Bool) (h : n < 2 ^ 32) : ∃ x, fromNum checked n = .ok x ∧ x.bits = 2 ^ 32 * n :=
  fit_ok checked (by omega)

theorem bits_min (x y : U32F32) : (min x y).bits = min x.bits y.bits := by
  change (if x.bits ≤ y.bits then x else y).bits = _
  split <;> omega

theorem mul_ok (checked : Bool) (h : x.bits * y.bits / 2 ^ 32 < 2 ^ 64) :
    ∃ z, x.mul checked y = .ok z ∧ z.bits = x.bits * y.bits / 2 ^ 32 := fit_ok checked h

theorem div_ok (checked : Bool) (hy : y.bits ≠ 0) (h : 2 ^ 32 * x.bits / y.bits < 2 ^ 64) :
    ∃ z, x.div checked y = .ok z ∧ z.bits = 2 ^ 32 * x.bits / y.bits := by
  rw [div, if_neg hy]
  exact fit_ok checked h

/-- No bit is lost. -/
theorem checkedShl_some (hn : n < 64) (h : 2 ^ n * x.bits < 2 ^ 64) :
    ∃ z, x.checkedShl n = some z ∧ z.bits = 2 ^ n * x.bits := ⟨_, if_pos hn, Nat.mod_eq_of_lt h⟩

end U32F32

/-! ## The target -/

/-- `3600 / secs_per_block` -/
def divU32 (m n : ℕ) : Except Overflow ℕ := if n = 0 then .error .divisionByZero else .ok (m / n)

def mulU256 (m n : ℕ) : Except Overflow ℕ := if m * n < 2 ^ 256 then .ok (m * n) else .error .range

/-- The replies for a worker: `target_tx / num_workers`. -/
def powQuotient (checked : Bool) (numTx numWorkers secsPerBlock : ℕ) : Except Overflow U32F32 := do
  let numWorkers ← U32F32.fromNum checked numWorkers
  let numTx ← U32F32.fromNum checked numTx
  -- Limit tx per block for a single miner
  let doubled ← numWorkers.mul checked (← U32F32.fromNum checked 2)
  let maxTx ← doubled.div checked (← U32F32.fromNum checked (← divU32 3600 secsPerBlock))
  let targetTx := min numTx maxTx
  targetTx.div checked numWorkers

def powTarget (checked : Bool) (numTx numWorkers secsPerBlock : ℕ) : Except Overflow ℕ :=
  if numWorkers = 0 then .ok 0
  else do
    let quotient ← powQuotient checked numTx numWorkers secsPerBlock
    let shifted ← (quotient.checkedShl 24).elim (.error .shift) .ok
    mulU256 ((2 ^ 256 - 1) / 2 ^ 24) shifted.toNum

variable {numTx numWorkers secsPerBlock : ℕ}

theorem blocksPerHour_bounds (hs : 1 ≤ secsPerBlock) (hs' : secsPerBlock ≤ 1800) :
    2 ≤ 3600 / secsPerBlock ∧ 3600 / secsPerBlock ≤ 3600 := by
  refine ⟨?_, Nat.div_le_self _ _⟩
  rw [Nat.le_div_iff_mul_le (by omega)]
  omega

/-- Nothing is out of range, and the quotient is rounded down once from each operand. -/
theorem powQuotient_ok (checked : Bool) (htx : numTx < 2 ^ 32) (hn : 0 < numWorkers) (hn' : numWorkers < 2 ^ 31)
    (hs : 1 ≤ secsPerBlock) (hs' : secsPerBlock ≤ 1800) :
    ∃ quotient, powQuotient checked numTx numWorkers secsPerBlock = .ok quotient ∧
      quotient.bits = min (2 ^ 32 * numTx / numWorkers) (2 ^ 33 / (3600 / secsPerBlock)) := by
  obtain ⟨hd, hd'⟩ := blocksPerHour_bounds hs hs'
  have hhours : divU32 3600 secsPerBlock = .ok (3600 / secsPerBlock) := if_neg (by omega)
  generalize 3600 / secsPerBlock = d at hd hd' hhours ⊢
  obtain ⟨workers, hworkers, hworkersBits⟩ := U32F32.fromNum_ok checked (show numWorkers < 2 ^ 32 by omega)
  obtain ⟨tx, htxNum, htxBits⟩ := U32F32.fromNum_ok checked htx
  obtain ⟨two, htwo, htwoBits⟩ := U32F32.fromNum_ok checked (show 2 < 2 ^ 32 by norm_num)
  obtain ⟨hours, hhoursNum, hhoursBits⟩ := U32F32.fromNum_ok checked (show d < 2 ^ 32 by omega)
  have hdouble : workers.bits * two.bits / 2 ^ 32 = 2 ^ 33 * numWorkers := by
    rw [hworkersBits, htwoBits]
    omega
  obtain ⟨doubled, hdoubled, hdoubledBits⟩ := U32F32.mul_ok checked (by rw [hdouble]; omega)
  rw [hdouble] at hdoubledBits
  have hcap : 2 ^ 32 * doubled.bits / hours.bits = 2 ^ 33 * numWorkers / d := by
    rw [hdoubledBits, hhoursBits, Nat.mul_div_mul_left _ _ (by norm_num)]
  have hcapLt : 2 ^ 33 * numWorkers / d < 2 ^ 64 := lt_of_le_of_lt (Nat.div_le_self _ _) (by omega)
  obtain ⟨maxTx, hmaxTx, hmaxTxBits⟩ :=
    U32F32.div_ok checked (by rw [hhoursBits]; omega) (by rw [hcap]; exact hcapLt)
  rw [hcap] at hmaxTxBits
  have hquotient : 2 ^ 32 * (min tx maxTx).bits / workers.bits =
      min (2 ^ 32 * numTx / numWorkers) (2 ^ 33 / d) := by
    have hmono : Monotone fun m => m / numWorkers := fun _ _ h => Nat.div_le_div_right h
    have hcapped : 2 ^ 33 * numWorkers / d / numWorkers = 2 ^ 33 / d := by
      rw [Nat.div_right_comm, Nat.mul_div_cancel _ hn]
    rw [U32F32.bits_min, htxBits, hmaxTxBits, hworkersBits, Nat.mul_div_mul_left _ _ (by norm_num)]
    exact (hmono.map_min).trans (congrArg _ hcapped)
  have hquotientLt : min (2 ^ 32 * numTx / numWorkers) (2 ^ 33 / d) < 2 ^ 64 :=
    lt_of_le_of_lt ((Nat.min_le_right _ _).trans (Nat.div_le_self _ _)) (by norm_num)
  obtain ⟨quotient, hdiv, hbits⟩ := U32F32.div_ok checked (x := min tx maxTx) (y := workers)
    (by rw [hworkersBits]; omega) (by rw [hquotient]; exact hquotientLt)
  refine ⟨quotient, ?_, hbits.trans hquotient⟩
  unfold powQuotient
  rw [hworkers, htxNum, htwo, hhours]
  change (workers.mul checked two >>= fun doubled => U32F32.fromNum checked d >>= fun hours =>
    doubled.div checked hours >>= fun maxTx => (min tx maxTx).div checked workers) = _
  rw [hdoubled, hhoursNum]
  change (doubled.div checked hours >>= fun maxTx => (min tx maxTx).div checked workers) = _
  rw [hmaxTx]
  exact hdiv

/-- The integer factor, of the quotient `numTx / numWorkers` or of the cap. -/
def powFrac (numTx numWorkers secsPerBlock : ℕ) : ℕ :=
  min (2 ^ 24 * numTx / numWorkers) (2 ^ 25 / (3600 / secsPerBlock))

theorem powFrac_le (hs : 1 ≤ secsPerBlock) (hs' : secsPerBlock ≤ 1800) :
    powFrac numTx numWorkers secsPerBlock ≤ 2 ^ 24 := by
  have hd := (blocksPerHour_bounds hs hs').1
  refine (Nat.min_le_right _ _).trans (Nat.div_le_of_le_mul ?_)
  omega

/-- More workers, no greater target. -/
theorem powFrac_antitone {numWorkers' : ℕ} (hn : 0 < numWorkers) (hle : numWorkers ≤ numWorkers') :
    powFrac numTx numWorkers' secsPerBlock ≤ powFrac numTx numWorkers secsPerBlock :=
  min_le_min_right _ (Nat.div_le_div_left hle hn)

theorem powTarget_ok (checked : Bool) (htx : numTx < 2 ^ 32) (hn : 0 < numWorkers) (hn' : numWorkers < 2 ^ 31)
    (hs : 1 ≤ secsPerBlock) (hs' : secsPerBlock ≤ 1800) :
    ∃ quotient shifted, powQuotient checked numTx numWorkers secsPerBlock = .ok quotient ∧
      quotient.checkedShl 24 = some shifted ∧ shifted.bits = 2 ^ 24 * quotient.bits ∧
      shifted.toNum = powFrac numTx numWorkers secsPerBlock ∧
      powTarget checked numTx numWorkers secsPerBlock = .ok ((2 ^ 256 - 1) / 2 ^ 24 * shifted.toNum) := by
  have hd := (blocksPerHour_bounds hs hs').1
  obtain ⟨quotient, hquotient, hbits⟩ := powQuotient_ok checked htx hn hn' hs hs'
  have hsmall : quotient.bits ≤ 2 ^ 32 := by
    rw [hbits]
    refine (Nat.min_le_right _ _).trans (Nat.div_le_of_le_mul ?_)
    omega
  obtain ⟨shifted, hshifted, hshiftedBits⟩ :=
    U32F32.checkedShl_some (x := quotient) (n := 24) (by norm_num) (by omega)
  have htoNum : shifted.toNum = powFrac numTx numWorkers secsPerBlock := by
    have hmono : Monotone fun m => m / 2 ^ 8 := fun _ _ h => Nat.div_le_div_right h
    have hshift : shifted.toNum = quotient.bits / 2 ^ 8 := by
      rw [U32F32.toNum, hshiftedBits]
      omega
    have hfirst : 2 ^ 32 * numTx / numWorkers / 2 ^ 8 = 2 ^ 24 * numTx / numWorkers := by
      rw [Nat.div_right_comm, show 2 ^ 32 * numTx = 2 ^ 24 * numTx * 2 ^ 8 by omega,
        Nat.mul_div_cancel _ (by norm_num)]
    have hsecond : 2 ^ 33 / (3600 / secsPerBlock) / 2 ^ 8 = 2 ^ 25 / (3600 / secsPerBlock) := by
      rw [Nat.div_right_comm, show 2 ^ 33 / 2 ^ 8 = 2 ^ 25 by norm_num]
    rw [hshift, hbits, powFrac, ← hfirst, ← hsecond]
    exact hmono.map_min
  refine ⟨quotient, shifted, hquotient, hshifted, hshiftedBits, htoNum, ?_⟩
  have hle : powFrac numTx numWorkers secsPerBlock ≤ 2 ^ 24 := powFrac_le hs hs'
  have hproduct : (2 ^ 256 - 1) / 2 ^ 24 * shifted.toNum < 2 ^ 256 := by
    rw [htoNum]
    omega
  rw [powTarget, if_neg (by omega), hquotient]
  change ((quotient.checkedShl 24).elim (.error .shift) .ok >>= fun shifted =>
    mulU256 ((2 ^ 256 - 1) / 2 ^ 24) shifted.toNum) = _
  rw [hshifted]
  exact if_pos hproduct

/-! ## The expected replies -/

/-- The replies asked for: all of them, or two an hour for each worker. -/
def expectedTx (numTx numWorkers secsPerBlock : ℕ) : ℚ :=
  min (numTx : ℚ) (2 * numWorkers / (3600 / secsPerBlock : ℕ))

/-- The three operations round down once. -/
theorem powFrac_eq_floor (hn : 0 < numWorkers) :
    ⌊2 ^ 24 * expectedTx numTx numWorkers secsPerBlock / numWorkers⌋ =
    (powFrac numTx numWorkers secsPerBlock : ℤ) := by
  have hne : (numWorkers : ℚ) ≠ 0 := by
    exact_mod_cast hn.ne'
  unfold expectedTx powFrac
  generalize 3600 / secsPerBlock = d
  have hscale : Monotone fun t : ℚ => 2 ^ 24 * t / numWorkers := by
    intro t t' h
    dsimp only
    gcongr
  have hfirst : 2 ^ 24 * (numTx : ℚ) / numWorkers = ((2 ^ 24 * numTx : ℕ) : ℚ) / (numWorkers : ℕ) := by
    push_cast
    rfl
  have hsecond : 2 ^ 24 * (2 * numWorkers / (d : ℚ)) / numWorkers = ((2 ^ 25 : ℕ) : ℚ) / (d : ℕ) := by
    push_cast
    field_simp
    norm_num
  calc ⌊2 ^ 24 * min (numTx : ℚ) (2 * numWorkers / (d : ℚ)) / numWorkers⌋
      = ⌊min (2 ^ 24 * (numTx : ℚ) / numWorkers) (2 ^ 24 * (2 * numWorkers / (d : ℚ)) / numWorkers)⌋ :=
        congrArg _ hscale.map_min
    _ = min ⌊2 ^ 24 * (numTx : ℚ) / numWorkers⌋ ⌊2 ^ 24 * (2 * numWorkers / (d : ℚ)) / numWorkers⌋ :=
        Int.floor_mono.map_min
    _ = min ((2 ^ 24 * numTx / numWorkers : ℕ) : ℤ) ((2 ^ 25 / d : ℕ) : ℤ) := by
        rw [hfirst, hsecond, Rat.floor_natCast_div_natCast, Rat.floor_natCast_div_natCast]
        push_cast
        rfl
    _ = ((min (2 ^ 24 * numTx / numWorkers) (2 ^ 25 / d) : ℕ) : ℤ) := (Nat.cast_min _ _).symm

/-- **The sampling target is in range and asks for no more replies than meant.**
Nothing overflows, the shift loses no bit, the factor is the exact one rounded down,
and the target does not grow with the number of workers. -/
theorem powTarget_bounds (checked : Bool) (numTx numWorkers secsPerBlock : ℕ) (htx : numTx < 2 ^ 32)
    (hn : 0 < numWorkers) (hn' : numWorkers < 2 ^ 31) (hs : 1 ≤ secsPerBlock) (hs' : secsPerBlock ≤ 1800) :
    ∃ quotient shifted target, powQuotient checked numTx numWorkers secsPerBlock = .ok quotient ∧
      quotient.checkedShl 24 = some shifted ∧ shifted.bits = 2 ^ 24 * quotient.bits ∧
      target = (2 ^ 256 - 1) / 2 ^ 24 * shifted.toNum ∧ target < 2 ^ 256 ∧
      powTarget checked numTx numWorkers secsPerBlock = .ok target ∧
      ⌊2 ^ 24 * expectedTx numTx numWorkers secsPerBlock / numWorkers⌋ - 1 ≤ (shifted.toNum : ℤ) ∧
      (shifted.toNum : ℚ) ≤ 2 ^ 24 * expectedTx numTx numWorkers secsPerBlock / numWorkers ∧
      (numWorkers * target / 2 ^ 256 : ℚ) ≤ expectedTx numTx numWorkers secsPerBlock ∧
      ∀ numWorkers' target', numWorkers ≤ numWorkers' → numWorkers' < 2 ^ 31 →
        powTarget checked numTx numWorkers' secsPerBlock = .ok target' → target' ≤ target := by
  obtain ⟨quotient, shifted, hquotient, hshifted, hbits, htoNum, hrun⟩ := powTarget_ok checked htx hn hn' hs hs'
  have hfloor : ⌊2 ^ 24 * expectedTx numTx numWorkers secsPerBlock / numWorkers⌋ =
      (powFrac numTx numWorkers secsPerBlock : ℤ) := powFrac_eq_floor hn
  have hsmall : powFrac numTx numWorkers secsPerBlock ≤ 2 ^ 24 := powFrac_le hs hs'
  have hle : (shifted.toNum : ℚ) ≤ 2 ^ 24 * expectedTx numTx numWorkers secsPerBlock / numWorkers := by
    have hfloorLe := Int.floor_le (2 ^ 24 * expectedTx numTx numWorkers secsPerBlock / numWorkers)
    rw [hfloor, ← htoNum] at hfloorLe
    exact_mod_cast hfloorLe
  refine ⟨quotient, shifted, _, hquotient, hshifted, hbits, rfl, ?_, hrun, ?_, hle, ?_, ?_⟩
  · rw [htoNum]
    omega
  · rw [hfloor, htoNum]
    omega
  · have hpos : (0 : ℚ) < numWorkers := by
      exact_mod_cast hn
    have hfactor : (shifted.toNum : ℚ) * numWorkers ≤ 2 ^ 24 * expectedTx numTx numWorkers secsPerBlock :=
      (le_div_iff₀ hpos).mp hle
    have hmax : (((2 ^ 256 - 1) / 2 ^ 24 * shifted.toNum : ℕ) : ℚ) ≤ 2 ^ 232 * shifted.toNum := by
      exact_mod_cast Nat.mul_le_mul_right _ (by norm_num)
    rw [div_le_iff₀ (by norm_num)]
    calc (numWorkers : ℚ) * (((2 ^ 256 - 1) / 2 ^ 24 * shifted.toNum : ℕ) : ℚ)
        ≤ numWorkers * (2 ^ 232 * shifted.toNum) := by gcongr
      _ = 2 ^ 232 * (shifted.toNum * numWorkers) := by ring
      _ ≤ 2 ^ 232 * (2 ^ 24 * expectedTx numTx numWorkers secsPerBlock) := by gcongr
      _ = expectedTx numTx numWorkers secsPerBlock * 2 ^ 256 := by ring
  · intro numWorkers' target' hmore hlt htarget
    obtain ⟨_, shifted', _, _, _, htoNum', hrun'⟩ := powTarget_ok checked htx (hn.trans_le hmore) hlt hs hs'
    rw [hrun'] at htarget
    rw [← Except.ok.inj htarget, htoNum, htoNum']
    exact Nat.mul_le_mul_left _ (powFrac_antitone hn hmore)

theorem powTarget_bounds_demo : ∃ target, powTarget true 20 200000 12 = .ok target ∧
    (200000 * target / 2 ^ 256 : ℚ) ≤ expectedTx 20 200000 12 := by
  obtain ⟨_, _, target, _, _, _, _, _, hrun, _, _, hreplies, _⟩ := powTarget_bounds true 20 200000 12 (by norm_num)
    (by norm_num) (by norm_num) (by norm_num) (by norm_num)
  exact ⟨target, hrun, by exact_mod_cast hreplies⟩

/-- Capped. -/
example : powTarget true 20 20 12 =
    .ok 771946525395830978497002573683960742805751636319313395421818009383503547160 := rfl

/-- Not capped. -/
example : powTarget true 20 200000 12 =
    .ok 11574228623567775471528085581038571683760509746329738253007553123311417715 := rfl

end Khala
