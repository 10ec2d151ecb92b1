import KernelMonitor.Library.Rounding

/-! # Numbers of binary64

A finite `double` is a multiple of the smallest positive one, by a whole number of at most
53 significant binary digits. Arithmetic gives the nearest of them, a tie the even one.
-/

namespace KernelMonitor.Library

/-- The binary digits of a number beyond the first 53. -/
def surplus (n : Nat) : Nat := Nat.log2 n - 52

/-- The number of at most 53 significant binary digits that is nearest to `q`. -/
def round53 (q : ℚ) : Nat :=
  let k := surplus ⌊q⌋₊
  roundEven (q / 2 ^ k) * 2 ^ k

/-! ## Rounding to 53 digits -/

section Round

variable {q : ℚ}

theorem floor_lt_surplus (q : ℚ) : q < 2 ^ (surplus ⌊q⌋₊ + 53) := by
  have digits : ⌊q⌋₊ < 2 ^ (surplus ⌊q⌋₊ + 53) := by
    refine Nat.lt_log2_self.trans_le (Nat.pow_le_pow_right (by decide) ?_)
    unfold surplus
    omega
  exact_mod_cast Nat.lt_of_floor_lt digits

theorem surplus_le_floor (nonneg : 0 ≤ q) (some : 0 < surplus ⌊q⌋₊) :
    2 ^ (surplus ⌊q⌋₊ + 52) ≤ q := by
  have long : surplus ⌊q⌋₊ + 52 = Nat.log2 ⌊q⌋₊ := by
    unfold surplus at some ⊢
    omega
  have nonzero : ⌊q⌋₊ ≠ 0 := by
    intro zero
    rw [zero] at some
    exact absurd some (by decide)
  have digits : 2 ^ (surplus ⌊q⌋₊ + 52) ≤ ⌊q⌋₊ := long ▸ Nat.log2_self_le nonzero
  calc (2 : ℚ) ^ (surplus ⌊q⌋₊ + 52) ≤ (⌊q⌋₊ : ℚ) := by exact_mod_cast digits
    _ ≤ q := Nat.floor_le nonneg

theorem scaled_rounds (nonneg : 0 ≤ q) (k : Nat) : RoundsTo (q / 2 ^ k) (roundEven (q / 2 ^ k)) :=
  roundEven_roundsTo (by positivity)

/-- A significand of 53 digits may become the next power of two. -/
theorem significand_le (nonneg : 0 ≤ q) :
    roundEven (q / 2 ^ surplus ⌊q⌋₊) ≤ 2 ^ 53 := by
  rw [(scaled_rounds nonneg _).le_iff_of_even (by decide), div_le_iff₀ (by positivity)]
  have below := floor_lt_surplus q
  rw [pow_add, mul_comm] at below
  have more : (0 : ℚ) ≤ 1 / 2 * 2 ^ surplus ⌊q⌋₊ := by positivity
  push_cast
  linarith

theorem le_significand (nonneg : 0 ≤ q) (some : 0 < surplus ⌊q⌋₊) :
    2 ^ 52 ≤ roundEven (q / 2 ^ surplus ⌊q⌋₊) := by
  refine (scaled_rounds nonneg _).le_of_le ?_
  have above := surplus_le_floor nonneg some
  rw [le_div_iff₀ (by positivity)]
  rw [pow_add, mul_comm] at above
  exact_mod_cast above

theorem round53_natCast {n : Nat} (short : n < 2 ^ 53) : round53 n = n := by
  have none : surplus n = 0 := by
    rcases Nat.eq_zero_or_pos n with rfl | positive
    · rfl
    · have digits := (Nat.log2_lt positive.ne').mpr short
      unfold surplus
      omega
  simp only [round53, Nat.floor_natCast, none, pow_zero, div_one, mul_one, roundEven_natCast]

theorem le_round53 (nonneg : 0 ≤ q) {n : Nat} (short : n ≤ 2 ^ 53) (above : (n : ℚ) ≤ q) :
    n ≤ round53 q := by
  rcases Nat.eq_zero_or_pos (surplus ⌊q⌋₊) with none | some
  · have rounds := scaled_rounds nonneg 0
    simp only [round53, none, pow_zero, div_one, mul_one] at rounds ⊢
    exact rounds.le_of_le above
  · calc n ≤ 2 ^ 53 := short
      _ ≤ 2 ^ 52 * 2 ^ surplus ⌊q⌋₊ := by
          rw [← pow_add]
          exact Nat.pow_le_pow_right (by decide) (by omega)
      _ ≤ round53 q := Nat.mul_le_mul_right _ (le_significand nonneg some)

/-- A bound with an even significand of 53 digits is kept up to half of its last digit. -/
theorem round53_le_iff (nonneg : 0 ≤ q) {c j : Nat} (even : c % 2 = 0) (low : 2 ^ 52 ≤ c)
    (high : c < 2 ^ 53) : round53 q ≤ c * 2 ^ j ↔ q ≤ (c + 1 / 2) * 2 ^ j := by
  have below := floor_lt_surplus q
  have above := surplus_le_floor nonneg
  have most := significand_le nonneg
  have least := le_significand nonneg
  have rounds := scaled_rounds nonneg (surplus ⌊q⌋₊)
  simp only [round53]
  generalize surplus ⌊q⌋₊ = k at below above most least rounds ⊢
  have castLow : (2 : ℚ) ^ 52 ≤ c := by exact_mod_cast low
  have castHigh : (c : ℚ) + 1 ≤ 2 ^ 53 := by exact_mod_cast high
  rcases lt_trichotomy k j with shorter | rfl | longer
  · have room : (2 : ℚ) ^ (k + 53) ≤ 2 ^ 52 * 2 ^ j := by
      rw [← pow_add]
      exact pow_le_pow_right₀ (by norm_num) (by omega)
    refine iff_of_true ?_ ?_
    · calc roundEven (q / 2 ^ k) * 2 ^ k ≤ 2 ^ 53 * 2 ^ k := Nat.mul_le_mul_right _ most
        _ ≤ 2 ^ 52 * 2 ^ j := by
            rw [← pow_add, ← pow_add]
            exact Nat.pow_le_pow_right (by decide) (by omega)
        _ ≤ c * 2 ^ j := Nat.mul_le_mul_right _ low
    · have scaled : (2 : ℚ) ^ 52 * 2 ^ j ≤ (c + 1 / 2) * 2 ^ j := by gcongr; linarith
      linarith
  · rw [Nat.mul_le_mul_right_iff (by positivity), rounds.le_iff_of_even even,
      div_le_iff₀ (by positivity)]
  · have some : 0 < k := by omega
    have room : (2 : ℚ) ^ 53 * 2 ^ j ≤ 2 ^ (k + 52) := by
      rw [← pow_add]
      exact pow_le_pow_right₀ (by norm_num) (by omega)
    refine iff_of_false (Nat.not_le_of_lt ?_) (not_le_of_gt ?_)
    · calc c * 2 ^ j < 2 ^ 53 * 2 ^ j := Nat.mul_lt_mul_of_pos_right high (by positivity)
        _ ≤ 2 ^ 52 * 2 ^ k := by
            rw [← pow_add, ← pow_add]
            exact Nat.pow_le_pow_right (by decide) (by omega)
        _ ≤ roundEven (q / 2 ^ k) * 2 ^ k := Nat.mul_le_mul_right _ (least some)
    · have scaled : ((c : ℚ) + 1 / 2) * 2 ^ j < 2 ^ 53 * 2 ^ j := by gcongr; linarith
      linarith [above some]

/-- What is rounded has no digits beyond the first 53. -/
theorem round53_short (nonneg : 0 ≤ q) : 2 ^ surplus (round53 q) ∣ round53 q := by
  have most := significand_le nonneg
  simp only [round53]
  generalize surplus ⌊q⌋₊ = k at most ⊢
  generalize roundEven (q / 2 ^ k) = c at most ⊢
  rcases Nat.lt_or_eq_of_le most with less | rfl
  · refine (Nat.pow_dvd_pow 2 ?_).trans (Nat.dvd_mul_left _ c)
    rcases Nat.eq_zero_or_pos (c * 2 ^ k) with zero | positive
    · rw [zero]
      exact Nat.zero_le k
    · have small : c * 2 ^ k < 2 ^ (53 + k) := by
        rw [pow_add]
        exact Nat.mul_lt_mul_of_pos_right less (by positivity)
      have digits := (Nat.log2_lt positive.ne').mpr small
      unfold surplus
      omega
  · rw [← pow_add]
    refine Nat.pow_dvd_pow 2 ?_
    rw [surplus, Nat.log2_two_pow]
    omega

end Round

/-! ## The type -/

/-- The smallest positive number goes so often into one. -/
def unitsOfOne : Nat := 2 ^ 1074

/-- `2 ^ 1024`, where the finite numbers end. -/
def unitsLimit : Nat := 2 ^ 2098

/-- A finite number without its sign, in units of the smallest one. -/
structure Magnitude where
  units : Nat
  short : 2 ^ surplus units ∣ units
  bounded : units < unitsLimit
  deriving DecidableEq, Repr

/-- A `double`. A number that is none has a payload, of which no bit is lost. -/
inductive Double where
  | finite (negative : Bool) (magnitude : Magnitude)
  | infinite (negative : Bool)
  | nan (negative : Bool) (payload : Fin (2 ^ 52)) (some : payload ≠ 0)
  deriving DecidableEq, Repr

namespace Double

theorem scaled_nonneg (amount : ℚ≥0) : (0 : ℚ) ≤ amount * unitsOfOne :=
  mul_nonneg amount.cast_nonneg (Nat.cast_nonneg _)

/-- The double nearest to a number with the given sign and amount. -/
@[irreducible] def nearest (negative : Bool) (amount : ℚ≥0) : Double :=
  let units := round53 (amount * unitsOfOne)
  if bounded : units < unitsLimit then
    .finite negative ⟨units, round53_short (scaled_nonneg amount), bounded⟩
  else .infinite negative

instance (n : Nat) : OfNat Double n := ⟨nearest false n⟩

/-- The quiet one. -/
def quietNan (negative : Bool) : Double := .nan negative (2 ^ 51) (by decide)

/-- Where it stands among the others, in units; both zeros at the same place. -/
def place : Double → Option Int
  | .finite negative magnitude => some (if negative then -magnitude.units else magnitude.units)
  | .infinite negative => some (if negative then -unitsLimit else unitsLimit)
  | .nan .. => none

/-- The comparison of C, which holds of nothing that is no number. -/
def le (x y : Double) : Bool :=
  match x.place, y.place with
  | some a, some b => a ≤ b
  | _, _ => false

instance : LE Double := ⟨fun x y => x.le y = true⟩

instance : DecidableLE Double := fun x y => inferInstanceAs (Decidable (x.le y = true))

theorem place_nearest (amount : ℚ≥0) : (nearest false amount).place =
    some ((min (round53 (amount * unitsOfOne)) unitsLimit : Nat) : Int) := by
  unfold nearest
  dsimp only
  split
  · rename_i bounded
    rw [Nat.min_eq_left bounded.le]
    rfl
  · rename_i beyond
    rw [Nat.min_eq_right (Nat.le_of_not_lt beyond)]
    rfl

theorem nearest_le_iff {amount bound : ℚ≥0} {units : Nat} (small : units < unitsLimit)
    (exact : round53 (bound * unitsOfOne) = units) :
    nearest false amount ≤ nearest false bound ↔ round53 (amount * unitsOfOne) ≤ units := by
  change (nearest false amount).le (nearest false bound) = true ↔ _
  simp only [le, place_nearest, exact, Nat.min_eq_left small.le, decide_eq_true_eq, Nat.cast_le,
    min_le_iff]
  exact or_iff_left (Nat.not_le_of_lt small)

theorem zero_le_nearest (amount : ℚ≥0) : 0 ≤ nearest false amount := by
  change (nearest false (0 : Nat)).le (nearest false amount) = true
  have zero : round53 (((0 : Nat) : ℚ≥0) * unitsOfOne) = 0 := by decide +kernel
  simp only [le, place_nearest, zero, Nat.zero_min, decide_eq_true_eq, Nat.cast_le]
  exact Nat.zero_le _

/-- The spacing above 100 is `2 ^ -46`. -/
theorem nearest_le_hundred_iff (amount : ℚ≥0) :
    nearest false amount ≤ 100 ↔ (amount : ℚ) ≤ 100 + 1 / 2 ^ 47 := by
  have hundred : round53 (((100 : Nat) : ℚ≥0) * unitsOfOne) = 100 * 2 ^ 46 * 2 ^ 1028 := by
    decide +kernel
  have spread : ((100 * 2 ^ 46 : Nat) + 1 / 2 : ℚ) * 2 ^ 1028 =
      (100 + 1 / 2 ^ 47) * (unitsOfOne : Nat) := by decide +kernel
  have positive : (0 : ℚ) < (unitsOfOne : Nat) :=
    Nat.cast_pos.mpr (by unfold unitsOfOne; positivity)
  change nearest false amount ≤ nearest false (100 : Nat) ↔ _
  rw [nearest_le_iff (by decide +kernel) hundred,
    round53_le_iff (scaled_nonneg amount) (by decide) (by decide) (by decide), spread,
    mul_le_mul_iff_left₀ positive]

end Double

end KernelMonitor.Library
