import KernelMonitor.Library.CText

/-! # Rounding to the nearest

A value that is not negative goes to the nearest whole number, a tie to the even one. `%.2f`
does so with the hundredths of an exact value.
-/

namespace KernelMonitor.Library

/-- `r` is nearest to `q`, and even where another number is as near. -/
def RoundsTo (q : ℚ) (r : Nat) : Prop := |q - r| ≤ 1 / 2 ∧ (|q - r| = 1 / 2 → r % 2 = 0)

def roundEven (q : ℚ) : Nat :=
  let n := ⌊q⌋₊
  if q - n < 1 / 2 then n
  else if 1 / 2 < q - n then n + 1
  else if n % 2 = 0 then n else n + 1

/-- The digits of `%.2f`, from the rounded hundredths. -/
def fixed2 (hundredths : Nat) : Bytes :=
  decimal (hundredths / 100) ++
    [46, digitByte (hundredths % 100 / 10), digitByte (hundredths % 10)]

theorem roundEven_roundsTo {q : ℚ} (nonneg : 0 ≤ q) : RoundsTo q (roundEven q) := by
  have low : (⌊q⌋₊ : ℚ) ≤ q := Nat.floor_le nonneg
  have high : q < ⌊q⌋₊ + 1 := Nat.lt_floor_add_one q
  unfold roundEven RoundsTo
  dsimp only
  split_ifs with below above even
  · rw [abs_of_nonneg (by linarith)]
    exact ⟨by linarith, fun tie => by linarith⟩
  · push_cast
    rw [abs_of_nonpos (by linarith)]
    exact ⟨by linarith, fun tie => by linarith⟩
  · rw [abs_of_nonneg (by linarith)]
    exact ⟨by linarith, fun _ => even⟩
  · push_cast
    rw [abs_of_nonpos (by linarith)]
    exact ⟨by linarith, fun _ => by omega⟩

/-- A bound that is odd is kept up to the tie above it. -/
theorem RoundsTo.le_iff {q : ℚ} {r n : Nat} (rounds : RoundsTo q r) (odd : n % 2 = 1) :
    r ≤ n ↔ q < n + 1 / 2 := by
  obtain ⟨near, tie⟩ := rounds
  obtain ⟨above, below⟩ := abs_le.mp near
  constructor
  · intro small
    have cast : (r : ℚ) ≤ n := by exact_mod_cast small
    rcases lt_or_eq_of_le (by linarith : q ≤ n + 1 / 2) with less | same
    · exact less
    · have exact : (r : ℚ) = n := by linarith
      have odd' : r = n := by exact_mod_cast exact
      have even := tie (by rw [same, exact, add_sub_cancel_left]; norm_num)
      omega
  · intro less
    by_contra large
    have cast : (n : ℚ) + 1 ≤ r := by exact_mod_cast Nat.lt_of_not_le large
    linarith

/-- One that is even is kept with the tie above it. -/
theorem RoundsTo.le_iff_of_even {q : ℚ} {r n : Nat} (rounds : RoundsTo q r) (even : n % 2 = 0) :
    r ≤ n ↔ q ≤ n + 1 / 2 := by
  obtain ⟨near, tie⟩ := rounds
  obtain ⟨above, below⟩ := abs_le.mp near
  constructor
  · intro small
    have cast : (r : ℚ) ≤ n := by exact_mod_cast small
    linarith
  · intro within
    by_contra large
    have cast : (n : ℚ) + 1 ≤ r := by exact_mod_cast Nat.lt_of_not_le large
    have exact : (r : ℚ) = n + 1 := by linarith
    have odd : r = n + 1 := by exact_mod_cast exact
    have parity := tie (by rw [abs_of_nonpos (by linarith)]; linarith)
    omega

theorem RoundsTo.le_of_le {q : ℚ} {r n : Nat} (rounds : RoundsTo q r) (above : (n : ℚ) ≤ q) :
    n ≤ r := by
  have near := (abs_le.mp rounds.1).2
  have cast : (n : ℚ) < r + 1 := by linarith
  exact Nat.lt_succ_iff.mp (by exact_mod_cast cast)

theorem roundEven_natCast (n : Nat) : roundEven n = n := by
  simp [roundEven]

end KernelMonitor.Library
