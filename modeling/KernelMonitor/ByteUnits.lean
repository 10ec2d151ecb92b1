import KernelMonitor.Library.Rounding

/-! # Byte counts with a unit

`km_format_bytes` chooses its unit by dividing the exact count, and prints that count
rounded to two decimals.
-/

namespace KernelMonitor

open Library

/-- `units` -/
def byteUnits : List Bytes := [text "B", text "KB", text "MB", text "GB", text "TB"]

/-- The division loop of `km_format_bytes`: the value and `unit_index`. -/
def scaleBytes (value : ℚ) (unitIndex : Nat) : ℚ × Nat :=
  if 1024 ≤ value ∧ unitIndex < 4 then scaleBytes (value / 1024) (unitIndex + 1)
  else (value, unitIndex)
termination_by 4 - unitIndex
decreasing_by omega

/-- What `"%.2f %s"` makes of a number of hundredths and a unit. -/
def byteText (hundredths unitIndex : Nat) : Bytes :=
  fixed2 hundredths ++ text " " ++ (byteUnits[unitIndex]?).getD []

/-- `km_format_bytes` -/
def formatBytes (bufsz : Nat) (bytes : UInt64) : Bytes :=
  let (value, unitIndex) := scaleBytes bytes.toNat 0
  snprintf bufsz (byteText (roundEven (value * 100)) unitIndex)

/-! ## The unit -/

/-- The largest unit in which the count is at least 1, or bytes below 1024. -/
structure LargestUnit (bytes unitIndex : Nat) : Prop where
  known : unitIndex ≤ 4
  reached : unitIndex = 0 ∨ 1024 ^ unitIndex ≤ bytes
  largest : ∀ larger, unitIndex < larger → larger ≤ 4 → bytes < 1024 ^ larger

theorem LargestUnit.unique {bytes unitIndex other : Nat} (first : LargestUnit bytes unitIndex)
    (second : LargestUnit bytes other) : unitIndex = other := by
  rcases lt_trichotomy unitIndex other with less | same | more
  · have below := first.largest other less second.known
    rcases second.reached with zero | reached <;> omega
  · exact same
  · have below := second.largest unitIndex more first.known
    rcases first.reached with zero | reached <;> omega

/-- The loop stops at the largest unit, with the exact count in it. -/
theorem scaleBytes_largest {bytes unitIndex : Nat} {value : ℚ}
    (exact : value = bytes / 1024 ^ unitIndex) (known : unitIndex ≤ 4)
    (reached : unitIndex = 0 ∨ 1024 ^ unitIndex ≤ bytes) :
    LargestUnit bytes (scaleBytes value unitIndex).2 ∧
      (scaleBytes value unitIndex).1 = bytes / 1024 ^ (scaleBytes value unitIndex).2 := by
  fun_induction scaleBytes value unitIndex with
  | case1 value unitIndex more ih =>
      have positive : (0 : ℚ) < 1024 ^ unitIndex := by positivity
      apply ih
      · rw [exact, pow_succ, div_div]
      · omega
      · right
        have large := more.1
        rw [exact, le_div_iff₀ positive, ← pow_succ'] at large
        exact_mod_cast large
  | case2 value unitIndex stop =>
      refine ⟨⟨known, reached, fun larger above within => ?_⟩, exact⟩
      have positive : (0 : ℚ) < 1024 ^ unitIndex := by positivity
      have small : value < 1024 := by
        by_contra large
        exact stop ⟨not_lt.mp large, by omega⟩
      rw [exact, div_lt_iff₀ positive, ← pow_succ'] at small
      have next : bytes < 1024 ^ (unitIndex + 1) := by exact_mod_cast small
      exact next.trans_le (Nat.pow_le_pow_right (by norm_num) above)

/-! ## The printed number -/

/-- The text names the largest unit, and its number, rounded to two decimals, is below
    1024.00 where a larger unit is left. -/
def FormatsWell (bytes : UInt64) : Prop :=
  ∃ hundredths unitIndex,
    (∀ bufsz, formatBytes bufsz bytes = snprintf bufsz (byteText hundredths unitIndex)) ∧
      LargestUnit bytes.toNat unitIndex ∧
      RoundsTo (bytes.toNat / 1024 ^ unitIndex * 100) hundredths ∧
      (unitIndex ≠ 4 → hundredths < 102400)

/-- The count is below the next unit by half a hundredth of its own or less. -/
def JustBelow (bytes unitIndex : Nat) : Prop :=
  bytes < 1024 ^ (unitIndex + 1) ∧ 204799 * 1024 ^ unitIndex ≤ 200 * bytes

theorem hundredths_iff {bytes unitIndex hundredths : Nat}
    (rounds : RoundsTo (bytes / 1024 ^ unitIndex * 100) hundredths) :
    hundredths < 102400 ↔ 200 * bytes < 204799 * 1024 ^ unitIndex := by
  have positive : (0 : ℚ) < 1024 ^ unitIndex := by positivity
  have bound := rounds.le_iff (by norm_num : 102399 % 2 = 1)
  calc hundredths < 102400 ↔ hundredths ≤ 102399 := by omega
    _ ↔ (bytes : ℚ) / 1024 ^ unitIndex * 100 < (102399 : Nat) + 1 / 2 := bound
    _ ↔ (bytes : ℚ) / 1024 ^ unitIndex < 204799 / 200 := by
        constructor <;> intro less <;> push_cast at * <;> linarith
    _ ↔ (bytes : ℚ) < 204799 / 200 * 1024 ^ unitIndex := div_lt_iff₀ positive
    _ ↔ (200 * bytes : ℚ) < 204799 * 1024 ^ unitIndex := by
        constructor <;> intro less <;> linarith
    _ ↔ 200 * bytes < 204799 * 1024 ^ unitIndex := by exact_mod_cast Iff.rfl

theorem JustBelow.largest {bytes unitIndex : Nat} (below : JustBelow bytes unitIndex)
    (known : unitIndex ≤ 4) : LargestUnit bytes unitIndex where
  known := known
  reached := by
    have near := below.2
    omega
  largest larger above _ := below.1.trans_le (Nat.pow_le_pow_right (by norm_num) above)

/-- A count just below the next unit is printed as 1024.00 of its own. -/
theorem JustBelow.not_formatsWell {bytes : UInt64} {unitIndex : Nat}
    (near : JustBelow bytes.toNat unitIndex) (small : unitIndex ≤ 3) : ¬ FormatsWell bytes := by
  rintro ⟨hundredths, other, _, largest, rounds, below⟩
  obtain rfl := largest.unique (near.largest (by omega))
  have less := (hundredths_iff rounds).mp (below (by omega))
  exact absurd near.2 (by omega)

/-- The number stays below 1024.00 unless the count is just below a MB, GB or TB. -/
theorem format_bytes_iff (bytes : UInt64) :
    FormatsWell bytes ↔ ∀ unitIndex ∈ [1, 2, 3], ¬ JustBelow bytes.toNat unitIndex := by
  constructor
  · intro well unitIndex member near
    have small : unitIndex ≤ 3 := by
      simp only [List.mem_cons, List.not_mem_nil, or_false] at member
      omega
    exact near.not_formatsWell small well
  · intro apart
    have start : (bytes.toNat : ℚ) = bytes.toNat / 1024 ^ 0 := by simp
    obtain ⟨largest, exact⟩ := scaleBytes_largest start (by norm_num) (.inl rfl)
    have rounds := roundEven_roundsTo (by rw [exact]; positivity :
      0 ≤ (scaleBytes bytes.toNat 0).1 * 100)
    refine ⟨_, _, fun bufsz => rfl, largest, exact ▸ rounds, fun more => ?_⟩
    rw [exact] at rounds ⊢
    rw [hundredths_iff rounds]
    generalize (scaleBytes bytes.toNat 0).2 = unitIndex at largest more ⊢
    have known := largest.known
    have next := largest.largest (unitIndex + 1) (by omega) (by omega)
    by_cases zero : unitIndex = 0
    · subst zero
      omega
    · have member : unitIndex ∈ [1, 2, 3] := by
        simp only [List.mem_cons, List.not_mem_nil, or_false]
        omega
      by_contra near
      exact apart unitIndex member ⟨next, by omega⟩

/-- One byte less than a MB. -/
theorem rounded_up_to_unit : formatBytes 64 1048575 = text "1024.00 KB" ∧
    ¬ FormatsWell 1048575 := by
  have near : JustBelow (1048575 : UInt64).toNat 1 := by
    unfold JustBelow
    decide +kernel
  exact ⟨by decide +kernel, near.not_formatsWell (by decide)⟩

end KernelMonitor
