import Mathlib

/-! # C strings and the number conversions of `<stdlib.h>`

A C string is the list of its bytes without the terminating NUL. Numbers are
read as `strtol` and `strtoul` read them on a 64-bit target: leading white space,
an optional sign, digits, and saturation at the limits of the type.
-/

namespace KernelMonitor.Library

abbrev Bytes := List UInt8

/-- The bytes of a source literal. -/
def text (s : String) : Bytes := s.toList.flatMap String.utf8EncodeChar

/-- What a string function sees of a buffer: everything before the first NUL. -/
def cString (buf : Bytes) : Bytes := buf.takeWhile (· ≠ 0)

/-- `snprintf` keeps one byte of the buffer for the NUL. -/
def snprintf (size : Nat) (s : Bytes) : Bytes := s.take (size - 1)

/-- A text with room for its NUL is kept whole. -/
theorem snprintf_fits {size : Nat} {s : Bytes} (fits : s.length < size) : snprintf size s = s :=
  List.take_of_length_le (by omega)

/-- Index of the first occurrence. -/
def strchr (s : Bytes) (c : UInt8) : Option Nat := s.idxOf? c

/-- Index of the last occurrence. -/
def strrchr (s : Bytes) (c : UInt8) : Option Nat :=
  (s.reverse.idxOf? c).map fun back => s.length - 1 - back

/-- `isspace` in the C locale. -/
def isSpace (c : UInt8) : Bool := c == 32 || (9 ≤ c && c ≤ 13)

def isDigit (c : UInt8) : Bool := 48 ≤ c && c ≤ 57

def digitValue (c : UInt8) : Nat := c.toNat - 48

/-- Value of a digit string, most significant digit first. -/
def natValue (digits : Bytes) : Nat := Nat.ofDigits 10 (digits.map digitValue).reverse

def digitByte (d : Nat) : UInt8 := UInt8.ofNat (48 + d)

/-- `%u` and `%lu`. -/
def decimal (n : Nat) : Bytes :=
  if n = 0 then [48] else (Nat.digits 10 n).reverse.map digitByte

/-- `%d` and `%ld`. -/
def signedDecimal (i : Int) : Bytes :=
  if i < 0 then 45 :: decimal i.natAbs else decimal i.natAbs

/-- An optional sign: whether it was a minus, and what follows it. -/
def readSign (input : Bytes) : Bool × Bytes :=
  match input with
  | [] => (false, [])
  | c :: rest => if c = 45 then (true, rest) else if c = 43 then (false, rest) else (false, input)

/-- White space, sign and digits: the sign, the magnitude and what follows, or
    `none` where there is no digit to convert. -/
def readNumber (input : Bytes) : Option (Bool × Nat × Bytes) :=
  let signed := readSign (input.dropWhile isSpace)
  let digits := signed.2.takeWhile isDigit
  if digits = [] then none
  else some (signed.1, natValue digits, signed.2.dropWhile isDigit)

/-- Saturation of `strtol` at `LONG_MIN` and `LONG_MAX`. -/
def clampLong (negative : Bool) (n : Nat) : Int :=
  if negative then max (-(n : Int)) (-2 ^ 63) else min (n : Int) (2 ^ 63 - 1)

/-- `strtoul` negates modulo the type, but saturates first. -/
def clampULong (negative : Bool) (n : Nat) : UInt64 :=
  if 2 ^ 64 ≤ n then UInt64.ofNat (2 ^ 64 - 1)
  else if negative then 0 - UInt64.ofNat n else UInt64.ofNat n

def strtol (s : Bytes) : Int :=
  match readNumber s with
  | some (negative, n, _) => clampLong negative n
  | none => 0

/-- `strtoul` and `strtoull` agree: both types have 64 bits. -/
def strtoul (s : Bytes) : UInt64 :=
  match readNumber s with
  | some (negative, n, _) => clampULong negative n
  | none => 0

/-- Conversion of a wider integer to `int` or `pid_t`. -/
def toInt32 (i : Int) : Int := i.bmod (2 ^ 32)

/-! ## Splitting at the first byte outside a class -/

section Split

variable {α : Type*} {p : α → Bool}

theorem takeWhile_append_stop {front rest : List α} (all : ∀ c ∈ front, p c = true)
    (stop : ∀ c ∈ rest.head?, p c = false) : (front ++ rest).takeWhile p = front := by
  induction front with
  | nil =>
      cases rest with
      | nil => rfl
      | cons c rest => simp [stop c rfl]
  | cons c front ih =>
      have tail := ih fun d member => all d (List.mem_cons_of_mem _ member)
      simp [all c List.mem_cons_self, tail]

theorem dropWhile_append_stop {front rest : List α} (all : ∀ c ∈ front, p c = true)
    (stop : ∀ c ∈ rest.head?, p c = false) : (front ++ rest).dropWhile p = rest := by
  induction front with
  | nil =>
      cases rest with
      | nil => rfl
      | cons c rest => simp [stop c rfl]
  | cons c front ih =>
      have tail := ih fun d member => all d (List.mem_cons_of_mem _ member)
      simp [all c List.mem_cons_self, tail]

end Split

theorem cString_append_nul {s : Bytes} (free : 0 ∉ s) (junk : Bytes) :
    cString (s ++ 0 :: junk) = s :=
  takeWhile_append_stop (fun c member => by
    simpa using fun zero : c = 0 => free (zero ▸ member)) (by simp)

theorem strchr_append {s rest : Bytes} {c : UInt8} (absent : c ∉ s) :
    strchr (s ++ c :: rest) c = some s.length := by
  induction s with
  | nil => simp [strchr, List.idxOf?_cons]
  | cons d s ih =>
      obtain ⟨differs, absent⟩ : c ≠ d ∧ c ∉ s := by simpa using absent
      have tail : (s ++ c :: rest).idxOf? c = some s.length := ih absent
      simp [strchr, List.idxOf?_cons, Ne.symm differs, tail]

theorem strrchr_append {s rest : Bytes} {c : UInt8} (absent : c ∉ rest) :
    strrchr (s ++ c :: rest) c = some s.length := by
  have found : strchr (rest.reverse ++ c :: s.reverse) c = some rest.reverse.length :=
    strchr_append (by simpa using absent)
  simp only [strchr, List.length_reverse] at found
  simp only [strrchr, List.reverse_append, List.reverse_cons, List.append_assoc,
    List.singleton_append, found, Option.map_some, List.length_append, List.length_cons]
  congr 1
  omega

/-! ## Decimal numerals -/

theorem isDigit_digitByte {d : Nat} (small : d < 10) : isDigit (digitByte d) = true := by
  interval_cases d <;> decide

theorem digitValue_digitByte {d : Nat} (small : d < 10) : digitValue (digitByte d) = d := by
  interval_cases d <;> decide

theorem decimal_ne_nil (n : Nat) : decimal n ≠ [] := by
  unfold decimal
  split
  · simp
  · simpa [Nat.digits_eq_nil_iff_eq_zero] using ‹¬n = 0›

theorem decimal_digits (n : Nat) : ∀ c ∈ decimal n, isDigit c = true := by
  intro c member
  unfold decimal at member
  split at member
  · simp only [List.mem_singleton] at member
    exact member ▸ by decide
  · obtain ⟨d, digit, rfl⟩ := List.mem_map.mp member
    exact isDigit_digitByte (Nat.digits_lt_base (by norm_num) (List.mem_reverse.mp digit))

theorem natValue_decimal (n : Nat) : natValue (decimal n) = n := by
  unfold decimal
  split
  · simp [*, natValue, digitValue]
  · have values : ((Nat.digits 10 n).reverse.map digitByte).map digitValue =
        (Nat.digits 10 n).reverse := by
      rw [List.map_map, List.map_congr_left, List.map_id]
      intro d digit
      exact digitValue_digitByte (Nat.digits_lt_base (by norm_num) (List.mem_reverse.mp digit))
    rw [natValue, values, List.reverse_reverse, Nat.ofDigits_digits]

theorem isDigit_not_space {c : UInt8} (digit : isDigit c = true) : isSpace c = false := by
  simp only [isDigit, Bool.and_eq_true, decide_eq_true_eq, UInt8.le_iff_toNat_le] at digit
  simp only [isSpace, Bool.or_eq_false_iff, Bool.and_eq_false_iff, beq_eq_false_iff_ne,
    decide_eq_false_iff_not, UInt8.le_iff_toNat_le, ne_eq, ← UInt8.toNat_inj]
  simp only [UInt8.reduceToNat] at *
  omega

theorem readSign_digit {c : UInt8} (digit : isDigit c = true) (rest : Bytes) :
    readSign (c :: rest) = (false, c :: rest) := by
  have notMinus : c ≠ 45 := by rintro rfl; simp [isDigit] at digit
  have notPlus : c ≠ 43 := by rintro rfl; simp [isDigit] at digit
  simp only [readSign, if_neg notMinus, if_neg notPlus]

/-- A numeral followed by something that is no digit reads back exactly. -/
theorem readNumber_signedDecimal (i : Int) {rest : Bytes}
    (stop : ∀ c ∈ rest.head?, isDigit c = false) :
    readNumber (signedDecimal i ++ rest) = some (decide (i < 0), i.natAbs, rest) := by
  have reads := takeWhile_append_stop (decimal_digits i.natAbs) stop
  have drops := dropWhile_append_stop (decimal_digits i.natAbs) stop
  have signed : readSign ((signedDecimal i ++ rest).dropWhile isSpace) =
      (decide (i < 0), decimal i.natAbs ++ rest) := by
    by_cases negative : i < 0
    · simp only [signedDecimal, negative, if_true, List.cons_append, decide_true]
      rfl
    · obtain ⟨d, ds, numeral⟩ := List.exists_cons_of_ne_nil (decimal_ne_nil i.natAbs)
      have digit : isDigit d = true := decimal_digits i.natAbs d (numeral ▸ List.mem_cons_self)
      simp only [signedDecimal, negative, if_false, numeral, List.cons_append, decide_false,
        List.dropWhile_cons_of_neg (by simp [isDigit_not_space digit] : ¬ isSpace d = true),
        readSign_digit digit]
  simp only [readNumber, signed, reads, drops, decimal_ne_nil, natValue_decimal, if_false]

theorem readNumber_skip {spaces input : Bytes} (all : ∀ c ∈ spaces, isSpace c = true) :
    readNumber (spaces ++ input) = readNumber input := by
  have dropped : (spaces ++ input).dropWhile isSpace = input.dropWhile isSpace := by
    induction spaces with
    | nil => rfl
    | cons c spaces ih =>
        have tail := ih fun d member => all d (List.mem_cons_of_mem _ member)
        simp [all c List.mem_cons_self, tail]
  simp only [readNumber, dropped]

theorem clampLong_of_range {i : Int} (low : -2 ^ 63 ≤ i) (high : i < 2 ^ 63) :
    clampLong (decide (i < 0)) i.natAbs = i := by
  unfold clampLong
  by_cases negative : i < 0
  · simp only [negative, decide_true, if_true]
    omega
  · simp only [negative, decide_false, Bool.false_eq_true, if_false]
    omega

theorem toInt32_of_range {i : Int} (low : -2 ^ 31 ≤ i) (high : i < 2 ^ 31) : toInt32 i = i := by
  unfold toInt32
  exact Int.bmod_eq_of_le (by omega) (by omega)

theorem clampULong_toNat (n : UInt64) : clampULong false n.toNat = n := by
  have small : ¬ 2 ^ 64 ≤ n.toNat := Nat.not_le.mpr n.toNat_lt
  simp only [clampULong, if_neg small, Bool.false_eq_true, if_false, UInt64.ofNat_toNat]

end KernelMonitor.Library
