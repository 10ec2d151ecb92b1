import KernelMonitor.Library.Binary64

/-! # The conversions of `sscanf`

A format is a list of directives. Scanning returns the values assigned before the
first directive that fails, in order, so the return value of `sscanf` is the
length of the list and a partial match is visible to the caller as the stores it
made. How a floating-point number is written depends on the locale, and on the C
library where an exponent has no digits.
-/

namespace KernelMonitor.Library

structure NumberSyntax where
  /-- `decimal_point` of the locale. -/
  point : Bytes
  pointSome : point ≠ []
  /-- An exponent without digits spoils the number, as the standard says. Otherwise, as
      glibc has long had it, only the letter and the sign are lost. -/
  strict : Bool
  deriving DecidableEq, Repr

/-- The `C` locale. -/
def posixNumbers : NumberSyntax := ⟨text ".", by decide, false⟩

inductive ScanValue where
  | char (c : UInt8)
  | int (i : Int)
  | unsigned (n : UInt64)
  | str (s : Bytes)
  | double (x : Double)
  deriving DecidableEq, Repr

inductive Conversion where
  /-- `%c`: one byte, white space included. -/
  | char
  /-- `%d` -/
  | int
  /-- `%ld` -/
  | long
  /-- `%lu` and `%llu` -/
  | ulong
  /-- `%s`, with its maximum width if it has one. -/
  | str (width : Option Nat)
  /-- `%lf` -/
  | double (numbers : NumberSyntax)
  deriving DecidableEq, Repr

inductive Directive where
  /-- White space in the format: skips any amount of it, also none. -/
  | space
  | assign (conversion : Conversion)
  /-- `%*`: converted and dropped. -/
  | suppress (conversion : Conversion)
  deriving DecidableEq, Repr

def toLower (c : UInt8) : UInt8 := if 65 ≤ c ∧ c ≤ 90 then c + 32 else c

def isHexDigit (c : UInt8) : Bool := isDigit c || (97 ≤ toLower c && toLower c ≤ 102)

def hexValue (c : UInt8) : Nat := if isDigit c then digitValue c else (toLower c).toNat - 87

/-- What is behind a point, or behind as much of it as is there: that much is lost. -/
def skipPoint : Bytes → Bytes → Bool × Bytes
  | [], rest => (true, rest)
  | _ :: _, [] => (false, [])
  | p :: point, c :: rest => if c = p then skipPoint point rest else (false, c :: rest)

/-- Digits around an optional point. -/
structure Mantissa where
  digits : Bytes
  /-- How many of the digits are behind the point. -/
  places : Nat
  pointed : Bool
  /-- A part of a point ends the number. -/
  ended : Bool
  rest : Bytes

def readMantissa (digit : UInt8 → Bool) (point : Bytes) (input : Bytes) : Mantissa :=
  let after := input.dropWhile digit
  let (pointed, behind) := skipPoint point after
  let fraction := if pointed then behind.takeWhile digit else []
  { digits := input.takeWhile digit ++ fraction
    places := fraction.length
    pointed := pointed
    ended := !pointed && behind.length != after.length
    rest := if pointed then behind.dropWhile digit else behind }

/-- An exponent after its letter. -/
def readExponent (strict : Bool) (letter : UInt8) (input : Bytes) : Option (Int × Bytes) :=
  match input with
  | [] => some (0, [])
  | c :: tail =>
      if toLower c = letter then
        let signed := readSign tail
        let digits := signed.2.takeWhile isDigit
        if digits = [] then if strict then none else some (0, signed.2)
        else
          let magnitude : Int := natValue digits
          some (if signed.1 then -magnitude else magnitude, signed.2.dropWhile isDigit)
      else some (0, c :: tail)

def scaleDouble (negative : Bool) (numerator : Nat) (base : Nat) (exponent : Int) : Double :=
  .nearest negative ((numerator : ℚ≥0) * (base : ℚ≥0) ^ exponent)

def readHexadecimal (numbers : NumberSyntax) (negative : Bool) (input : Bytes) :
    Option (Double × Bytes) :=
  let mantissa := readMantissa isHexDigit numbers.point input
  let numerator := Nat.ofDigits 16 (mantissa.digits.map hexValue).reverse
  let exponent : Int := -(4 * mantissa.places)
  if mantissa.digits = [] then
    -- The zero of the `0x` is a number of its own, where the point has been read after it.
    if mantissa.pointed && !numbers.strict then some (.nearest negative 0, mantissa.rest) else none
  else if mantissa.ended then some (scaleDouble negative numerator 2 exponent, mantissa.rest)
  else (readExponent numbers.strict 112 mantissa.rest).map fun (power, rest) =>
    (scaleDouble negative numerator 2 (power + exponent), rest)

def readDecimal (numbers : NumberSyntax) (negative : Bool) (input : Bytes) :
    Option (Double × Bytes) :=
  let mantissa := readMantissa isDigit numbers.point input
  let numerator := natValue mantissa.digits
  let exponent : Int := -mantissa.places
  if mantissa.digits = [] then none
  else if mantissa.ended then some (scaleDouble negative numerator 10 exponent, mantissa.rest)
  else (readExponent numbers.strict 101 mantissa.rest).map fun (power, rest) =>
    (scaleDouble negative numerator 10 (power + exponent), rest)

def readDouble (numbers : NumberSyntax) (input : Bytes) : Option (Double × Bytes) :=
  let signed := readSign (input.dropWhile isSpace)
  let body := signed.2
  let word := body.map toLower
  if word.take 8 = text "infinity" then some (.infinite signed.1, body.drop 8)
  else if word.take 4 = text "infi" then none
  else if word.take 3 = text "inf" then some (.infinite signed.1, body.drop 3)
  else if word.take 3 = text "nan" then some (.quietNan signed.1, body.drop 3)
  else if word.take 2 = text "0x" then readHexadecimal numbers signed.1 (body.drop 2)
  else readDecimal numbers signed.1 body

def readToken (width : Option Nat) (input : Bytes) : Option (Bytes × Bytes) :=
  let body := input.dropWhile isSpace
  let word := body.takeWhile fun c => !isSpace c
  let token := match width with
    | some n => word.take n
    | none => word
  if token = [] then none else some (token, body.drop token.length)

def Conversion.read (conversion : Conversion) (input : Bytes) : Option (ScanValue × Bytes) :=
  match conversion with
  | .char =>
      match input with
      | [] => none
      | c :: rest => some (.char c, rest)
  | .int => (readNumber input).map fun (negative, n, rest) =>
      (.int (toInt32 (clampLong negative n)), rest)
  | .long => (readNumber input).map fun (negative, n, rest) => (.int (clampLong negative n), rest)
  | .ulong => (readNumber input).map fun (negative, n, rest) =>
      (.unsigned (clampULong negative n), rest)
  | .str width => (readToken width input).map fun (token, rest) => (.str token, rest)
  | .double numbers => (readDouble numbers input).map fun (x, rest) => (.double x, rest)

/-- The values stored before the scan ends or fails. -/
def sscanf : List Directive → Bytes → List ScanValue
  | [], _ => []
  | .space :: format, input => sscanf format (input.dropWhile isSpace)
  | .assign conversion :: format, input =>
      match conversion.read input with
      | none => []
      | some (value, rest) => value :: sscanf format rest
  | .suppress conversion :: format, input =>
      match conversion.read input with
      | none => []
      | some (_, rest) => sscanf format rest

/-! ## Scanning what was printed

Each rule consumes one blank and one printed field. `Ended` is what keeps a
field apart from the text after it.
-/

section Printed

/-- The text is over or goes on with white space. -/
def Ended (rest : Bytes) : Prop := ∀ c ∈ rest.head?, isSpace c = true

/-- A blank and a number, before the rest of a line. -/
def printed (i : Int) (rest : Bytes) : Bytes := 32 :: (signedDecimal i ++ rest)

theorem ended_printed (i : Int) (rest : Bytes) : Ended (printed i rest) := by
  intro c member
  cases member
  decide

theorem isSpace_not_digit {c : UInt8} (space : isSpace c = true) : isDigit c = false := by
  cases digit : isDigit c with
  | false => rfl
  | true => simp [isDigit_not_space digit] at space

theorem Ended.stops_digits {rest : Bytes} (ended : Ended rest) :
    ∀ c ∈ rest.head?, isDigit c = false :=
  fun c member => isSpace_not_digit (ended c member)

variable {format : List Directive} {rest : Bytes}

theorem readNumber_dropWhile (input : Bytes) :
    readNumber (input.dropWhile isSpace) = readNumber input := by
  simp only [readNumber, List.dropWhile_idempotent]

theorem readNumber_field (i : Int) (ended : Ended rest) :
    readNumber ((printed i rest).dropWhile isSpace) = some (decide (i < 0), i.natAbs, rest) := by
  have blank : printed i rest = [32] ++ (signedDecimal i ++ rest) := rfl
  rw [readNumber_dropWhile, blank, readNumber_skip (by simp [isSpace]),
    readNumber_signedDecimal i ended.stops_digits]

theorem sscanf_int (i : Int) (low : -2 ^ 31 ≤ i) (high : i < 2 ^ 31) (ended : Ended rest) :
    sscanf (.space :: .assign .int :: format) (printed i rest) = .int i :: sscanf format rest := by
  simp only [sscanf, Conversion.read, readNumber_field i ended, Option.map_some]
  rw [clampLong_of_range (by omega) (by omega), toInt32_of_range low high]

theorem sscanf_long (i : Int) (low : -2 ^ 63 ≤ i) (high : i < 2 ^ 63) (ended : Ended rest) :
    sscanf (.space :: .assign .long :: format) (printed i rest) = .int i :: sscanf format rest := by
  simp only [sscanf, Conversion.read, readNumber_field i ended, Option.map_some]
  rw [clampLong_of_range low high]

theorem sscanf_ulong (n : UInt64) (ended : Ended rest) :
    sscanf (.space :: .assign .ulong :: format) (printed n.toNat rest) =
      .unsigned n :: sscanf format rest := by
  simp only [sscanf, Conversion.read, readNumber_field n.toNat ended, Option.map_some,
    Int.natAbs_natCast, decide_eq_false (by omega : ¬ (n.toNat : Int) < 0), clampULong_toNat]

/-- A suppressed `%s` steps over any token, whatever it reads like. -/
theorem sscanf_token {token : Bytes} (nonempty : token ≠ [])
    (solid : ∀ c ∈ token, isSpace c = false) (ended : Ended rest) :
    sscanf (.space :: .suppress (.str none) :: format) (32 :: (token ++ rest)) =
      sscanf format rest := by
  obtain ⟨d, ds, rfl⟩ := List.exists_cons_of_ne_nil nonempty
  have skipped : (32 :: (d :: ds ++ rest)).dropWhile isSpace = d :: ds ++ rest := by
    have blank : (32 :: (d :: ds ++ rest)).dropWhile isSpace =
        (d :: ds ++ rest).dropWhile isSpace := rfl
    rw [blank, List.cons_append,
      List.dropWhile_cons_of_neg (by simp [solid d List.mem_cons_self] : ¬ isSpace d = true)]
  have word : (d :: ds ++ rest).takeWhile (fun c => !isSpace c) = d :: ds :=
    takeWhile_append_stop (fun c member => by simp [solid c member])
      (fun c member => by simp [ended c member])
  have read : readToken none (d :: ds ++ rest) = some (d :: ds, rest) := by
    have same : (d :: ds ++ rest).dropWhile isSpace = d :: ds ++ rest := by
      rw [← skipped, List.dropWhile_idempotent]
    simp only [readToken, same, word, List.cons_ne_nil, if_false, List.drop_left]
  simp only [sscanf, skipped, Conversion.read, read, Option.map_some]

theorem signedDecimal_ne_nil (i : Int) : signedDecimal i ≠ [] := by
  unfold signedDecimal
  split
  · simp
  · exact decimal_ne_nil _

/-- A numeral holds digits and at most a sign. -/
theorem signedDecimal_bytes {i : Int} {c : UInt8} (member : c ∈ signedDecimal i) :
    c = 45 ∨ isDigit c = true := by
  unfold signedDecimal at member
  split at member
  · rcases List.mem_cons.mp member with minus | digit
    · exact .inl minus
    · exact .inr (decimal_digits _ c digit)
  · exact .inr (decimal_digits _ c member)

theorem signedDecimal_solid (i : Int) : ∀ c ∈ signedDecimal i, isSpace c = false := by
  intro c member
  rcases signedDecimal_bytes member with rfl | digit
  · decide
  · exact isDigit_not_space digit

theorem sscanf_skip_number (i : Int) (ended : Ended rest) :
    sscanf (.space :: .suppress (.str none) :: format) (printed i rest) = sscanf format rest :=
  sscanf_token (signedDecimal_ne_nil i) (signedDecimal_solid i) ended

theorem sscanf_char {c : UInt8} (solid : isSpace c = false) :
    sscanf (.space :: .assign .char :: format) (32 :: c :: rest) =
      .char c :: sscanf format rest := by
  have skipped : (32 :: c :: rest).dropWhile isSpace = c :: rest := by
    have blank : (32 :: c :: rest).dropWhile isSpace = (c :: rest).dropWhile isSpace := rfl
    rw [blank, List.dropWhile_cons_of_neg (by simp [solid] : ¬ isSpace c = true)]
  simp only [sscanf, skipped, Conversion.read]

end Printed

end KernelMonitor.Library
