import KernelMonitor.Library.PrintedColumns
import KernelMonitor.StatRoundTrip
import KernelMonitor.SignalTargets

/-! # The terminal of a process

Models of `km_format_tty` (`src/process/process_monitor.c`), and of `own_tty_nr` and
`describe_tty` (`demo/jobctl.c`), which take a device number apart that the kernel prints
as one field of `/proc/[pid]/stat`. The one shifts it as an `unsigned int`, the other as an
`int`.
-/

namespace KernelMonitor

open Library

/-! ## The device number taken apart -/

/-- `major` and `minor` of `km_format_tty`. -/
def ttyMajor (ttyNr : Int) : Nat := ((BitVec.ofInt 32 ttyNr >>> 8) &&& 0xfff#32).toNat

def ttyMinor (ttyNr : Int) : Nat :=
  ((BitVec.ofInt 32 ttyNr &&& 0xff#32) |||
    ((BitVec.ofInt 32 ttyNr >>> 12) &&& 0xfff00#32)).toNat

def formatTty (ttyNr : Int) (bufsz : Nat) : Bytes :=
  let major := ttyMajor ttyNr
  let minor := ttyMinor ttyNr
  if ttyNr = 0 then snprintf bufsz (text "none")
  else if 136 ≤ major ∧ major ≤ 143 then
    snprintf bufsz (text "pts/" ++ decimal ((major - 136) * 256 + minor))
  else if major = 4 ∧ minor < 64 then snprintf bufsz (text "tty" ++ decimal minor)
  else if major = 4 then snprintf bufsz (text "ttyS" ++ decimal (minor - 64))
  else snprintf bufsz (decimal major ++ 58 :: decimal minor)

/-- `major` and `minor` of `describe_tty`, with shifts that keep the sign. -/
def signedMajor (ttyNr : Int) : Int := ((BitVec.ofInt 32 ttyNr).sshiftRight 8 &&& 0xfff#32).toInt

def signedMinor (ttyNr : Int) : Int :=
  ((BitVec.ofInt 32 ttyNr &&& 0xff#32) |||
    ((BitVec.ofInt 32 ttyNr).sshiftRight 12 &&& 0xfff00#32)).toInt

def describeTty (ttyNr : Int) (size : Nat) : Bytes :=
  let major := signedMajor ttyNr
  let minor := signedMinor ttyNr
  if ttyNr = 0 then snprintf size (text "no controlling terminal")
  else if 136 ≤ major ∧ major ≤ 143 then
    snprintf size (text "terminal pts/" ++ signedDecimal ((major - 136) * 256 + minor))
  else snprintf size (text "terminal " ++ signedDecimal major ++ 58 :: signedDecimal minor)

def ownTtyFormat : List Directive :=
  [.space, .assign .char, .space, .assign .int, .space, .assign .int, .space, .assign .int,
    .space, .assign .int]

/-- `own_tty_nr`, on the file's content, none where it cannot be read. -/
def ownTtyNr (stat : Option Bytes) : Int :=
  match stat with
  | none => -1
  | some content =>
      let buf := cString (content.take 511 ++ [0])
      match strrchr buf 41 with
      | none => -1
      | some closeParen =>
          match sscanf ownTtyFormat (buf.drop (closeParen + 1)) with
          | [.char _, .int _, .int _, .int _, .int ttyNr] => ttyNr
          | _ => -1

/-! ## Shifts and masks as arithmetic -/

theorem ttyMajor_eq (ttyNr : Int) :
    ttyMajor ttyNr = (BitVec.ofInt 32 ttyNr).toNat / 2 ^ 8 % 2 ^ 12 := by
  unfold ttyMajor
  rw [BitVec.toNat_and, BitVec.toNat_ushiftRight, Nat.shiftRight_eq_div_pow]
  exact Nat.and_two_pow_sub_one_eq_mod _ 12

theorem and_middle (n : Nat) : n &&& 0xfff00 = n / 2 ^ 8 % 2 ^ 12 * 2 ^ 8 := by
  refine Nat.eq_of_testBit_eq fun i => ?_
  have mask : (0xfff00 : Nat) = (2 ^ 12 - 1) * 2 ^ 8 := by norm_num
  rw [mask]
  simp only [Nat.testBit_and, Nat.testBit_mul_two_pow, Nat.testBit_mod_two_pow,
    Nat.testBit_two_pow_sub_one, Nat.testBit_div_two_pow]
  by_cases low : 8 ≤ i
  · simp [low, Bool.and_comm]
  · simp [low]

theorem ttyMinor_eq (ttyNr : Int) :
    ttyMinor ttyNr = (BitVec.ofInt 32 ttyNr).toNat % 2 ^ 8 +
      (BitVec.ofInt 32 ttyNr).toNat / 2 ^ 20 % 2 ^ 12 * 2 ^ 8 := by
  unfold ttyMinor
  generalize BitVec.ofInt 32 ttyNr = b
  have low : b.toNat &&& 255 = b.toNat % 2 ^ 8 := Nat.and_two_pow_sub_one_eq_mod _ 8
  have high : b.toNat >>> 12 &&& 0xfff00 = 2 ^ 8 * (b.toNat / 2 ^ 20 % 2 ^ 12) := by
    rw [and_middle, Nat.shiftRight_eq_div_pow, Nat.div_div_eq_div_mul, ← Nat.pow_add, mul_comm]
  have small : b.toNat % 2 ^ 8 < 2 ^ 8 := Nat.mod_lt _ (by decide)
  rw [BitVec.toNat_or, BitVec.toNat_and, BitVec.toNat_and, BitVec.toNat_ushiftRight]
  simp only [BitVec.toNat_ofNat, Nat.reducePow, Nat.reduceMod] at low high small ⊢
  rw [low, high, Nat.or_comm, ← Nat.two_pow_add_eq_or_of_lt (i := 8) small]
  ring

theorem ttyMajor_lt (ttyNr : Int) : ttyMajor ttyNr < 2 ^ 12 := by
  rw [ttyMajor_eq]
  exact Nat.mod_lt _ (by decide)

theorem ttyMinor_lt (ttyNr : Int) : ttyMinor ttyNr < 2 ^ 20 := by
  rw [ttyMinor_eq]
  omega

/-- The masks cut off what the two shifts differ in. -/
theorem signedMajor_eq (ttyNr : Int) : signedMajor ttyNr = ttyMajor ttyNr := by
  have same : (BitVec.ofInt 32 ttyNr).sshiftRight 8 &&& 0xfff#32 =
      (BitVec.ofInt 32 ttyNr >>> 8) &&& 0xfff#32 := by
    refine BitVec.eq_of_getLsbD_eq fun i inside => ?_
    interval_cases i <;> simp [BitVec.getElem_sshiftRight]
  have small := ttyMajor_lt ttyNr
  unfold ttyMajor at small
  unfold signedMajor ttyMajor
  rw [same, BitVec.toInt_eq_toNat_of_lt (by omega)]

theorem signedMinor_eq (ttyNr : Int) : signedMinor ttyNr = ttyMinor ttyNr := by
  have same : (BitVec.ofInt 32 ttyNr).sshiftRight 12 &&& 0xfff00#32 =
      (BitVec.ofInt 32 ttyNr >>> 12) &&& 0xfff00#32 := by
    refine BitVec.eq_of_getLsbD_eq fun i inside => ?_
    interval_cases i <;> simp [BitVec.getElem_sshiftRight]
  have small := ttyMinor_lt ttyNr
  unfold ttyMinor at small
  unfold signedMinor ttyMinor
  rw [same, BitVec.toInt_eq_toNat_of_lt (by omega)]

/-! ## The texts, and what they tell apart -/

/-- The ways in which a terminal is shown. -/
inductive TtyName where
  | none
  | pts (number : ℕ)
  | console (number : ℕ)
  | serial (number : ℕ)
  | device (major minor : ℕ)
  deriving DecidableEq, Repr

def TtyName.render : TtyName → Bytes
  | none => text "none"
  | pts number => text "pts/" ++ decimal number
  | console number => text "tty" ++ decimal number
  | serial number => text "ttyS" ++ decimal number
  | device major minor => decimal major ++ 58 :: decimal minor

theorem decimal_injective : Function.Injective decimal := by
  intro m n same
  rw [← natValue_decimal m, same, natValue_decimal]

/-- A numeral begins with a digit. -/
theorem numeral_ne {n : ℕ} {c : UInt8} {rest : Bytes} (tail : Bytes) (other : isDigit c = false) :
    decimal n ++ tail ≠ c :: rest := by
  intro same
  obtain ⟨d, ds, there⟩ := List.exists_cons_of_ne_nil (decimal_ne_nil n)
  have digit := decimal_digits n d (by simp [there])
  rw [there, List.cons_append, List.cons.injEq] at same
  rw [same.1, other] at digit
  cases digit

/-- Two numbers with a colon between them can be told apart. -/
theorem numbered_injective {major minor major' minor' : ℕ}
    (same : decimal major ++ 58 :: decimal minor = decimal major' ++ 58 :: decimal minor') :
    major = major' ∧ minor = minor' := by
  have stop : ∀ n : ℕ, ∀ c ∈ (58 :: decimal n).head?, isDigit c = false := by
    intro n c first
    cases first
    decide
  have before := congrArg (List.takeWhile isDigit) same
  have after := congrArg (List.dropWhile isDigit) same
  rw [takeWhile_append_stop (decimal_digits major) (stop minor),
    takeWhile_append_stop (decimal_digits major') (stop minor')] at before
  rw [dropWhile_append_stop (decimal_digits major) (stop minor),
    dropWhile_append_stop (decimal_digits major') (stop minor')] at after
  exact ⟨decimal_injective before, decimal_injective (List.cons.inj after).2⟩

theorem TtyName.render_injective : Function.Injective TtyName.render := by
  have none_ : render none = 110 :: [111, 110, 101] := by decide
  have pts_ (n : ℕ) : (pts n).render = 112 :: 116 :: 115 :: 47 :: decimal n := by
    rw [render, show text "pts/" = [112, 116, 115, 47] by decide]
    rfl
  have console_ (n : ℕ) : (console n).render = 116 :: 116 :: 121 :: decimal n := by
    rw [render, show text "tty" = [116, 116, 121] by decide]
    rfl
  have serial_ (n : ℕ) : (serial n).render = 116 :: 116 :: 121 :: 83 :: decimal n := by
    rw [render, show text "ttyS" = [116, 116, 121, 83] by decide]
    rfl
  have mixed (m n : ℕ) : decimal m ≠ 83 :: decimal n := by
    rw [← List.append_nil (decimal m)]
    exact numeral_ne [] (by decide)
  intro a b same
  cases a with
  | none =>
      cases b with
      | none => rfl
      | device => exact absurd (same.symm.trans none_) (numeral_ne _ (by decide))
      | pts | console | serial => simp [none_, pts_, console_, serial_] at same
  | pts m =>
      cases b with
      | pts n => exact congrArg pts (decimal_injective (List.append_cancel_left same))
      | device => exact absurd (same.symm.trans (pts_ m)) (numeral_ne _ (by decide))
      | none | console | serial => simp [none_, pts_, console_, serial_] at same
  | console m =>
      cases b with
      | console n => exact congrArg console (decimal_injective (List.append_cancel_left same))
      | device => exact absurd (same.symm.trans (console_ m)) (numeral_ne _ (by decide))
      | none | pts | serial => simp [none_, pts_, console_, serial_, mixed] at same
  | serial m =>
      cases b with
      | serial n => exact congrArg serial (decimal_injective (List.append_cancel_left same))
      | device => exact absurd (same.symm.trans (serial_ m)) (numeral_ne _ (by decide))
      | none | pts | console => simp [none_, pts_, console_, serial_, (mixed _ _).symm] at same
  | device major minor =>
      cases b with
      | device major' minor' =>
          obtain ⟨rfl, rfl⟩ := numbered_injective same
          rfl
      | none => exact absurd (same.trans none_) (numeral_ne _ (by decide))
      | pts n => exact absurd (same.trans (pts_ n)) (numeral_ne _ (by decide))
      | console n => exact absurd (same.trans (console_ n)) (numeral_ne _ (by decide))
      | serial n => exact absurd (same.trans (serial_ n)) (numeral_ne _ (by decide))

/-- The name that `km_format_tty` gives a device number. -/
def ttyName (ttyNr : Int) : TtyName :=
  let major := ttyMajor ttyNr
  let minor := ttyMinor ttyNr
  if ttyNr = 0 then .none
  else if 136 ≤ major ∧ major ≤ 143 then .pts ((major - 136) * 256 + minor)
  else if major = 4 ∧ minor < 64 then .console minor
  else if major = 4 then .serial (minor - 64)
  else .device major minor

/-- The name that `describe_tty` gives it. -/
def plainName (ttyNr : Int) : TtyName :=
  let major := ttyMajor ttyNr
  let minor := ttyMinor ttyNr
  if ttyNr = 0 then .none
  else if 136 ≤ major ∧ major ≤ 143 then .pts ((major - 136) * 256 + minor)
  else .device major minor

/-- What `describe_tty` says of a name. -/
def TtyName.described : TtyName → Bytes
  | none => text "no controlling terminal"
  | name => text "terminal " ++ name.render

theorem TtyName.described_injective : Function.Injective TtyName.described := by
  have no : text "no controlling terminal" = 110 :: text "o controlling terminal" := by decide
  have yes : text "terminal " = 116 :: text "erminal " := by decide
  intro a b same
  have apart : ∀ rest, text "no controlling terminal" ≠ text "terminal " ++ rest := by
    intro rest wrong
    simp only [no, yes, List.cons_append, List.cons.injEq] at wrong
    cases wrong.1
  cases a with
  | none =>
      cases b with
      | none => rfl
      | pts | console | serial | device => exact absurd same (apart _)
  | pts | console | serial | device =>
      cases b with
      | none => exact absurd same.symm (apart _)
      | pts | console | serial | device =>
          exact render_injective (List.append_cancel_left same)

/-- A name that `snprintf` keeps whole in the buffer of `draw_group_and_faults`. -/
theorem ttyName_fits (ttyNr : Int) : (ttyName ttyNr).render.length < 16 := by
  have major := ttyMajor_lt ttyNr
  have minor := ttyMinor_lt ttyNr
  have words : (text "none").length = 4 ∧ (text "pts/").length = 4 ∧ (text "tty").length = 3 ∧
      (text "ttyS").length = 4 := by decide
  have short : ∀ n < 10 ^ 7, (decimal n).length ≤ 7 := fun n small =>
    decimal_length_le (by decide) small
  have four : (decimal (ttyMajor ttyNr)).length ≤ 4 := decimal_length_le (by decide) (by omega)
  simp only [ttyName]
  split_ifs with none pts
  · exact lt_of_eq_of_lt words.1 (by decide)
  · have digits := short ((ttyMajor ttyNr - 136) * 256 + ttyMinor ttyNr) (by omega)
    simp only [TtyName.render, List.length_append]
    omega
  · have digits := short (ttyMinor ttyNr) (by omega)
    simp only [TtyName.render, List.length_append]
    omega
  · have digits := short (ttyMinor ttyNr - 64) (by omega)
    simp only [TtyName.render, List.length_append]
    omega
  · have digits := short (ttyMinor ttyNr) (by omega)
    simp only [TtyName.render, List.length_append, List.length_cons]
    omega

theorem plainName_fits (ttyNr : Int) : (plainName ttyNr).described.length < 64 := by
  have major := ttyMajor_lt ttyNr
  have minor := ttyMinor_lt ttyNr
  have words : (text "no controlling terminal").length = 23 ∧
      (text "terminal ").length = 9 ∧ (text "pts/").length = 4 := by decide
  have short : ∀ n < 10 ^ 7, (decimal n).length ≤ 7 := fun n small =>
    decimal_length_le (by decide) small
  have four : (decimal (ttyMajor ttyNr)).length ≤ 4 := decimal_length_le (by decide) (by omega)
  simp only [plainName]
  split_ifs with none pts
  · exact lt_of_eq_of_lt words.1 (by decide)
  · have digits := short ((ttyMajor ttyNr - 136) * 256 + ttyMinor ttyNr) (by omega)
    simp only [TtyName.described, TtyName.render, List.length_append]
    omega
  · have digits := short (ttyMinor ttyNr) (by omega)
    simp only [TtyName.described, TtyName.render, List.length_append, List.length_cons]
    omega

theorem formatTty_eq {ttyNr : Int} {bufsz : Nat} (room : 16 ≤ bufsz) :
    formatTty ttyNr bufsz = (ttyName ttyNr).render := by
  have fits := ttyName_fits ttyNr
  have whole : formatTty ttyNr bufsz = snprintf bufsz (ttyName ttyNr).render := by
    simp only [formatTty, ttyName]
    split_ifs <;> rfl
  rw [whole, snprintf_fits (by omega)]

theorem describeTty_eq {ttyNr : Int} {size : Nat} (room : 64 ≤ size) :
    describeTty ttyNr size = (plainName ttyNr).described := by
  have fits := plainName_fits ttyNr
  have whole : describeTty ttyNr size = snprintf size (plainName ttyNr).described := by
    simp only [describeTty, plainName, signedMajor_eq, signedMinor_eq]
    by_cases zero : ttyNr = 0
    · rw [if_pos zero, if_pos zero]
      rfl
    · rw [if_neg zero, if_neg zero]
      by_cases pts : 136 ≤ ttyMajor ttyNr ∧ ttyMajor ttyNr ≤ 143
      · have signed : (136 : Int) ≤ ttyMajor ttyNr ∧ (ttyMajor ttyNr : Int) ≤ 143 := by omega
        have number : ((ttyMajor ttyNr : Int) - 136) * 256 + ttyMinor ttyNr =
            ((ttyMajor ttyNr - 136) * 256 + ttyMinor ttyNr : ℕ) := by
          push_cast [pts.1]
          rfl
        have words : text "terminal pts/" = text "terminal " ++ text "pts/" := by decide
        rw [if_pos pts, if_pos signed, number, signedDecimal_natCast, words, List.append_assoc]
        rfl
      · have signed : ¬ ((136 : Int) ≤ ttyMajor ttyNr ∧ (ttyMajor ttyNr : Int) ≤ 143) := by omega
        rw [if_neg pts, if_neg signed, signedDecimal_natCast, signedDecimal_natCast,
          List.append_assoc]
        rfl
  rw [whole, snprintf_fits (by omega)]

/-! ## Device numbers on a line of `/proc/[pid]/stat` -/

/-- A device by its two numbers, of 12 and 20 bits. -/
structure Device where
  major : ℕ
  minor : ℕ
  majorSmall : major < 2 ^ 12
  minorSmall : minor < 2 ^ 20

namespace Device

/-- The number as the kernel packs it and prints it, as an `int`. -/
def number (d : Device) : Int :=
  toInt32 ((d.minor % 2 ^ 8 + d.major * 2 ^ 8 + d.minor / 2 ^ 8 * 2 ^ 20 : ℕ) : Int)

def Pseudo (d : Device) : Prop := 136 ≤ d.major ∧ d.major ≤ 143

/-- The number that a pseudo-terminal goes by, over the major numbers it may have. -/
def ptsNumber (d : Device) : ℕ := (d.major - 136) * 256 + d.minor

/-- The same device, or pseudo-terminals that count as one over their major numbers. -/
def Same (d e : Device) : Prop :=
  d.major = e.major ∧ d.minor = e.minor ∨
    d.Pseudo ∧ e.Pseudo ∧ d.ptsNumber = e.ptsNumber

theorem bits (d : Device) : (BitVec.ofInt 32 d.number).toNat =
    d.minor % 2 ^ 8 + d.major * 2 ^ 8 + d.minor / 2 ^ 8 * 2 ^ 20 := by
  have major := d.majorSmall
  have minor := d.minorSmall
  have small : d.minor % 2 ^ 8 + d.major * 2 ^ 8 + d.minor / 2 ^ 8 * 2 ^ 20 < 2 ^ 32 := by omega
  unfold number toInt32
  rw [BitVec.toNat_ofInt, Int.bmod_emod, ← Int.natCast_mod, Int.toNat_natCast,
    Nat.mod_eq_of_lt small]

theorem major_number (d : Device) : ttyMajor d.number = d.major := by
  have major := d.majorSmall
  rw [ttyMajor_eq, d.bits]
  omega

theorem minor_number (d : Device) : ttyMinor d.number = d.minor := by
  have major := d.majorSmall
  have minor := d.minorSmall
  rw [ttyMinor_eq, d.bits]
  omega

theorem number_zero (d : Device) : d.number = 0 ↔ d.major = 0 ∧ d.minor = 0 := by
  constructor
  · intro zero
    rw [← d.major_number, ← d.minor_number, zero]
    decide
  · rintro ⟨major, minor⟩
    simp [number, major, minor]
    decide

theorem ttyName_number (d e : Device) :
    ttyName d.number = ttyName e.number ↔ d.Same e := by
  simp only [ttyName, major_number, minor_number, number_zero, Same, Pseudo,
    ptsNumber]
  split_ifs <;> simp <;> omega

theorem plainName_number (d e : Device) :
    plainName d.number = plainName e.number ↔ d.Same e := by
  simp only [plainName, major_number, minor_number, number_zero, Same, Pseudo,
    ptsNumber]
  split_ifs <;> simp <;> omega

theorem ttyName_pts (d : Device) (n : ℕ) :
    ttyName d.number = .pts n ↔ d.Pseudo ∧ n = d.ptsNumber := by
  simp only [ttyName, major_number, minor_number, number_zero, Pseudo, ptsNumber]
  split_ifs <;> simp <;> omega

theorem plainName_pts (d : Device) (n : ℕ) :
    plainName d.number = .pts n ↔ d.Pseudo ∧ n = d.ptsNumber := by
  simp only [plainName, major_number, minor_number, number_zero, Pseudo, ptsNumber]
  split_ifs <;> simp <;> omega

end Device

namespace StatLine

variable (line : StatLine)

/-- The scan of `own_tty_nr` stops within the line. -/
theorem afterComm_begins : ∃ rest, Ended rest ∧ line.afterComm =
    32 :: line.fields.state :: (printed line.fields.ppid <| printed line.fields.pgrp <|
      printed line.fields.session <| printed line.fields.ttyNr rest) :=
  ⟨_, ended_printed _ _, rfl⟩

theorem nul_not_mem_render : 0 ∉ line.render := by
  intro member
  have whole : cString (line.render ++ [0]) = line.render := line.cString_render []
  rw [← whole] at member
  simpa using List.mem_takeWhile_imp member

/-- A numeral before the end of a cut text is whole, and the cut falls behind it. -/
theorem take_printed (i : Int) (rest : Bytes) {k : ℕ} (long : (signedDecimal i).length + 1 ≤ k) :
    (printed i rest).take k = printed i (rest.take (k - ((signedDecimal i).length + 1))) := by
  obtain ⟨more, rfl⟩ := Nat.exists_eq_add_of_le long
  unfold printed
  rw [← List.cons_append, List.take_append, List.take_of_length_le (by simp), List.length_cons,
    Nat.add_sub_cancel_left]
  rfl

/-- The 511 bytes that `own_tty_nr` reads reach past the field, for any name of a process. -/
theorem ownTtyNr_render (short : line.comm.length ≤ 64) :
    ownTtyNr (some line.render) = line.fields.ttyNr := by
  obtain ⟨ints, _⟩ := line.representable
  simp only [List.forall_mem_cons] at ints
  obtain ⟨pid, ppid, pgrp, session, ttyNr, _⟩ := ints
  have pidShort := length_signedDecimal_le pid.1 pid.2
  have ppidShort := length_signedDecimal_le ppid.1 ppid.2
  have pgrpShort := length_signedDecimal_le pgrp.1 pgrp.2
  have sessionShort := length_signedDecimal_le session.1 session.2
  have ttyShort := length_signedDecimal_le ttyNr.1 ttyNr.2
  have free : 0 ∉ line.render.take 511 := fun member =>
    line.nul_not_mem_render (List.mem_of_mem_take member)
  have read : cString (line.render.take 511 ++ [0]) = line.render.take 511 :=
    cString_append_nul free []
  let front := signedDecimal line.fields.pid ++ 32 :: 40 :: line.comm
  have split : line.render = front ++ 41 :: line.afterComm := by
    simp [front, render]
  obtain ⟨k, reach⟩ : ∃ k, 511 = front.length + (k + 51) + 1 := by
    refine ⟨511 - front.length - 52, ?_⟩
    simp only [front, List.length_append, List.length_cons]
    omega
  have cut : line.render.take 511 = front ++ 41 :: line.afterComm.take (k + 51) := by
    rw [split, reach, List.take_append, List.take_of_length_le (by omega),
      show front.length + (k + 51) + 1 - front.length = k + 51 + 1 by omega]
    rfl
  have last : (41 : UInt8) ∉ line.afterComm.take (k + 51) := fun member =>
    line.not_mem_afterComm (by decide) (by decide) (by decide) line.stateFree.2.symm
      line.tailFree.2 (List.mem_of_mem_take member)
  obtain ⟨rest, ended, after⟩ := line.afterComm_begins
  have fields : ∃ rest, Ended rest ∧ line.afterComm.take (k + 51) =
      32 :: line.fields.state :: (printed line.fields.ppid <| printed line.fields.pgrp <|
        printed line.fields.session <| printed line.fields.ttyNr rest) := by
    rw [after, show k + 51 = k + 49 + 1 + 1 by omega, List.take_succ_cons, List.take_succ_cons,
      take_printed _ _ (by omega), take_printed _ _ (by omega), take_printed _ _ (by omega),
      take_printed _ _ (by omega)]
    exact ⟨_, ended.take _, rfl⟩
  obtain ⟨rest, ended, fields⟩ := fields
  have scanned : sscanf ownTtyFormat (line.afterComm.take (k + 51)) =
      [.char line.fields.state, .int line.fields.ppid, .int line.fields.pgrp,
        .int line.fields.session, .int line.fields.ttyNr] := by
    unfold ownTtyFormat
    rw [fields, sscanf_char line.stateSolid,
      sscanf_int _ ppid.1 ppid.2 (ended_printed _ _),
      sscanf_int _ pgrp.1 pgrp.2 (ended_printed _ _),
      sscanf_int _ session.1 session.2 (ended_printed _ _),
      sscanf_int _ ttyNr.1 ttyNr.2 ended]
    rfl
  have dropped : (front ++ 41 :: line.afterComm.take (k + 51)).drop (front.length + 1) =
      line.afterComm.take (k + 51) := by
    rw [← List.drop_drop, List.drop_left]
    rfl
  rw [cut] at read
  simp only [ownTtyNr, cut, read, strrchr_append last, dropped, scanned]

end StatLine

/-- What the monitor shows of the terminal on a line of `/proc/[pid]/stat`. -/
def shownTty (content : Bytes) (commSize : Nat) : Option Bytes :=
  (parseProcStat content commSize).2.map fun st => formatTty st.ttyNr 16

theorem shownTty_render (line : StatLine) {commSize : Nat} (room : 0 < commSize) :
    shownTty line.render commSize = some (ttyName line.fields.ttyNr).render := by
  rw [shownTty, line.parse_render room, Option.map_some, formatTty_eq le_rfl]

/-- Whatever the names of two processes and the rest of their lines, the monitor and the
    demonstration each show their terminals alike if and only if they are the same device,
    or pseudo-terminals of one number. Both call a pseudo-terminal by its number, and by no
    other, and neither cuts a name off. -/
theorem terminals_told_apart {a b : StatLine} {d e : Device} (mine : a.fields.ttyNr = d.number)
    (its : b.fields.ttyNr = e.number) (short : a.comm.length ≤ 64 ∧ b.comm.length ≤ 64)
    {commSize : Nat} (room : 0 < commSize) :
    (shownTty a.render commSize = shownTty b.render commSize ↔ d.Same e) ∧
      (describeTty (ownTtyNr (some a.render)) 64 = describeTty (ownTtyNr (some b.render)) 64 ↔
        d.Same e) ∧
      (∀ n, (shownTty a.render commSize = some (text "pts/" ++ decimal n) ↔
          d.Pseudo ∧ n = d.ptsNumber) ∧
        (describeTty (ownTtyNr (some a.render)) 64 = text "terminal pts/" ++ decimal n ↔
          d.Pseudo ∧ n = d.ptsNumber)) ∧
      shownTty a.render commSize = some (ttyName d.number).render ∧
      describeTty (ownTtyNr (some a.render)) 64 = (plainName d.number).described := by
  rw [shownTty_render a room, shownTty_render b room, a.ownTtyNr_render short.1,
    b.ownTtyNr_render short.2, describeTty_eq le_rfl, describeTty_eq le_rfl, mine, its,
    Option.some.injEq, TtyName.render_injective.eq_iff, TtyName.described_injective.eq_iff]
  refine ⟨Device.ttyName_number d e, Device.plainName_number d e, fun n => ⟨?_, ?_⟩, rfl, rfl⟩
  · have name : text "pts/" ++ decimal n = (TtyName.pts n).render := rfl
    rw [Option.some.injEq, name, TtyName.render_injective.eq_iff, Device.ttyName_pts]
  · have words : text "terminal pts/" = text "terminal " ++ text "pts/" := by decide
    have name : text "terminal pts/" ++ decimal n = (TtyName.pts n).described := by
      rw [words, List.append_assoc]
      rfl
    rw [name, TtyName.described_injective.eq_iff, Device.plainName_pts]

/-- The line of before at the first pseudo-terminal. -/
def exampleTerminal : StatLine where
  fields := { exampleLine.fields with ttyNr := 34816 }
  comm := exampleLine.comm
  flags := exampleLine.flags
  cminflt := exampleLine.cminflt
  cmajflt := exampleLine.cmajflt
  cutime := exampleLine.cutime
  cstime := exampleLine.cstime
  tail := exampleLine.tail
  representable := ⟨by decide, by decide⟩
  stateSolid := exampleLine.stateSolid
  stateFree := exampleLine.stateFree
  commFree := exampleLine.commFree
  tailEnded := exampleLine.tailEnded
  tailFree := exampleLine.tailFree

theorem terminals_told_apart_example :
    describeTty (ownTtyNr (some exampleTerminal.render)) 64 = text "terminal pts/0" ∧
      shownTty exampleTerminal.render commMax ≠ shownTty exampleLine.render commMax := by
  let pseudo : Device := ⟨136, 0, by decide, by decide⟩
  let other : Device := ⟨4095, 1048572, by decide, by decide⟩
  have mine : exampleTerminal.fields.ttyNr = pseudo.number := by decide
  have its : exampleLine.fields.ttyNr = other.number := by decide
  obtain ⟨apart, _, numbered, _⟩ :=
    terminals_told_apart mine its (by decide) (by decide : 0 < commMax)
  have differ : ¬ pseudo.Same other := by
    rintro (⟨same, _⟩ | ⟨_, ⟨_, high⟩, _⟩)
    · exact absurd same (by decide)
    · exact absurd high (by decide)
  have zero : text "terminal pts/" ++ decimal 0 = text "terminal pts/0" := by decide
  rw [← zero]
  exact ⟨(numbered 0).2.mpr ⟨⟨by decide, by decide⟩, by decide⟩, fun same => differ (apart.mp same)⟩

end KernelMonitor
