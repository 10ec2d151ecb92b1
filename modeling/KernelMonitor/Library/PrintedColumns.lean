import KernelMonitor.Library.Scanf

/-! # Scanning printed columns that are cut short

A row of unsigned numbers, each behind a blank, of which only the first bytes are there.
The scan reads the columns that are there whole; the column the cut goes through is read as
far as it goes, and counts as long as one of its digits is there.
-/

namespace KernelMonitor.Library

/-- The columns, and what follows them on the line. -/
def printedColumns : List UInt64 → Bytes → Bytes
  | [], rest => rest
  | n :: columns, rest => printed n.toNat (printedColumns columns rest)

/-- `" %llu"`, once for each column. -/
def columnsFormat : Nat → List Directive
  | 0 => []
  | n + 1 => .space :: .assign .ulong :: columnsFormat n

/-! ## Digits -/

theorem decimal_length_le {n k : Nat} (positive : 0 < k) (small : n < 10 ^ k) :
    (decimal n).length ≤ k := by
  unfold decimal
  split
  · exact positive
  · rw [List.length_map, List.length_reverse]
    exact (Nat.digits_length_le_iff (by norm_num) n).mpr small

theorem signedDecimal_natCast (n : Nat) : signedDecimal (n : Int) = decimal n := by
  simp [signedDecimal]

theorem readNumber_digits {digits rest : Bytes} (nonempty : digits ≠ [])
    (all : ∀ c ∈ digits, isDigit c = true) (stop : ∀ c ∈ rest.head?, isDigit c = false) :
    readNumber (digits ++ rest) = some (false, natValue digits, rest) := by
  obtain ⟨d, ds, rfl⟩ := List.exists_cons_of_ne_nil nonempty
  have digit : isDigit d = true := all d List.mem_cons_self
  have reads := takeWhile_append_stop all stop
  have drops := dropWhile_append_stop all stop
  rw [List.cons_append] at reads drops ⊢
  have unsigned : readSign ((d :: (ds ++ rest)).dropWhile isSpace) =
      (false, d :: (ds ++ rest)) := by
    rw [List.dropWhile_cons_of_neg (by simp [isDigit_not_space digit] : ¬ isSpace d = true),
      readSign_digit digit]
  simp only [readNumber, unsigned, reads, drops, nonempty, if_false]

/-- A numeral cut after `j` of its digits. -/
theorem readNumber_take {n j : Nat} (some : 0 < j) :
    readNumber ((decimal n).take j) = .some (false, natValue ((decimal n).take j), []) := by
  have nonempty : (decimal n).take j ≠ [] := by
    simp [List.take_eq_nil_iff, decimal_ne_nil, some.ne']
  have digits : ∀ c ∈ (decimal n).take j, isDigit c = true :=
    fun c member => decimal_digits n c (List.mem_of_mem_take member)
  have read := readNumber_digits nonempty digits (by simp : ∀ c ∈ [].head?, isDigit c = false)
  rwa [List.append_nil] at read

/-! ## Whole columns -/

section Columns

variable {columns : List UInt64} {format : List Directive} {rest : Bytes}

theorem Ended.take (ended : Ended rest) (k : Nat) : Ended (rest.take k) := by
  intro c first
  cases k with
  | zero => simp at first
  | succ k =>
      rw [List.head?_take, if_neg k.succ_ne_zero] at first
      exact ended c first

theorem ended_printedColumns (columns : List UInt64) (ended : Ended rest) :
    Ended (printedColumns columns rest) := by
  cases columns with
  | nil => exact ended
  | cons n columns => exact ended_printed _ _

theorem printedColumns_append (front back : List UInt64) (rest : Bytes) :
    printedColumns (front ++ back) rest = printedColumns front (printedColumns back rest) := by
  induction front with
  | nil => rfl
  | cons n front ih => simp only [List.cons_append, printedColumns, ih]

theorem printedColumns_split (columns : List UInt64) (rest : Bytes) :
    printedColumns columns rest = printedColumns columns [] ++ rest := by
  induction columns with
  | nil => rfl
  | cons n columns ih =>
      simp only [printedColumns, printed]
      rw [ih]
      simp

theorem sscanf_columns (columns : List UInt64) (ended : Ended rest) :
    sscanf (columnsFormat columns.length ++ format) (printedColumns columns rest) =
      columns.map .unsigned ++ sscanf format rest := by
  induction columns with
  | nil => rfl
  | cons n columns ih =>
      simp only [List.length_cons, columnsFormat, List.cons_append, printedColumns, List.map_cons]
      rw [sscanf_ulong n (ended_printedColumns columns ended), ih]

/-- `%31s` and the like take a word that fits. -/
theorem sscanf_word {width : Nat} {word : Bytes} (nonempty : word ≠ [])
    (solid : ∀ c ∈ word, isSpace c = false) (fits : word.length ≤ width) (ended : Ended rest) :
    sscanf (.assign (.str (some width)) :: format) (word ++ rest) =
      .str word :: sscanf format rest := by
  have starts : (word ++ rest).dropWhile isSpace = word ++ rest := by
    obtain ⟨d, ds, rfl⟩ := List.exists_cons_of_ne_nil nonempty
    rw [List.cons_append,
      List.dropWhile_cons_of_neg (by simp [solid d List.mem_cons_self] : ¬ isSpace d = true)]
  have reads : (word ++ rest).takeWhile (fun c => !isSpace c) = word :=
    takeWhile_append_stop (fun c member => by simp [solid c member])
      (fun c member => by simp [ended c member])
  have read : readToken (some width) (word ++ rest) = some (word, rest) := by
    simp only [readToken, starts, reads, List.take_of_length_le fits, nonempty, if_false,
      List.drop_left]
  simp only [sscanf, Conversion.read, read, Option.map_some]

/-! ## A cut column -/

theorem sscanf_columns_nil (n : Nat) : sscanf (columnsFormat n) [] = [] := by
  cases n with
  | zero => rfl
  | succ n => rfl

/-- Of a number that is cut, the digits that are there are read. -/
theorem sscanf_cut {n m : Nat} {j : Nat} (some : 0 < j) :
    sscanf (columnsFormat (n + 1)) (32 :: (decimal m).take j) =
      [.unsigned (strtoul ((decimal m).take j))] := by
  have blank : 32 :: (decimal m).take j = [32] ++ (decimal m).take j := rfl
  simp only [columnsFormat, sscanf, Conversion.read, readNumber_dropWhile]
  rw [blank, readNumber_skip (by simp [isSpace]), readNumber_take some]
  simp only [Option.map_some, sscanf_columns_nil, strtoul, readNumber_take some]

theorem printed_take_cut {n : UInt64} {k : Nat} {rest : Bytes}
    (cut : k ≤ (decimal n.toNat).length) :
    (printed n.toNat rest).take (k + 1) = 32 :: (decimal n.toNat).take k := by
  rw [printed, signedDecimal_natCast, List.take_succ_cons, List.take_append_of_le_length cut]

theorem printed_length (n : UInt64) (rest : Bytes) :
    (printed n.toNat rest).length = 1 + (decimal n.toNat).length + rest.length := by
  simp only [printed, signedDecimal_natCast, List.length_cons, List.length_append]
  omega

theorem printed_take_whole {n : UInt64} {k : Nat} {rest : Bytes} :
    (printed n.toNat rest).take (1 + (decimal n.toNat).length + k) =
      printed n.toNat (rest.take k) := by
  have count : 1 + (decimal n.toNat).length + k = ((decimal n.toNat).length + k) + 1 := by omega
  rw [printed, signedDecimal_natCast, count, List.take_succ_cons, List.take_length_add_append,
    printed, signedDecimal_natCast]

theorem sscanf_blank (n : Nat) : sscanf (columnsFormat (n + 1)) [32] = [] := rfl

theorem sscanf_first_cut {n : UInt64} {m k : Nat} (cut : k ≤ 1 + (decimal n.toNat).length) :
    (sscanf (columnsFormat (m + 1)) ((printed n.toNat rest).take k)).length ≤ 1 := by
  cases k with
  | zero => simp [sscanf_columns_nil]
  | succ k =>
      rw [printed_take_cut (by omega)]
      cases k with
      | zero => simp [sscanf_blank]
      | succ k =>
          rw [sscanf_cut k.succ_pos]
          exact Nat.le_refl 1

/-- Up to the last column's blank there is no more than the columns before it. -/
theorem sscanf_columns_short (columns : List UInt64) (last : UInt64) {k : Nat}
    (short : k ≤ (printedColumns columns []).length + 1) :
    (sscanf (columnsFormat (columns.length + 1))
      ((printedColumns (columns ++ [last]) rest).take k)).length ≤ columns.length := by
  induction columns generalizing k with
  | nil =>
      have cases : k = 0 ∨ k = 1 := by
        simp only [printedColumns, List.length_nil] at short
        omega
      rcases cases with rfl | rfl
      · simp [sscanf_columns_nil]
      · simp [printedColumns, printed, sscanf_blank]
  | cons n columns ih =>
      simp only [printedColumns, printed_length] at short
      simp only [List.cons_append, printedColumns, List.length_cons]
      by_cases inside : k ≤ 1 + (decimal n.toNat).length
      · exact (sscanf_first_cut inside).trans (Nat.le_add_left 1 _)
      · obtain ⟨more, rfl⟩ := Nat.exists_eq_add_of_le (Nat.le_of_not_le inside)
        have ended : Ended ((printedColumns (columns ++ [last]) rest).take more) := by
          rw [printedColumns_append]
          exact (ended_printedColumns columns (ended_printed _ _)).take more
        rw [printed_take_whole, columnsFormat, sscanf_ulong n ended, List.length_cons]
        exact Nat.succ_le_succ (ih (by omega))

/-- Beyond it the last column counts, with the digits that are there. -/
theorem sscanf_columns_cut (columns : List UInt64) (last : UInt64) {j : Nat} (some : 0 < j)
    (inside : j ≤ (decimal last.toNat).length) :
    sscanf (columnsFormat (columns.length + 1))
      ((printedColumns (columns ++ [last]) rest).take
        ((printedColumns columns []).length + 1 + j)) =
      columns.map .unsigned ++
        [.unsigned (strtoul ((decimal last.toNat).take j))] := by
  induction columns with
  | nil =>
      have count : (printedColumns [] []).length + 1 + j = j + 1 := by
        simp only [printedColumns, List.length_nil]
        omega
      rw [count, List.nil_append, printedColumns, printed_take_cut inside]
      exact sscanf_cut some
  | cons n columns ih =>
      have ended : Ended ((printedColumns (columns ++ [last]) rest).take
          ((printedColumns columns []).length + 1 + j)) := by
        rw [printedColumns_append]
        exact (ended_printedColumns columns (ended_printed _ _)).take _
      have count : (printedColumns (n :: columns) []).length + 1 + j =
          1 + (decimal n.toNat).length + ((printedColumns columns []).length + 1 + j) := by
        simp only [printedColumns, printed_length]
        omega
      rw [count, List.cons_append, printedColumns, printed_take_whole, List.length_cons,
        columnsFormat, sscanf_ulong n ended, ih, List.map_cons, List.cons_append]

end Columns

end KernelMonitor.Library
