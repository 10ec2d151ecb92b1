import KernelMonitor.Parser

/-! # Texts made of lines

What `km_read_line`, `km_trim` and `km_parse_key_value` do to a text that is given by its
lines: the loop reads every line once, cut to the buffer, whatever its neighbours hold.
-/

namespace KernelMonitor

open Library

/-! ## Reading the lines of a text -/

section Reading

variable {line rest : Bytes} {outSize : Nat}

theorem single_takeWhile (single : 10 ∉ line) {rest : Bytes} (stop : ∀ c ∈ rest.head?, c = 10) :
    (line ++ rest).takeWhile (· ≠ 10) = line := by
  apply takeWhile_append_stop
  · intro c member
    have differs : c ≠ 10 := fun newline => single (newline ▸ member)
    simpa using differs
  · intro c first
    simp [stop c first]

theorem readLine_terminated (single : 10 ∉ line) (room : outSize ≠ 0) :
    readLine (line ++ 10 :: rest) outSize = some (line.take (outSize - 1), rest) := by
  have front : (line ++ 10 :: rest).takeWhile (· ≠ 10) = line :=
    single_takeWhile single (by simp)
  have past : (line ++ 10 :: rest).drop (line.length + 1) = rest := by
    rw [List.drop_append]
    simp
  simp only [readLine, room, List.append_eq_nil_iff, reduceCtorEq, and_false, or_self, if_false,
    front, past]

theorem readLine_last (single : 10 ∉ line) (nonempty : line ≠ []) (room : outSize ≠ 0) :
    readLine line outSize = some (line.take (outSize - 1), []) := by
  have front : (line ++ []).takeWhile (· ≠ 10) = line := single_takeWhile single (by simp)
  rw [List.append_nil] at front
  have past : line.drop (line.length + 1) = [] := List.drop_eq_nil_of_le (by omega)
  simp only [readLine, room, nonempty, or_self, if_false, front, past]

theorem readLines_of_none {cursor : Bytes} (ended : readLine cursor outSize = none) :
    readLines cursor outSize = [] := by
  rw [readLines]
  split
  · rfl
  · rename_i copy next read
    simp [ended] at read

theorem readLines_of_some {cursor copy next : Bytes}
    (read : readLine cursor outSize = some (copy, next)) :
    readLines cursor outSize = copy :: readLines next outSize := by
  rw [readLines]
  split
  · rename_i none
    simp [read] at none
  · rename_i copy' next' read'
    cases read.symm.trans read'
    rfl

theorem readLines_nil : readLines [] outSize = [] := readLines_of_none (by simp [readLine])

theorem readLines_terminated (single : 10 ∉ line) (room : outSize ≠ 0) :
    readLines (line ++ 10 :: rest) outSize =
      line.take (outSize - 1) :: readLines rest outSize :=
  readLines_of_some (readLine_terminated single room)

theorem readLines_last (single : 10 ∉ line) (nonempty : line ≠ []) (room : outSize ≠ 0) :
    readLines line outSize = [line.take (outSize - 1)] := by
  rw [readLines_of_some (readLine_last single nonempty room), readLines_nil]

/-- Of a text that is cut after `k` bytes, the first line is read as far as it is there. -/
theorem readLine_take (single : 10 ∉ line) (room : outSize ≠ 0) {k : Nat} (some : 0 < k) :
    readLine ((line ++ 10 :: rest).take k) outSize =
      .some ((line.take k).take (outSize - 1), rest.take (k - (line.length + 1))) := by
  by_cases whole : line.length + 1 ≤ k
  · have kept : (line ++ 10 :: rest).take k = line ++ 10 :: rest.take (k - (line.length + 1)) := by
      obtain ⟨more, rfl⟩ := Nat.exists_eq_add_of_le whole
      have count : line.length + 1 + more = line.length + (more + 1) := by omega
      rw [count, List.take_length_add_append, List.take_succ_cons]
      congr 3
      omega
    rw [kept, readLine_terminated single room, List.take_of_length_le (by omega : line.length ≤ k)]
  · have kept : (line ++ 10 :: rest).take k = line.take k :=
      List.take_append_of_le_length (by omega)
    have nonempty : line.take k ≠ [] := by
      apply List.ne_nil_of_length_pos
      rw [List.length_take]
      omega
    have gone : k - (line.length + 1) = 0 := by omega
    rw [kept, readLine_last (fun member => single (List.mem_of_mem_take member)) nonempty room,
      gone, List.take_zero]

theorem readLines_take (single : 10 ∉ line) (room : outSize ≠ 0) {k : Nat} (some : 0 < k) :
    readLines ((line ++ 10 :: rest).take k) outSize =
      (line.take k).take (outSize - 1) ::
        readLines (rest.take (k - (line.length + 1))) outSize :=
  readLines_of_some (readLine_take single room some)

end Reading

/-- A text given by its lines; the newline after the last one may be missing. -/
structure TextFile where
  lines : List Bytes
  finalNewline : Bool
  single : ∀ line ∈ lines, 10 ∉ line
  nulFree : ∀ line ∈ lines, 0 ∉ line

namespace TextFile

/-- A newline between any two lines, and one at the end if the file has it. -/
def join (lines : List Bytes) (finalNewline : Bool) : Bytes :=
  List.intercalate [10] lines ++ if finalNewline then [10] else []

def text (file : TextFile) : Bytes := join file.lines file.finalNewline

theorem join_cons (line next : Bytes) (rest : List Bytes) (finalNewline : Bool) :
    join (line :: next :: rest) finalNewline = line ++ 10 :: join (next :: rest) finalNewline := by
  simp [join, List.intercalate_cons_cons]

theorem splitOn_pieces (content : Bytes) :
    ∀ line ∈ content.splitOn 10, 10 ∉ line ∧ ∀ c ∈ line, c ∈ content := by
  induction content with
  | nil => simp
  | cons c content ih =>
      obtain ⟨piece, pieces, split⟩ := List.exists_cons_of_ne_nil (List.splitOn_ne_nil 10 content)
      have inside : 10 ∉ piece ∧ ∀ b ∈ piece, b ∈ content := ih piece (by simp [split])
      have others : ∀ line ∈ pieces, 10 ∉ line ∧ ∀ b ∈ line, b ∈ content :=
        fun line member => ih line (by simp [split, member])
      intro line member
      by_cases newline : c = 10
      · simp only [List.splitOn_cons_eq_if_modifyHead, newline, beq_self_eq_true, if_true, split,
          List.mem_cons] at member
        rcases member with rfl | rfl | member
        · simp
        · exact ⟨inside.1, fun b held => List.mem_cons_of_mem _ (inside.2 b held)⟩
        · exact ⟨(others line member).1,
            fun b held => List.mem_cons_of_mem _ ((others line member).2 b held)⟩
      · simp only [List.splitOn_cons_eq_if_modifyHead, beq_iff_eq, newline, if_false, split,
          List.modifyHead_cons, List.mem_cons] at member
        rcases member with rfl | member
        · have absent : 10 ∉ c :: piece := by
            simp [inside.1, Ne.symm newline]
          exact ⟨absent, List.cons_subset_cons c inside.2⟩
        · exact ⟨(others line member).1,
            fun b held => List.mem_cons_of_mem _ ((others line member).2 b held)⟩

/-- Every C string is the text of some file. -/
theorem exists_text {content : Bytes} (free : 0 ∉ content) :
    ∃ file : TextFile, file.text = content := by
  have joined : List.intercalate [10] (content.splitOn 10) = content :=
    content.intercalate_splitOn 10
  have pieces := splitOn_pieces content
  exact ⟨⟨content.splitOn 10, false, fun line member => (pieces line member).1,
    fun line member nul => free ((pieces line member).2 0 nul)⟩, by simp [text, join, joined]⟩

theorem parseKeyValue_nil : parseKeyValue [] = none := rfl

/-- Each line with a colon gives one entry, read from what the buffer keeps of it. A last
    line that is empty is not read, and has none. -/
theorem entries_join {lines : List Bytes} (single : ∀ line ∈ lines, 10 ∉ line)
    (finalNewline : Bool) {outSize : Nat} (room : outSize ≠ 0) :
    (readLines (join lines finalNewline) outSize).filterMap parseKeyValue =
      lines.filterMap fun line => parseKeyValue (line.take (outSize - 1)) := by
  induction lines with
  | nil =>
      cases finalNewline with
      | false => simp [join, readLines_nil]
      | true =>
          have blank : readLines (([] : Bytes) ++ 10 :: []) outSize = [[]] := by
            rw [readLines_terminated (by simp) room, readLines_nil, List.take_nil]
          simp only [List.nil_append] at blank
          simp [join, blank, parseKeyValue_nil]
  | cons line rest ih =>
      have here : 10 ∉ line := single line List.mem_cons_self
      cases rest with
      | nil =>
          cases finalNewline with
          | true =>
              simp [join, readLines_terminated here room, readLines_nil, List.filterMap_cons]
          | false =>
              by_cases empty : line = []
              · simp [join, empty, readLines_nil, parseKeyValue_nil]
              · simp [join, readLines_last here empty room, List.filterMap_cons]
      | cons next rest =>
          have tail := ih fun other member => single other (List.mem_cons_of_mem _ member)
          rw [join_cons, readLines_terminated here room]
          simp only [List.filterMap_cons, tail]

end TextFile

/-! ## Keys and values -/

/-- Neither end is a blank. -/
def Trimmed (s : Bytes) : Prop :=
  (∀ c ∈ s.head?, isSpaceChar c = false) ∧ ∀ c ∈ s.getLast?, isSpaceChar c = false

/-- `core` with any blanks around it. -/
def Padded (s core : Bytes) : Prop :=
  Trimmed core ∧ ∃ left right : Bytes, s = left ++ core ++ right ∧
    (∀ c ∈ left, isSpaceChar c = true) ∧ ∀ c ∈ right, isSpaceChar c = true

/-- The first colon parts the line into a padded key and a padded value. -/
def Entry (line key value : Bytes) : Prop :=
  ∃ left right : Bytes, line = left ++ 58 :: right ∧ 58 ∉ left ∧ Padded left key ∧
    Padded right value

theorem trim_padded (s : Bytes) : Padded s (trim s) := by
  let inner := s.dropWhile isSpaceChar
  have parts : inner = trim s ++ inner.rtakeWhile isSpaceChar :=
    (List.rdropWhile_append_rtakeWhile (p := isSpaceChar) (l := inner)).symm
  have whole : s = s.takeWhile isSpaceChar ++ trim s ++ inner.rtakeWhile isSpaceChar := by
    rw [List.append_assoc, ← parts, List.takeWhile_append_dropWhile]
  have starts : ∀ c ∈ (trim s).head?, isSpaceChar c = false := by
    intro c first
    have kept : c ∈ inner.head? := by
      cases trimmed : trim s with
      | nil => simp [trimmed] at first
      | cons d tail =>
          rw [parts, trimmed]
          simpa [trimmed] using first
    have stops := List.head?_dropWhile_not isSpaceChar s
    rw [Option.mem_def.mp kept] at stops
    simpa using stops
  have ends : ∀ c ∈ (trim s).getLast?, isSpaceChar c = false := by
    intro c last
    obtain ⟨nonempty, rfl⟩ := List.mem_getLast?_eq_getLast last
    exact Bool.eq_false_iff.mpr (List.rdropWhile_last_not isSpaceChar inner nonempty)
  exact ⟨⟨starts, ends⟩, _, _, whole, fun c => List.mem_takeWhile_imp,
    fun c => List.mem_rtakeWhile_imp⟩

theorem Padded.trim_eq {s core : Bytes} (padded : Padded s core) : trim s = core := by
  obtain ⟨⟨starts, ends⟩, left, right, rfl, blankLeft, blankRight⟩ := padded
  unfold trim
  by_cases empty : core = []
  · have blank : ∀ c ∈ left ++ right, isSpaceChar c = true := by
      intro c member
      rcases List.mem_append.mp member with member | member
      · exact blankLeft c member
      · exact blankRight c member
    have gone : (left ++ right).dropWhile isSpaceChar = [] := List.dropWhile_eq_nil_iff.mpr blank
    simp [empty, gone]
  · obtain ⟨first, tail, rfl⟩ := List.exists_cons_of_ne_nil empty
    have front : (left ++ (first :: tail ++ right)).dropWhile isSpaceChar =
        first :: tail ++ right :=
      dropWhile_append_stop blankLeft (by simpa using starts)
    have back : (right.reverse ++ (first :: tail).reverse).dropWhile isSpaceChar =
        (first :: tail).reverse :=
      dropWhile_append_stop (by simpa using blankRight)
        (by simpa only [List.head?_reverse] using ends)
    rw [List.append_assoc, front, List.rdropWhile, List.reverse_append, back,
      List.reverse_reverse]

theorem strchr_eq_some {s : Bytes} {c : UInt8} {i : Nat} (found : strchr s c = some i) :
    ∃ left right : Bytes, s = left ++ c :: right ∧ c ∉ left ∧ left.length = i := by
  obtain ⟨inside, here, before⟩ := List.idxOf?_eq_some_iff.mp found
  have absent : c ∉ s.take i := by
    intro member
    obtain ⟨j, below, same⟩ := List.mem_iff_getElem.mp member
    have earlier : j < i := by
      simp only [List.length_take] at below
      omega
    exact before j earlier (by simpa using same)
  have parts : s = s.take i ++ c :: s.drop (i + 1) := by
    rw [← here, List.getElem_cons_drop, List.take_append_drop]
  exact ⟨s.take i, s.drop (i + 1), parts, absent, by simp; omega⟩

theorem parseKeyValue_colon {left : Bytes} (absent : 58 ∉ left) (right : Bytes) :
    parseKeyValue (left ++ 58 :: right) = some (trim left, trim right) := by
  have past : (left ++ 58 :: right).drop (left.length + 1) = right := by
    rw [List.drop_append]
    simp
  simp only [parseKeyValue, strchr_append absent, Option.map_some, List.take_left, past]

theorem parseKeyValue_iff {line key value : Bytes} :
    parseKeyValue line = some (key, value) ↔ Entry line key value := by
  constructor
  · intro parsed
    have parsed' := parsed
    unfold parseKeyValue at parsed'
    obtain ⟨colon, found, _⟩ := Option.map_eq_some_iff.mp parsed'
    obtain ⟨left, right, rfl, absent, _⟩ := strchr_eq_some found
    rw [parseKeyValue_colon absent] at parsed
    cases parsed
    exact ⟨left, right, rfl, absent, trim_padded left, trim_padded right⟩
  · rintro ⟨left, right, rfl, absent, paddedKey, paddedValue⟩
    rw [parseKeyValue_colon absent, paddedKey.trim_eq, paddedValue.trim_eq]

end KernelMonitor
