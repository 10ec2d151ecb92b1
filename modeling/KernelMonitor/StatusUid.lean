import KernelMonitor.Library.PrintedColumns
import KernelMonitor.LineCursor

/-! # The UID in `/proc/[pid]/status`

The name of a process is its own choice and stands before the UIDs in the file the program
reads them from. Whatever it holds, the line it is on has the key `Name`, also where the
parser's line buffer cuts it.
-/

namespace KernelMonitor

open Library

/-- The kernel prints a name with its newlines and backslashes escaped. -/
def escapeName (name : Bytes) : Bytes :=
  name.flatMap fun c => if c = 10 then text "\\n" else if c = 92 then text "\\\\" else [c]

/-- What a process can have as its name. -/
structure TaskName where
  bytes : Bytes
  nulFree : 0 ∉ bytes

def TaskName.line (name : TaskName) : Bytes := text "Name:\t" ++ escapeName name.bytes

theorem mem_escapeName {name : Bytes} {c : UInt8} (member : c ∈ escapeName name) :
    c = 92 ∨ c = 110 ∨ c ≠ 10 ∧ c ∈ name := by
  obtain ⟨d, inside, escaped⟩ := List.mem_flatMap.mp member
  have newline : text "\\n" = [92, 110] := by decide
  have backslash : text "\\\\" = [92, 92] := by decide
  split at escaped
  · rw [newline] at escaped
    simp only [List.mem_cons, List.not_mem_nil, or_false] at escaped
    exact escaped.imp_right .inl
  · split at escaped
    · rw [backslash] at escaped
      simp only [List.mem_cons, List.not_mem_nil, or_false, or_self] at escaped
      exact .inl escaped
    · obtain rfl := List.mem_singleton.mp escaped
      exact .inr (.inr ⟨‹¬c = 10›, inside⟩)

namespace TaskName

theorem single (name : TaskName) : 10 ∉ name.line := by
  intro newline
  rcases List.mem_append.mp newline with title | escaped
  · exact absurd title (by decide)
  · rcases mem_escapeName escaped with is | is | ⟨differs, _⟩
    · exact absurd is (by decide)
    · exact absurd is (by decide)
    · exact differs rfl

theorem free (name : TaskName) : 0 ∉ name.line := by
  intro nul
  rcases List.mem_append.mp nul with title | escaped
  · exact absurd title (by decide)
  · rcases mem_escapeName escaped with is | is | ⟨_, member⟩
    · exact absurd is (by decide)
    · exact absurd is (by decide)
    · exact name.nulFree member

end TaskName

theorem isDigit_not_blank {c : UInt8} (digit : isDigit c = true) : isSpaceChar c = false := by
  have apart := isDigit_not_space digit
  simp only [isSpace, Bool.or_eq_false_iff, Bool.and_eq_false_iff, beq_eq_false_iff_ne] at apart
  simp only [isSpaceChar, Bool.or_eq_false_iff, beq_eq_false_iff_ne]
  refine ⟨⟨⟨apart.1, ?_⟩, ?_⟩, ?_⟩ <;> rintro rfl <;> simp [isDigit] at digit

/-! ## Keys under the line buffer -/

/-- A key that is read from a line cut short is the key of the line. -/
theorem parseKeyValue_take {line key value : Bytes} {k : Nat}
    (parsed : parseKeyValue (line.take k) = some (key, value)) :
    ∃ whole, parseKeyValue line = some (key, whole) := by
  obtain ⟨left, right, cut, absent, paddedKey, _⟩ := parseKeyValue_iff.mp parsed
  have whole : line = left ++ 58 :: (right ++ line.drop k) := by
    rw [← List.cons_append, ← List.append_assoc, ← cut, List.take_append_drop]
  have found := parseKeyValue_colon absent (right ++ line.drop k)
  rw [← whole, paddedKey.trim_eq] at found
  exact ⟨_, found⟩

/-- The parser's test of one line. -/
def uidOf (line : Bytes) : Option UInt32 :=
  match parseKeyValue line with
  | none => none
  | some (key, value) => if key = text "Uid" then some (strtoul value).toUInt32 else none

theorem uidOf_take {line : Bytes} {k : Nat} (other : ∀ value, ¬ Entry line (text "Uid") value) :
    uidOf (line.take k) = none := by
  unfold uidOf
  cases parsed : parseKeyValue (line.take k) with
  | none => rfl
  | some entry =>
      obtain ⟨key, value⟩ := entry
      obtain ⟨whole, found⟩ := parseKeyValue_take parsed
      have foreign : key ≠ text "Uid" := by
        rintro rfl
        exact other whole (parseKeyValue_iff.mp found)
      simp only [foreign, if_false]

theorem TaskName.not_uid (name : TaskName) (value : Bytes) :
    ¬ Entry name.line (text "Uid") value := by
  intro entry
  have colon : name.line = text "Name" ++ 58 :: (9 :: escapeName name.bytes) := rfl
  have parsed := parseKeyValue_iff.mpr entry
  rw [colon, parseKeyValue_colon (by decide)] at parsed
  have key : trim (text "Name") = text "Uid" := congrArg Prod.fst (Option.some.inj parsed)
  exact absurd key (by decide)

theorem parseStatusUid_eq (content : Bytes) :
    parseStatusUid content =
      ((textLines content).map fun line => line.take 511).findSome? uidOf := by
  rw [← readLines_textLines (by decide : 512 ≠ 0) content]
  rfl

/-! ## The file -/

/-- Lines with a newline behind each. -/
def linesText (lines : List Bytes) : Bytes := lines.flatMap fun line => line ++ [10]

theorem textLines_newline (s rest : Bytes) :
    textLines (s ++ 10 :: rest) = textLines (s ++ [10]) ++ textLines rest := by
  induction s using text_induction with
  | empty => exact textLines_terminated (by simp : 10 ∉ ([] : Bytes))
  | last line single _ =>
      rw [textLines_terminated single, textLines_terminated single, textLines_nil]
      rfl
  | terminated line more single ih =>
      rw [List.append_assoc, List.append_assoc, List.cons_append, List.cons_append,
        textLines_terminated single, textLines_terminated single, ih, List.cons_append]

/-- Terminated lines are read before what follows them, and apart from it. -/
theorem textLines_linesText (lines : List Bytes) (rest : Bytes) :
    textLines (linesText lines ++ rest) = textLines (linesText lines) ++ textLines rest := by
  induction lines with
  | nil => rfl
  | cons line lines ih =>
      have parts (more : Bytes) :
          linesText (line :: lines) ++ more = line ++ 10 :: (linesText lines ++ more) := by
        simp [linesText]
      have whole := parts []
      rw [List.append_nil, List.append_nil] at whole
      rw [parts, whole, textLines_newline, textLines_newline line (linesText lines), ih,
        List.append_assoc]

theorem textLines_single {lines : List Bytes} (single : ∀ line ∈ lines, 10 ∉ line) :
    textLines (linesText lines) = lines := by
  induction lines with
  | nil => rfl
  | cons line lines ih =>
      have parts : linesText (line :: lines) = line ++ 10 :: linesText lines := by simp [linesText]
      rw [parts, textLines_terminated (single line List.mem_cons_self),
        ih fun other member => single other (List.mem_cons_of_mem _ member)]

/-- A `/proc/[pid]/status` without the name: the lines before it, those between it and the
    UIDs, and what follows these. No other line before them is under their key. -/
structure StatusText where
  before : List Bytes
  between : List Bytes
  real : UInt32
  effective : UInt32
  saved : UInt32
  filesystem : UInt32
  after : Bytes
  single : ∀ line ∈ before ++ between, 10 ∉ line
  nulFree : ∀ line ∈ before ++ between, 0 ∉ line
  afterFree : 0 ∉ after
  foreign : ∀ line ∈ before ++ between, ∀ value, ¬ Entry line (text "Uid") value

namespace StatusText

/-- The three UIDs behind the real one. -/
def others (status : StatusText) : Bytes :=
  9 :: decimal status.effective.toNat ++ 9 :: decimal status.saved.toNat ++
    9 :: decimal status.filesystem.toNat

def uidLine (status : StatusText) : Bytes :=
  text "Uid:\t" ++ (decimal status.real.toNat ++ status.others)

/-- The lines up to and with the UIDs. -/
def lines (status : StatusText) (name : TaskName) : List Bytes :=
  status.before ++ name.line :: (status.between ++ [status.uidLine])

def render (status : StatusText) (name : TaskName) : Bytes :=
  linesText (status.lines name) ++ status.after

theorem others_digits (status : StatusText) : ∀ c ∈ status.others, isDigit c = true ∨ c = 9 := by
  intro c member
  simp only [others, List.cons_append, List.append_assoc, List.mem_cons, List.mem_append] at member
  rcases member with tab | digit | tab | digit | tab | digit
  · exact .inr tab
  · exact .inl (decimal_digits _ c digit)
  · exact .inr tab
  · exact .inl (decimal_digits _ c digit)
  · exact .inr tab
  · exact .inl (decimal_digits _ c digit)

/-- Nothing but the title, digits and tabs is on the line. -/
theorem not_mem_uidLine (status : StatusText) {c : UInt8} (title : c ∉ text "Uid:\t")
    (digit : isDigit c = false) (tab : c ≠ 9) : c ∉ status.uidLine := by
  intro member
  simp only [uidLine, List.mem_append] at member
  rcases member with there | there | there
  · exact title there
  · exact Bool.eq_false_iff.mp digit (decimal_digits _ c there)
  · rcases status.others_digits c there with is | is
    · exact Bool.eq_false_iff.mp digit is
    · exact tab is

theorem uidLine_short (status : StatusText) : status.uidLine.length ≤ 511 := by
  have digits (n : UInt32) : (decimal n.toNat).length ≤ 10 :=
    decimal_length_le (by norm_num) (lt_trans n.toNat_lt (by norm_num))
  have title : (text "Uid:\t").length = 5 := by decide
  have first := digits status.real
  have second := digits status.effective
  have third := digits status.saved
  have fourth := digits status.filesystem
  simp only [uidLine, others, List.length_append, List.length_cons, title]
  omega

/-- The four numbers have no blank at either end. -/
theorem numbers_trimmed (status : StatusText) :
    Trimmed (decimal status.real.toNat ++ status.others) := by
  constructor
  · intro c first
    obtain ⟨d, ds, numeral⟩ := List.exists_cons_of_ne_nil (decimal_ne_nil status.real.toNat)
    rw [numeral] at first
    obtain rfl : d = c := by simpa using first
    exact isDigit_not_blank (decimal_digits _ d (numeral ▸ List.mem_cons_self))
  · intro c last
    have ending : decimal status.real.toNat ++ status.others =
        (decimal status.real.toNat ++ 9 :: decimal status.effective.toNat ++
          9 :: decimal status.saved.toNat ++ [9]) ++ decimal status.filesystem.toNat := by
      simp [others]
    rw [ending, List.getLast?_append_of_ne_nil _ (decimal_ne_nil _)] at last
    exact isDigit_not_blank (decimal_digits _ c (List.mem_of_getLast? last))

theorem uidOf_uidLine (status : StatusText) : uidOf status.uidLine = some status.real := by
  let numbers := decimal status.real.toNat ++ status.others
  have colon : status.uidLine = text "Uid" ++ 58 :: (9 :: numbers) := rfl
  have value : trim (9 :: numbers) = numbers := by
    refine Padded.trim_eq ⟨status.numbers_trimmed, [9], [], by simp, ?_, by simp⟩
    intro c tab
    rw [List.mem_singleton.mp tab]
    rfl
  have stop : ∀ c ∈ status.others.head?, isDigit c = false := by
    intro c first
    obtain rfl : 9 = c := by simpa [others] using first
    rfl
  have read := readNumber_digits (decimal_ne_nil status.real.toNat) (decimal_digits _) stop
  have number : strtoul numbers = status.real.toUInt64 := by
    have exact := clampULong_toNat status.real.toUInt64
    rw [UInt32.toNat_toUInt64] at exact
    simp only [strtoul, numbers, read, natValue_decimal, exact]
  have key : trim (text "Uid") = text "Uid" := by decide
  unfold uidOf
  rw [colon, parseKeyValue_colon (by decide), value, key]
  simp only [if_true, number, UInt32.toUInt32_toUInt64]

theorem mem_lines {status : StatusText} {name : TaskName} {line : Bytes}
    (member : line ∈ status.lines name) :
    line ∈ status.before ++ status.between ∨ line = name.line ∨ line = status.uidLine := by
  simp only [lines, List.mem_append, List.mem_cons, List.not_mem_nil, or_false] at member ⊢
  tauto

theorem lines_single (status : StatusText) (name : TaskName) :
    ∀ line ∈ status.lines name, 10 ∉ line := by
  intro line member
  rcases mem_lines member with other | rfl | rfl
  · exact status.single line other
  · exact name.single
  · exact status.not_mem_uidLine (by decide) rfl (by decide)

theorem render_free (status : StatusText) (name : TaskName) : 0 ∉ status.render name := by
  intro nul
  rcases List.mem_append.mp nul with front | after
  · obtain ⟨line, member, inside⟩ := List.mem_flatMap.mp front
    have held : 0 ∈ line := by simpa using inside
    rcases mem_lines member with other | rfl | rfl
    · exact status.nulFree line other held
    · exact name.free held
    · exact status.not_mem_uidLine (by decide) rfl (by decide) held
  · exact status.afterFree after

/-- No line before the UIDs passes the parser's test, at whatever byte its buffer cuts it. -/
theorem uidOf_front (status : StatusText) (name : TaskName) {k : Nat} :
    ∀ line ∈ status.before ++ name.line :: status.between, uidOf (line.take k) = none := by
  intro line member
  simp only [List.mem_append, List.mem_cons] at member
  rcases member with before | rfl | between
  · exact uidOf_take (status.foreign line (List.mem_append_left _ before))
  · exact uidOf_take name.not_uid
  · exact uidOf_take (status.foreign line (List.mem_append_right _ between))

theorem parse_render (status : StatusText) (name : TaskName) :
    parseStatusUid (status.render name) = some status.real := by
  have front : ((status.before ++ name.line :: status.between).map
      fun line => line.take 511).findSome? uidOf = none := by
    rw [List.findSome?_eq_none_iff]
    intro cut member
    obtain ⟨line, inside, rfl⟩ := List.mem_map.mp member
    exact status.uidOf_front name line inside
  have parts : status.lines name =
      (status.before ++ name.line :: status.between) ++ [status.uidLine] := by simp [lines]
  have uid : uidOf (status.uidLine.take 511) = some status.real := by
    rw [List.take_of_length_le status.uidLine_short, uidOf_uidLine]
  rw [parseStatusUid_eq, render, textLines_linesText, textLines_single (status.lines_single name),
    parts, List.map_append, List.map_append, List.findSome?_append, List.findSome?_append, front,
    List.map_singleton, List.findSome?_cons, uid]
  rfl

end StatusText

/-- A text is searched as if the line with the name were not there. -/
theorem parse_without_name (front : List Bytes) (name : TaskName) (rest : Bytes) :
    parseStatusUid (linesText front ++ (name.line ++ 10 :: rest)) =
      parseStatusUid (linesText front ++ rest) := by
  rw [parseStatusUid_eq, parseStatusUid_eq, textLines_linesText, textLines_linesText,
    textLines_terminated name.single, List.map_append, List.map_append, List.findSome?_append,
    List.findSome?_append, List.map_cons, List.findSome?_cons, uidOf_take name.not_uid]

/-- The UID is read from its own line whatever the process calls itself, and two files that
    differ in the name alone give the same answer. -/
theorem status_uid (status : StatusText) (name : TaskName) (behind : Bytes) :
    parseStatusUid (cString (status.render name ++ 0 :: behind)) = some status.real ∧
      ∀ (front : List Bytes) (rest : Bytes) (other : TaskName),
        parseStatusUid (linesText front ++ (name.line ++ 10 :: rest)) =
          parseStatusUid (linesText front ++ (other.line ++ 10 :: rest)) := by
  constructor
  · rw [cString_append_nul (status.render_free name), status.parse_render]
  · intro front rest other
    rw [parse_without_name, parse_without_name]

/-- The lines around the UIDs of a sleeping process of user 1000. -/
def exampleStatus : StatusText where
  before := []
  between := [text "Umask:\t0022", text "State:\tS (sleeping)", text "PPid:\t1"]
  real := 1000
  effective := 1000
  saved := 0
  filesystem := 1000
  after := text "Gid:\t100\t100\t100\t100\n"
  single := by decide
  nulFree := by decide
  afterFree := by decide
  foreign := by
    intro line member value entry
    have keys : ∀ line ∈ [text "Umask:\t0022", text "State:\tS (sleeping)", text "PPid:\t1"],
        (parseKeyValue line).map Prod.fst ≠ some (text "Uid") := by decide +kernel
    exact keys line member (congrArg (Option.map Prod.fst) (parseKeyValue_iff.mpr entry))

/-- A name that spells out a line of its own. -/
def exampleName : TaskName := ⟨text "a\nUid:\t0", by decide⟩

theorem status_uid_example :
    exampleName.line = text "Name:\ta\\nUid:\t0" ∧
      parseStatusUid (cString (exampleStatus.render exampleName ++ [0])) = some 1000 :=
  ⟨by decide, (status_uid exampleStatus exampleName []).1⟩

end KernelMonitor
