import KernelMonitor.Library.Utf8
import KernelMonitor.TreeView

/-! # Text cut for the screen

`truncate_to` and the wrapping of the command line cut a text at a number of bytes that
their callers count in columns.
-/

namespace KernelMonitor

open Library

/-- `clamp_width` -/
def clampWidth (width : Int) : Nat := if 0 < width then width.toNat else 0

/-- The `help_text` of a view. -/
def helpText : ViewMode → Bytes
  | .processList =>
      text "[↑↓] Select  [ENTER] Details  [T] Tree  [E] Events  " ++
        text "[K] Term  [X] Kill  [S] Stop  [C] Cont  [R] Refresh  " ++ text "[+/-] Rate  [Q] Quit"
  | .processDetail => text "[ESC/B] Back  [Q] Quit"
  | .processTree => text "[↑↓] Scroll  [B] Back  [Q] Quit"
  | .events => text "[B] Back  [Q] Quit"

/-- `draw_help_bar` -/
def Ui.helpBar (ui : Ui) : Bytes :=
  truncateTo 256 (helpText ui.viewMode) (clampWidth (ui.termWidth - 2))

/-- The loop of `draw_process_detail` over the command line, with the rows above `maxRow`
    left from `row` on: the pieces it prints. -/
def wrapPieces (cmdline : Bytes) (maxWidth : Nat) (maxRow row : Int) (pos : Nat) : List Bytes :=
  if pos < cmdline.length ∧ row < maxRow then
    (cmdline.drop pos).take maxWidth ::
      wrapPieces cmdline maxWidth maxRow (row + 1) (pos + maxWidth)
  else []
termination_by (maxRow - row).toNat
decreasing_by omega

/-- The row of the first piece in `draw_process_detail`: four blocks of four rows and the
    title, with the group and fault fields, their gap and one more row above on a narrow
    terminal. -/
def Ui.commandLineRow (ui : Ui) : Int :=
  let row : Int := 2 + 4 + 1 + 4 + 1 + 4 + 1
  let row := if 92 ≤ ui.termWidth then row else row + 4 + 1 + 2 + 1
  row + 1

/-- The pieces of the command line in the detail view. -/
def Ui.commandLinePieces (ui : Ui) (p : ProcessInfo) : List Bytes :=
  let maxWidth := if ui.termWidth - 6 < 1 then 1 else ui.termWidth - 6
  wrapPieces p.cmdline maxWidth.toNat (ui.termHeight - 10) ui.commandLineRow 0

/-! ## Truncation -/

/-- The result is UTF-8 of at most `width` columns, and the text itself if that fits in the
    columns and in the buffer. -/
def TruncatesWell (bufsz : Nat) (str : Bytes) (width : Nat) : Prop :=
  let out := truncateTo bufsz str width
  Utf8 out ∧ columns out ≤ width ∧ (columns str ≤ width → str.length < bufsz → out = str)

/-- The text has no more bytes than there are columns and room; or it is cut between two
    characters and would not fit. -/
def CutBetween (bufsz : Nat) (str : Bytes) (width : Nat) : Prop :=
  let room := min width (bufsz - 1)
  str.length ≤ room ∨
    Boundary str (if room < 4 then room else room - 3) ∧ (str.length < bufsz → width < columns str)

section Truncation

variable {bufsz width : Nat} {str : Bytes}

/-- A text is as good with an ellipsis behind it as without. -/
theorem utf8_ellipsis_iff (str : Bytes) : Utf8 (str ++ text "...") ↔ Utf8 str := by
  have dots : Utf8 (text "...") := utf8_text "..."
  constructor
  · intro valid
    have dot : (text "...")[0]? = some 46 := by decide
    have cut : Boundary (str ++ text "...") str.length := by
      intro c next
      rw [List.getElem?_append_right (Nat.le_refl _), Nat.sub_self, dot] at next
      exact Option.some.inj next ▸ by decide
    have front := (utf8_take_iff valid).mpr cut
    rwa [List.take_left] at front
  · exact fun valid => valid.append dots

/-- `width` and the buffer limit the text together. -/
theorem truncateTo_eq (room : 1 ≤ bufsz) :
    truncateTo bufsz str width =
      if str.length ≤ min width (bufsz - 1) then str
      else if min width (bufsz - 1) < 4 then str.take (min width (bufsz - 1))
      else str.take (min width (bufsz - 1) - 3) ++ text "..." := by
  have clamped : (if bufsz ≤ width then bufsz - 1 else width) = min width (bufsz - 1) := by
    split <;> omega
  rw [truncateTo, if_neg (by omega : ¬ bufsz = 0)]
  simp only [clamped]

theorem truncateTo_length (room : 1 ≤ bufsz) :
    (truncateTo bufsz str width).length ≤ min width (bufsz - 1) := by
  have dots : (text "...").length = 3 := by decide
  rw [truncateTo_eq room]
  generalize min width (bufsz - 1) = limit
  split_ifs with short narrow
  · exact short
  · exact List.length_take_le limit str
  · rw [List.length_append, List.length_take, dots]
    omega

/-- A text that is cut is UTF-8 where the cut is between two characters. -/
theorem truncateTo_utf8_iff (room : 1 ≤ bufsz) (valid : Utf8 str)
    (long : min width (bufsz - 1) < str.length) :
    Utf8 (truncateTo bufsz str width) ↔
      Boundary str (if min width (bufsz - 1) < 4 then min width (bufsz - 1)
        else min width (bufsz - 1) - 3) := by
  rw [truncateTo_eq room, if_neg (Nat.not_le.mpr long)]
  split
  · exact utf8_take_iff valid
  · rw [utf8_ellipsis_iff, utf8_take_iff valid]

theorem truncatesWell_iff (room : 1 ≤ bufsz) (valid : Utf8 str) :
    TruncatesWell bufsz str width ↔ CutBetween bufsz str width := by
  have short : (truncateTo bufsz str width).length ≤ min width (bufsz - 1) :=
    truncateTo_length room
  have narrow : columns (truncateTo bufsz str width) ≤ width :=
    (columns_le_length _).trans (by omega)
  unfold TruncatesWell CutBetween
  dsimp only
  by_cases long : min width (bufsz - 1) < str.length
  · have other : truncateTo bufsz str width ≠ str := by
      intro same
      rw [same] at short
      omega
    rw [truncateTo_utf8_iff room valid long]
    simp only [narrow, other, true_and, imp_false, Nat.not_le.mpr long, false_or]
    constructor
    · exact fun ⟨cut, never⟩ => ⟨cut, fun fits => by
        by_contra wide
        exact never (not_lt.mp wide) fits⟩
    · exact fun ⟨cut, wide⟩ => ⟨cut, fun fits inside => absurd (wide inside) (not_lt.mpr fits)⟩
  · have whole : truncateTo bufsz str width = str := by
      rw [truncateTo_eq room, if_pos (Nat.not_lt.mp long)]
    rw [whole] at narrow ⊢
    exact iff_of_true ⟨valid, narrow, fun _ _ => rfl⟩ (.inl (Nat.not_lt.mp long))

end Truncation

/-! ## Wrapping -/

/-- From a boundary on, the pieces are UTF-8 where each of the cuts that are made is one
    between two characters. -/
theorem wrapPieces_utf8_iff {cmdline : Bytes} {maxWidth pos : Nat} {maxRow row : Int}
    (valid : Utf8 cmdline) (start : Boundary cmdline pos) :
    (∀ piece ∈ wrapPieces cmdline maxWidth maxRow row pos, Utf8 piece) ↔
      ∀ k ≤ (maxRow - row).toNat, Boundary cmdline (pos + k * maxWidth) := by
  fun_induction wrapPieces cmdline maxWidth maxRow row pos with
  | case1 row pos more ih =>
      obtain ⟨rows, left⟩ : ∃ rows, (maxRow - row).toNat = rows + 1 :=
        ⟨(maxRow - row).toNat - 1, by omega⟩
      have fewer : (maxRow - (row + 1)).toNat = rows := by omega
      have rest : Utf8 (cmdline.drop pos) := (utf8_drop_iff valid).mpr start
      have piece : Utf8 ((cmdline.drop pos).take maxWidth) ↔
          Boundary cmdline (pos + maxWidth) := by
        rw [utf8_take_iff rest, Boundary, List.getElem?_drop]
        rfl
      have shift (k : Nat) : pos + (k + 1) * maxWidth = pos + maxWidth + k * maxWidth := by
        rw [Nat.succ_mul]
        omega
      rw [List.forall_mem_cons, piece, left]
      constructor
      · rintro ⟨next, later⟩ k below
        cases k with
        | zero => simpa using start
        | succ k =>
            rw [shift]
            exact (ih next).mp later k (by omega)
      · intro cuts
        have next : Boundary cmdline (pos + maxWidth) := by simpa using cuts 1 (by omega)
        refine ⟨next, (ih next).mpr fun k below => ?_⟩
        rw [← shift]
        exact cuts (k + 1) (by omega)
  | case2 row pos stop =>
      refine iff_of_true (by simp) fun k below => ?_
      by_cases inside : pos < cmdline.length
      · have none : k = 0 := by omega
        simpa [none] using start
      · exact boundary_of_le (by omega)

/-- Texts cut for the screen are as they should be exactly where every cut that is made falls
    between two characters, and none is made in a text that fits. -/
theorem screen_text_iff {bufsz : Nat} {str : Bytes} (width : Nat) (ui : Ui) {p : ProcessInfo}
    (room : 1 ≤ bufsz) (valid : Utf8 str) (command : Utf8 p.cmdline) :
    (TruncatesWell bufsz str width ↔ CutBetween bufsz str width) ∧
      ((∀ piece ∈ ui.commandLinePieces p, Utf8 piece) ↔
        ∀ k ≤ (ui.termHeight - 10 - ui.commandLineRow).toNat,
          Boundary p.cmdline (k * (max 1 (ui.termWidth - 6)).toNat)) := by
  refine ⟨truncatesWell_iff room valid, ?_⟩
  have start : Boundary p.cmdline 0 := by
    have nothing : Utf8 (p.cmdline.take 0) := ByteArray.isValidUTF8_empty
    exact (utf8_take_iff command).mp nothing
  have width : (if ui.termWidth - 6 < 1 then 1 else ui.termWidth - 6) =
      max 1 (ui.termWidth - 6) := by
    split <;> omega
  rw [Ui.commandLinePieces, width, wrapPieces_utf8_iff command start]
  simp only [Nat.zero_add]

/-- The help of the tree view is cut inside an arrow on a terminal of 8 columns, and cut
    although it fits on one of 34; a command line is cut inside its last letter on one of 80. -/
theorem help_bar_cut :
    Utf8 (helpText .processTree) ∧ ¬ TruncatesWell 256 (helpText .processTree) 6 ∧
      columns (helpText .processTree) ≤ 32 ∧ ¬ TruncatesWell 256 (helpText .processTree) 32 ∧
      ∃ p : ProcessInfo, Utf8 p.cmdline ∧
        ∃ piece ∈ (Ui.init 80 40).commandLinePieces p, ¬ Utf8 piece := by
  have valid : Utf8 (helpText .processTree) := utf8_text "[↑↓] Scroll  [B] Back  [Q] Quit"
  have command : Utf8 (text (String.ofList (List.replicate 73 'a')) ++ text "é") :=
    (utf8_text _).append (utf8_text _)
  refine ⟨valid, ?_, by decide +kernel, ?_, { ProcessInfo.zero with cmdline := _ }, command, ?_⟩
  · rw [truncatesWell_iff (by decide) valid]
    unfold CutBetween
    decide +kernel
  · rw [truncatesWell_iff (by decide) valid]
    unfold CutBetween
    decide +kernel
  · rw [Ui.commandLinePieces, wrapPieces, if_pos (by decide +kernel)]
    refine ⟨_, List.mem_cons_self, ?_⟩
    rw [List.drop_zero, utf8_take_iff command]
    decide +kernel

/-- A name that is cut to its column behind a letter of two bytes. -/
theorem screen_text_iff_example :
    TruncatesWell 32 (text "größer") 6 ↔ CutBetween 32 (text "größer") 6 :=
  (screen_text_iff 6 (Ui.init 80 40) (p := { ProcessInfo.zero with cmdline := text "sh" })
    (by decide) (utf8_text _) (utf8_text _)).1

end KernelMonitor
