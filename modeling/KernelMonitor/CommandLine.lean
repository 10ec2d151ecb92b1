import KernelMonitor.FileRead
import KernelMonitor.SampleOrder
import KernelMonitor.SweepReference
import KernelMonitor.Library.StripCut

/-! # The command line of a process

What `read_process_info` makes of `/proc/[pid]/cmdline`: the read stops at 4095 bytes, the
separators become spaces, the spaces at the end go, and only then is it asked whether
anything is left. What is left is cut once more.
-/

namespace KernelMonitor

open Library

/-- `KM_PROC_PID_BUF_SIZE` -/
def pidBufSize : Nat := 4096

/-- `read_pid_file` into the buffer of `read_process_info`. -/
def readPidFile (file : Option Bytes) (plans : List ReadPlan) (stack : Bytes) : Option Bytes :=
  (procReadFile file plans pidBufSize stack).bind FileRead.bytes?

def nulToSpace (c : UInt8) : UInt8 := if c = 0 then 32 else c

/-- A separator or a space. -/
def blank (c : UInt8) : Bool := c == 0 || c == 32

/-- The content with separators turned into spaces and without the spaces at its end. -/
def spaced (content : Bytes) : Bytes := (content.map nulToSpace).rdropWhile (· == 32)

/-- The mark of a kernel thread. -/
def bracketed (name : Bytes) : Bytes := text "[" ++ name ++ text "]"

/-- The name in brackets exactly where the file is empty or unreadable, and else what is to
    be shown of its content. -/
structure Renders (shown : Bytes → Bytes) (content : Option Bytes) (name cmdline : Bytes) :
    Prop where
  mark : cmdline = bracketed name ↔ content = none ∨ content = some []
  rest : ∀ bytes, content = some bytes → bytes ≠ [] → cmdline = shown bytes

/-- The first 511 bytes of the spaced content. -/
def spacedCut (content : Bytes) : Bytes := (spaced content).take (cmdlineMax - 1)

/-- The same with the cut before the spaces at the end are dropped. -/
def cutSpaced (content : Bytes) : Bytes := spaced (content.take (cmdlineMax - 1))

/-- The bytes that are read are not all blank, and no byte behind them could be seen. -/
def ShowsContent (content : Bytes) : Prop :=
  (content.take 4095).all blank = false ∧
    (((content.take 4095).drop 510).all blank = false ∨ (content.drop 4095).all blank = true)

/-- The bytes that are read are not all blank, and the cut is not made in the middle of
    blanks. -/
def ShowsCut (content : Bytes) : Prop :=
  (content.take 4095).all blank = false ∧
    (((content.take 4095).drop 511).all blank = true ∨ ∃ c ∈ content[510]?, blank c = false)

section Content

variable {content name : Bytes}

theorem nulToSpace_blank (c : UInt8) : (nulToSpace c == 32) = blank c := by
  unfold nulToSpace blank
  split
  · simp [*]
  · simp [*]

theorem all_spaces (content : Bytes) :
    (content.map nulToSpace).all (· == 32) = content.all blank := by
  rw [List.all_map]
  congr 1
  funext c
  exact nulToSpace_blank c

theorem spaced_front (content : Bytes) : spaced content <+: content.map nulToSpace :=
  List.rdropWhile_prefix _ _

theorem spaced_nil_iff : spaced content = [] ↔ content.all blank = true := by
  rw [← all_spaces, List.all_eq_true]
  exact List.rdropWhile_eq_nil_iff

/-- Blanks at the front cannot be taken for a bracket. -/
theorem not_bracketed {shown : Bytes} (name : Bytes) (front : shown <+: content.map nulToSpace)
    (blanks : (content.take 4095).all blank = true) : shown ≠ bracketed name := by
  rintro rfl
  cases content with
  | nil => simp [bracketed, text] at front
  | cons c rest =>
      obtain ⟨tail, same⟩ := front
      have bracket : text "[" = [91] := by decide
      have first : 91 = nulToSpace c := by
        have heads := congrArg List.head? same
        simpa [bracketed, bracket] using heads
      have isBlank : blank c = true := by
        rw [List.take_succ_cons, List.all_cons, Bool.and_eq_true] at blanks
        exact blanks.1
      rw [← nulToSpace_blank, ← first] at isBlank
      exact absurd isBlank (by decide)

/-- A command line that is read and not all blank is shown, whatever is in it; any other is
    a name in brackets. -/
theorem refCmdline_some (content name : Bytes) :
    refCmdline (some content) name =
      if content.all blank then snprintf cmdlineMax (bracketed name) else spacedCut content := by
  have read : readPidCmdline (some content) = some (spaced content) := rfl
  unfold refCmdline
  rw [read, spacedCut]
  cases left : spaced content with
  | nil =>
      rw [if_pos (spaced_nil_iff.mp left)]
      rfl
  | cons c rest =>
      have shown : ¬ content.all blank = true := by
        rw [← spaced_nil_iff, left]
        exact List.cons_ne_nil c rest
      rw [if_neg shown]
      rfl

theorem bracketed_length (short : name.length ≤ 63) : (bracketed name).length ≤ 65 := by
  have bracket : (text "[").length = 1 ∧ (text "]").length = 1 := by decide
  simp only [bracketed, List.length_append, bracket]
  omega

theorem snprintf_bracketed (short : name.length ≤ 63) :
    snprintf cmdlineMax (bracketed name) = bracketed name := by
  have long := bracketed_length short
  apply List.take_of_length_le
  simp only [cmdlineMax]
  omega

/-- A mark is shorter than the cut, so the cut makes none. -/
theorem spacedCut_eq_bracketed_iff (short : name.length ≤ 63) :
    spacedCut content = bracketed name ↔ spaced content = bracketed name := by
  have long := bracketed_length short
  unfold spacedCut
  constructor
  · intro same
    have size := congrArg List.length same
    rw [List.length_take] at size
    simp only [cmdlineMax] at size same
    rwa [List.take_of_length_le (by omega)] at same
  · intro same
    rw [same]
    apply List.take_of_length_le
    simp only [cmdlineMax]
    omega

theorem renders_mark {shown : Bytes → Bytes} {file : Option Bytes}
    (nothing : file = none ∨ file = some []) : Renders shown file name (bracketed name) := by
  refine ⟨iff_of_true rfl nothing, fun bytes there some => ?_⟩
  rcases nothing with rfl | rfl
  · cases there
  · cases there
    exact absurd rfl some

theorem renders_nothing_iff {shown : Bytes → Bytes} {Right : Bytes → Prop} {file : Option Bytes}
    (nothing : file = none ∨ file = some []) :
    Renders shown file name (bracketed name) ↔ ∀ bytes ∈ file, bytes = [] ∨ Right bytes := by
  refine iff_of_true (renders_mark nothing) fun bytes there => ?_
  rcases nothing with rfl | rfl
  · cases there
  · exact .inl (Option.some.inj there).symm

theorem renders_some_iff {shown : Bytes → Bytes} {cmdline : Bytes} (whole : content ≠ []) :
    Renders shown (some content) name cmdline ↔
      cmdline = shown content ∧ shown content ≠ bracketed name := by
  constructor
  · rintro ⟨mark, rest⟩
    have same := rest content rfl whole
    refine ⟨same, fun marked => ?_⟩
    rcases mark.mp (same.trans marked) with none | empty
    · cases none
    · exact whole (Option.some.inj empty)
  · rintro ⟨same, unmarked⟩
    refine ⟨iff_of_false (same ▸ unmarked) ?_, ?_⟩
    · simp [whole]
    · rintro bytes there _
      cases there
      exact same

/-- The limit of the read, seen through the strip and the second cut. -/
theorem spaced_take_iff (content : Bytes) :
    spacedCut (content.take 4095) = spacedCut content ↔
      ((content.take 4095).drop 510).all blank = false ∨ (content.drop 4095).all blank = true := by
  have cut := take_rdropWhile_take_iff (s := content.map nulToSpace) (p := (· == 32))
    (by decide : 510 < 4095)
  rwa [← List.map_take, ← List.map_drop, ← List.map_drop, all_spaces, all_spaces] at cut

/-- The second cut against a cut before the strip. -/
theorem take_spaced_iff (content : Bytes) :
    spacedCut content = cutSpaced content ↔
      (content.drop 511).all blank = true ∨ ∃ c ∈ content[510]?, blank c = false := by
  have cut := take_rdropWhile (p := (· == 32)) (content.map nulToSpace) 511
  rw [← List.map_take, ← List.map_drop, all_spaces] at cut
  change (spaced content).take 511 = spaced (content.take 511) ↔ _
  unfold spaced
  rw [cut]
  cases behind : (content.drop 511).all blank with
  | true => simp
  | false =>
      have longer : 510 < content.length := by
        by_contra short
        rw [List.drop_eq_nil_of_le (by omega)] at behind
        cases behind
      have ending := rdropWhile_take_iff (s := content.map nulToSpace) (p := (· == 32))
        (by rwa [List.length_map])
      rw [← List.map_take, List.getElem_map, nulToSpace_blank] at ending
      simp only [Bool.false_eq_true, if_false, false_or, List.getElem?_eq_getElem longer,
        Option.mem_def, Option.some.injEq, exists_eq_left', ← ending]
      exact eq_comm

theorem renders_iff (whole : content ≠ []) (short : name.length ≤ 63) :
    (Renders spacedCut (some content) name (refCmdline (some (content.take 4095)) name) ↔
        ShowsContent content ∧ spaced content ≠ bracketed name) ∧
      (Renders cutSpaced (some content) name (refCmdline (some (content.take 4095)) name) ↔
        ShowsCut content ∧ cutSpaced content ≠ bracketed name) := by
  have unmarked : spacedCut content ≠ bracketed name ↔ spaced content ≠ bracketed name :=
    not_congr (spacedCut_eq_bracketed_iff short)
  rw [renders_some_iff whole, renders_some_iff whole, ← unmarked, refCmdline_some,
    snprintf_bracketed short]
  unfold ShowsContent ShowsCut
  cases blanks : (content.take 4095).all blank with
  | true =>
      have content_apart : spacedCut content ≠ bracketed name :=
        not_bracketed name ((List.take_prefix 511 _).trans (spaced_front content)) blanks
      have cut_apart : cutSpaced content ≠ bracketed name := by
        refine not_bracketed name ((spaced_front _).trans ?_) blanks
        exact (List.take_prefix 511 content).map nulToSpace
      simp only [if_true, Bool.true_eq_false, false_and, iff_false, not_and]
      exact ⟨fun same => absurd same.symm content_apart, fun same => absurd same.symm cut_apart⟩
  | false =>
      have first : cutSpaced (content.take 4095) = cutSpaced content := by
        rw [cutSpaced, List.take_take]
        rfl
      have cell : (content.take 4095)[510]? = content[510]? := by
        rw [List.getElem?_take]
        rfl
      have stripped := take_spaced_iff (content.take 4095)
      rw [first, cell] at stripped
      simp only [Bool.false_eq_true, if_false, true_and, spaced_take_iff content, stripped,
        and_self]

end Content

/-! ## The published entry -/

theorem readPidFile_eq (file : Option Bytes) (plans : List ReadPlan) {stack : Bytes}
    (holds : pidBufSize ≤ stack.length) :
    readPidFile file plans stack = none ∨
      readPidFile file plans stack = file.map fun content => content.take 4095 := by
  cases file with
  | none => exact .inl rfl
  | some content =>
      obtain ⟨read, reads, exact⟩ := read_file_exact content plans (by decide) holds
      unfold readPidFile
      rw [reads, Option.bind_some]
      exact exact.bytes

/-- There is nothing to show, and the name is, or what there is has been read to its limit. -/
theorem readPidFile_cases {name : Bytes} (file : Option Bytes) (plans : List ReadPlan)
    {stack : Bytes} (holds : pidBufSize ≤ stack.length) (short : name.length ≤ 63) :
    let given := readPidFile file plans stack
    let content := given.bind fun _ => file
    (content = none ∨ content = some []) ∧ refCmdline given name = bracketed name ∨
      ∃ bytes, bytes ≠ [] ∧ content = some bytes ∧ given = some (bytes.take 4095) := by
  intro given content
  have unread : refCmdline none name = bracketed name := snprintf_bracketed short
  have empty : refCmdline (some []) name = bracketed name := snprintf_bracketed short
  rcases readPidFile_eq file plans holds with failed | whole
  · have none : given = none := failed
    simp [content, none, unread]
  · have read : given = file.map fun content => content.take 4095 := whole
    cases file with
    | none => simp [content, read, unread]
    | some bytes =>
        cases bytes with
        | nil => simp [content, read, empty]
        | cons c rest => simp [content, read]

theorem parseProcStat_comm {content comm : Bytes} {commSize : Nat}
    (parsed : (parseProcStat content commSize).1 = some comm) : comm.length ≤ commSize - 1 := by
  unfold parseProcStat at parsed
  split at parsed
  · split at parsed
    · cases parsed
    · cases parsed
      exact List.length_take_le _ _
  · cases parsed

/-- An entry that is read keeps the command line of its file, beside a name that fits. -/
theorem readProcessInfo_cmdline {c : Constants} {pid : Int} {files : PidFiles}
    {slot : ProcessInfo} (read : (readProcessInfo c pid files slot).1 = true) :
    let info := (readProcessInfo c pid files slot).2
    info.cmdline = refCmdline files.cmdline info.name ∧ info.name.length ≤ 63 := by
  rw [readProcessInfo_slot c pid files slot .zero] at read ⊢
  have entry := readProcessInfo_eq c pid files
  rw [if_pos read] at entry
  unfold refReads at entry
  split at entry
  · rename_i name st parsed
    have comm : (files.stat.map fun buf => (parseProcStat (cString buf) commMax).1) =
        some (some name) := by
      have front := congrArg (Option.map Prod.fst) parsed
      rwa [Option.map_map] at front
    obtain ⟨buf, _, whole⟩ := Option.map_eq_some_iff.mp comm
    rw [Option.some.inj entry]
    exact ⟨rfl, parseProcStat_comm whole⟩
  · cases entry

/-- The command line of a published entry is as it ought to be exactly where the file has
    nothing, or the first 4095 bytes of it have something to show, hide nothing that would be
    shown, and do not read like the mark of a kernel thread; the second part says the same of
    a cut that comes before the strip. -/
theorem cmdline_iff (c : Constants) (pid : Int) (files : PidFiles) (slot : ProcessInfo)
    (file : Option Bytes) (plans : List ReadPlan) {stack : Bytes}
    (holds : pidBufSize ≤ stack.length)
    (published : (readProcessInfo c pid
      { files with cmdline := readPidFile file plans stack } slot).1 = true) :
    let given := readPidFile file plans stack
    let info := (readProcessInfo c pid { files with cmdline := given } slot).2
    let content := given.bind fun _ => file
    (Renders spacedCut content info.name info.cmdline ↔
        ∀ bytes ∈ content, bytes = [] ∨
          ShowsContent bytes ∧ spaced bytes ≠ bracketed info.name) ∧
      (Renders cutSpaced content info.name info.cmdline ↔
        ∀ bytes ∈ content, bytes = [] ∨
          ShowsCut bytes ∧ cutSpaced bytes ≠ bracketed info.name) := by
  intro given info content
  obtain ⟨shown, fits⟩ := readProcessInfo_cmdline published
  have cmdline : info.cmdline = refCmdline given info.name := shown
  have short : info.name.length ≤ 63 := fits
  rw [cmdline]
  rcases readPidFile_cases file plans holds short with nothing | something
  · obtain ⟨nothing, marked⟩ := nothing
    rw [marked]
    exact ⟨renders_nothing_iff nothing, renders_nothing_iff nothing⟩
  · obtain ⟨bytes, nonempty, there, read⟩ := something
    have upTo : given = some (bytes.take 4095) := read
    have whole : content = some bytes := there
    have same := renders_iff nonempty short
    rw [upTo, whole]
    simpa [nonempty] using same

/-- A process whose only argument is empty is shown as a kernel thread, and one whose only
    argument is the mark of one as well. -/
theorem blank_argument :
    let given := readPidFile (some [0]) [] (List.replicate 4096 0)
    let entry := readProcessInfo exampleHost.constants 3
      { unreadable with stat := some exampleStat, cmdline := given } .zero
    let marked := text "[sh]" ++ [0]
    let markedGiven := readPidFile (some marked) [] (List.replicate 4096 0)
    let markedEntry := readProcessInfo exampleHost.constants 3
      { unreadable with stat := some exampleStat, cmdline := markedGiven } .zero
    (given = some [0] ∧ entry.1 = true ∧ entry.2.cmdline = text "[sh]" ∧
      ¬ Renders spacedCut (some [0]) entry.2.name entry.2.cmdline ∧
      ¬ Renders cutSpaced (some [0]) entry.2.name entry.2.cmdline) ∧
    markedGiven = some marked ∧ markedEntry.1 = true ∧ markedEntry.2.cmdline = text "[sh]" ∧
      ¬ Renders spacedCut (some marked) markedEntry.2.name markedEntry.2.cmdline ∧
      ¬ Renders cutSpaced (some marked) markedEntry.2.name markedEntry.2.cmdline := by
  intro given entry marked markedGiven markedEntry
  have cmdline : entry.2.cmdline = bracketed entry.2.name := by decide +kernel
  have markedCmdline : markedEntry.2.cmdline = bracketed markedEntry.2.name := by decide +kernel
  refine ⟨⟨by decide +kernel, by decide +kernel, by decide +kernel, fun renders => ?_,
    fun renders => ?_⟩, by decide +kernel, by decide +kernel, by decide +kernel,
    fun renders => ?_, fun renders => ?_⟩
  · simpa using renders.mark.mp cmdline
  · simpa using renders.mark.mp cmdline
  · simpa [marked] using renders.mark.mp markedCmdline
  · simpa [marked] using renders.mark.mp markedCmdline

/-- Two arguments, the second of them empty. -/
theorem cmdline_iff_example :
    let given := readPidFile (some (text "sh" ++ [0, 0])) [] (List.replicate 4096 0)
    let info := (readProcessInfo exampleHost.constants 3
      { unreadable with stat := some exampleStat, cmdline := given } .zero).2
    given = some (text "sh" ++ [0, 0]) ∧
      Renders spacedCut (some (text "sh" ++ [0, 0])) info.name info.cmdline := by
  intro given info
  have holds : pidBufSize ≤ (List.replicate 4096 (0 : UInt8)).length := by decide +kernel
  have published : (readProcessInfo exampleHost.constants 3
      { unreadable with stat := some exampleStat, cmdline := given } .zero).1 = true := by
    decide +kernel
  have read : given = some (text "sh" ++ [0, 0]) := by decide +kernel
  have shows : ShowsContent (text "sh" ++ [0, 0]) := by
    unfold ShowsContent
    decide +kernel
  have unmarked : spaced (text "sh" ++ [0, 0]) ≠ bracketed info.name := by decide +kernel
  refine ⟨read, ?_⟩
  have same := (cmdline_iff exampleHost.constants 3 { unreadable with stat := some exampleStat }
    .zero (some (text "sh" ++ [0, 0])) [] holds published).1.mpr
  have content : (given.bind fun _ => some (text "sh" ++ [0, 0])) = some (text "sh" ++ [0, 0]) := by
    rw [read, Option.bind_some]
  rw [← content]
  refine same fun bytes member => .inr ?_
  rw [show readPidFile _ _ _ = given from rfl, content, Option.mem_def, Option.some.injEq] at member
  exact member ▸ ⟨shows, unmarked⟩

end KernelMonitor
