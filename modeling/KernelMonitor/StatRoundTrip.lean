import KernelMonitor.Parser

/-! # Reading back `/proc/[pid]/stat`

The kernel prints the process name between parentheses and prints it as it is, so
the name can imitate the rest of the line. Whatever it holds, the first `(` opens it
and the last `)` closes it, and the scan of the other fields starts after that.
-/

namespace KernelMonitor

open Library

/-- The types of the fields of `km_proc_stat`. -/
structure ProcStat.Representable (st : ProcStat) : Prop where
  ints : ∀ i ∈ [st.pid, st.ppid, st.pgrp, st.session, st.ttyNr, st.tpgid],
    -2 ^ 31 ≤ i ∧ i < 2 ^ 31
  longs : ∀ i ∈ [st.priority, st.nice, st.numThreads], -2 ^ 63 ≤ i ∧ i < 2 ^ 63

/-- What the kernel puts on the line: the fields that are read, the name, the fields
    that are skipped, and the fields after the number of threads. -/
structure StatLine where
  fields : ProcStat
  comm : Bytes
  flags : Int
  cminflt : Int
  cmajflt : Int
  cutime : Int
  cstime : Int
  tail : Bytes
  representable : fields.Representable
  stateSolid : isSpace fields.state = false
  stateFree : fields.state ≠ 0 ∧ fields.state ≠ 41
  commFree : 0 ∉ comm
  tailEnded : Ended tail
  tailFree : 0 ∉ tail ∧ 41 ∉ tail

namespace StatLine

/-- Everything after the closing parenthesis. -/
def afterComm (line : StatLine) : Bytes :=
  let st := line.fields
  32 :: st.state :: (printed st.ppid <| printed st.pgrp <| printed st.session <|
    printed st.ttyNr <| printed st.tpgid <| printed line.flags <|
    printed st.minflt.toNat <| printed line.cminflt <| printed st.majflt.toNat <|
    printed line.cmajflt <| printed st.utime.toNat <| printed st.stime.toNat <|
    printed line.cutime <| printed line.cstime <| printed st.priority <|
    printed st.nice <| printed st.numThreads line.tail)

/-- The line as the kernel prints it. -/
def render (line : StatLine) : Bytes :=
  signedDecimal line.fields.pid ++ 32 :: 40 :: (line.comm ++ 41 :: line.afterComm)

/-- The same line under another name. -/
def named (line : StatLine) (comm : Bytes) (free : 0 ∉ comm) : StatLine :=
  { line with comm := comm, commFree := free }

variable (line : StatLine)

/-- The scan after the name gets every field, over skipped ones of any width. -/
theorem sscanf_afterComm :
    sscanf procStatFormat line.afterComm =
      let st := line.fields
      [.char st.state, .int st.ppid, .int st.pgrp, .int st.session, .int st.ttyNr, .int st.tpgid,
        .unsigned st.minflt, .unsigned st.majflt, .unsigned st.utime, .unsigned st.stime,
        .int st.priority, .int st.nice, .int st.numThreads] := by
  obtain ⟨ints, longs⟩ := line.representable
  simp only [List.forall_mem_cons] at ints longs
  obtain ⟨_, ppid, pgrp, session, ttyNr, tpgid, _⟩ := ints
  obtain ⟨priority, nice, numThreads, _⟩ := longs
  unfold procStatFormat afterComm
  rw [sscanf_char line.stateSolid,
    sscanf_int _ ppid.1 ppid.2 (ended_printed _ _),
    sscanf_int _ pgrp.1 pgrp.2 (ended_printed _ _),
    sscanf_int _ session.1 session.2 (ended_printed _ _),
    sscanf_int _ ttyNr.1 ttyNr.2 (ended_printed _ _),
    sscanf_int _ tpgid.1 tpgid.2 (ended_printed _ _),
    sscanf_skip_number _ (ended_printed _ _),
    sscanf_ulong _ (ended_printed _ _),
    sscanf_skip_number _ (ended_printed _ _),
    sscanf_ulong _ (ended_printed _ _),
    sscanf_skip_number _ (ended_printed _ _),
    sscanf_ulong _ (ended_printed _ _),
    sscanf_ulong _ (ended_printed _ _),
    sscanf_skip_number _ (ended_printed _ _),
    sscanf_skip_number _ (ended_printed _ _),
    sscanf_long _ priority.1 priority.2 (ended_printed _ _),
    sscanf_long _ nice.1 nice.2 (ended_printed _ _),
    sscanf_long _ numThreads.1 numThreads.2 line.tailEnded]
  rfl

theorem not_mem_signedDecimal {i : Int} {c : UInt8} (sign : c ≠ 45) (digit : isDigit c = false) :
    c ∉ signedDecimal i := by
  intro member
  rcases signedDecimal_bytes member with minus | isOne
  · exact sign minus
  · rw [digit] at isOne
    cases isOne

/-- A byte that is neither a blank, a sign nor a digit is not in a printed number. -/
theorem not_mem_printed {i : Int} {rest : Bytes} {c : UInt8} (free : c ∉ rest) (blank : c ≠ 32)
    (sign : c ≠ 45) (digit : isDigit c = false) : c ∉ printed i rest := by
  unfold printed
  rw [List.mem_cons, List.mem_append]
  rintro (same | number | later)
  · exact blank same
  · exact not_mem_signedDecimal sign digit number
  · exact free later

theorem not_mem_afterComm {c : UInt8} (blank : c ≠ 32) (sign : c ≠ 45) (digit : isDigit c = false)
    (state : c ≠ line.fields.state) (tail : c ∉ line.tail) : c ∉ line.afterComm := by
  unfold afterComm
  rw [List.mem_cons, List.mem_cons]
  push Not
  refine ⟨blank, state, ?_⟩
  iterate 17 refine not_mem_printed ?_ blank sign digit
  exact tail

/-- No NUL is on the line, so the buffer it was read into ends after it. -/
theorem cString_render (junk : Bytes) : cString (line.render ++ 0 :: junk) = line.render := by
  refine cString_append_nul ?_ junk
  unfold render
  simp only [List.mem_append, List.mem_cons]
  rintro (number | blank | paren | comm | close | after)
  · exact not_mem_signedDecimal (by decide) (by decide) number
  · cases blank
  · cases paren
  · exact line.commFree comm
  · cases close
  · exact line.not_mem_afterComm (by decide) (by decide) (by decide) line.stateFree.1.symm
      line.tailFree.1 after

theorem parseStatPid_render : parseStatPid line.render = line.fields.pid := by
  obtain ⟨ints, _⟩ := line.representable
  obtain ⟨low, high⟩ := ints line.fields.pid (by simp)
  have read : readNumber line.render = some (decide (line.fields.pid < 0),
      line.fields.pid.natAbs, 32 :: 40 :: (line.comm ++ 41 :: line.afterComm)) :=
    readNumber_signedDecimal _ fun c first => by
      cases first
      decide
  simp only [parseStatPid, sscanf, Conversion.read, read, Option.map_some]
  rw [clampLong_of_range (by omega) (by omega), toInt32_of_range low high]

/-- The opening parenthesis is the first one: numbers and blanks hold none. -/
theorem strchr_render :
    strchr line.render 40 = some ((signedDecimal line.fields.pid).length + 1) := by
  have before : (40 : UInt8) ∉ signedDecimal line.fields.pid ++ [32] := by
    rw [List.mem_append, not_or]
    exact ⟨not_mem_signedDecimal (by decide) (by decide), by decide⟩
  have found : strchr (_ ++ 40 :: (line.comm ++ 41 :: line.afterComm)) 40 = _ :=
    strchr_append before
  rw [List.append_assoc, List.length_append] at found
  exact found

/-- The closing parenthesis is the last one, for no field after it holds one. -/
theorem strrchr_render :
    strrchr line.render 41 =
      some ((signedDecimal line.fields.pid).length + 2 + line.comm.length) := by
  have after : (41 : UInt8) ∉ line.afterComm :=
    line.not_mem_afterComm (by decide) (by decide) (by decide) line.stateFree.2.symm
      line.tailFree.2
  have found := strrchr_append (s := signedDecimal line.fields.pid ++ 32 :: 40 :: line.comm) after
  rw [List.append_assoc, List.length_append, List.length_cons, List.length_cons] at found
  rw [render, show (signedDecimal line.fields.pid).length + 2 + line.comm.length =
    (signedDecimal line.fields.pid).length + (line.comm.length + 1 + 1) by omega]
  exact found

theorem parse_render {commSize : Nat} (room : 0 < commSize) :
    parseProcStat line.render commSize =
      (some (line.comm.take (commSize - 1)), some line.fields) := by
  generalize width : (signedDecimal line.fields.pid).length = n
  have opening := line.strchr_render
  have closing := line.strrchr_render
  rw [width] at opening closing
  have ordered : ¬ (n + 2 + line.comm.length < n + 1 ∨ commSize = 0) := by omega
  have inner : (line.render.drop (n + 1 + 1)).take (n + 2 + line.comm.length - (n + 1) - 1) =
      line.comm := by
    have skipped : line.render.drop (n + 1 + 1) = line.comm ++ 41 :: line.afterComm := by
      rw [render, ← width, ← List.drop_drop, ← List.drop_drop, List.drop_left]
      rfl
    rw [skipped, show n + 2 + line.comm.length - (n + 1) - 1 = line.comm.length by omega,
      List.take_left]
  have after : line.render.drop (n + 2 + line.comm.length + 1) = line.afterComm := by
    rw [render, ← width, Nat.add_assoc, Nat.add_assoc, ← List.drop_drop, List.drop_left,
      show 2 + (line.comm.length + 1) = line.comm.length + 1 + 2 by omega]
    rw [List.drop_succ_cons, List.drop_succ_cons, ← List.drop_drop, List.drop_left]
    rfl
  simp only [parseProcStat, opening, closing, if_neg ordered, inner, after, parseStatPid_render,
    parseStatFields, sscanf_afterComm]

end StatLine

/-- Parsing undoes the kernel's rendering, for every name; and the name decides
    nothing but itself. -/
theorem parseProcStat_render (line : StatLine) {commSize : Nat} (room : 0 < commSize)
    (junk : Bytes) :
    parseProcStat (cString (line.render ++ 0 :: junk)) commSize =
        (some (line.comm.take (commSize - 1)), some line.fields) ∧
      ∀ (comm : Bytes) (free : 0 ∉ comm),
        (parseProcStat (cString ((line.named comm free).render ++ 0 :: junk)) commSize).2 =
          some line.fields := by
  refine ⟨?_, fun comm free => ?_⟩
  · rw [line.cString_render, line.parse_render room]
  · rw [(line.named comm free).cString_render, (line.named comm free).parse_render room]
    rfl

/-! A name that closes the parenthesis early and goes on like a line. -/

def exampleLine : StatLine where
  fields := ⟨-7, 83, 1, 2, 3, -4, -5, 10, 12, 14, 15, -18, 19, 20⟩
  comm := text "a) R 1 2 3 (b"
  flags := 4194560
  cminflt := 0
  cmajflt := -1
  cutime := 0
  cstime := 0
  tail := text " 0 99
"
  representable := ⟨by decide, by decide⟩
  stateSolid := by decide
  stateFree := by decide
  commFree := by decide
  tailEnded := by
    intro c first
    cases first
    decide
  tailFree := by decide

theorem parseProcStat_render_example :
    exampleLine.render = text "-7 (a) R 1 2 3 (b) S 1 2 3 -4 -5 4194560 10 0 12 -1 14 15 0 0 " ++
        text "-18 19 20 0 99\n" ∧
      parseProcStat (cString (exampleLine.render ++ 0 :: text "(old) R")) 5 =
        (some (text "a) R"), some exampleLine.fields) :=
  ⟨by decide +kernel, (parseProcStat_render exampleLine (by decide) (text "(old) R")).1⟩

end KernelMonitor
