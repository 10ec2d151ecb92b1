import KernelMonitor.Library.Scanf

/-! # Text helpers and `/proc` parsers

Model of `src/utils/parser.c`. A `const char *` argument is the text up to its NUL.
A parser that writes through its arguments before it fails returns what it wrote.
-/

namespace KernelMonitor

open Library

/-- `km_read_line`: the copied line and the advanced cursor. The cursor skips the
    whole line even when the copy was truncated. -/
def readLine (cursor : Bytes) (outSize : Nat) : Option (Bytes × Bytes) :=
  if outSize = 0 ∨ cursor = [] then none
  else
    let line := cursor.takeWhile (· ≠ 10)
    some (line.take (outSize - 1), cursor.drop (line.length + 1))

theorem readLine_shrinks {cursor : Bytes} {outSize : Nat} {line next : Bytes}
    (read : readLine cursor outSize = some (line, next)) : next.length < cursor.length := by
  unfold readLine at read
  split at read
  · cases read
  · rename_i nonempty
    have some : cursor ≠ [] := fun empty => nonempty (.inr empty)
    have positive : 0 < cursor.length := List.length_pos_iff.mpr some
    simp only [Option.some.injEq, Prod.mk.injEq] at read
    rw [← read.2, List.length_drop]
    omega

/-- The lines a `while (km_read_line(...))` loop goes through. -/
def readLines (cursor : Bytes) (outSize : Nat) : List Bytes :=
  match _read : readLine cursor outSize with
  | none => []
  | some (line, next) => line :: readLines next outSize
termination_by cursor.length
decreasing_by exact readLine_shrinks _read

def isSpaceChar (c : UInt8) : Bool := c == 32 || c == 9 || c == 10 || c == 13

/-- `km_trim` -/
def trim (s : Bytes) : Bytes := (s.dropWhile isSpaceChar).rdropWhile isSpaceChar

/-- `km_parse_key_value` -/
def parseKeyValue (line : Bytes) : Option (Bytes × Bytes) :=
  (strchr line 58).map fun colon => (trim (line.take colon), trim (line.drop (colon + 1)))

structure Timespec where
  sec : Int
  nsec : Int
  deriving DecidableEq, Repr

/-- `km_clock_diff_seconds`, exact. -/
def clockDiffSeconds (start finish : Timespec) : ℚ :=
  ((finish.sec - start.sec : Int) : ℚ) + ((finish.nsec - start.nsec : Int) : ℚ) / 1000000000

/-- `km_clock_diff_ms`, with C's division. -/
def clockDiffMs (start finish : Timespec) : Int :=
  (finish.sec - start.sec) * 1000 + (finish.nsec - start.nsec).tdiv 1000000

/-! ## /proc/stat -/

structure CpuTimes where
  user : UInt64
  nice : UInt64
  system : UInt64
  idle : UInt64
  iowait : UInt64
  irq : UInt64
  softirq : UInt64
  deriving DecidableEq, Repr

def cpuLineFormat : List Directive :=
  [.assign (.str (some 31)),
   .space, .assign .ulong, .space, .assign .ulong, .space, .assign .ulong,
   .space, .assign .ulong, .space, .assign .ulong, .space, .assign .ulong,
   .space, .assign .ulong]

/-- `km_parse_cpu_line`. The caller's counters are read only after a success. -/
def parseCpuLine (line : Bytes) : Option CpuTimes :=
  match sscanf cpuLineFormat line with
  | [.str label, .unsigned user, .unsigned nice, .unsigned system, .unsigned idle,
      .unsigned iowait, .unsigned irq, .unsigned softirq] =>
      if label.take 3 = text "cpu" then some ⟨user, nice, system, idle, iowait, irq, softirq⟩
      else none
  | _ => none

/-! ## /proc/meminfo -/

structure Meminfo where
  memTotal : UInt64
  memFree : UInt64
  memAvailable : UInt64
  buffers : UInt64
  cached : UInt64
  swapTotal : UInt64
  swapFree : UInt64
  deriving DecidableEq, Repr

def Meminfo.zero : Meminfo := ⟨0, 0, 0, 0, 0, 0, 0⟩

def Meminfo.store (out : Meminfo) (key : Bytes) (v : UInt64) : Meminfo :=
  if key = text "MemTotal" then { out with memTotal := v }
  else if key = text "MemFree" then { out with memFree := v }
  else if key = text "MemAvailable" then { out with memAvailable := v }
  else if key = text "Buffers" then { out with buffers := v }
  else if key = text "Cached" then { out with cached := v }
  else if key = text "SwapTotal" then { out with swapTotal := v }
  else if key = text "SwapFree" then { out with swapFree := v }
  else out

/-- One pass of the loop in `km_parse_meminfo`. -/
def Meminfo.readEntry (out : Meminfo) (line : Bytes) : Meminfo :=
  match parseKeyValue line with
  | none => out
  | some (key, value) => out.store key (strtoul value)

/-- `km_parse_meminfo` -/
def parseMeminfo (content : Bytes) : Meminfo :=
  (readLines content 512).foldl Meminfo.readEntry Meminfo.zero

/-! ## /proc/[pid]/stat -/

structure ProcStat where
  pid : Int
  state : UInt8
  ppid : Int
  pgrp : Int
  session : Int
  ttyNr : Int
  tpgid : Int
  minflt : UInt64
  majflt : UInt64
  utime : UInt64
  stime : UInt64
  priority : Int
  nice : Int
  numThreads : Int
  deriving DecidableEq, Repr

def procStatFormat : List Directive :=
  [.space, .assign .char, .space, .assign .int,
   .space, .assign .int, .space, .assign .int, .space, .assign .int, .space, .assign .int,
   .space, .suppress (.str none),
   .space, .assign .ulong, .space, .suppress (.str none), .space, .assign .ulong,
   .space, .suppress (.str none),
   .space, .assign .ulong, .space, .assign .ulong,
   .space, .suppress (.str none), .space, .suppress (.str none),
   .space, .assign .long, .space, .assign .long, .space, .assign .long]

/-- The pid before the parenthesis, zero where there is none. -/
def parseStatPid (content : Bytes) : Int :=
  match sscanf [.assign .int] content with
  | [.int pid] => pid
  | _ => 0

def parseStatFields (pid : Int) (fields : Bytes) : Option ProcStat :=
  match sscanf procStatFormat fields with
  | [.char state, .int ppid, .int pgrp, .int session, .int ttyNr, .int tpgid,
      .unsigned minflt, .unsigned majflt, .unsigned utime, .unsigned stime,
      .int priority, .int nice, .int numThreads] =>
      some { pid, state, ppid, pgrp, session, ttyNr, tpgid, minflt, majflt, utime, stime,
             priority, nice, numThreads }
  | _ => none

/-- `km_parse_proc_stat`: what was written into `comm`, if anything was, and the
    fields when the call succeeds. The fields may fail after `comm` is written. -/
def parseProcStat (content : Bytes) (commSize : Nat) : Option Bytes × Option ProcStat :=
  match strchr content 40, strrchr content 41 with
  | some openParen, some closeParen =>
      if closeParen < openParen ∨ commSize = 0 then (none, none)
      else
        let comm := (content.drop (openParen + 1)).take (closeParen - openParen - 1)
        (some (comm.take (commSize - 1)),
          parseStatFields (parseStatPid content) (content.drop (closeParen + 1)))
  | _, _ => (none, none)

/-! ## The smaller files -/

/-- `km_parse_status_uid`; `none` leaves the caller's value alone. -/
def parseStatusUid (content : Bytes) : Option UInt32 :=
  (readLines content 512).findSome? fun line =>
    match parseKeyValue line with
    | none => none
    | some (key, value) => if key = text "Uid" then some (strtoul value).toUInt32 else none

/-- `km_parse_proc_statm`: size, resident and shared pages. -/
def parseProcStatm (content : Bytes) : Option (UInt64 × UInt64 × UInt64) :=
  match sscanf [.assign .ulong, .space, .assign .ulong, .space, .assign .ulong] content with
  | [.unsigned size, .unsigned resident, .unsigned shared] => some (size, resident, shared)
  | _ => none

/-- `km_parse_uptime`: whether both numbers were there, and the uptime as stored. -/
def parseUptime (numbers : NumberSyntax) (content : Bytes) (uptime : Double) : Bool × Double :=
  match sscanf [.assign (.double numbers), .space, .assign (.double numbers)] content with
  | [.double up, .double _] => (true, up)
  | [.double up] => (false, up)
  | _ => (false, uptime)

structure LoadAverage where
  load1 : Double
  load5 : Double
  load15 : Double
  deriving DecidableEq, Repr

/-- `km_parse_loadavg`: the stores made so far stay when a later number fails. -/
def parseLoadavg (numbers : NumberSyntax) (content : Bytes) (load : LoadAverage) :
    Bool × LoadAverage :=
  match sscanf [.assign (.double numbers), .space, .assign (.double numbers), .space,
      .assign (.double numbers)] content with
  | [.double a, .double b, .double c] => (true, ⟨a, b, c⟩)
  | [.double a, .double b] => (false, { load with load1 := a, load5 := b })
  | [.double a] => (false, { load with load1 := a })
  | _ => (false, load)

end KernelMonitor
