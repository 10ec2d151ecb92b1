import KernelMonitor.Library.CellStore
import KernelMonitor.LineCursor
import KernelMonitor.StatRoundTrip
import KernelMonitor.SignalTargets

/-! # Messages through a named pipe

Model of `writer` and `reader` of `demo/fifo.c`. A writer puts its words together in a buffer
of 256 bytes and writes them at once; the pipe keeps what is written in the order in which
it is written; the reader takes it back line by line.
-/

namespace KernelMonitor

open Library

/-- `sizeof(line)` -/
def fifoLine : Nat := 256

/-! ## The writer -/

/-- What `"%s%s"` makes of a word. -/
def pieceOf (first : Bool) (word : Bytes) : Bytes := (if first then [] else [32]) ++ word

/-- `snprintf(line + used, sizeof(line) - used, "%s%s", ...)`, which counts what it would
    have written. A store outside the buffer has no result. -/
def addWord (line : Bytes) (used : Nat) (first : Bool) (word : Bytes) : Option (Bytes × Nat) := do
  let line ← storeAt line used (snprintf (fifoLine - used) (pieceOf first word) ++ [0])
  pure (line, used + (pieceOf first word).length)

/-- The loop over the words, which ends when the buffer is full. -/
def addWords (line : Bytes) (used : Nat) (first : Bool) : List Bytes → Option (Bytes × Nat)
  | [] => some (line, used)
  | word :: words =>
      if used < fifoLine - 2 then do
        let (line, used) ← addWord line used first word
        addWords line used false words
      else some (line, used)

/-- What `writer` writes for the words of its command line, in a buffer that held `junk`. -/
def writerMessage (junk : Bytes) (words : List Bytes) : Option Bytes := do
  let line ← storeAt junk 0 [0]
  let (line, used) ← addWords line 0 true words
  let used := if used > fifoLine - 2 then fifoLine - 2 else used
  let line ← storeAt line used [10]
  let line ← storeAt line (used + 1) [0]
  pure (line.take (used + 1))

/-- The `i`th message of a writer without words. -/
def numberedMessage (i pid : Int) : Bytes :=
  snprintf fifoLine
    (text "message " ++ signedDecimal i ++ text " from pid " ++ signedDecimal pid ++ [10])

/-- One call of `write`: the words of a command line in a buffer that held `junk`, or a
    numbered message. -/
inductive FifoWrite where
  | words (junk : Bytes) (words : List Bytes)
  | numbered (i pid : Int)
  deriving DecidableEq, Repr

def FifoWrite.bytes : FifoWrite → Option Bytes
  | .words junk given => writerMessage junk given
  | .numbered i pid => some (numberedMessage i pid)

/-! ## The reader -/

section Reader

variable {line rest : Bytes}

end Reader

/-! ## What the writer has in its buffer -/

/-- What a message says. -/
def FifoWrite.text : FifoWrite → Bytes
  | .words _ given => ([32].intercalate given).take (fifoLine - 2)
  | .numbered i pid =>
      Library.text "message " ++ signedDecimal i ++ Library.text " from pid " ++ signedDecimal pid

end KernelMonitor
