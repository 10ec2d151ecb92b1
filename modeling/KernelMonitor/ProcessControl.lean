import KernelMonitor.Library.CText

/-! # Sending signals

Model of `src/signals/process_control.c`. A call of `kill()` is part of the result, so
that a run shows which calls were made.
-/

namespace KernelMonitor

open Library

def signalMsgMax : Nat := 128

/-- The signals the program sends, numbered as on Linux. -/
inductive Signal where
  | sigKill
  | sigTerm
  | sigCont
  | sigStop
  deriving DecidableEq, Repr

def Signal.number : Signal → Int
  | .sigKill => 9
  | .sigTerm => 15
  | .sigCont => 18
  | .sigStop => 19

/-- Why `kill()` failed; `other` carries the text of `strerror`. -/
inductive Errno where
  | einval
  | eperm
  | esrch
  | other (strerror : Bytes)
  deriving DecidableEq, Repr

/-- One call `kill(pid, signal)`. -/
structure KillCall where
  pid : Int
  signal : Signal
  deriving DecidableEq, Repr

/-- `km_signal_result` -/
structure SignalResult where
  success : Bool
  pid : Int
  signal : Signal
  errorMessage : Bytes
  deriving DecidableEq, Repr

/-- The call `km_send_signal` makes: none for a PID that would name a group. -/
def killCall (pid : Int) (signal : Signal) : Option KillCall :=
  if pid ≤ 0 then none else some ⟨pid, signal⟩

def Errno.message : Errno → Bytes
  | .einval => text "Invalid signal"
  | .eperm => text "Permission denied (insufficient privileges)"
  | .esrch => text "Process does not exist"
  | .other strerror => text "Error: " ++ strerror

/-- `km_send_signal`, from what `kill()` answers where it is called. -/
def sendSignal (pid : Int) (signal : Signal) (answer : Except Errno Unit) : SignalResult :=
  match killCall pid signal with
  | none => ⟨false, pid, signal, snprintf signalMsgMax (text "Invalid PID")⟩
  | some _ =>
      match answer with
      | .ok () => ⟨true, pid, signal, snprintf signalMsgMax (text "Signal sent successfully")⟩
      | .error errno => ⟨false, pid, signal, snprintf signalMsgMax errno.message⟩

/-- `km_terminate_process`, `km_kill_process` and `km_stop_process`, the actions that
    ask first. -/
inductive Action where
  | terminate
  | kill
  | stop
  deriving DecidableEq, Repr

def Action.signal : Action → Signal
  | .terminate => .sigTerm
  | .kill => .sigKill
  | .stop => .sigStop

theorem killCall_pos {pid : Int} {signal : Signal} {call : KillCall}
    (made : killCall pid signal = some call) : 0 < pid ∧ call = ⟨pid, signal⟩ := by
  unfold killCall at made
  split at made
  · cases made
  · exact ⟨by omega, (Option.some.inj made).symm⟩

end KernelMonitor
