import KernelMonitor.Library.ThreadPool

/-! # Two commands joined by a pipe

Model of `demo/pipeline.c`: the shell and its two children, each with its own copies of the
pipe's descriptors, and the kernel's buffer between them. The commands are the text that the
first writes and how much of its input the second reads. `closes` says whether the shell
closes its copies before it waits, as the source does.
-/

namespace KernelMonitor

open Library

/-- How a child comes to its end. -/
inductive Ending where
  /-- `_exit(127)` after `execvp` has failed. -/
  | execFailed
  /-- The command's own exit. -/
  | finished
  /-- SIGPIPE -/
  | brokenPipe
  deriving DecidableEq, Repr

/-- Where a child is: the call it makes next, up to `execvp`, and then the command. -/
inductive ChildPoint where
  | unborn
  | setpgid
  | dup2
  | closeRead
  | closeWrite
  | execvp
  | running
  | zombie (ending : Ending)
  | reaped (ending : Ending)
  deriving DecidableEq, Repr

/-- The call that the shell makes next. -/
inductive ShellPoint where
  | pipe
  | forkFirst
  | groupFirst
  | forkSecond
  | groupSecond
  | closeRead
  | closeWrite
  | waitFirst
  | waitSecond
  | failed
  | done
  deriving DecidableEq, Repr

/-- A child, with what it has open of the pipe: `fds[0]`, `fds[1]`, and the copy that `dup2`
    has put on its standard input or output. -/
structure Child where
  point : ChildPoint
  fds0 : Bool
  fds1 : Bool
  copy : Bool
  /-- It is in the group of the first child. -/
  grouped : Bool
  deriving DecidableEq, Repr

namespace Child

def unborn : Child := ⟨.unborn, false, false, false, false⟩

/-- The end of a process closes what it has open. -/
def dies (c : Child) (ending : Ending) : Child :=
  { c with point := .zombie ending, fds0 := false, fds1 := false, copy := false }

/-- It can still be moved to a group by its parent, and is in one while it is not reaped. -/
def beforeExec (c : Child) : Bool :=
  match c.point with
  | .setpgid | .dup2 | .closeRead | .closeWrite | .execvp => true
  | _ => false

def present (c : Child) : Bool :=
  match c.point with
  | .unborn | .reaped _ => false
  | _ => true

end Child

/-- What a child does before it is a command, with the end that `dup2` copies and whether
    the group that it asks for can be joined. -/
inductive ChildStep (copied : Child → Bool) (joinable : Bool) : Child → Child → Prop where
  | setpgid {c : Child} (there : c.point = .setpgid) :
      ChildStep copied joinable c { c with point := .dup2, grouped := c.grouped || joinable }
  | dup2 {c : Child} (there : c.point = .dup2) :
      ChildStep copied joinable c { c with point := .closeRead, copy := copied c }
  | closeRead {c : Child} (there : c.point = .closeRead) :
      ChildStep copied joinable c { c with point := .closeWrite, fds0 := false }
  | closeWrite {c : Child} (there : c.point = .closeWrite) :
      ChildStep copied joinable c { c with point := .execvp, fds1 := false }
  | execvp {c : Child} (there : c.point = .execvp) :
      ChildStep copied joinable c { c with point := .running }
  | execFails {c : Child} (there : c.point = .execvp) :
      ChildStep copied joinable c (c.dies .execFailed)

/-- The shell with its `fds`, the children, the pipe, and what is on either side of it. -/
structure Pipeline (α : Type*) where
  shell : ShellPoint
  fds0 : Bool
  fds1 : Bool
  left : Child
  right : Child
  unwritten : List α
  pipe : List α
  got : List α
  sawEnd : Bool

/-- The text that the first command writes, and how much the second one reads before it
    exits, where it does not read to the end of its input. -/
structure Commands (α : Type*) where
  output : List α
  wanted : Option ℕ
  capacity : ℕ

namespace Pipeline

variable {α : Type*}

def start (cmd : Commands α) : Pipeline α :=
  ⟨.pipe, false, false, .unborn, .unborn, cmd.output, [], [], false⟩

/-- Somebody has the read end open. -/
def readers (s : Pipeline α) : Bool := s.fds0 || s.left.fds0 || s.right.fds0 || s.right.copy

def writers (s : Pipeline α) : Bool := s.fds1 || s.left.fds1 || s.left.copy || s.right.fds1

/-- Somebody who is not reaped is in the group of the first child. -/
def groupExists (s : Pipeline α) : Bool :=
  s.left.present && s.left.grouped || s.right.present && s.right.grouped

/-- A child of the shell has its descriptors and its group. -/
def forked (s : Pipeline α) : Child := ⟨.setpgid, s.fds0, s.fds1, false, false⟩

def returns (s : Pipeline α) (there : ShellPoint) : Pipeline α :=
  { s with shell := there, fds0 := false, fds1 := false }

/-- The second command has read as much as it wants. -/
def Enough (cmd : Commands α) (s : Pipeline α) : Prop :=
  s.sawEnd = true ∨ ∃ n, cmd.wanted = some n ∧ n ≤ s.got.length

end Pipeline

inductive PipelineLabel (α : Type*) where
  | shell
  | left
  | right
  | write (chunk : List α)
  | sigpipe
  | leftExits
  | read (chunk : List α)
  | readEnd
  | rightExits
  deriving DecidableEq, Repr

inductive PipelineStep {α : Type*} (cmd : Commands α) (closes : Bool) :
    Pipeline α → PipelineLabel α → Pipeline α → Prop where
  | pipe {s : Pipeline α} (there : s.shell = .pipe) :
      PipelineStep cmd closes s .shell { s with shell := .forkFirst, fds0 := true, fds1 := true }
  | pipeFails {s : Pipeline α} (there : s.shell = .pipe) :
      PipelineStep cmd closes s .shell (s.returns .failed)
  | forkFirst {s : Pipeline α} (there : s.shell = .forkFirst) :
      PipelineStep cmd closes s .shell { s with shell := .groupFirst, left := s.forked }
  | forkFails {s : Pipeline α} (there : s.shell = .forkFirst ∨ s.shell = .forkSecond) :
      PipelineStep cmd closes s .shell (s.returns .failed)
  /-- `setpgid` moves no child that has called `execvp`. -/
  | groupFirst {s : Pipeline α} (there : s.shell = .groupFirst) :
      PipelineStep cmd closes s .shell { s with
        shell := .forkSecond
        left := { s.left with grouped := s.left.grouped || s.left.beforeExec } }
  | forkSecond {s : Pipeline α} (there : s.shell = .forkSecond) :
      PipelineStep cmd closes s .shell { s with shell := .groupSecond, right := s.forked }
  | groupSecond {s : Pipeline α} (there : s.shell = .groupSecond) :
      PipelineStep cmd closes s .shell { s with
        shell := .closeRead
        right := { s.right with
          grouped := s.right.grouped || s.right.beforeExec && s.groupExists } }
  | closeRead {s : Pipeline α} (there : s.shell = .closeRead) :
      PipelineStep cmd closes s .shell { s with shell := .closeWrite, fds0 := !closes }
  | closeWrite {s : Pipeline α} (there : s.shell = .closeWrite) :
      PipelineStep cmd closes s .shell { s with shell := .waitFirst, fds1 := !closes }
  | waitFirst {s : Pipeline α} {ending : Ending} (there : s.shell = .waitFirst)
      (ended : s.left.point = .zombie ending) :
      PipelineStep cmd closes s .shell
        { s with shell := .waitSecond, left := { s.left with point := .reaped ending } }
  | waitSecond {s : Pipeline α} {ending : Ending} (there : s.shell = .waitSecond)
      (ended : s.right.point = .zombie ending) :
      PipelineStep cmd closes s .shell
        ({ s with right := { s.right with point := .reaped ending } }.returns .done)
  | left {s : Pipeline α} {next : Child} (step : ChildStep Child.fds1 true s.left next) :
      PipelineStep cmd closes s .left { s with left := next }
  | right {s : Pipeline α} {next : Child}
      (step : ChildStep Child.fds0 s.groupExists s.right next) :
      PipelineStep cmd closes s .right { s with right := next }
  /-- `write` takes some of the text, as far as there is room. -/
  | write {s : Pipeline α} {chunk rest : List α} (there : s.left.point = .running)
      (some : chunk ≠ []) (text : s.unwritten = chunk ++ rest) (open_ : s.readers = true)
      (room : (s.pipe ++ chunk).length ≤ cmd.capacity) :
      PipelineStep cmd closes s (.write chunk)
        { s with unwritten := rest, pipe := s.pipe ++ chunk }
  | sigpipe {s : Pipeline α} (there : s.left.point = .running) (more : s.unwritten ≠ [])
      (closed : s.readers = false) :
      PipelineStep cmd closes s .sigpipe { s with left := s.left.dies .brokenPipe }
  | leftExits {s : Pipeline α} (there : s.left.point = .running) (no_more : s.unwritten = []) :
      PipelineStep cmd closes s .leftExits { s with left := s.left.dies .finished }
  | read {s : Pipeline α} {chunk rest : List α} (there : s.right.point = .running)
      (wants : ¬ s.Enough cmd) (some : chunk ≠ []) (text : s.pipe = chunk ++ rest) :
      PipelineStep cmd closes s (.read chunk) { s with pipe := rest, got := s.got ++ chunk }
  /-- `read` gives 0 bytes. -/
  | readEnd {s : Pipeline α} (there : s.right.point = .running) (wants : ¬ s.Enough cmd)
      (none : s.pipe = []) (closed : s.writers = false) :
      PipelineStep cmd closes s .readEnd { s with sawEnd := true }
  | rightExits {s : Pipeline α} (there : s.right.point = .running) (enough : s.Enough cmd) :
      PipelineStep cmd closes s .rightExits { s with right := s.right.dies .finished }

/-- `main` with its children. -/
def pipelineSystem {α : Type*} (cmd : Commands α) (closes : Bool) :
    LabelledSystem (Pipeline α) (PipelineLabel α) where
  Init s := s = .start cmd
  Step := PipelineStep cmd closes

/-! ## What is open where -/

/-- What of the pipe a child has open: `fds[0]`, `fds[1]` and the copy. -/
def ChildPoint.fds : ChildPoint → Bool × Bool × Bool
  | .setpgid | .dup2 => (true, true, false)
  | .closeRead => (true, true, true)
  | .closeWrite => (false, true, true)
  | .execvp | .running => (false, false, true)
  | .unborn | .zombie _ | .reaped _ => (false, false, false)

def ShellPoint.fds (closes : Bool) : ShellPoint → Bool × Bool
  | .pipe | .failed | .done => (false, false)
  | .closeWrite => (!closes, true)
  | .waitFirst | .waitSecond => (!closes, !closes)
  | .forkFirst | .groupFirst | .forkSecond | .groupSecond | .closeRead => (true, true)

def Child.Opened (c : Child) : Prop := (c.fds0, c.fds1, c.copy) = c.point.fds

/-- What the child has done before it is a command. -/
def ChildPoint.ran : ChildPoint → Bool
  | .running | .zombie .finished | .zombie .brokenPipe | .reaped .finished
  | .reaped .brokenPipe => true
  | _ => false

def ChildPoint.ending? : ChildPoint → Option Ending
  | .zombie ending | .reaped ending => some ending
  | _ => none

/-- It has made its own call of `setpgid`. -/
def ChildPoint.begun : ChildPoint → Bool
  | .unborn | .setpgid => false
  | _ => true

section

variable {α : Type*} {cmd : Commands α} {closes : Bool}

structure ChildStep.Spec (joinable : Bool) (c next : Child) : Prop where
  before : c.present = true ∧ c.point.ran = false ∧ c.point.ending? = none
  after : next.present = true ∧ next.point ≠ .setpgid
  opened : c.Opened → next.Opened
  grouped : (c.point.begun = true → c.grouped = true) → joinable = true → next.grouped = true
  kept : c.grouped = true → next.grouped = true
  failed : next.point.ending? = none ∨ next.point.ending? = some .execFailed

theorem ChildStep.spec {copied : Child → Bool} {joinable : Bool} {c next : Child}
    (copies : ∀ c : Child, c.fds0 = true → c.fds1 = true → copied c = true)
    (step : ChildStep copied joinable c next) : ChildStep.Spec joinable c next := by
  obtain ⟨point, fds0, fds1, copy, grouped⟩ := c
  cases step with
  | setpgid there | dup2 there | closeRead there | closeWrite there | execvp there
  | execFails there =>
      simp only at there
      subst there
      constructor <;> simp_all [Child.present, ChildPoint.ran, ChildPoint.ending?, Child.Opened,
        ChildPoint.fds, ChildPoint.begun, Child.dies]

/-! ## Who is there -/

def ChildPoint.isReaped : ChildPoint → Bool
  | .reaped _ => true
  | _ => false

/-- How far the children are when the shell is at a call. -/
def Pipeline.InOrder (s : Pipeline α) : Prop :=
  match s.shell with
  | .pipe | .forkFirst => s.left.point = .unborn ∧ s.right.point = .unborn
  | .groupFirst | .forkSecond => s.left.present = true ∧ s.right.point = .unborn
  | .groupSecond | .closeRead | .closeWrite | .waitFirst =>
      s.left.present = true ∧ s.right.present = true
  | .waitSecond => s.left.point.isReaped = true ∧ s.right.present = true
  | .failed => (s.left.point = .unborn ∨ s.left.present = true) ∧ s.right.point = .unborn
  | .done => s.left.point.isReaped = true ∧ s.right.point.isReaped = true

structure Pipeline.Opened (closes : Bool) (s : Pipeline α) : Prop where
  shell : (s.fds0, s.fds1) = s.shell.fds closes
  left : s.left.Opened
  right : s.right.Opened

theorem Child.present_iff {c : Child} :
    c.present = true ↔ c.point ≠ .unborn ∧ c.point.isReaped = false := by
  cases there : c.point <;> simp [present, there, ChildPoint.isReaped]

theorem PipelineStep.opened {s t : Pipeline α} {label : PipelineLabel α}
    (step : PipelineStep cmd closes s label t) (opened : s.Opened closes) : t.Opened closes := by
  obtain ⟨shell, left, right⟩ := opened
  cases step with
  | left step => exact ⟨shell, (step.spec fun _ _ second => second).opened left, right⟩
  | right step => exact ⟨shell, left, (step.spec fun _ first _ => first).opened right⟩
  | pipe there | forkFirst there | forkSecond there | groupFirst there | groupSecond there
  | closeRead there | closeWrite there =>
      rw [there] at shell
      simp only [ShellPoint.fds, Prod.mk.injEq] at shell
      constructor <;> simp_all [ShellPoint.fds, Child.Opened, Pipeline.forked, ChildPoint.fds]
  | pipeFails | forkFails => exact ⟨rfl, left, right⟩
  | waitFirst there ended =>
      rw [there] at shell
      refine ⟨shell, ?_, right⟩
      unfold Child.Opened at left ⊢
      rw [ended] at left
      exact left
  | waitSecond there ended =>
      refine ⟨rfl, left, ?_⟩
      unfold Child.Opened at right
      rw [ended] at right
      exact right
  | write | read | readEnd => exact ⟨shell, left, right⟩
  | sigpipe | leftExits => exact ⟨shell, rfl, right⟩
  | rightExits => exact ⟨shell, left, rfl⟩

theorem PipelineStep.inOrder {s t : Pipeline α} {label : PipelineLabel α}
    (step : PipelineStep cmd closes s label t) (order : s.InOrder) : t.InOrder := by
  unfold Pipeline.InOrder at order ⊢
  cases step with
  | left step =>
      obtain ⟨⟨present, _⟩, after, _⟩ := step.spec fun _ _ second => second
      obtain ⟨born, out⟩ := Child.present_iff.mp present
      cases there : s.shell <;> simp_all
  | right step =>
      obtain ⟨⟨present, _⟩, after, _⟩ := step.spec fun _ first _ => first
      obtain ⟨born, out⟩ := Child.present_iff.mp present
      cases there : s.shell <;> simp_all
  | pipe there | pipeFails there | forkFirst there | forkSecond there | groupFirst there
  | groupSecond there | closeRead there | closeWrite there =>
      rw [there] at order
      simp_all [Pipeline.forked, Child.present, Pipeline.returns]
  | forkFails there =>
      rcases there with there | there <;> rw [there] at order <;>
        simp_all [Pipeline.returns]
  | waitFirst there ended | waitSecond there ended =>
      rw [there] at order
      simp_all [ChildPoint.isReaped, Pipeline.returns, Child.present]
  | write | read | readEnd => exact order
  | sigpipe there | leftExits there | rightExits there =>
      cases at_ : s.shell <;> simp_all [Child.dies, Child.present, ChildPoint.isReaped]

/-! ## One group -/

def ShellPoint.madeGroup : ShellPoint → Bool
  | .pipe | .forkFirst | .groupFirst | .failed => false
  | _ => true

def ShellPoint.filledGroup : ShellPoint → Bool
  | .closeRead | .closeWrite | .waitFirst | .waitSecond | .done => true
  | _ => false

structure Pipeline.Grouped (s : Pipeline α) : Prop where
  left : s.left.point.begun = true → s.left.grouped = true
  right : s.right.point.begun = true → s.right.grouped = true
  made : s.shell.madeGroup = true → s.left.grouped = true
  filled : s.shell.filledGroup = true → s.right.grouped = true

/-- The group is there for the second child to join, also when the first one has ended. -/
theorem Pipeline.Grouped.exists {s : Pipeline α} (grouped : s.Grouped) (order : s.InOrder)
    (present : s.right.present = true) : s.groupExists = true := by
  obtain ⟨born, out⟩ := Child.present_iff.mp present
  have made := grouped.made
  have filled := grouped.filled
  unfold InOrder at order
  unfold groupExists
  cases there : s.shell <;>
    simp_all [ShellPoint.madeGroup, ShellPoint.filledGroup]

theorem Child.grouped_or_beforeExec (c : Child) (there : c.present = true)
    (own : c.point.begun = true → c.grouped = true) :
    c.beforeExec = true ∨ c.grouped = true := by
  unfold present at there
  cases here : c.point <;> simp_all [beforeExec, ChildPoint.begun]

theorem PipelineStep.grouped {s t : Pipeline α} {label : PipelineLabel α}
    (step : PipelineStep cmd closes s label t) (order : s.InOrder) (grouped : s.Grouped) :
    t.Grouped := by
  have joinable := grouped.exists order
  obtain ⟨left, right, made, filled⟩ := grouped
  unfold Pipeline.InOrder at order
  cases step with
  | left step =>
      have spec := step.spec fun _ _ second => second
      exact ⟨fun _ => spec.grouped left rfl, right, fun past => spec.kept (made past), filled⟩
  | right step =>
      have spec := step.spec fun _ first _ => first
      exact ⟨left, fun _ => spec.grouped right (joinable spec.before.1), made,
        fun past => spec.kept (filled past)⟩
  | pipe there | pipeFails there | forkFirst there | forkSecond there | closeRead there
  | closeWrite there =>
      rw [there] at order made filled
      constructor <;> simp_all [Pipeline.forked, ChildPoint.begun, Pipeline.returns,
        ShellPoint.madeGroup, ShellPoint.filledGroup]
  | forkFails there =>
      refine ⟨left, right, fun past => ?_, fun past => ?_⟩ <;> cases past
  | groupFirst there =>
      rw [there] at order made filled
      have moved : (s.left.grouped || s.left.beforeExec) = true := by
        rw [Bool.or_eq_true]
        exact (s.left.grouped_or_beforeExec order.1 left).symm
      exact ⟨fun _ => moved, right, fun _ => moved, fun past => by cases past⟩
  | groupSecond there =>
      rw [there] at order made filled
      have moved : (s.right.grouped || s.right.beforeExec && s.groupExists) = true := by
        rw [joinable order.2, Bool.and_true, Bool.or_eq_true]
        exact (s.right.grouped_or_beforeExec order.2 right).symm
      exact ⟨left, fun _ => moved, fun _ => made rfl, fun _ => moved⟩
  | waitFirst there ended | waitSecond there ended =>
      rw [there] at order made filled
      constructor <;> simp_all [ChildPoint.begun, Pipeline.returns, ShellPoint.madeGroup,
        ShellPoint.filledGroup]
  | write | read | readEnd => exact ⟨left, right, made, filled⟩
  | sigpipe there | leftExits there | rightExits there =>
      constructor <;> simp_all [Child.dies, ChildPoint.begun]

/-! ## What is carried from one command to the other -/

structure Pipeline.Carried (cmd : Commands α) (s : Pipeline α) : Prop where
  kept : cmd.output = s.got ++ s.pipe ++ s.unwritten
  fresh : s.left.point.ran = false → s.unwritten = cmd.output
  spent : s.left.point.ending? = some .finished → s.unwritten = []
  ended : s.sawEnd = true →
    (∃ ending, s.left.point.ending? = some ending ∧ ending ≠ .brokenPipe) ∧ s.pipe = []
  unread : s.right.point.ran = false → s.sawEnd = false ∧ s.got = []
  enough : s.right.point.ending? = some .finished → s.Enough cmd
  broken : s.left.point.ending? = some .brokenPipe →
    s.shell = .failed ∨ s.right.point.ending?.isSome = true
  whole : s.right.point.ending? ≠ some .brokenPipe

/-- The second command sees the end of its input only when the first child has ended and the
    shell has closed its copy. -/
theorem Pipeline.Opened.no_writer {s : Pipeline α} (opened : s.Opened closes)
    (order : s.InOrder) (closed : s.writers = false) (running : s.right.point = .running) :
    s.left.point.ending?.isSome = true ∧ closes = true := by
  obtain ⟨shell, left, _⟩ := opened
  have present : s.right.present = true := by simp [Child.present, running]
  unfold InOrder at order
  simp only [writers, Bool.or_eq_false_iff] at closed
  obtain ⟨⟨⟨own, first⟩, copy⟩, _⟩ := closed
  have ended : s.left.point = .unborn ∨ s.left.point.ending?.isSome = true := by
    unfold Child.Opened at left
    cases there : s.left.point <;> simp_all [ChildPoint.fds, ChildPoint.ending?]
  have born : s.left.point ≠ .unborn := by
    intro unborn
    have absent : s.left.present = false := by simp [Child.present, unborn]
    cases there : s.shell <;> simp_all [ChildPoint.isReaped]
  refine ⟨ended.resolve_left born, ?_⟩
  cases there : s.shell <;> simp_all [ShellPoint.fds, ChildPoint.isReaped]

/-- SIGPIPE comes only when there is no second child any more, or none has been made. -/
theorem Pipeline.Opened.no_reader {s : Pipeline α} (opened : s.Opened closes)
    (order : s.InOrder) (closed : s.readers = false) (running : s.left.point = .running) :
    s.shell = .failed ∨ s.right.point.ending?.isSome = true := by
  obtain ⟨shell, _, right⟩ := opened
  have present : s.left.present = true := by simp [Child.present, running]
  unfold InOrder at order
  simp only [readers, Bool.or_eq_false_iff] at closed
  obtain ⟨⟨⟨own, _⟩, second⟩, copy⟩ := closed
  have ended : s.right.point = .unborn ∨ s.right.point.ending?.isSome = true := by
    unfold Child.Opened at right
    cases there : s.right.point <;> simp_all [ChildPoint.fds, ChildPoint.ending?]
  refine ended.imp_left fun unborn => ?_
  have absent : s.right.present = false := by simp [Child.present, unborn]
  cases there : s.shell <;> simp_all [ShellPoint.fds, ChildPoint.isReaped]

theorem PipelineStep.carried {s t : Pipeline α} {label : PipelineLabel α}
    (step : PipelineStep cmd closes s label t) (opened : s.Opened closes) (order : s.InOrder)
    (carried : s.Carried cmd) : t.Carried cmd := by
  have noWriter := opened.no_writer order
  have noReader := opened.no_reader order
  obtain ⟨kept, fresh, spent, ended, unread, enough, broken, whole⟩ := carried
  unfold Pipeline.InOrder at order
  cases step with
  | left step =>
      obtain ⟨⟨_, notRan, none⟩, _, _, _, _, failed⟩ := step.spec fun _ _ second => second
      refine ⟨kept, fun _ => fresh notRan, fun finished => ?_, fun saw => ?_, unread, enough,
        fun sigpipe => ?_, whole⟩
      · rcases failed with same | same <;> rw [finished] at same <;> cases same
      · obtain ⟨_, left, _⟩ := (ended saw).1
        rw [none] at left
        cases left
      · rcases failed with same | same <;> rw [sigpipe] at same <;> cases same
  | right step =>
      obtain ⟨⟨_, notRan, none⟩, _, _, _, _, failed⟩ := step.spec fun _ first _ => first
      refine ⟨kept, fresh, spent, ended, fun _ => unread notRan, fun finished => ?_,
        fun sigpipe => ?_, fun sigpipe => ?_⟩
      · rcases failed with same | same <;> rw [finished] at same <;> cases same
      · refine (broken sigpipe).imp_right fun gone => ?_
        rw [none] at gone
        cases gone
      · rcases failed with same | same <;> rw [sigpipe] at same <;> cases same
  | pipe there | pipeFails there | closeRead there | closeWrite there | groupFirst there
  | groupSecond there =>
      exact ⟨kept, fresh, spent, ended, unread, enough, fun sigpipe => by
        simp_all [Pipeline.returns], whole⟩
  | forkFails there =>
      exact ⟨kept, fresh, spent, ended, unread, enough, fun _ => .inl rfl, whole⟩
  | forkFirst there =>
      rw [there] at order
      obtain ⟨left, _⟩ := order
      rw [left] at fresh ended
      refine ⟨kept, fun _ => fresh rfl, fun finished => (by cases finished), fun saw => ?_, unread,
        enough, fun sigpipe => (by cases sigpipe), whole⟩
      obtain ⟨_, ⟨⟩, _⟩ := (ended saw).1
  | forkSecond there =>
      rw [there] at order broken
      obtain ⟨_, right⟩ := order
      rw [right] at unread broken
      refine ⟨kept, fresh, spent, ended, fun _ => unread rfl, fun finished => (by cases finished),
        fun sigpipe => ?_, fun sigpipe => (by cases sigpipe)⟩
      rcases broken sigpipe with failed | gone
      · cases failed
      · cases gone
  | waitFirst there zombie =>
      rename_i ending
      rw [zombie] at fresh spent ended broken
      refine ⟨kept, fun notRan => fresh ?_, spent, ended, unread, enough, fun sigpipe => ?_, whole⟩
      · cases ending <;> exact notRan
      · rw [there] at broken
        exact .inr ((broken sigpipe).resolve_left (by simp))
  | waitSecond there zombie =>
      rename_i ending
      rw [zombie] at unread enough broken whole
      refine ⟨kept, fresh, spent, ended, fun notRan => unread ?_, enough, fun _ => .inr rfl, whole⟩
      cases ending <;> exact notRan
  | write there some text open_ room =>
      rw [there] at fresh spent ended broken
      refine ⟨?_, fun notRan => ?_, fun finished => ?_, fun saw => ?_, unread, enough,
        fun sigpipe => ?_, whole⟩
      · rw [kept, text]
        simp
      · rw [there] at notRan
        cases notRan
      · rw [there] at finished
        cases finished
      · obtain ⟨_, ⟨⟩, _⟩ := (ended saw).1
      · rw [there] at sigpipe
        cases sigpipe
  | sigpipe there more closed =>
      rw [there] at ended
      refine ⟨kept, fun notRan => (by cases notRan), fun finished => (by cases finished),
        fun saw => ?_, unread, enough, fun _ => noReader closed there, whole⟩
      obtain ⟨_, ⟨⟩, _⟩ := (ended saw).1
  | leftExits there noMore =>
      rw [there] at ended
      refine ⟨kept, fun notRan => (by cases notRan), fun _ => noMore, fun saw => ?_, unread, enough,
        fun sigpipe => (by cases sigpipe), whole⟩
      obtain ⟨_, ⟨⟩, _⟩ := (ended saw).1
  | read there wants some text =>
      refine ⟨?_, fresh, spent, fun saw => absurd (.inl saw) wants, fun notRan => ?_,
        fun finished => ?_, broken, whole⟩
      · rw [kept, text]
        simp
      · rw [there] at notRan
        cases notRan
      · rw [there] at finished
        cases finished
  | readEnd there wants none closed =>
      have ended : ∃ ending, s.left.point.ending? = some ending ∧ ending ≠ .brokenPipe := by
        obtain ⟨ending, left⟩ := Option.isSome_iff_exists.mp (noWriter closed there).1
        refine ⟨ending, left, ?_⟩
        rintro rfl
        rcases broken left with failed | gone
        · rw [failed, there] at order
          cases order.2
        · rw [there] at gone
          cases gone
      refine ⟨kept, fresh, spent, fun _ => ⟨ended, none⟩, fun notRan => ?_, fun finished => ?_,
        broken, whole⟩
      · rw [there] at notRan
        cases notRan
      · rw [there] at finished
        cases finished
  | rightExits there enough =>
      refine ⟨kept, fresh, spent, ended, fun notRan => (by cases notRan), fun _ => enough,
        fun _ => .inr rfl, fun sigpipe => (by cases sigpipe)⟩

structure Pipeline.Sane (cmd : Commands α) (closes : Bool) (s : Pipeline α) : Prop where
  opened : s.Opened closes
  order : s.InOrder
  grouped : s.Grouped
  carried : s.Carried cmd

theorem pipeline_sane {s : Pipeline α} (reachable : (pipelineSystem cmd closes).Reachable s) :
    s.Sane cmd closes := by
  refine reachable.invariant ?_ fun s label t step sane => ?_
  · rintro _ rfl
    refine ⟨⟨rfl, rfl, rfl⟩, ⟨rfl, rfl⟩, ?_, ?_⟩
    · constructor <;> (intro past; cases past)
    · refine ⟨rfl, fun _ => rfl, ?_, ?_, fun _ => ⟨rfl, rfl⟩, ?_, ?_, nofun⟩ <;>
        (intro past; cases past)
  · obtain ⟨opened, order, grouped, carried⟩ := sane
    exact ⟨step.opened opened, step.inOrder order, step.grouped order grouped,
      step.carried opened order carried⟩

/-! ## The pipeline comes to its end -/

def ChildPoint.left : ChildPoint → ℕ
  | .setpgid => 7
  | .dup2 => 6
  | .closeRead => 5
  | .closeWrite => 4
  | .execvp => 3
  | .running => 2
  | .zombie _ => 1
  | .unborn | .reaped _ => 0

/-- A fork counts for all that the child has to do. -/
def ShellPoint.left : ShellPoint → ℕ
  | .pipe => 23
  | .forkFirst => 22
  | .groupFirst => 14
  | .forkSecond => 13
  | .groupSecond => 5
  | .closeRead => 4
  | .closeWrite => 3
  | .waitFirst => 2
  | .waitSecond => 1
  | .failed | .done => 0

def Pipeline.left_ (s : Pipeline α) : ℕ :=
  s.shell.left + s.left.point.left + s.right.point.left + 2 * s.unwritten.length +
    s.pipe.length + (!s.sawEnd).toNat

theorem ChildStep.lowers {copied : Child → Bool} {joinable : Bool} {c next : Child}
    (step : ChildStep copied joinable c next) : next.point.left < c.point.left := by
  cases step with
  | setpgid there | dup2 there | closeRead there | closeWrite there | execvp there
  | execFails there =>
      rw [there]
      simp [ChildPoint.left, Child.dies]

theorem PipelineStep.lowers {s t : Pipeline α} {label : PipelineLabel α}
    (step : PipelineStep cmd closes s label t) : t.left_ < s.left_ := by
  unfold Pipeline.left_
  cases step with
  | left step | right step =>
      have lower := step.lowers
      simp only
      omega
  | pipe there | pipeFails there | forkFirst there | forkSecond there | groupFirst there
  | groupSecond there | closeRead there | closeWrite there =>
      rw [there]
      dsimp only [Pipeline.forked, Pipeline.returns]
      generalize s.left.point.left = left
      generalize s.right.point.left = right
      simp only [ShellPoint.left, ChildPoint.left]
      omega
  | forkFails there =>
      have shell : 0 < s.shell.left := by
        rcases there with there | there <;> rw [there] <;> decide
      dsimp only [Pipeline.returns]
      have failed : ShellPoint.left .failed = 0 := rfl
      omega
  | waitFirst there ended =>
      rw [there, ended]
      dsimp only
      generalize s.right.point.left = right
      simp only [ShellPoint.left, ChildPoint.left]
      omega
  | waitSecond there ended =>
      rw [there, ended]
      dsimp only [Pipeline.returns]
      generalize s.left.point.left = left
      simp only [ShellPoint.left, ChildPoint.left]
      omega
  | write there some text open_ room =>
      have shorter := congrArg List.length text
      have positive := List.length_pos_of_ne_nil some
      simp only [List.length_append] at shorter ⊢
      omega
  | read there wants some text =>
      have shorter := congrArg List.length text
      have positive := List.length_pos_of_ne_nil some
      simp only [List.length_append] at shorter ⊢
      omega
  | readEnd there wants none closed =>
      have unseen : s.sawEnd = false := by
        rw [← Bool.not_eq_true]
        exact fun saw => wants (.inl saw)
      simp [unseen]
  | sigpipe there | leftExits there | rightExits there =>
      have exits : ChildPoint.left .running = 2 := rfl
      have ended : ∀ ending, ChildPoint.left (.zombie ending) = 1 := fun _ => rfl
      rw [there]
      dsimp only [Child.dies]
      rw [exits, ended]
      omega

/-- The shell has returned, and no child of it is still at work. -/
def Pipeline.Finished (s : Pipeline α) : Prop :=
  (s.shell = .failed ∨ s.shell = .done) ∧
    (s.left.point = .unborn ∨ s.left.point.ending?.isSome = true) ∧
    (s.right.point = .unborn ∨ s.right.point.ending?.isSome = true)

/-- Some process can go on. -/
def Pipeline.Goes (cmd : Commands α) (closes : Bool) (s : Pipeline α) : Prop :=
  ∃ label next, (pipelineSystem cmd closes).Step s label next

theorem child_goes (copied : Child → Bool) (joinable : Bool) (c : Child) :
    (∃ next, ChildStep copied joinable c next) ∨ c.point = .unborn ∨ c.point = .running ∨
      c.point.ending?.isSome = true := by
  cases there : c.point with
  | setpgid => exact .inl ⟨_, .setpgid there⟩
  | dup2 => exact .inl ⟨_, .dup2 there⟩
  | closeRead => exact .inl ⟨_, .closeRead there⟩
  | closeWrite => exact .inl ⟨_, .closeWrite there⟩
  | execvp => exact .inl ⟨_, .execvp there⟩
  | unborn | running | zombie | reaped => simp [ChildPoint.ending?]

theorem shell_goes (s : Pipeline α) :
    s.Goes cmd closes ∨ s.shell = .waitFirst ∨ s.shell = .waitSecond ∨ s.shell = .failed ∨
      s.shell = .done := by
  cases there : s.shell with
  | pipe => exact .inl ⟨_, _, .pipe there⟩
  | forkFirst => exact .inl ⟨_, _, .forkFirst there⟩
  | groupFirst => exact .inl ⟨_, _, .groupFirst there⟩
  | forkSecond => exact .inl ⟨_, _, .forkSecond there⟩
  | groupSecond => exact .inl ⟨_, _, .groupSecond there⟩
  | closeRead => exact .inl ⟨_, _, .closeRead there⟩
  | closeWrite => exact .inl ⟨_, _, .closeWrite there⟩
  | waitFirst | waitSecond | failed | done => simp

/-- The first command waits only for room, and the second one only for text. -/
theorem writer_goes (room : 0 < cmd.capacity) {s : Pipeline α} (there : s.left.point = .running) :
    s.Goes cmd closes ∨ s.readers = true ∧ s.pipe ≠ [] := by
  cases text : s.unwritten with
  | nil => exact .inl ⟨_, _, .leftExits there text⟩
  | cons first rest =>
      cases open_ : s.readers with
      | false => exact .inl ⟨_, _, .sigpipe there (by simp [text]) open_⟩
      | true =>
          by_cases none : s.pipe = []
          · have fits : (s.pipe ++ [first]).length ≤ cmd.capacity := by
              rw [none]
              exact room
            have split : s.unwritten = [first] ++ rest := text
            exact .inl ⟨_, _, .write there (List.cons_ne_nil first []) split open_ fits⟩
          · exact .inr ⟨rfl, none⟩

theorem reader_goes {s : Pipeline α} (there : s.right.point = .running) :
    s.Goes cmd closes ∨ s.writers = true ∧ s.pipe = [] ∧ ¬ s.Enough cmd := by
  by_cases enough : s.Enough cmd
  · exact .inl ⟨_, _, .rightExits there enough⟩
  · by_cases none : s.pipe = []
    · cases closed : s.writers with
      | false => exact .inl ⟨_, _, .readEnd there enough none closed⟩
      | true => exact .inr ⟨rfl, none, enough⟩
    · have whole : s.pipe = s.pipe ++ [] := (List.append_nil _).symm
      exact .inl ⟨_, _, .read there enough none whole⟩

theorem both_go (room : 0 < cmd.capacity) {s : Pipeline α} (left : s.left.point = .running)
    (right : s.right.point = .running) : s.Goes cmd closes := by
  rcases writer_goes room left with goes | ⟨_, some⟩
  · exact goes
  · rcases reader_goes right with goes | ⟨_, none, _⟩
    · exact goes
    · exact absurd none some

theorem Child.Opened.ended {c : Child} (opened : c.Opened)
    (ended : c.point = .unborn ∨ c.point.ending?.isSome = true) :
    c.fds0 = false ∧ c.fds1 = false ∧ c.copy = false := by
  unfold Opened at opened
  cases there : c.point <;> simp_all [ChildPoint.fds, ChildPoint.ending?]

theorem Child.Opened.running {c : Child} (opened : c.Opened) (running : c.point = .running) :
    c.fds0 = false ∧ c.fds1 = false := by
  unfold Opened at opened
  rw [running] at opened
  simp_all [ChildPoint.fds]

/-- With the shell's copies closed the pipeline can go on until everything is over. -/
theorem pipeline_goes (room : 0 < cmd.capacity) {s : Pipeline α} (sane : s.Sane cmd true) :
    s.Goes cmd true ∨ s.Finished := by
  by_contra! stuck
  obtain ⟨still, unfinished⟩ := stuck
  obtain ⟨⟨shell, left, right⟩, order, _, _⟩ := sane
  have waits := (shell_goes s).resolve_left still
  have closed : s.fds0 = false ∧ s.fds1 = false := by
    rcases waits with there | there | there | there <;> rw [there] at shell <;>
      simpa [ShellPoint.fds] using shell
  have leftRests := (child_goes Child.fds1 true s.left).resolve_left
    fun ⟨_, step⟩ => still ⟨_, _, .left step⟩
  have rightRests := (child_goes Child.fds0 s.groupExists s.right).resolve_left
    fun ⟨_, step⟩ => still ⟨_, _, .right step⟩
  have rightEnded : s.right.point = .unborn ∨ s.right.point.ending?.isSome = true := by
    rcases rightRests with unborn | running | ended
    · exact .inl unborn
    · obtain ⟨writers, _, _⟩ := (reader_goes running).resolve_left still
      have leftEnded : s.left.point = .unborn ∨ s.left.point.ending?.isSome = true := by
        rcases leftRests with unborn | also | ended
        · exact .inl unborn
        · exact absurd (both_go room also running) still
        · exact .inr ended
      simp [Pipeline.writers, closed.2, left.ended leftEnded, right.running running] at writers
    · exact .inr ended
  have leftEnded : s.left.point = .unborn ∨ s.left.point.ending?.isSome = true := by
    rcases leftRests with unborn | running | ended
    · exact .inl unborn
    · obtain ⟨readers, _⟩ := (writer_goes room running).resolve_left still
      simp [Pipeline.readers, closed.1, left.running running, right.ended rightEnded] at readers
    · exact .inr ended
  unfold Pipeline.InOrder at order
  rcases waits with there | there | failed | done
  · rw [there] at order
    cases ended : s.left.point with
    | zombie => exact still ⟨_, _, .waitFirst there ended⟩
    | _ => simp_all [Child.present, ChildPoint.ending?]
  · rw [there] at order
    cases ended : s.right.point with
    | zombie => exact still ⟨_, _, .waitSecond there ended⟩
    | _ => simp_all [Child.present, ChildPoint.ending?]
  · exact unfinished ⟨.inl failed, leftEnded, rightEnded⟩
  · exact unfinished ⟨.inr done, leftEnded, rightEnded⟩

theorem trace_short {trace : List (PipelineLabel α)} {s : Pipeline α}
    (history : (pipelineSystem cmd closes).Trace trace s) :
    trace.length ≤ 24 + 2 * cmd.output.length := by
  obtain ⟨_, rfl, run⟩ := history
  have bounded := run.bounded fun _ _ _ step => PipelineStep.lowers step
  have most : (Pipeline.start cmd).left_ = 24 + 2 * cmd.output.length := by
    simp [Pipeline.left_, Pipeline.start, ShellPoint.left, ChildPoint.left, Child.unborn]
    omega
  omega

/-- In every run both children are in one group, which is there when the second one joins
    it. The second command sees the end of its input only when the first child has ended
    and the pipe is empty. When the shell returns 0 it has waited for both, and a command
    that has read to the end has read all that the other had to write, SIGPIPE having been
    sent only to the writer for one that had enough. Every run is short, and ends with no
    child left at work. -/
theorem pipeline_delivers (room : 0 < cmd.capacity) {trace : List (PipelineLabel α)}
    {s : Pipeline α} (history : (pipelineSystem cmd true).Trace trace s) :
    ((s.left.point.begun = true → s.left.grouped = true) ∧
        (s.right.point.begun = true → s.right.grouped = true) ∧
        (s.right.point = .setpgid → s.groupExists = true)) ∧
      (s.sawEnd = true → s.left.point.ending?.isSome = true ∧ s.pipe = []) ∧
      cmd.output = s.got ++ s.pipe ++ s.unwritten ∧
      (s.shell = .done → ∃ first second,
        s.left.point = .reaped first ∧ s.right.point = .reaped second ∧
        (second = .finished → cmd.wanted = none →
          first = .finished ∧ s.got = cmd.output ∨ first = .execFailed ∧ s.got = []) ∧
        (first = .brokenPipe →
          second = .execFailed ∨ ∃ n, cmd.wanted = some n ∧ n ≤ s.got.length)) ∧
      trace.length ≤ 24 + 2 * cmd.output.length ∧
      (¬ s.Goes cmd true → s.Finished) := by
  have sane := pipeline_sane ⟨trace, history⟩
  have ends := (pipeline_goes room sane).resolve_left
  obtain ⟨_, order, grouped, kept, fresh, spent, ended, _, enough, broken, whole⟩ := sane
  refine ⟨⟨grouped.left, grouped.right, fun there => grouped.exists order ?_⟩, fun saw => ?_,
    kept, fun done => ?_, trace_short history, ends⟩
  · simp [Child.present, there]
  · obtain ⟨⟨ending, left, _⟩, none⟩ := ended saw
    exact ⟨by rw [left]; rfl, none⟩
  · unfold Pipeline.InOrder at order
    rw [done] at order
    cases left : s.left.point with
    | reaped first =>
        cases right : s.right.point with
        | reaped second =>
            rw [left] at fresh spent ended broken
            rw [right] at enough whole
            refine ⟨first, second, rfl, rfl, fun finished toEnd => ?_, fun sigpipe => ?_⟩
            · subst finished
              have saw : s.sawEnd = true := by
                rcases enough rfl with saw | ⟨n, some, _⟩
                · exact saw
                · rw [toEnd] at some
                  cases some
              obtain ⟨⟨ending, same, notBroken⟩, none⟩ := ended saw
              cases same
              rw [none, List.append_nil] at kept
              cases first with
              | finished =>
                  rw [spent rfl, List.append_nil] at kept
                  exact .inl ⟨rfl, kept.symm⟩
              | execFailed =>
                  rw [fresh rfl] at kept
                  exact .inr ⟨rfl, by simpa using kept⟩
              | brokenPipe => exact absurd rfl notBroken
            · subst sigpipe
              cases second with
              | execFailed => exact .inl rfl
              | brokenPipe => exact absurd rfl whole
              | finished =>
                  refine .inr ((enough rfl).resolve_left fun saw => ?_)
                  obtain ⟨⟨ending, same, notBroken⟩, _⟩ := ended saw
                  cases same
                  exact notBroken rfl
        | _ => simp [right, ChildPoint.isReaped] at order
    | _ => simp [left, ChildPoint.isReaped] at order

/-- One byte through a pipe with room for one. -/
def oneByte : Commands ℕ := ⟨[1], none, 1⟩

/-- Both commands running, and the shell waiting. -/
def bothStarted (closes : Bool) : Pipeline ℕ :=
  ⟨.waitFirst, !closes, !closes, ⟨.running, false, false, true, true⟩,
    ⟨.running, false, false, true, true⟩, [1], [], [], false⟩

theorem both_start (closes : Bool) :
    ∃ trace, (pipelineSystem oneByte closes).Trace trace (bothStarted closes) := by
  refine ⟨_, _, rfl, .cons (.pipe rfl) <| .cons (.forkFirst rfl) <| .cons (.groupFirst rfl) <|
    .cons (.left (.setpgid rfl)) <| .cons (.left (.dup2 rfl)) <| .cons (.left (.closeRead rfl)) <|
    .cons (.left (.closeWrite rfl)) <| .cons (.left (.execvp rfl)) <| .cons (.forkSecond rfl) <|
    .cons (.groupSecond rfl) <| .cons (.right (.setpgid rfl)) <| .cons (.right (.dup2 rfl)) <|
    .cons (.right (.closeRead rfl)) <| .cons (.right (.closeWrite rfl)) <|
    .cons (.right (.execvp rfl)) <| .cons (.closeRead rfl) <| .single (.closeWrite rfl)⟩

theorem pipeline_delivers_example :
    ∃ trace s, (pipelineSystem oneByte true).Trace trace s ∧ s.shell = .done ∧ s.got = [1] := by
  obtain ⟨_, begun⟩ := both_start true
  have text : [1] = [1] ++ ([] : List ℕ) := rfl
  have ends := begun.append <| .cons (.write rfl (by simp) text rfl (by decide)) <|
    .cons (.leftExits rfl rfl) <| .cons (.waitFirst rfl rfl) <|
    .cons (.read rfl (by simp [Pipeline.Enough, bothStarted, oneByte]) (by simp) text) <|
    .cons (.readEnd rfl (by simp [Pipeline.Enough, bothStarted, oneByte]) rfl rfl) <|
    .cons (.rightExits rfl (.inl rfl)) <| .single (.waitSecond rfl rfl)
  obtain ⟨_, _, left, right, reads, _⟩ := (pipeline_delivers Nat.one_pos ends).2.2.2.1 rfl
  cases left
  cases right
  rcases reads rfl rfl with ⟨_, whole⟩ | ⟨failed, _⟩
  · exact ⟨_, _, ends, rfl, whole⟩
  · cases failed

/-- While the shell keeps its copy of the write end nobody sees the end of the input. -/
theorem kept_end_unseen {trace : List (PipelineLabel α)} {s : Pipeline α}
    (history : (pipelineSystem cmd false).Trace trace s) : s.sawEnd = false := by
  refine history.induct (P := fun _ s => s.sawEnd = false) ?_ ?_
  · rintro _ rfl
    rfl
  · intro trace s label t before unseen step
    have sane := pipeline_sane ⟨trace, before⟩
    cases step with
    | readEnd there wants none closed =>
        cases (sane.opened.no_writer sane.order closed there).2
    | _ => exact unseen

/-- A shell that keeps its copies of the pipe and waits never gets an answer from a command
    that reads to the end: every run is short, and where it cannot go on, the shell waits
    for the second command, and that one waits on an empty pipe for the end of the input,
    with the first one long gone. -/
theorem kept_end_hangs (room : 0 < cmd.capacity) (toEnd : cmd.wanted = none)
    {trace : List (PipelineLabel α)} {s : Pipeline α}
    (history : (pipelineSystem cmd false).Trace trace s) (started : s.right.point.ran = true) :
    s.shell ≠ .done ∧ trace.length ≤ 24 + 2 * cmd.output.length ∧
      (¬ s.Goes cmd false → s.shell = .waitSecond ∧ s.left.point.isReaped = true ∧
        s.right.point = .running ∧ s.pipe = []) := by
  have unseen := kept_end_unseen history
  have sane := pipeline_sane ⟨trace, history⟩
  have running : s.right.point = .running := by
    have enough := sane.carried.enough
    have whole := sane.carried.whole
    have never : ¬ s.Enough cmd := by simp [Pipeline.Enough, unseen, toEnd]
    cases there : s.right.point with
    | zombie ending | reaped ending =>
        cases ending <;> simp_all [ChildPoint.ran, ChildPoint.ending?]
    | _ => simp_all [ChildPoint.ran]
  have order := sane.order
  unfold Pipeline.InOrder at order
  refine ⟨fun done => ?_, trace_short history, fun still => ?_⟩
  · rw [done, running] at order
    cases order.2
  · obtain ⟨_, none, _⟩ := (reader_goes running).resolve_left still
    rcases (shell_goes s).resolve_left still with there | there | there | there <;>
      rw [there, running] at order
    · rcases (child_goes Child.fds1 true s.left).resolve_left
        (fun ⟨_, step⟩ => still ⟨_, _, .left step⟩) with unborn | also | ended
      · simp [Child.present, unborn] at order
      · exact absurd (both_go room also running) still
      · cases zombie : s.left.point with
        | zombie => exact absurd ⟨_, _, .waitFirst there zombie⟩ still
        | _ => simp_all [Child.present, ChildPoint.ending?]
    · exact ⟨there, order.1, running, none⟩
    · cases order.2
    · cases order.2

theorem kept_end_hangs_example :
    ∃ trace s, (pipelineSystem oneByte false).Trace trace s ∧ s.got = [1] ∧ s.shell ≠ .done := by
  obtain ⟨_, begun⟩ := both_start false
  have text : [1] = [1] ++ ([] : List ℕ) := rfl
  have reads := begun.append <| .cons (.write rfl (by simp) text rfl (by decide)) <|
    .cons (.leftExits rfl rfl) <| .cons (.waitFirst rfl rfl) <|
    .single (.read rfl (by simp [Pipeline.Enough, bothStarted, oneByte]) (by simp) text)
  exact ⟨_, _, reads, rfl, (kept_end_hangs Nat.one_pos rfl reads rfl).1⟩

end

end KernelMonitor
