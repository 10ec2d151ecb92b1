import KernelMonitor.Library.CellStore
import KernelMonitor.ProcReader

/-! # Reading a whole file

`km_proc_read_file` against a kernel that hands the file over as it likes: in short reads,
with interruptions in between, or not at all. Every other reader is given the bytes that
this one returns.
-/

namespace KernelMonitor

open Library

/-- What the kernel is about to make of one `read()`. -/
inductive ReadPlan where
  /-- All that is asked for and is there. -/
  | whole
  /-- No more than `n` bytes of it. -/
  | short (n : Nat) (positive : 0 < n)
  /-- `EINTR`. -/
  | interrupted
  /-- Any other error. -/
  | failed
  deriving DecidableEq, Repr

inductive ReadAnswer where
  | got (n : Nat)
  | interrupted
  | failed
  deriving DecidableEq, Repr

/-- The answer to a request for `count` bytes where `left` of the file are left. -/
def ReadPlan.answer (count left : Nat) : ReadPlan → ReadAnswer
  | whole => .got (min count left)
  | short n _ => .got (min n (min count left))
  | interrupted => .interrupted
  | failed => .failed

/-- One call `read(fd, buf + offset, count)`. -/
structure ReadCall where
  offset : Nat
  count : Nat
  answer : ReadAnswer
  deriving DecidableEq, Repr

/-- The return value of `km_proc_read_file`, the buffer it leaves, and the reads it issued. -/
structure FileRead where
  value : Int
  buf : Bytes
  calls : List ReadCall
  deriving DecidableEq, Repr

def FileRead.after (call : ReadCall) (read : FileRead) : FileRead :=
  { read with calls := call :: read.calls }

/-- What the return value and the buffer say to the caller. -/
def FileRead.bytes? (read : FileRead) : Option Bytes :=
  if read.value < 0 then none else some (read.buf.take read.value.toNat)

/-- `buf[total] = '\0'` and the return. -/
def readDone (total : Nat) (buf : Bytes) (calls : List ReadCall) : Option FileRead :=
  (storeAt buf total [0]).map fun buf => ⟨total, buf, calls⟩

namespace ReadPlan

variable {count left n : Nat} {plan : ReadPlan} {plans : List ReadPlan}

theorem answer_le (answered : plan.answer count left = .got n) : n ≤ count ∧ n ≤ left := by
  cases plan with
  | whole =>
      cases answered
      omega
  | short m positive =>
      cases answered
      omega
  | interrupted => cases answered
  | failed => cases answered

/-- Only the end of the file is answered with nothing. -/
theorem answer_end (asked : 0 < count) (answered : plan.answer count left = .got 0) : left = 0 := by
  cases plan with
  | whole =>
      simp only [answer, ReadAnswer.got.injEq] at answered
      omega
  | short m positive =>
      simp only [answer, ReadAnswer.got.injEq] at answered
      omega
  | interrupted => cases answered
  | failed => cases answered

theorem answer_interrupted
    (answered : (plans.headD .whole).answer count left = .interrupted) :
    plans.tail.length < plans.length := by
  cases plans with
  | nil => cases answered
  | cons plan plans => simp

end ReadPlan

/-- The loop of `km_proc_read_file`, with `total` bytes in the buffer. The plans are those of
    the reads to come; past them every read is whole. A store outside the buffer has no
    result. -/
def readLoop (file : Bytes) (bufsz : Nat) (plans : List ReadPlan) (total : Nat) (buf : Bytes) :
    Option FileRead :=
  if total < bufsz - 1 then
    let count := bufsz - 1 - total
    match _answered : (plans.headD .whole).answer count (file.length - total) with
    | .interrupted =>
        (readLoop file bufsz plans.tail total buf).map (.after ⟨total, count, .interrupted⟩)
    | .failed => some ⟨-1, buf, [⟨total, count, .failed⟩]⟩
    | .got 0 => readDone total buf [⟨total, count, .got 0⟩]
    | .got (n + 1) =>
        (storeAt buf total ((file.drop total).take (n + 1))).bind fun buf =>
          (readLoop file bufsz plans.tail (total + (n + 1)) buf).map
            (.after ⟨total, count, .got (n + 1)⟩)
  else readDone total buf []
termination_by plans.length + (file.length - total)
decreasing_by
  · have shorter := ReadPlan.answer_interrupted _answered
    omega
  · have inside := (ReadPlan.answer_le _answered).2
    simp only [List.length_tail]
    omega

/-- `km_proc_read_file`; a file that cannot be opened is `none`. -/
def procReadFile (file : Option Bytes) (plans : List ReadPlan) (bufsz : Nat) (buf : Bytes) :
    Option FileRead :=
  if bufsz = 0 then some ⟨-1, buf, []⟩
  else
    match file with
    | none => some ⟨-1, buf, []⟩
    | some file => readLoop file bufsz plans 0 buf

/-! ## What it leaves -/

/-- The reads ask for room in the buffer only and get no more; one that fails is the end of
    the call; and where none does, the buffer begins with as much of the file as fits and a
    NUL. In no case is a byte stored at or beyond `bufsz`. -/
structure ReadsExactly (file : Bytes) (bufsz : Nat) (buf : Bytes) (read : FileRead) : Prop where
  size : read.buf.length = buf.length
  beyond : read.buf.drop bufsz = buf.drop bufsz
  inside : ∀ call ∈ read.calls, call.offset + call.count < bufsz ∧
    ∀ n, call.answer = .got n → n ≤ call.count
  failed : (∃ call ∈ read.calls, call.answer = .failed) → read.value = -1
  stored : (∀ call ∈ read.calls, call.answer ≠ .failed) →
    read.value = (min file.length (bufsz - 1) : Nat) ∧
      ∃ rest, read.buf = file.take (bufsz - 1) ++ 0 :: rest

namespace ReadsExactly

variable {file buf stored : Bytes} {bufsz : Nat} {read : FileRead} {call : ReadCall}

/-- A read before the others that stays inside the buffer and does not fail. -/
theorem after (later : ReadsExactly file bufsz stored read) (size : stored.length = buf.length)
    (beyond : stored.drop bufsz = buf.drop bufsz) (asked : call.offset + call.count < bufsz)
    (given : ∀ n, call.answer = .got n → n ≤ call.count) (fine : call.answer ≠ .failed) :
    ReadsExactly file bufsz buf (read.after call) where
  size := later.size.trans size
  beyond := later.beyond.trans beyond
  inside := by
    intro other member
    rcases List.mem_cons.mp member with rfl | member
    · exact ⟨asked, given⟩
    · exact later.inside other member
  failed := by
    rintro ⟨other, member, wrong⟩
    rcases List.mem_cons.mp member with rfl | member
    · exact absurd wrong fine
    · exact later.failed ⟨other, member, wrong⟩
  stored := fun none => later.stored fun other member => none other (List.mem_cons_of_mem _ member)

/-- A read that fails. -/
theorem fail (asked : call.offset + call.count < bufsz) (wrong : call.answer = .failed) :
    ReadsExactly file bufsz buf ⟨-1, buf, [call]⟩ where
  size := rfl
  beyond := rfl
  inside := by
    intro other member
    obtain rfl := List.mem_singleton.mp member
    exact ⟨asked, fun n got => by simp [wrong] at got⟩
  failed := fun _ => rfl
  stored := fun none => absurd wrong (none call (List.mem_singleton.mpr rfl))

/-- A caller learns that a read failed, or has as much of the file as fits. -/
theorem bytes (exact : ReadsExactly file bufsz buf read) :
    read.bytes? = none ∨ read.bytes? = some (file.take (bufsz - 1)) := by
  unfold FileRead.bytes?
  by_cases wrong : ∃ call ∈ read.calls, call.answer = .failed
  · left
    rw [exact.failed wrong]
    rfl
  · right
    obtain ⟨value, rest, same⟩ := exact.stored fun call member failed =>
      wrong ⟨call, member, failed⟩
    have size : (file.take (bufsz - 1)).length = min file.length (bufsz - 1) := by
      rw [List.length_take, Nat.min_comm]
    rw [value, same, if_neg (by omega), Int.toNat_natCast, ← size, List.take_left]

end ReadsExactly

/-- The end of the loop, where the buffer is full or the file is. -/
theorem readDone_exact {file buf : Bytes} {bufsz total : Nat} (room : total < bufsz)
    (holds : bufsz ≤ buf.length) (front : buf.take total = file.take total)
    (ended : total = min file.length (bufsz - 1)) :
    ∃ read, readDone total buf [] = some read ∧ ReadsExactly file bufsz buf read := by
  obtain ⟨stored, stores, size, begins, beyond⟩ :=
    storeAt_fits (by simp; omega : total + [(0 : UInt8)].length ≤ buf.length)
  have whole : file.take (bufsz - 1) = file.take total := by
    rw [ended, List.take_eq_take_iff]
    omega
  refine ⟨⟨total, stored, []⟩, by rw [readDone, stores, Option.map_some], size,
    beyond bufsz (by simpa using room), by simp, by simp, fun _ => ⟨by rw [← ended], ?_⟩⟩
  refine ⟨stored.drop (total + 1), ?_⟩
  calc stored = stored.take (total + 1) ++ stored.drop (total + 1) :=
        (List.take_append_drop _ _).symm
    _ = (file.take total ++ [0]) ++ stored.drop (total + 1) := by
        rw [← front, ← begins, List.length_singleton]
    _ = file.take (bufsz - 1) ++ 0 :: stored.drop (total + 1) := by
        rw [whole, List.append_assoc, List.singleton_append]

theorem readDone_after (total : Nat) (buf : Bytes) (call : ReadCall) :
    readDone total buf [call] = (readDone total buf []).map (.after call) := by
  rw [readDone, readDone, Option.map_map]
  rfl

/-- However the rest of the transfer is split, it goes on from where it stands. -/
theorem readLoop_exact {file buf : Bytes} {bufsz total : Nat} (plans : List ReadPlan)
    (room : total < bufsz) (holds : bufsz ≤ buf.length) (inFile : total ≤ file.length)
    (front : buf.take total = file.take total) :
    ∃ read, readLoop file bufsz plans total buf = some read ∧
      ReadsExactly file bufsz buf read := by
  fun_induction readLoop file bufsz plans total buf with
  | case1 plans total buf more count answered ih =>
      have asked : total + count < bufsz := by omega
      obtain ⟨read, reads, later⟩ := ih room holds inFile front
      exact ⟨_, by rw [reads, Option.map_some], later.after rfl rfl asked (by simp) (by simp)⟩
  | case2 plans total buf more count answered =>
      have asked : total + count < bufsz := by omega
      exact ⟨_, rfl, .fail asked rfl⟩
  | case3 plans total buf more count answered =>
      have asked : total + count < bufsz := by omega
      have some : 0 < count := by omega
      have ended := ReadPlan.answer_end some answered
      obtain ⟨read, reads, done⟩ := readDone_exact room holds front (by omega)
      exact ⟨_, by rw [readDone_after, reads, Option.map_some],
        done.after rfl rfl asked (by simp) (by simp)⟩
  | case4 plans total buf more count n answered ih =>
      have asked : total + count < bufsz := by omega
      obtain ⟨given, left⟩ := ReadPlan.answer_le answered
      let chunk := (file.drop total).take (n + 1)
      have size : chunk.length = n + 1 := by
        rw [List.length_take, List.length_drop]
        omega
      obtain ⟨stored, stores, kept, begins, beyond⟩ :=
        storeAt_fits (by omega : total + chunk.length ≤ buf.length)
      rw [size] at begins beyond
      have joined : stored.take (total + (n + 1)) = file.take (total + (n + 1)) := by
        rw [begins, front, List.take_add]
      obtain ⟨read, reads, later⟩ :=
        ih stored (by omega) (by omega) (by omega) joined
      refine ⟨_, by rw [stores, Option.bind_some, reads, Option.map_some],
        later.after kept (beyond bufsz (by omega)) asked ?_ (by simp)⟩
      intro m got
      cases got
      exact given
  | case5 plans total buf full =>
      exact readDone_exact room holds front (by omega)

/-- Whatever the kernel makes of the reads, the file is returned as far as it fits. -/
theorem read_file_exact (file : Bytes) (plans : List ReadPlan) {bufsz : Nat} {buf : Bytes}
    (room : 1 ≤ bufsz) (holds : bufsz ≤ buf.length) :
    ∃ read, procReadFile (some file) plans bufsz buf = some read ∧
      ReadsExactly file bufsz buf read := by
  have nonzero : bufsz ≠ 0 := by omega
  obtain ⟨read, reads, exact⟩ :=
    readLoop_exact plans room holds (Nat.zero_le file.length) rfl
  exact ⟨read, by rw [procReadFile, if_neg nonzero, reads], exact⟩

/-- A short read, an interruption, and the rest of what fits. -/
theorem read_file_exact_example :
    let read : FileRead := ⟨4, text "a b " ++ [0, 6],
      [⟨0, 4, .got 2⟩, ⟨2, 2, .interrupted⟩, ⟨2, 2, .got 2⟩]⟩
    procReadFile (some (text "a b c")) [.short 2 (by decide), .interrupted] 5 [1, 2, 3, 4, 5, 6] =
        some read ∧
      ReadsExactly (text "a b c") 5 [1, 2, 3, 4, 5, 6] read := by
  intro read
  have run : procReadFile (some (text "a b c")) [.short 2 (by decide), .interrupted] 5
      [1, 2, 3, 4, 5, 6] = some read := by decide +kernel
  have holds : 5 ≤ ([1, 2, 3, 4, 5, 6] : Bytes).length := by decide
  obtain ⟨_, reads, exact⟩ := read_file_exact (text "a b c")
    [.short 2 (by decide), .interrupted] (by decide : 1 ≤ 5) holds
  cases run.symm.trans reads
  exact ⟨run, exact⟩

end KernelMonitor
