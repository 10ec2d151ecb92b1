import KernelMonitor.Library.Qsort
import KernelMonitor.Parser

/-! # Reading `/proc`

Model of `src/proc/proc_reader.c`. What the kernel answers is an argument: a
directory stream is the list of its entries, a whole-file read is its bytes, and
`none` is a call that failed. A `realloc` is asked by PID whether it succeeds; the
PIDs of one directory pass differ, so each request has its own answer.
-/

namespace KernelMonitor

open Library

/-- `km_pid_list`. The entries are `items[0..count)`. -/
structure PidList where
  items : List Int
  capacity : Nat
  deriving DecidableEq, Repr

/-- `km_pid_list_init` -/
def PidList.init : PidList := ⟨[], 0⟩

/-- The growth rule of the program's arrays: twice the capacity, or a first one. -/
def grownCapacity (first cap : Nat) : Nat := if cap = 0 then first else cap * 2

theorem lt_grownCapacity {first cap : Nat} (positive : 0 < first) :
    cap < grownCapacity first cap := by
  unfold grownCapacity
  split <;> omega

/-- `pid_list_push`: the return value and the list afterwards. -/
def pidListPush (grows : Bool) (list : PidList) (pid : Int) : Bool × PidList :=
  if list.items.length = list.capacity then
    if grows then
      (true, { items := list.items ++ [pid], capacity := grownCapacity 256 list.capacity })
    else (false, list)
  else (true, { list with items := list.items ++ [pid] })

/-- The fields of a `struct dirent` that the walk looks at. -/
structure Dirent where
  name : Bytes
  isDir : Bool
  deriving DecidableEq, Repr

/-- The number of a directory whose name is all digits. -/
def Dirent.value? (entry : Dirent) : Option Int :=
  if !entry.isDir then none
  else if !entry.name.all isDigit || entry.name.isEmpty then none
  else if 0 < strtol entry.name then some (strtol entry.name) else none

def comparePid (a b : Int) : Int :=
  if a < b then -1 else if a > b then 1 else 0

/-- One pass of the `readdir` loop. The return value of the push is not looked at. -/
def listEntry (grows : Int → Bool) (list : PidList) (entry : Dirent) : PidList :=
  match entry.value? with
  | none => list
  | some value => (pidListPush (grows (toInt32 value)) list (toInt32 value)).2

/-- `km_proc_list_pids`; `none` is a failed `opendir`. -/
def listPids (dir : Option (List Dirent)) (grows : Int → Bool) (list : PidList) : Bool × PidList :=
  let list := { list with items := [] }
  match dir with
  | none => (false, list)
  | some entries =>
      let list := entries.foldl (listEntry grows) list
      (true, { list with items := qsort comparePid list.items })

/-- `km_proc_read_pid_cmdline`, from what the read of the file gave. -/
def readPidCmdline (file : Option Bytes) : Option Bytes :=
  file.map fun buf => (buf.map fun c => if c = 0 then 32 else c).rdropWhile (· == 32)

/-- `km_proc_count_fds`, from the names in `/proc/<pid>/fd`. -/
def countFds (dir : Option (List Bytes)) : Int :=
  match dir with
  | none => -1
  | some names => (names.filter fun name => name != text "." && name != text "..").length

theorem comparePid_le_iff {a b : Int} : comparePid a b ≤ 0 ↔ a ≤ b := by
  unfold comparePid
  split
  · omega
  · split <;> omega

theorem comparePid_order : OrderComparator comparePid where
  total a b := by simpa only [comparePid_le_iff] using le_total a b
  trans a b c := by simpa only [comparePid_le_iff] using le_trans

/-! ## What a listing holds -/

/-- The numbers a directory pass names, in the order `readdir` gives them. -/
def listed (entries : List Dirent) : List Int := entries.filterMap Dirent.value?

/-- A kernel's promise about one pass over `/proc`: no PID twice, and each one is
    a `pid_t`. -/
structure ListsEachOnce (entries : List Dirent) : Prop where
  nodup : (listed entries).Nodup
  fits : ∀ value ∈ listed entries, value < 2 ^ 31

theorem Dirent.value_pos {entry : Dirent} {value : Int} (named : entry.value? = some value) :
    0 < value := by
  unfold Dirent.value? at named
  split at named
  · cases named
  · split at named
    · cases named
    · split at named
      · cases named
        assumption
      · cases named

theorem listed_pos {entries : List Dirent} {value : Int} (member : value ∈ listed entries) :
    0 < value := by
  obtain ⟨entry, _, named⟩ := List.mem_filterMap.mp member
  exact Dirent.value_pos named

/-- Under that promise the conversion to `pid_t` loses nothing. -/
theorem ListsEachOnce.toInt32_eq {entries : List Dirent} (once : ListsEachOnce entries)
    {value : Int} (member : value ∈ listed entries) : toInt32 value = value :=
  toInt32_of_range (by have := listed_pos member; omega) (once.fits value member)

theorem pidListPush_items (grows : Bool) (list : PidList) (pid : Int) :
    (pidListPush grows list pid).2.items =
      if (pidListPush grows list pid).1 then list.items ++ [pid] else list.items := by
  unfold pidListPush
  split
  · split <;> simp
  · simp

/-- The walk as a loop over the named PIDs. -/
theorem foldl_listEntry {entries : List Dirent} (once : ListsEachOnce entries)
    (grows : Int → Bool) (list : PidList) :
    entries.foldl (listEntry grows) list =
      (listed entries).foldl (fun list pid => (pidListPush (grows pid) list pid).2) list := by
  have inside : ∀ part : List Dirent, (∀ value ∈ listed part, toInt32 value = value) →
      ∀ list, part.foldl (listEntry grows) list =
        (listed part).foldl (fun list pid => (pidListPush (grows pid) list pid).2) list := by
    intro part
    induction part with
    | nil => intro _ list; rfl
    | cons entry part ih =>
        intro exact list
        cases named : entry.value? with
        | none =>
            have same : listed (entry :: part) = listed part := List.filterMap_cons_none named
            simp only [List.foldl_cons, listEntry, named, same]
            exact ih (same ▸ exact) list
        | some value =>
            have same : listed (entry :: part) = value :: listed part :=
              List.filterMap_cons_some named
            rw [same] at exact ⊢
            simp only [List.foldl_cons, listEntry, named, exact value List.mem_cons_self]
            exact ih (fun v member => exact v (List.mem_cons_of_mem _ member)) _
  exact inside entries (fun value member => once.toInt32_eq member) list

/-- The PIDs whose push returned `false`. -/
def refused (grows : Int → Bool) : List Int → PidList → List Int
  | [], _ => []
  | pid :: rest, list =>
      let pushed := pidListPush (grows pid) list pid
      if pushed.1 then refused grows rest pushed.2 else pid :: refused grows rest pushed.2

/-- A row of pushes keeps, in order, what was not refused. -/
theorem foldl_push_items (grows : Int → Bool) (pids : List Int) (list : PidList) :
    ∃ kept, kept.Sublist pids ∧ (kept ++ refused grows pids list).Perm pids ∧
      (pids.foldl (fun list pid => (pidListPush (grows pid) list pid).2) list).items =
        list.items ++ kept := by
  induction pids generalizing list with
  | nil => exact ⟨[], .slnil, .refl _, by simp⟩
  | cons pid pids ih =>
      obtain ⟨kept, sub, perm, items⟩ := ih (pidListPush (grows pid) list pid).2
      simp only [List.foldl_cons, items, pidListPush_items, refused]
      cases (pidListPush (grows pid) list pid).1 with
      | true => exact ⟨pid :: kept, sub.cons_cons pid, perm.cons pid, by simp⟩
      | false => exact ⟨kept, sub.cons pid, List.perm_middle.trans (perm.cons pid), by simp⟩

theorem pidListPush_grows (list : PidList) (pid : Int) :
    (pidListPush true list pid).1 = true := by
  unfold pidListPush
  split <;> rfl

/-- Nothing is refused where every `realloc` succeeds. -/
theorem refused_nil {grows : Int → Bool} {pids : List Int} (always : ∀ pid ∈ pids, grows pid)
    (list : PidList) : refused grows pids list = [] := by
  induction pids generalizing list with
  | nil => rfl
  | cons pid pids ih =>
      simp only [refused, always pid List.mem_cons_self, pidListPush_grows, if_true]
      exact ih (fun p member => always p (List.mem_cons_of_mem _ member)) _

/-- The PIDs lost to a failed `realloc` in one directory pass. -/
def refusedPids (dir : Option (List Dirent)) (grows : Int → Bool) (list : PidList) : List Int :=
  match dir with
  | none => []
  | some entries => refused grows (listed entries) { list with items := [] }

/-- The list a pass leaves: what it kept, sorted. -/
theorem listPids_items {entries : List Dirent} (grows : Int → Bool) (list : PidList)
    (once : ListsEachOnce entries) :
    ∃ kept, kept.Sublist (listed entries) ∧
      (kept ++ refusedPids (some entries) grows list).Perm (listed entries) ∧
      (listPids (some entries) grows list).2.items = qsort comparePid kept := by
  obtain ⟨kept, sub, perm, items⟩ :=
    foldl_push_items grows (listed entries) { list with items := [] }
  exact ⟨kept, sub, perm, by simp only [listPids, foldl_listEntry once, items, List.nil_append]⟩

/-- Whatever fails, the list comes out strictly increasing. -/
theorem listPids_sorted {dir : Option (List Dirent)} {grows : Int → Bool} {list : PidList}
    (once : ∀ entries, dir = some entries → ListsEachOnce entries) :
    (listPids dir grows list).2.items.Pairwise (· < ·) := by
  cases dir with
  | none => exact .nil
  | some entries =>
      obtain ⟨kept, sub, _, items⟩ := listPids_items grows list (once _ rfl)
      rw [items]
      have ordered := comparePid_order.qsort_ordered kept
      have nodup : (qsort comparePid kept).Nodup :=
        (qsort_perm kept).nodup_iff.mpr ((once _ rfl).nodup.sublist sub)
      exact (ordered.and nodup).imp fun ⟨le, ne⟩ =>
        lt_of_le_of_ne (comparePid_le_iff.mp le) ne

/-- Without a refused push the list is the directory, sorted. -/
theorem listPids_all {entries : List Dirent} {grows : Int → Bool} {list : PidList}
    (once : ListsEachOnce entries) (none : refusedPids (some entries) grows list = []) :
    (listPids (some entries) grows list).2.items = qsort comparePid (listed entries) := by
  obtain ⟨kept, sub, perm, items⟩ := listPids_items grows list once
  rw [none, List.append_nil] at perm
  rw [items, sub.eq_of_length perm.length_eq]

/-- A PID is on the list exactly when the directory names it and its push went
    through. -/
theorem mem_listPids {entries : List Dirent} {grows : Int → Bool} {list : PidList} {pid : Int}
    (once : ListsEachOnce entries) :
    pid ∈ (listPids (some entries) grows list).2.items ↔
      pid ∈ listed entries ∧ pid ∉ refusedPids (some entries) grows list := by
  obtain ⟨kept, _, perm, items⟩ := listPids_items grows list once
  have apart := List.nodup_append.mp (perm.nodup_iff.mpr once.nodup)
  rw [items, mem_qsort, ← perm.mem_iff, List.mem_append]
  constructor
  · intro member
    exact ⟨.inl member, fun other => apart.2.2 pid member pid other rfl⟩
  · intro known
    obtain ⟨member | other, free⟩ := known
    · exact member
    · exact absurd other free

end KernelMonitor
