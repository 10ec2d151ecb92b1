import KernelMonitor.Library.Qsort
import KernelMonitor.Ui

/-! # The order of the process list

CPU descending, then PID ascending. Two entries compare equal only if both agree, so
a sample with distinct PIDs has one arrangement and every process has its row.
-/

namespace KernelMonitor

open Library

/-- What `compare_by_cpu` looks at. -/
def ProcessInfo.load (p : ProcessInfo) : ℚ × Int := (p.cpuPercent, p.pid)

/-- One load stands above another in the list. -/
def Above (a b : ℚ × Int) : Prop := b.1 < a.1 ∨ a.1 = b.1 ∧ a.2 < b.2

theorem compareByCpu_neg_iff {a b : ProcessInfo} : compareByCpu a b < 0 ↔ Above a.load b.load := by
  unfold compareByCpu Above ProcessInfo.load
  dsimp only
  split_ifs <;> grind

theorem compareByCpu_nonpos_iff {a b : ProcessInfo} :
    compareByCpu a b ≤ 0 ↔ Above a.load b.load ∨ a.load = b.load := by
  unfold compareByCpu Above ProcessInfo.load
  rw [Prod.mk.injEq]
  dsimp only
  split_ifs <;> grind

/-- The comparator answers with opposite signs when its arguments are exchanged. -/
theorem compareByCpu_swap (a b : ProcessInfo) : compareByCpu b a = -compareByCpu a b := by
  unfold compareByCpu
  split_ifs <;> grind

theorem Above.irrefl (a : ℚ × Int) : ¬ Above a a := by
  unfold Above
  grind

theorem Above.trans {a b c : ℚ × Int} (first : Above a b) (second : Above b c) : Above a c := by
  unfold Above at *
  grind

theorem Above.trichotomy (a b : ℚ × Int) : Above a b ∨ a = b ∨ Above b a := by
  unfold Above
  rw [Prod.ext_iff]
  grind

theorem compareByCpu_order : OrderComparator compareByCpu where
  total a b := by
    rw [compareByCpu_swap b a]
    omega
  trans a b c first second := by
    rw [compareByCpu_nonpos_iff] at *
    rcases first with first | first
    · rcases second with second | second
      · exact .inl (first.trans second)
      · exact .inl (second ▸ first)
    · rw [first]
      exact second

/-! ## One arrangement -/

/-- Lists in this order with the same members are the same list. -/
theorem above_unique {xs ys : List (ℚ × Int)} (ordered : xs.Pairwise Above)
    (ordered' : ys.Pairwise Above) (same : ∀ load, load ∈ xs ↔ load ∈ ys) : xs = ys := by
  have nodup {zs : List (ℚ × Int)} (ordered : zs.Pairwise Above) : zs.Nodup := by
    apply ordered.imp
    intro a b above equal
    exact Above.irrefl a (equal ▸ above)
  have perm := (List.perm_ext_iff_of_nodup (nodup ordered) (nodup ordered')).mpr same
  apply perm.eq_of_pairwise _ ordered ordered'
  intro a b _ _ first second
  exact absurd (first.trans second) (Above.irrefl a)

/-- What any `qsort` returns for distinct PIDs is strictly in order. -/
theorem above_of_ordered {rows : List ProcessInfo} (distinct : (rows.map ProcessInfo.pid).Nodup)
    (ordered : rows.Pairwise fun a b => compareByCpu a b ≤ 0) :
    (rows.map ProcessInfo.load).Pairwise Above := by
  rw [List.Nodup, List.pairwise_map] at distinct
  rw [List.pairwise_map]
  apply (ordered.and distinct).imp
  intro a b both
  rcases compareByCpu_nonpos_iff.mp both.1 with above | same
  · exact above
  · exact absurd (congrArg Prod.snd same) both.2

theorem qsort_above {items : List ProcessInfo} (distinct : (items.map ProcessInfo.pid).Nodup) :
    ((qsort compareByCpu items).map ProcessInfo.load).Pairwise Above := by
  apply above_of_ordered _ (compareByCpu_order.qsort_ordered items)
  exact ((qsort_perm items).map ProcessInfo.pid).nodup_iff.mpr distinct

theorem map_pid_eq (rows : List ProcessInfo) :
    rows.map ProcessInfo.pid = (rows.map ProcessInfo.load).map Prod.snd := by
  rw [List.map_map]
  rfl

/-- The PIDs of a sample by CPU descending, then PID ascending. -/
def Arranged (sample : List ProcessInfo) (pids : List Int) : Prop :=
  ∃ rows : List ProcessInfo, rows.Perm sample ∧ pids = rows.map ProcessInfo.pid ∧
    rows.Pairwise fun a b =>
      b.cpuPercent < a.cpuPercent ∨ a.cpuPercent = b.cpuPercent ∧ a.pid < b.pid

/-- There is one such arrangement, and every `qsort` finds it from every order of the
    entries. -/
theorem arranged_iff {sample : List ProcessInfo} (distinct : (sample.map ProcessInfo.pid).Nodup)
    {items result : List ProcessInfo} (shuffled : items.Perm sample) (sorted : result.Perm items)
    (ordered : result.Pairwise fun a b => compareByCpu a b ≤ 0) (pids : List Int) :
    Arranged sample pids ↔ pids = result.map ProcessInfo.pid := by
  have perm := sorted.trans shuffled
  have above := above_of_ordered ((perm.map ProcessInfo.pid).nodup_iff.mpr distinct) ordered
  constructor
  · intro arranged
    obtain ⟨rows, same, rfl, inOrder⟩ := arranged
    have loads : rows.map ProcessInfo.load = result.map ProcessInfo.load := by
      apply above_unique (List.pairwise_map.mpr inOrder) above
      intro load
      exact ((same.trans perm.symm).map ProcessInfo.load).mem_iff
    rw [map_pid_eq, loads, ← map_pid_eq]
  · intro same
    exact ⟨result, perm, same, List.pairwise_map.mp above⟩

/-! ## Two samples -/

/-- Two samples have the same processes with the same CPU, apart from some PIDs. -/
def SameApart (changed : Int → Prop) (sample sample' : List ProcessInfo) : Prop :=
  ∀ pid, ¬ changed pid → ∀ cpu,
    (∃ p ∈ sample, p.pid = pid ∧ p.cpuPercent = cpu) ↔
      ∃ p ∈ sample', p.pid = pid ∧ p.cpuPercent = cpu

/-- What changes for some processes leaves the order of the others. -/
theorem others_in_order {changed : Int → Prop} [DecidablePred changed]
    {sample sample' : List ProcessInfo} (distinct : (sample.map ProcessInfo.pid).Nodup)
    (distinct' : (sample'.map ProcessInfo.pid).Nodup)
    (same : SameApart changed sample sample') :
    ((qsort compareByCpu sample).map ProcessInfo.pid).filter (fun pid => ¬ changed pid) =
      ((qsort compareByCpu sample').map ProcessInfo.pid).filter (fun pid => ¬ changed pid) := by
  have members (items : List ProcessInfo) (load : ℚ × Int) :
      load ∈ (qsort compareByCpu items).map ProcessInfo.load ↔
        ∃ p ∈ items, p.pid = load.2 ∧ p.cpuPercent = load.1 := by
    simp only [List.mem_map, mem_qsort, ProcessInfo.load, Prod.ext_iff, and_comm]
  have loads : ((qsort compareByCpu sample).map ProcessInfo.load).filter
        (fun load => ¬ changed load.2) =
      ((qsort compareByCpu sample').map ProcessInfo.load).filter
        (fun load => ¬ changed load.2) := by
    apply above_unique ((qsort_above distinct).filter _) ((qsort_above distinct').filter _)
    intro load
    simp only [List.mem_filter, members, decide_eq_true_eq]
    exact and_congr_left fun kept => same load.2 kept load.1
  have pids := congrArg (List.map Prod.snd) loads
  simpa only [map_pid_eq, List.filter_map, Function.comp_def] using pids

/-! ## The row of a process -/

/-- The entries that come before every entry of a PID. -/
def rowsBefore (sample : List ProcessInfo) (pid : Int) : Nat :=
  sample.countP fun p => ∀ q ∈ sample, q.pid = pid → compareByCpu p q < 0

/-- The search for a PID in the sorted table ends at that many rows. -/
theorem idxOf?_qsort {sample : List ProcessInfo} {pid : Int}
    (present : pid ∈ sample.map ProcessInfo.pid) :
    ((qsort compareByCpu sample).map ProcessInfo.pid).idxOf? pid =
      some (rowsBefore sample pid) := by
  have listed : pid ∈ (qsort compareByCpu sample).map ProcessInfo.pid :=
    ((qsort_perm sample).map ProcessInfo.pid).mem_iff.mpr present
  obtain ⟨i, found⟩ := Option.isSome_iff_exists.mp (List.isSome_idxOf?.mpr listed)
  rw [found, Option.some_inj]
  obtain ⟨inside, there, earlier⟩ := List.idxOf?_eq_some_iff.mp found
  have order := List.pairwise_iff_getElem.mp (compareByCpu_order.qsort_ordered sample)
  unfold rowsBefore
  have perm : (qsort compareByCpu sample).Perm sample := qsort_perm sample
  generalize qsort compareByCpu sample = table at *
  simp only [List.length_map, List.getElem_map] at inside there earlier
  rw [← perm.countP_eq, ← List.take_append_drop i table, List.countP_append]
  have before : (table.take i).countP (fun p => ∀ q ∈ sample, q.pid = pid →
      compareByCpu p q < 0) = i := by
    rw [List.countP_eq_length.mpr, List.length_take, min_eq_left inside.le]
    intro p member
    obtain ⟨j, bound, rfl⟩ := List.getElem_of_mem member
    rw [List.length_take] at bound
    rw [List.getElem_take]
    apply decide_eq_true
    intro q inSample same
    obtain ⟨k, inTable, rfl⟩ := List.getElem_of_mem (perm.mem_iff.mpr inSample)
    have later : j < k := by
      by_contra notLater
      exact absurd same (earlier k (by omega))
    rcases compareByCpu_nonpos_iff.mp (order j k (by omega) inTable later) with above | equal
    · exact compareByCpu_neg_iff.mpr above
    · have samePid : table[j].pid = pid := (congrArg Prod.snd equal).trans same
      exact absurd samePid (earlier j (by omega))
  have behind : (table.drop i).countP (fun p => ∀ q ∈ sample, q.pid = pid →
      compareByCpu p q < 0) = 0 := by
    rw [List.countP_eq_zero]
    intro p member less
    obtain ⟨j, bound, rfl⟩ := List.getElem_of_mem member
    rw [List.length_drop] at bound
    rw [List.getElem_drop] at less
    have above := of_decide_eq_true less table[i] (perm.mem_iff.mp (List.getElem_mem inside)) there
    rcases Nat.eq_zero_or_pos j with rfl | later
    · exact Above.irrefl _ (compareByCpu_neg_iff.mp above)
    · have below := order i (i + j) inside (by omega) (by omega)
      rw [compareByCpu_swap] at above
      omega
  omega

end KernelMonitor
