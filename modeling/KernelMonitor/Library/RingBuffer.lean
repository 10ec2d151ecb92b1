import Mathlib

/-! # Ring buffers and pools of workers

A queue laid out in a fixed number of cells, from an index on and round the end. The
queue itself is a list; the cells outside it may hold anything. Beside it the counting
of a pool in which one worker at a time changes, and of a list that ends in marks.
-/

namespace KernelMonitor.Library

variable {α : Type*}

/-- From `head` on the cells hold the list, in order. -/
def RingHolds (cells : List α) (head : Nat) (content : List α) : Prop :=
  ∀ i, i < content.length → cells[(head + i) % cells.length]? = content[i]?

namespace RingHolds

variable {cells content : List α} {head : Nat} {x : α}

theorem nil (cells : List α) (head : Nat) : RingHolds cells head [] := fun _ inside =>
  absurd inside (Nat.not_lt_zero _)

/-- Two places of the queue are the same cell only if they are the same place. -/
theorem place_inj {i j size : Nat} (first : i < size) (second : j < size)
    (same : (head + i) % size = (head + j) % size) : i = j := by
  have equal : i ≡ j [MOD size] := Nat.ModEq.add_left_cancel' head same
  rwa [Nat.ModEq, Nat.mod_eq_of_lt first, Nat.mod_eq_of_lt second] at equal

/-- Writing the first free cell puts an element at the end. -/
theorem put (holds : RingHolds cells head content) (room : content.length < cells.length) (x : α) :
    RingHolds (cells.set ((head + content.length) % cells.length) x) head (content ++ [x]) := by
  intro i inside
  rw [List.length_append, List.length_singleton] at inside
  have here : (head + content.length) % cells.length < cells.length := Nat.mod_lt _ (by omega)
  rw [List.length_set]
  rcases Nat.lt_succ_iff_lt_or_eq.mp inside with before | rfl
  · have apart : (head + content.length) % cells.length ≠ (head + i) % cells.length := by
      intro same
      have equal := place_inj room (by omega) same
      omega
    rw [List.getElem?_set_ne apart, List.getElem?_append_left before]
    exact holds i before
  · rw [List.getElem?_set_self here, List.getElem?_concat_length]

/-- The first element stands at `head`. -/
theorem front (holds : RingHolds cells head (x :: content)) (inside : head < cells.length) :
    cells[head]? = some x := by
  have first := holds 0 (by simp)
  rwa [Nat.add_zero, Nat.mod_eq_of_lt inside] at first

/-- Moving `head` on takes the first element off. -/
theorem drop (holds : RingHolds cells head (x :: content)) :
    RingHolds cells ((head + 1) % cells.length) content := by
  intro i inside
  have next := holds (i + 1) (by simpa using inside)
  rw [List.getElem?_cons_succ] at next
  rw [← next, Nat.mod_add_mod, Nat.add_assoc, Nat.add_comm 1 i]

end RingHolds

/-! ## Workers -/

section Pool

variable {pool : List α} {k : Nat} {old : α}

/-- What one worker's change does to a count. -/
theorem countP_set_add (p : α → Bool) (there : pool[k]? = some old) (new : α) :
    (pool.set k new).countP p + (p old).toNat = pool.countP p + (p new).toNat := by
  obtain ⟨inside, same⟩ := List.getElem?_eq_some_iff.mp there
  have counted : (p old).toNat ≤ pool.countP p := by
    cases holds : p old with
    | false => exact Nat.zero_le _
    | true => exact List.countP_pos_iff.mpr ⟨old, List.mem_of_getElem? there, holds⟩
  have asNat (b : Bool) : (if b = true then 1 else 0) = b.toNat := by cases b <;> rfl
  rw [List.countP_set inside, same, asNat, asNat]
  omega

/-- After a change a worker is the changed one or one of the others. -/
theorem getElem?_set_cases {j : Nat} {new other : α} (there : (pool.set k new)[j]? = some other) :
    j = k ∧ other = new ∨ j ≠ k ∧ pool[j]? = some other := by
  by_cases same : j = k
  · subst same
    obtain ⟨inside, _⟩ := List.getElem?_eq_some_iff.mp there
    rw [List.length_set] at inside
    rw [List.getElem?_set_self inside] at there
    exact .inl ⟨rfl, (Option.some.inj there).symm⟩
  · rw [List.getElem?_set_ne (Ne.symm same)] at there
    exact .inr ⟨same, there⟩

end Pool

/-! ## End marks -/

/-- Of a list that ends in marks, a front part with all of them is the whole list. -/
theorem prefix_of_all_marks {items front : List α} {mark : α} {n : Nat} [BEq α] [LawfulBEq α]
    (plain : mark ∉ items) (ends : 0 < n ∨ items = []) (sub : front <+: items ++ .replicate n mark)
    (all : front.count mark = n) : front = items ++ .replicate n mark := by
  obtain ⟨rest, whole⟩ := sub
  have counted := congrArg (List.count mark) whole
  rw [List.count_append, List.count_append, List.count_replicate_self, all,
    List.count_eq_zero_of_not_mem plain] at counted
  have unmarked : mark ∉ rest := List.count_eq_zero.mp (by omega)
  rcases ends with some | rfl
  · have last := congrArg List.getLast? whole
    obtain ⟨m, rfl⟩ := Nat.exists_eq_add_of_lt some
    rw [Nat.zero_add, List.replicate_succ', ← List.append_assoc, List.getLast?_concat,
      List.getLast?_append] at last
    cases ended : rest.getLast? with
    | none =>
        rw [List.getLast?_eq_none_iff] at ended
        rw [← whole, ended, List.append_nil]
    | some x =>
        rw [ended, Option.some_or, Option.some.injEq] at last
        exact absurd (last ▸ List.mem_of_getLast? ended) unmarked
  · rw [List.nil_append] at whole ⊢
    have within : ∀ x ∈ rest, x = mark := fun x member =>
      List.eq_of_mem_replicate (whole ▸ List.mem_append_right front member)
    have none : rest = [] := List.eq_nil_iff_forall_not_mem.mpr fun x member =>
      unmarked (within x member ▸ member)
    rw [← whole, none, List.append_nil]

end KernelMonitor.Library
