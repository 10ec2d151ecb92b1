import Mathlib

/-! # Stripping and cutting a list

Dropping a tail of unwanted elements and cutting to a length, in either order, and the
conditions under which the order, or a cut made before, cannot be seen.
-/

namespace KernelMonitor.Library

variable {α : Type*} {p : α → Bool}

theorem rdropWhile_append (xs ys : List α) :
    (xs ++ ys).rdropWhile p = if ys.all p then xs.rdropWhile p else xs ++ ys.rdropWhile p := by
  have emptied : (ys.reverse.dropWhile p).isEmpty = ys.all p := by
    rw [Bool.eq_iff_iff, List.isEmpty_iff, List.dropWhile_eq_nil_iff, List.all_eq_true]
    simp only [List.mem_reverse]
  unfold List.rdropWhile
  rw [List.reverse_append, List.dropWhile_append, emptied]
  split
  · rfl
  · rw [List.reverse_append, List.reverse_reverse]

/-- A strip that is cut has been stripped only if all behind the cut was unwanted. -/
theorem take_rdropWhile (s : List α) (k : Nat) :
    (s.rdropWhile p).take k = if (s.drop k).all p then (s.take k).rdropWhile p else s.take k := by
  have parts := rdropWhile_append (p := p) (s.take k) (s.drop k)
  rw [List.take_append_drop] at parts
  rw [parts]
  split
  · apply List.take_of_length_le
    exact (List.rdropWhile_prefix p _).length_le.trans (List.length_take_le k s)
  · rename_i wanted
    have behind : s.drop k ≠ [] := by
      intro none
      simp [none] at wanted
    have reach : (s.take k).length = k := by
      rw [List.length_take]
      have more := List.length_pos_iff.mpr behind
      rw [List.length_drop] at more
      omega
    rw [List.take_append_of_le_length reach.ge, List.take_of_length_le reach.le]

/-- A list cut after its last wanted element keeps its end. -/
theorem rdropWhile_take_iff {s : List α} {k : Nat} (longer : k < s.length) :
    (s.take (k + 1)).rdropWhile p = s.take (k + 1) ↔ p s[k] = false := by
  rw [List.take_succ_eq_append_getElem longer, rdropWhile_append]
  cases end' : p s[k] with
  | true =>
      simp only [List.all_cons, end', List.all_nil, Bool.and_self, if_true]
      constructor
      · intro same
        have shorter := (List.rdropWhile_prefix p (s.take k)).length_le
        rw [same, List.length_append, List.length_singleton] at shorter
        omega
      · simp
  | false => simp [end', List.rdropWhile_singleton]

theorem all_drop_cons {s : List α} {k : Nat} (longer : k < s.length) :
    (s.drop k).all p = (p s[k] && (s.drop (k + 1)).all p) := by
  rw [List.drop_eq_getElem_cons longer, List.all_cons]

/-- What a cut at `m` leaves shows the same up to `k`, unless the wanted elements from there
    on are all out of its sight. -/
theorem take_rdropWhile_take_iff {s : List α} {k m : Nat} (below : k < m) :
    ((s.take m).rdropWhile p).take (k + 1) = (s.rdropWhile p).take (k + 1) ↔
      ((s.take m).drop k).all p = false ∨ (s.drop m).all p = true := by
  have front : (s.take m).take (k + 1) = s.take (k + 1) := by
    rw [List.take_take]
    congr 1
    omega
  have behind : (s.drop (k + 1)).all p = (((s.take m).drop (k + 1)).all p && (s.drop m).all p) := by
    have rest : s.drop m = (s.drop (k + 1)).drop (m - (k + 1)) := by
      rw [List.drop_drop]
      congr 1
      omega
    rw [← List.all_append, List.drop_take, rest, List.take_append_drop]
  rw [take_rdropWhile, take_rdropWhile, front, behind]
  cases seen : ((s.take m).drop (k + 1)).all p with
  | false =>
      have inside : k < (s.take m).length := by
        by_contra short
        rw [List.drop_eq_nil_of_le (by omega)] at seen
        cases seen
      rw [all_drop_cons inside, seen]
      simp
  | true =>
      cases unseen : (s.drop m).all p with
      | true => simp
      | false =>
          have reach : m < s.length := by
            by_contra short
            rw [List.drop_eq_nil_of_le (by omega)] at unseen
            cases unseen
          have inside : k < (s.take m).length := by
            rw [List.length_take]
            omega
          rw [all_drop_cons inside, seen, List.getElem_take]
          simpa using rdropWhile_take_iff (by omega : k < s.length)

end KernelMonitor.Library
