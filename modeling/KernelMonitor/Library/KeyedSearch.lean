import Mathlib

/-! # Binary search over an array ordered by a key

The search is the half-open loop `while (low < high)` with midpoint
`low + (high - low) / 2`. It reads the array only between its bounds, so an array
whose tail is not in order may still be searched over an ordered prefix.
-/

namespace KernelMonitor.Library

section KeyedSearch

variable {α κ : Type*} [LinearOrder κ] (key : α → κ)

/-- The loop, run on the window `[low, high)`. A read outside the array ends it;
    no such read happens while `high` is within the array. -/
def keyedSearch (items : List α) (k : κ) (low high : Nat) : Option Nat :=
  if low < high then
    let mid := low + (high - low) / 2
    match items[mid]? with
    | none => none
    | some item =>
        if key item = k then some mid
        else if key item < k then keyedSearch items k (mid + 1) high
        else keyedSearch items k low mid
  else none
termination_by high - low

/-- Strictly increasing keys: in order and without repetition. -/
def KeySorted (items : List α) : Prop := items.Pairwise (fun a b => key a < key b)

variable {key}

theorem KeySorted.lt {items : List α} (sorted : KeySorted key items) {i j : Nat} {a b : α}
    (before : i < j) (atI : items[i]? = some a) (atJ : items[j]? = some b) : key a < key b := by
  obtain ⟨hi, rfl⟩ := List.getElem?_eq_some_iff.mp atI
  obtain ⟨hj, rfl⟩ := List.getElem?_eq_some_iff.mp atJ
  exact List.pairwise_iff_getElem.mp sorted i j hi hj before

theorem KeySorted.index_unique {items : List α} (sorted : KeySorted key items) {i j : Nat}
    {a b : α} (atI : items[i]? = some a) (atJ : items[j]? = some b) (same : key a = key b) :
    i = j := by
  rcases lt_trichotomy i j with before | rfl | after
  · exact absurd same (sorted.lt before atI atJ).ne
  · rfl
  · exact absurd same.symm (sorted.lt after atJ atI).ne

theorem KeySorted.nodup_keys {items : List α} (sorted : KeySorted key items) :
    (items.map key).Nodup :=
  List.pairwise_map.mpr (sorted.imp fun less => less.ne)

theorem keySorted_iff_map {items : List α} :
    KeySorted key items ↔ (items.map key).Pairwise (· < ·) := List.pairwise_map.symm

/-- A result lies in the window and carries the key, whatever the order. -/
theorem keyedSearch_sound {items : List α} {k : κ} {low high i : Nat}
    (found : keyedSearch key items k low high = some i) :
    low ≤ i ∧ i < high ∧ ∃ item, items[i]? = some item ∧ key item = k := by
  fun_induction keyedSearch key items k low high with
  | case1 | case5 => simp at found
  | case2 low high inside mid item atMid same =>
      obtain rfl : mid = i := Option.some.inj found
      exact ⟨by omega, by omega, item, atMid, same⟩
  | case3 low high inside mid item atMid _ _ ih =>
      obtain ⟨above, below, rest⟩ := ih found
      exact ⟨by omega, below, rest⟩
  | case4 low high inside mid item atMid _ _ ih =>
      obtain ⟨above, below, rest⟩ := ih found
      exact ⟨above, by omega, rest⟩

/-- On an ordered prefix the search finds every entry of its window. -/
theorem keyedSearch_complete {items : List α} {k : κ} {n low high i : Nat} {item : α}
    (sorted : KeySorted key (items.take n)) (within : high ≤ n) (fits : n ≤ items.length)
    (above : low ≤ i) (below : i < high) (atI : items[i]? = some item) (same : key item = k) :
    keyedSearch key items k low high = some i := by
  have inPrefix {j : Nat} {a : α} (lt : j < n) (atJ : items[j]? = some a) :
      (items.take n)[j]? = some a := by rw [List.getElem?_take_of_lt lt, atJ]
  fun_induction keyedSearch key items k low high with
  | case1 low high inside mid atMid =>
      have : items.length ≤ mid := List.getElem?_eq_none_iff.mp atMid
      omega
  | case2 low high inside mid other atMid found =>
      rw [sorted.index_unique (inPrefix (by omega) atMid) (inPrefix (by omega) atI)
        (found.trans same.symm)]
  | case3 low high inside mid other atMid _ less ih =>
      -- everything up to the midpoint is below the key
      have right : mid < i := by
        by_contra left
        rcases Nat.lt_or_eq_of_le (Nat.le_of_not_lt left) with before | rfl
        · have := sorted.lt before (inPrefix (by omega) atI) (inPrefix (by omega) atMid)
          exact absurd (this.trans less) (by simp [same])
        · cases Option.some.inj (atMid.symm.trans atI)
          exact absurd less (by simp [same])
      exact ih within right below
  | case4 low high inside mid other atMid differs notLess ih =>
      have left : i < mid := by
        by_contra right
        rcases Nat.lt_or_eq_of_le (Nat.le_of_not_lt right) with after | rfl
        · have := sorted.lt after (inPrefix (by omega) atMid) (inPrefix (by omega) atI)
          exact notLess (same ▸ this)
        · cases Option.some.inj (atMid.symm.trans atI)
          exact differs same
      exact ih (by omega) above left
  | case5 low high outside => omega

theorem keyedSearch_eq_some_iff {items : List α} {k : κ} {n i : Nat}
    (sorted : KeySorted key (items.take n)) (fits : n ≤ items.length) :
    keyedSearch key items k 0 n = some i ↔
      i < n ∧ ∃ item, items[i]? = some item ∧ key item = k := by
  constructor
  · intro found
    exact (keyedSearch_sound found).2
  · intro known
    obtain ⟨below, item, atI, same⟩ := known
    exact keyedSearch_complete sorted le_rfl fits (Nat.zero_le i) below atI same

theorem keyedSearch_eq_none_iff {items : List α} {k : κ} {n : Nat}
    (sorted : KeySorted key (items.take n)) (fits : n ≤ items.length) :
    keyedSearch key items k 0 n = none ↔ ∀ item ∈ items.take n, key item ≠ k := by
  constructor
  · intro missing item member same
    obtain ⟨i, atI⟩ := List.mem_iff_getElem?.mp member
    have below : i < n := by
      have := (List.getElem?_eq_some_iff.mp atI).1
      simp only [List.length_take] at this
      omega
    rw [List.getElem?_take_of_lt below] at atI
    have found := (keyedSearch_eq_some_iff sorted fits).mpr ⟨below, item, atI, same⟩
    simp [missing] at found
  · intro absent
    cases found : keyedSearch key items k 0 n with
    | none => rfl
    | some i =>
        obtain ⟨below, item, atI, same⟩ := (keyedSearch_eq_some_iff sorted fits).mp found
        refine absurd same (absent item (List.mem_iff_getElem?.mpr ⟨i, ?_⟩))
        rw [List.getElem?_take_of_lt below, atI]

end KeyedSearch

end KernelMonitor.Library
