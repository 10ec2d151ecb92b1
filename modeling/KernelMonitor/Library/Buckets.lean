import Mathlib

/-! # Buckets in one flat array

Items are sorted into numbered buckets in three passes: count each bucket, turn the
counts into offsets, then place every item at its bucket's next free cell. The
buckets come out as consecutive slices, each with its items in the order they had.
An item without a bucket is skipped.
-/

namespace KernelMonitor.Library

variable {Item Value : Type*}

/-- One more in a table of counters. -/
def bump (counts : List Nat) (i : Nat) : List Nat := counts.modify i (· + 1)

/-- The counting pass, for one item. -/
def tally (bucket : Item → Option Nat) (counts : List Nat) (item : Item) : List Nat :=
  match bucket item with
  | some i => bump counts i
  | none => counts

/-- The offset pass, for one counter: the offsets so far and the running total. -/
def nextOffset (acc : List Nat × Nat) (count : Nat) : List Nat × Nat :=
  (acc.1 ++ [acc.2], acc.2 + count)

/-- The placing pass, for one item: how full each bucket is, and the cells. -/
def place (bucket : Item → Option Nat) (value : Item → Value) (starts : List Nat)
    (acc : List Nat × List Value) (item : Item) : List Nat × List Value :=
  match bucket item with
  | some i => (bump acc.1 i, acc.2.set (starts.getD i 0 + acc.1.getD i 0) (value item))
  | none => acc

/-- The items of one bucket, in order. -/
def inBucket (bucket : Item → Option Nat) (items : List Item) (i : Nat) : List Item :=
  items.filter fun item => bucket item = some i

/-! ## Counting -/

theorem length_bump (counts : List Nat) (i : Nat) : (bump counts i).length = counts.length :=
  List.length_modify ..

theorem getD_bump {counts : List Nat} {i : Nat} (inside : i < counts.length) (j : Nat) :
    (bump counts i).getD j 0 = counts.getD j 0 + if i = j then 1 else 0 := by
  unfold bump
  simp only [List.getD_eq_getElem?_getD, List.getElem?_modify]
  by_cases same : i = j
  · subst same
    simp [inside]
  · simp [same]

variable {bucket : Item → Option Nat} {n : Nat}

/-- Every bucket number is below `n`. -/
def Within (bucket : Item → Option Nat) (n : Nat) (items : List Item) : Prop :=
  ∀ item ∈ items, ∀ i, bucket item = some i → i < n

theorem inBucket_snoc (items : List Item) (item : Item) (i : Nat) :
    inBucket bucket (items ++ [item]) i =
      inBucket bucket items i ++ if bucket item = some i then [item] else [] := by
  unfold inBucket
  by_cases here : bucket item = some i <;> simp [here]

theorem tally_spec {items : List Item} (within : Within bucket n items) :
    (items.foldl (tally bucket) (List.replicate n 0)).length = n ∧
      ∀ i, (items.foldl (tally bucket) (List.replicate n 0)).getD i 0 =
        (inBucket bucket items i).length := by
  induction items using List.reverseRecOn with
  | nil => simp [inBucket]
  | append_singleton items item ih =>
      obtain ⟨length, counts⟩ := ih fun other member => within other (List.mem_append_left _ member)
      rw [List.foldl_append, List.foldl_cons, List.foldl_nil]
      cases here : bucket item with
      | none =>
          simp only [tally, here]
          exact ⟨length, fun i => by rw [counts, inBucket_snoc, here]; simp⟩
      | some j =>
          have inside := within item (by simp) j here
          simp only [tally, here]
          refine ⟨by rw [length_bump, length], fun i => ?_⟩
          rw [getD_bump (by omega), counts, inBucket_snoc, here, List.length_append]
          by_cases same : j = i <;> simp [same]

/-! ## Offsets -/

theorem offsets_spec (counts : List Nat) :
    (counts.foldl nextOffset ([], 0)).2 = counts.sum ∧
      (counts.foldl nextOffset ([], 0)).1.length = counts.length ∧
      ∀ i < counts.length, (counts.foldl nextOffset ([], 0)).1.getD i 0 = (counts.take i).sum := by
  induction counts using List.reverseRecOn with
  | nil => simp
  | append_singleton counts count ih =>
      obtain ⟨total, length, starts⟩ := ih
      rw [List.foldl_append, List.foldl_cons, List.foldl_nil]
      refine ⟨by simp [nextOffset, total], by simp [nextOffset, length], fun i inside => ?_⟩
      rw [List.length_append, List.length_singleton] at inside
      rcases Nat.lt_succ_iff_lt_or_eq.mp inside with before | rfl
      · rw [nextOffset, List.getD_append _ _ _ _ (by omega), starts i before,
          List.take_append_of_le_length before.le]
      · rw [nextOffset, List.getD_append_right _ _ _ _ (by omega), length, Nat.sub_self]
        simp [total]

/-- Slices that follow one another without a gap, up to `total`. -/
structure Consecutive (starts counts : List Nat) (total : Nat) : Prop where
  inside : ∀ i < counts.length, starts.getD i 0 + counts.getD i 0 ≤ total
  apart : ∀ i j, i < j → j < counts.length → starts.getD i 0 + counts.getD i 0 ≤ starts.getD j 0
  cover : ∀ k < total, ∃ i < counts.length,
    starts.getD i 0 ≤ k ∧ k < starts.getD i 0 + counts.getD i 0

theorem offsets_consecutive (counts : List Nat) :
    Consecutive (counts.foldl nextOffset ([], 0)).1 counts counts.sum := by
  obtain ⟨_, _, starts⟩ := offsets_spec counts
  have next i (inside : i < counts.length) :
      (counts.take i).sum + counts.getD i 0 = (counts.take (i + 1)).sum := by
    rw [List.take_add_one, List.sum_append, List.getD_eq_getElem?_getD]
    simp [inside]
  have mono {i j : Nat} (before : i ≤ j) : (counts.take i).sum ≤ (counts.take j).sum :=
    (List.take_sublist_take_left before).sum_le_sum fun _ _ => Nat.zero_le _
  refine ⟨fun i inside => ?_, fun i j before inside => ?_, fun k below => ?_⟩
  · rw [starts i inside, next i inside]
    exact (mono inside).trans (by rw [List.take_length])
  · rw [starts i (by omega), starts j inside, next i (by omega)]
    exact mono before
  · have reaches : ∃ j, k < (counts.take j).sum := ⟨counts.length, by rwa [List.take_length]⟩
    -- the first prefix whose sum passes `k` ends with the slice of `k`
    cases ends : Nat.find reaches with
    | zero =>
        have passed := Nat.find_spec reaches
        rw [ends] at passed
        simp at passed
    | succ i =>
        have passed := Nat.find_spec reaches
        have before := Nat.find_min reaches (m := i) (by omega)
        have least := Nat.find_min' reaches (m := counts.length) (by rwa [List.take_length])
        rw [ends] at passed least
        refine ⟨i, least, by rw [starts i least]; omega, ?_⟩
        rwa [starts i least, next i least]

/-! ## Placing -/

/-- What the cells hold once the items `done` are placed: the beginning of every
    slice. -/
structure Placed (bucket : Item → Option Nat) (value : Item → Value) (starts counts : List Nat)
    (total : Nat) (done : List Item) (acc : List Nat × List Value) : Prop where
  width : acc.1.length = counts.length
  size : acc.2.length = total
  filled : ∀ i, acc.1.getD i 0 = (inBucket bucket done i).length
  cells : ∀ i < counts.length, ∀ k < (inBucket bucket done i).length,
    acc.2[starts.getD i 0 + k]? = ((inBucket bucket done i).map value)[k]?

variable {value : Item → Value} {starts counts : List Nat} {total : Nat}

theorem placed_snoc {done : List Item} {item : Item} {acc : List Nat × List Value}
    (layout : Consecutive starts counts total)
    (within : ∀ i, bucket item = some i → i < counts.length)
    (fits : ∀ i, (inBucket bucket (done ++ [item]) i).length ≤ counts.getD i 0)
    (placed : Placed bucket value starts counts total done acc) :
    Placed bucket value starts counts total (done ++ [item])
      (place bucket value starts acc item) := by
  obtain ⟨width, size, filled, cells⟩ := placed
  cases here : bucket item with
  | none =>
      have same i : inBucket bucket (done ++ [item]) i = inBucket bucket done i := by
        rw [inBucket_snoc, here]
        simp
      simp only [place, here]
      exact ⟨width, size, fun i => by rw [same, filled], fun i inside => by
        rw [same]; exact cells i inside⟩
  | some j =>
      have inside := within j here
      have grown : inBucket bucket (done ++ [item]) j = inBucket bucket done j ++ [item] := by
        rw [inBucket_snoc, here]
        simp
      have others i (other : j ≠ i) :
          inBucket bucket (done ++ [item]) i = inBucket bucket done i := by
        rw [inBucket_snoc, here]
        simp [other]
      have room : (inBucket bucket done j).length < counts.getD j 0 := by
        have := fits j
        rw [grown, List.length_append, List.length_singleton] at this
        omega
      have slot := layout.inside j inside
      simp only [place, here, filled]
      refine ⟨by rw [length_bump, width], by rw [List.length_set, size], fun i => ?_,
        fun i within k before => ?_⟩
      · rw [getD_bump (by omega), filled]
        by_cases same : j = i
        · subst same
          simp [grown]
        · simp [same, others i same]
      · by_cases same : j = i
        · subst same
          rw [grown] at before ⊢
          rw [List.length_append, List.length_singleton] at before
          rcases Nat.lt_succ_iff_lt_or_eq.mp before with earlier | rfl
          · rw [List.getElem?_set_ne (by omega), cells j inside k earlier, List.map_append,
              List.getElem?_append_left (by simpa using earlier)]
          · rw [List.getElem?_set_self (by omega), List.map_append,
              List.getElem?_append_right (by simp)]
            simp
        · rw [others i same] at before ⊢
          have bound := fits i
          rw [others i same] at bound
          have away : starts.getD j 0 + (inBucket bucket done j).length ≠ starts.getD i 0 + k := by
            rcases Nat.lt_or_gt_of_ne same with left | right
            · have := layout.apart j i left within
              omega
            · have := layout.apart i j right inside
              omega
          rw [List.getElem?_set_ne away, cells i within k before]

variable (value) in
/-- The three passes put the items of every bucket, in order, into its slice. -/
theorem place_slice {items : List Item} {cells : List Value}
    (layout : Consecutive starts counts total) (within : Within bucket counts.length items)
    (counted : ∀ i, counts.getD i 0 = (inBucket bucket items i).length)
    (size : cells.length = total) {i : Nat} (inside : i < counts.length) :
    (((items.foldl (place bucket value starts)
        (List.replicate counts.length 0, cells)).2.drop (starts.getD i 0)).take
      (counts.getD i 0)) = (inBucket bucket items i).map value := by
  have placed : ∀ done rest, done ++ rest = items →
      Placed bucket value starts counts total done
        (done.foldl (place bucket value starts) (List.replicate counts.length 0, cells)) := by
    intro done
    induction done using List.reverseRecOn with
    | nil =>
        intro rest _
        exact ⟨by simp, size, fun i => by simp [inBucket], fun i _ k before => by
          simp [inBucket] at before⟩
    | append_singleton done item ih =>
        intro rest whole
        rw [List.foldl_append, List.foldl_cons, List.foldl_nil]
        have earlier := ih (item :: rest) (by rw [← whole]; simp)
        refine placed_snoc layout (within item (by rw [← whole]; simp)) (fun i => ?_) earlier
        rw [counted, ← whole]
        unfold inBucket
        rw [List.filter_append (done ++ [item])]
        simp
  obtain ⟨_, length, _, held⟩ := placed items [] (List.append_nil items)
  have slot := layout.inside i inside
  apply List.ext_getElem?
  intro k
  by_cases before : k < counts.getD i 0
  · rw [List.getElem?_take_of_lt before, List.getElem?_drop]
    exact held i inside k (counted i ▸ before)
  · rw [List.getElem?_take_eq_none (by omega), List.getElem?_eq_none]
    rw [List.length_map, ← counted]
    omega

end KernelMonitor.Library
