import Mathlib

/-! # Logs that replay membership

A log of two marks, one for arriving and one for leaving. When every step writes
exactly the mark its change calls for, the marks alternate and the last one tells
whether the thing is there. A bounded window keeps the tail of such a log.
-/

namespace KernelMonitor.Library

variable {Mark : Type*}

/-- The marks strictly alternate, `first` first. -/
def Alternates (first second : Mark) : List Mark → Prop
  | [] => True
  | mark :: rest => mark = first ∧ Alternates second first rest

/-- The mark a step calls for, where something was there before or is there after. -/
def turn (came went : Mark) (before after : Prop) [Decidable before] [Decidable after] :
    List Mark :=
  if after ∧ ¬ before then [came] else if before ∧ ¬ after then [went] else []

/-- A log that alternates and whose last mark says whether the thing is there. -/
structure Replays (came went : Mark) (log : List Mark) (there : Prop) : Prop where
  alternates : Alternates came went log
  last : there ↔ log.getLast? = some came

theorem replays_nil {came went : Mark} {there : Prop} (absent : ¬ there) :
    Replays came went [] there :=
  ⟨trivial, by simpa using absent⟩

theorem Alternates.mem {first second : Mark} {log : List Mark}
    (alternates : Alternates first second log) {mark : Mark} (member : mark ∈ log) :
    mark = first ∨ mark = second := by
  induction log generalizing first second with
  | nil => cases member
  | cons head rest ih =>
      rcases List.mem_cons.mp member with rfl | later
      · exact .inl alternates.1
      · exact (ih alternates.2 later).symm

/-- The next mark of an alternating log is the one its last mark is not. -/
theorem Alternates.snoc {first second : Mark} (differ : first ≠ second) {log : List Mark}
    (alternates : Alternates first second log) :
    (log.getLast? = some first → Alternates first second (log ++ [second])) ∧
      (log.getLast? ≠ some first → Alternates first second (log ++ [first])) := by
  induction log generalizing first second with
  | nil => exact ⟨fun last => by simp at last, fun _ => ⟨rfl, trivial⟩⟩
  | cons mark rest ih =>
      obtain ⟨rfl, alternating⟩ := alternates
      obtain ⟨onSecond, onFirst⟩ := ih differ.symm alternating
      cases final : rest.getLast? with
      | none =>
          obtain rfl := List.getLast?_eq_none_iff.mp final
          exact ⟨fun _ => ⟨rfl, rfl, trivial⟩, fun last => absurd rfl last⟩
      | some last =>
          have same : (mark :: rest).getLast? = some last := by
            rw [List.getLast?_cons, final, Option.getD_some]
          rw [final, ne_eq, Option.some_inj] at onFirst
          rw [final, Option.some_inj] at onSecond
          rw [same, ne_eq, Option.some_inj]
          rcases alternating.mem (List.mem_of_getLast? final) with rfl | rfl
          · exact ⟨fun h => absurd h.symm differ, fun _ => ⟨rfl, onSecond rfl⟩⟩
          · exact ⟨fun _ => ⟨rfl, onFirst differ⟩, fun h => absurd rfl h⟩

/-- A step that writes the mark its change calls for keeps the log right. -/
theorem Replays.turn {came went : Mark} (differ : came ≠ went) {log : List Mark}
    {before after : Prop} [Decidable before] [Decidable after]
    (replays : Replays came went log before) :
    Replays came went (log ++ turn came went before after) after := by
  obtain ⟨alternates, last⟩ := replays
  obtain ⟨onWent, onCame⟩ := alternates.snoc differ
  unfold Library.turn
  by_cases was : before <;> by_cases is : after
  · simpa only [was, is, not_true_eq_false, and_false, if_false, List.append_nil, true_iff] using
      Replays.mk alternates (iff_of_true is (last.mp was))
  · simp only [was, is, false_and, if_false, not_false_eq_true, and_self, if_true]
    refine ⟨onWent (last.mp was), ?_⟩
    simpa [List.getLast?_append] using differ.symm
  · simp only [was, is, not_false_eq_true, and_self, if_true]
    refine ⟨onCame fun h => was (last.mpr h), ?_⟩
    simp [List.getLast?_append]
  · simp only [was, is, false_and, if_false, List.append_nil]
    exact ⟨alternates, iff_of_false id fun h => was (last.mpr h)⟩

/-! ## A bounded window -/

/-- Adding to a window of `size` entries, the oldest dropped when it is full. -/
def pushWindow {Entry : Type*} (size : Nat) (window : List Entry) (entry : Entry) : List Entry :=
  (if window.length = size then window.drop 1 else window) ++ [entry]

theorem pushWindow_rtake {Entry : Type*} {size : Nat} (positive : 0 < size)
    (log : List Entry) (entry : Entry) :
    pushWindow size (log.rtake size) entry = (log ++ [entry]).rtake size := by
  unfold pushWindow List.rtake
  rw [List.length_append, List.length_singleton, List.length_drop]
  by_cases full : size ≤ log.length
  · have whole : log.length - (log.length - size) = size := by omega
    have next : log.length + 1 - size = log.length - size + 1 := by omega
    rw [if_pos whole, List.drop_drop, next, List.drop_append_of_le_length (by omega)]
  · have short : ¬ log.length - (log.length - size) = size := by omega
    have none : log.length - size = 0 := by omega
    have neither : log.length + 1 - size = 0 := by omega
    rw [if_neg short, none, neither, List.drop_zero, List.drop_zero]

/-- Any burst of pushes leaves the last `size` entries of the whole log. -/
theorem foldl_pushWindow {Entry : Type*} {size : Nat} (positive : 0 < size)
    (log burst : List Entry) :
    burst.foldl (pushWindow size) (log.rtake size) = (log ++ burst).rtake size := by
  induction burst generalizing log with
  | nil => rw [List.foldl_nil, List.append_nil]
  | cons entry burst ih =>
      rw [List.foldl_cons, pushWindow_rtake positive, ih, List.append_assoc]
      rfl

end KernelMonitor.Library
