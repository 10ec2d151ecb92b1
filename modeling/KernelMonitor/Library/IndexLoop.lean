import Mathlib

/-! # Loops that index an array

Loops over part of an array in which every index is checked, and subtraction of
unsigned numbers that has a result only where it does not wrap. A loop that stays
inside its array computes a list operation.
-/

namespace KernelMonitor.Library

variable {α : Type}

/-- `a - b` of unsigned numbers, where it does not wrap. -/
def checkedSub (a b : Nat) : Option Nat := if b ≤ a then some (a - b) else none

theorem checkedSub_of_le {a b : Nat} (fits : b ≤ a) : checkedSub a b = some (a - b) := if_pos fits

/-- Reads `cells[i]` up to `cells[stop - 1]`. -/
def copyLoop (cells : List α) (stop i : Nat) : Option (List α) :=
  if i < stop then do
    let cell ← cells[i]?
    let rest ← copyLoop cells stop (i + 1)
    some (cell :: rest)
  else some []
termination_by stop - i
decreasing_by omega

/-- The first `i` from here on with `cells[i] == a`. -/
def findLoop [DecidableEq α] (cells : List α) (a : α) (stop i : Nat) : Option (Option Nat) :=
  if i < stop then do
    let cell ← cells[i]?
    if cell = a then some (some i) else findLoop cells a stop (i + 1)
  else some none
termination_by stop - i
decreasing_by omega

/-- Reads `cells[start + i]`, at most `size` of them, with their indices. -/
def windowLoop (cells : List α) (start size stop i : Nat) : Option (List (α × Nat)) :=
  if i < size ∧ start + i < stop then do
    let cell ← cells[start + i]?
    let rest ← windowLoop cells start size stop (i + 1)
    some ((cell, start + i) :: rest)
  else some []
termination_by size - i
decreasing_by omega

theorem copyLoop_eq {cells : List α} {stop : Nat} (inside : stop ≤ cells.length) (i : Nat) :
    copyLoop cells stop i = some ((cells.take stop).drop i) := by
  fun_induction copyLoop cells stop i with
  | case1 i more ih =>
      have there : i < cells.length := by omega
      have next : (cells.take stop).drop i = cells[i] :: (cells.take stop).drop (i + 1) := by
        rw [List.drop_eq_getElem_cons (by simp; omega), List.getElem_take]
      simp only [List.getElem?_eq_getElem there, ih, next]
      rfl
  | case2 i done => rw [List.drop_eq_nil_of_le (by simp; omega)]

theorem findLoop_eq [DecidableEq α] (cells : List α) (a : α) (i : Nat) :
    findLoop cells a cells.length i = some (((cells.drop i).idxOf? a).map (· + i)) := by
  fun_induction findLoop cells a cells.length i with
  | case1 i more ih =>
      rw [List.drop_eq_getElem_cons more, List.idxOf?_cons, List.getElem?_eq_getElem more]
      by_cases here : cells[i] = a
      · simp [here]
      · have shift : ((· + i) ∘ fun n => n + 1) = (· + (i + 1)) := by
          funext n
          simp only [Function.comp]
          omega
        simp [here, ih, Option.map_map, shift]
  | case2 i done => rw [List.drop_eq_nil_of_le (by omega)]; rfl

theorem windowLoop_eq (cells : List α) (start size i : Nat) :
    windowLoop cells start size cells.length i =
      some (((cells.drop (start + i)).take (size - i)).zipIdx (start + i)) := by
  fun_induction windowLoop cells start size cells.length i with
  | case1 i more ih =>
      obtain ⟨left, inside⟩ := more
      have size : size - i = size - (i + 1) + 1 := by omega
      rw [List.drop_eq_getElem_cons inside, size, List.take_succ_cons, List.zipIdx_cons,
        List.getElem?_eq_getElem inside, ih]
      rfl
  | case2 i done =>
      rcases Nat.lt_or_ge i size with left | none
      · rw [List.drop_eq_nil_of_le (by omega), List.take_nil, List.zipIdx_nil]
      · rw [Nat.sub_eq_zero_of_le none, List.take_zero, List.zipIdx_nil]

end KernelMonitor.Library
