import Mathlib

/-! # `qsort` with a three-way comparator

The C library promises a permutation in comparator order and nothing about the
algorithm or the order of equal elements. One algorithm is fixed here so that
sorting computes; where the comparator separates distinct elements its result is
the only one any `qsort` can return.
-/

namespace KernelMonitor.Library

variable {α : Type*} {cmp : α → α → Int}

def qsort (cmp : α → α → Int) (items : List α) : List α :=
  items.insertionSort fun a b => cmp a b ≤ 0

/-- What a comparator must satisfy for its order to make sense. -/
structure OrderComparator (cmp : α → α → Int) : Prop where
  total : ∀ a b, cmp a b ≤ 0 ∨ cmp b a ≤ 0
  trans : ∀ a b c, cmp a b ≤ 0 → cmp b c ≤ 0 → cmp a c ≤ 0

theorem qsort_perm (items : List α) : (qsort cmp items).Perm items :=
  List.perm_insertionSort _ _

theorem mem_qsort {items : List α} {a : α} : a ∈ qsort cmp items ↔ a ∈ items :=
  (qsort_perm items).mem_iff

theorem length_qsort (items : List α) : (qsort cmp items).length = items.length :=
  (qsort_perm items).length_eq

theorem OrderComparator.qsort_ordered (order : OrderComparator cmp) (items : List α) :
    (qsort cmp items).Pairwise fun a b => cmp a b ≤ 0 := by
  have : Std.Total fun a b => cmp a b ≤ 0 := ⟨order.total⟩
  have : IsTrans α fun a b => cmp a b ≤ 0 := ⟨order.trans⟩
  exact List.pairwise_insertionSort _ items

end KernelMonitor.Library
