import Mathlib

/-! # The last write to a key

A store filled by a list of keyed writes, one after the other. What a key reads in the
end is the value of the last write to it, so the writes to other keys, and their order,
make no difference to it.
-/

namespace KernelMonitor.Library

section LastWrite

variable {κ ν : Type*} [DecidableEq κ]

/-- The value of the last entry under a key. -/
def lastValue (key : κ) : List (κ × ν) → Option ν
  | [] => none
  | (k, v) :: rest => (lastValue key rest).or (if k = key then some v else none)

variable {key : κ} {value : ν} {entries : List (κ × ν)}

theorem lastValue_append (key : κ) (front back : List (κ × ν)) :
    lastValue key (front ++ back) = (lastValue key back).or (lastValue key front) := by
  induction front with
  | nil => simp [lastValue]
  | cons entry front ih => simp only [List.cons_append, lastValue, ih, Option.or_assoc]

theorem lastValue_eq_none_iff :
    lastValue key entries = none ↔ ∀ entry ∈ entries, entry.1 ≠ key := by
  induction entries with
  | nil => simp [lastValue]
  | cons entry entries ih => simp [lastValue, ih, and_comm]

theorem lastValue_of_foreign (foreign : ∀ entry ∈ entries, entry.1 ≠ key) :
    lastValue key entries = none := lastValue_eq_none_iff.mpr foreign

theorem lastValue_of_last {before after : List (κ × ν)}
    (last : ∀ entry ∈ after, entry.1 ≠ key) :
    lastValue key (before ++ (key, value) :: after) = some value := by
  simp [lastValue_append, lastValue, lastValue_of_foreign last]

theorem mem_of_lastValue (found : lastValue key entries = some value) :
    (key, value) ∈ entries := by
  induction entries with
  | nil => simp [lastValue] at found
  | cons entry entries ih =>
      obtain ⟨k, v⟩ := entry
      simp only [lastValue, Option.or_eq_some_iff] at found
      rcases found with later | ⟨_, here⟩
      · exact List.mem_cons_of_mem _ (ih later)
      · split at here
        · rename_i same
          cases here
          exact same ▸ List.mem_cons_self
        · cases here

/-- No two entries are both under this key. -/
def OnceUnder (key : κ) (entries : List (κ × ν)) : Prop :=
  entries.Pairwise fun a b => ¬ (a.1 = key ∧ b.1 = key)

theorem lastValue_iff_mem (once : OnceUnder key entries) :
    lastValue key entries = some value ↔ (key, value) ∈ entries := by
  constructor
  · exact mem_of_lastValue
  · intro member
    obtain ⟨before, after, rfl⟩ := List.append_of_mem member
    have apart := (List.pairwise_cons.mp (List.pairwise_append.mp once).2.1).1
    exact lastValue_of_last fun entry later same => apart entry later ⟨rfl, same⟩

theorem OnceUnder.perm {entries' : List (κ × ν)} (once : OnceUnder key entries)
    (same : entries.Perm entries') : OnceUnder key entries' :=
  (same.pairwise_iff fun {a b} apart => by tauto).mp once

/-- Entries that do not repeat the key may come in any order. -/
theorem lastValue_perm {entries' : List (κ × ν)} (same : entries.Perm entries')
    (once : OnceUnder key entries) : lastValue key entries = lastValue key entries' := by
  ext value
  rw [lastValue_iff_mem once, lastValue_iff_mem (once.perm same), same.mem_iff]

/-- A read that a write under its own key replaces, and no other write touches. -/
theorem read_foldl {σ : Type*} {store : σ → κ → ν → σ} {read : σ → ν}
    (law : ∀ s k v, read (store s k v) = if k = key then v else read s) (entries : List (κ × ν))
    (s : σ) :
    read (entries.foldl (fun s entry => store s entry.1 entry.2) s) =
      (lastValue key entries).getD (read s) := by
  induction entries generalizing s with
  | nil => rfl
  | cons entry entries ih =>
      rw [List.foldl_cons, ih, law, lastValue]
      cases lastValue key entries with
      | some value => rfl
      | none =>
          split
          · rfl
          · rfl

end LastWrite

end KernelMonitor.Library
