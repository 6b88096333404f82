/-
# `Lib.Cells` — lists as arrays of cells

What a cell of a list holds after another was written (`List.set`) or one was
added at the end, as the case splits that invariants over all cells use.
-/
import Mathlib.Data.List.Basic

namespace Cells

variable {α : Type*} {l : List α} {i j : Nat} {a b : α}

theorem set_cases (h : (l.set i a)[j]? = some b) : j ≠ i ∧ l[j]? = some b ∨ j = i ∧ b = a := by
  by_cases hij : i = j
  · subst hij
    rw [List.getElem?_set_self'] at h
    obtain ⟨_, _, rfl⟩ := Option.map_eq_some_iff.mp h
    exact .inr ⟨rfl, rfl⟩
  · rw [List.getElem?_set_ne hij] at h
    exact .inl ⟨Ne.symm hij, h⟩

theorem set_self (h : l[i]? = some b) : (l.set i a)[i]? = some a := by
  obtain ⟨hlt, _⟩ := List.getElem?_eq_some_iff.mp h
  exact List.getElem?_set_self hlt

/-- A cell after one more was added: an old one, or the new one at the end. -/
theorem concat_cases (h : (l ++ [a])[j]? = some b) : l[j]? = some b ∨ j = l.length ∧ b = a := by
  rcases Nat.lt_trichotomy j l.length with hlt | heq | hgt
  · rw [List.getElem?_append_left hlt] at h
    exact .inl h
  · subst heq
    rw [List.getElem?_concat_length] at h
    cases h
    exact .inr ⟨rfl, rfl⟩
  · rw [List.getElem?_eq_none (by rw [List.length_append, List.length_singleton]; omega)] at h
    cases h

theorem append_of_some {l' : List α} (h : l[j]? = some b) : (l ++ l')[j]? = some b := by
  obtain ⟨hlt, _⟩ := List.getElem?_eq_some_iff.mp h
  rw [List.getElem?_append_left hlt, h]

end Cells
