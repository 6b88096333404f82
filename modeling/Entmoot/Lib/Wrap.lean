/-
# `Lib.Wrap` — a wrapping counter that leaves out zero

A counter modulo `m` hands out its values one after another, and whoever meets 0 goes
on to the next.  What is handed out is `1 … m-1` round and round: the `i`-th value is
`nth m b i`, for a `b` that the first one fixes.  Values less than a round apart are
distinct (`nth_inj`), so that a stretch of at most a round has no value twice
(`nodup_of_nth`).
-/
import Mathlib.Data.List.Nodup
import Mathlib.Data.List.Infix
import Mathlib.Tactic.Common

namespace Wrap

/-- The `i`-th value handed out. -/
def nth (m b i : ℕ) : ℕ := 1 + (b + i) % (m - 1)

variable {m b i j : ℕ}

theorem nth_pos : 0 < nth m b i := Nat.add_pos_left Nat.one_pos _

theorem nth_lt (hm : 2 ≤ m) : nth m b i < m := by
  have := Nat.mod_lt (b + i) (show 0 < m - 1 by omega)
  rw [nth]
  omega

/-- Behind the `i`-th value the counter stands at the next, or at 0 with 1 to come. -/
theorem succ_nth (hm : 2 ≤ m) :
    nth m b i + 1 = nth m b (i + 1) ∨ nth m b i + 1 = m ∧ nth m b (i + 1) = 1 := by
  have hlt := Nat.mod_lt (b + i) (show 0 < m - 1 by omega)
  have hnext : (b + (i + 1)) % (m - 1) = ((b + i) % (m - 1) + 1) % (m - 1) := by
    rw [← Nat.add_assoc, Nat.mod_add_mod]
  rw [nth, nth, hnext]
  generalize (b + i) % (m - 1) = k at hlt ⊢
  by_cases hlast : k + 1 = m - 1
  · rw [hlast, Nat.mod_self]
    exact .inr ⟨by omega, rfl⟩
  · rw [Nat.mod_eq_of_lt (show k + 1 < m - 1 by omega)]
    exact .inl (Nat.add_assoc 1 k 1)

theorem nth_inj (hij : i ≤ j) (hround : j < i + (m - 1)) (h : nth m b i = nth m b j) : i = j := by
  have hmod : (b + j) % (m - 1) = (b + i) % (m - 1) := Nat.add_left_cancel h.symm
  have hdvd := Nat.dvd_of_mod_eq_zero (Nat.sub_mod_eq_zero_of_mod_eq hmod)
  have hzero := Nat.eq_zero_of_dvd_of_lt hdvd (by omega)
  omega

/-- A stretch of at most a round out of what is handed out has no value twice. -/
theorem nodup_of_nth {α : Type*} {f : α → ℕ} {l part : List α}
    (hl : ∀ i a, l[i]? = some a → f a = nth m b i) (hpart : part <:+: l)
    (hlen : part.length ≤ m - 1) :
    part.Nodup := by
  obtain ⟨pre, post, rfl⟩ := hpart
  have hat : ∀ k a, part[k]? = some a → f a = nth m b (pre.length + k) := by
    intro k a hk
    refine hl _ a ?_
    rw [List.append_assoc, List.getElem?_append_right (Nat.le_add_right _ _),
      Nat.add_sub_cancel_left]
    exact (List.getElem?_append_left (List.getElem?_eq_some_iff.mp hk).1).trans hk
  refine List.nodup_iff_getElem?_ne_getElem?.mpr fun i j hij hj heq => ?_
  have hi : i < part.length := by omega
  have hfi := hat i _ (List.getElem?_eq_getElem hi)
  have hfj := hat j part[i] (heq ▸ List.getElem?_eq_getElem hi)
  have := nth_inj (by omega) (by omega) (hfi.symm.trans hfj)
  omega

end Wrap
