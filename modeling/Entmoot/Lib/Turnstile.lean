/-
# `Lib.Turnstile` — a counter that decides who may stay

Whoever comes adds one to a counter and keeps the number it then shows; whoever leaves
takes one off.  The counter says how many are inside, so a number is above the count of
those that were already there (`Ranked`).  Departures in any order keep this, and so at
most `m` of those inside hold a number up to `m` (`Ranked.length_le`), however long the
others take to leave.
-/
import Mathlib.Data.List.Basic

namespace Turnstile

/-- The numbers of those inside, in the order in which they came, with `k` before them. -/
def Ranked : Nat → List Nat → Prop
  | _, [] => True
  | k, n :: ns => k < n ∧ Ranked (k + 1) ns

namespace Ranked

variable {j k m n : Nat} {ms ns : List Nat}

theorem mono : ∀ {j k : Nat}, Ranked k ns → j ≤ k → Ranked j ns := by
  induction ns with
  | nil => exact fun _ _ => trivial
  | cons n ns ih => exact fun h hle => ⟨Nat.lt_of_le_of_lt hle h.1, ih h.2 (Nat.succ_le_succ hle)⟩

theorem sublist (hsub : ms.Sublist ns) : ∀ {k : Nat}, Ranked k ns → Ranked k ms := by
  induction hsub with
  | slnil => exact id
  | cons n _ ih => exact fun h => ih (h.2.mono (Nat.le_succ _))
  | cons_cons n _ ih => exact fun h => ⟨h.1, ih h.2⟩

theorem concat : ∀ {k : Nat}, Ranked k ns → k + ns.length < n → Ranked k (ns ++ [n]) := by
  induction ns with
  | nil => exact fun _ hn => ⟨hn, trivial⟩
  | cons n' ns ih =>
      intro k h hn
      rw [List.length_cons] at hn
      exact ⟨h.1, ih h.2 (by omega)⟩

/-- Numbers up to `m` are held by at most `m`. -/
theorem length_le : ∀ {k : Nat}, Ranked k ns → (∀ n ∈ ns, n ≤ m) → k ≤ m → k + ns.length ≤ m := by
  induction ns with
  | nil => exact fun _ _ hk => hk
  | cons n ns ih =>
      intro k h hle hk
      obtain ⟨hn, hns⟩ := List.forall_mem_cons.mp hle
      have hrest := ih h.2 hns (Nat.lt_of_lt_of_le h.1 hn)
      rw [List.length_cons]
      omega

end Ranked

/-! ## The numbers of those inside -/

section
variable {α : Type*} {p : α → Bool} {f : α → Nat} {l : List α} {i : Nat} {a b : α}

theorem numbers_stay : ∀ {i : Nat}, l[i]? = some a → p b = p a → f b = f a →
    ((l.set i b).filter p).map f = (l.filter p).map f := by
  induction l with
  | nil => exact fun _ _ _ => rfl
  | cons c l ih =>
      intro i h hp hf
      cases i with
      | zero =>
          cases h
          rw [List.set_cons_zero, List.filter_cons, List.filter_cons, hp]
          split
          · rw [List.map_cons, List.map_cons, hf]
          · rfl
      | succ i =>
          have hl := ih (i := i) h hp hf
          rw [List.set_cons_succ, List.filter_cons, List.filter_cons]
          split
          · rw [List.map_cons, List.map_cons, hl]
          · exact hl

theorem filter_leave (hp : p b = false) :
    ∀ {i : Nat}, ((l.set i b).filter p).Sublist (l.filter p) := by
  induction l with
  | nil => exact List.Sublist.refl _
  | cons c l ih =>
      intro i
      cases i with
      | zero =>
          rw [List.set_cons_zero, List.filter_cons, hp, if_neg Bool.false_ne_true, List.filter_cons]
          split
          · exact (List.Sublist.refl _).cons c
          · exact List.Sublist.refl _
      | succ i =>
          rw [List.set_cons_succ, List.filter_cons, List.filter_cons]
          split
          · exact ih.cons_cons c
          · exact ih

end

end Turnstile
