/-
# `Lib.Custody` — items in the hands of holders

Items are handed to a system of holders, who pass them on, finish them or drop
them.  Nothing is lost (`Kept`) when every item handed over so far is done or in
somebody's hands.  A move of the system accounts for its items (`Moved`) when an
item leaves a holder's hands only for being done or dropped, and one holder
drops at a time.  Then

    Kept before  ⟹  (Kept after  ↔  each item dropped was done already,
                                     or another holder has it)          (`Moved.kept_iff`)
-/
import Mathlib.Logic.Basic

/-- Who holds which items, and what has become of them. -/
structure Custody (ι τ : Type*) where
  /-- the items given to the system so far -/
  handed : τ → Prop
  holds : ι → τ → Prop
  done : τ → Prop

namespace Custody

variable {ι τ : Type*} {c c' : Custody ι τ} {drops : ι → τ → Prop}

def Kept (c : Custody ι τ) : Prop := ∀ t, c.handed t → c.done t ∨ ∃ i, c.holds i t

/-- One move of the system, with the items each holder drops in it. -/
structure Moved (c c' : Custody ι τ) (drops : ι → τ → Prop) : Prop where
  handed : ∀ t, c'.handed t → c.handed t ∨ ∃ i, c'.holds i t
  done : ∀ t, c.done t → c'.done t
  holds : ∀ i t, c.holds i t → c'.holds i t ∨ c'.done t ∨ drops i t
  /-- what is dropped had been handed over, and still counts -/
  dropped : ∀ i t, drops i t → c'.handed t
  /-- it is out of the hands of the one who dropped it, and the move does nothing else with it -/
  gone : ∀ i t, drops i t → ¬ c'.holds i t ∧ (c'.done t → c.done t) ∧
    ∀ j, c'.holds j t → c.holds j t
  one : ∀ i j t, drops i t → drops j t → i = j

theorem Moved.refl (c : Custody ι τ) : Moved c c fun _ _ => False where
  handed := fun _ ht => .inl ht
  done := fun _ ht => ht
  holds := fun _ _ hi => .inl hi
  dropped := fun _ _ h => h.elim
  gone := fun _ _ h => h.elim
  one := fun _ _ _ h => h.elim

/-- Each item dropped was done already, or another holder has it. -/
def Covered (c : Custody ι τ) (drops : ι → τ → Prop) : Prop :=
  ∀ i t, drops i t → c.done t ∨ ∃ j, j ≠ i ∧ c.holds j t

/-- A move keeps all items exactly if what it drops is covered. -/
theorem Moved.kept_iff (h : Moved c c' drops) (hk : c.Kept) : c'.Kept ↔ c.Covered drops := by
  constructor
  · intro hk' i t hdrop
    obtain ⟨hgone, hdone, hholds⟩ := h.gone i t hdrop
    rcases hk' t (h.dropped i t hdrop) with ht | ⟨j, hj⟩
    · exact .inl (hdone ht)
    · refine .inr ⟨j, ?_, hholds j hj⟩
      rintro rfl
      exact hgone hj
  · intro hcov t ht
    -- what becomes of an item somebody held before
    have hheld : ∀ i, c.holds i t → c'.done t ∨ ∃ j, c'.holds j t := by
      intro i hi
      rcases h.holds i t hi with hi | hi | hdrop
      · exact .inr ⟨i, hi⟩
      · exact .inl hi
      · rcases hcov i t hdrop with hd | ⟨j, hne, hj⟩
        · exact .inl (h.done t hd)
        · rcases h.holds j t hj with hj | hj | hdrop'
          · exact .inr ⟨j, hj⟩
          · exact .inl hj
          · exact absurd (h.one j i t hdrop' hdrop) hne
    rcases h.handed t ht with ht | ht
    · rcases hk t ht with hd | ⟨i, hi⟩
      · exact .inl (h.done t hd)
      · exact hheld i hi
    · exact .inr ht

theorem Kept.done_of_idle (h : c.Kept) (hidle : ∀ i t, ¬ c.holds i t) (t : τ) (ht : c.handed t) :
    c.done t := by
  rcases h t ht with hd | ⟨i, hi⟩
  · exact hd
  · exact absurd hi (hidle i t)

end Custody
