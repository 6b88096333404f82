/-
# `Lib.Roster` — workers and the places they sit at

A partial map from places to workers, and the list of the workers at work.  The two agree
if everybody at work sits somewhere, everybody who sits somewhere is at work, and nobody
sits at two places (`Manned`).  That is kept if a new worker takes a place and whoever sat
there goes home, and if some places are cleared and exactly those who sat there go home.
-/
import Mathlib.Logic.Function.Basic
import Mathlib.Data.List.Basic

namespace Roster

variable {P W : Type*} [DecidableEq W]

/-- Who is left after some went home. -/
def leave (gone working : List W) : List W := working.filter fun w => w ∉ gone

theorem mem_leave {gone working : List W} {w : W} :
    w ∈ leave gone working ↔ w ∈ working ∧ w ∉ gone := by
  rw [leave, List.mem_filter, decide_eq_true_iff]

theorem leave_nil (working : List W) : leave [] working = working := by
  rw [leave, List.filter_eq_self]
  exact fun w _ => decide_eq_true List.not_mem_nil

structure Manned (seat : P → Option W) (working : List W) : Prop where
  sits : ∀ w, w ∈ working ↔ ∃ p, seat p = some w
  once : ∀ p p' w, seat p = some w → seat p' = some w → p = p'

namespace Manned

variable {seat : P → Option W} {working : List W}

omit [DecidableEq W] in
theorem empty : Manned (fun _ : P => none) ([] : List W) where
  sits w := ⟨fun hw => absurd hw List.not_mem_nil, fun ⟨_, hp⟩ => (by cases hp)⟩
  once p p' w hp := by cases hp

/-- Those who sat at some places go home. -/
theorem clear (h : Manned seat working) {S : P → Prop} [DecidablePred S] {gone : List W}
    (hgone : ∀ w, w ∈ gone ↔ ∃ p, S p ∧ seat p = some w) :
    Manned (fun p => if S p then none else seat p) (leave gone working) := by
  refine ⟨fun w => ?_, fun p p' w hp hp' => ?_⟩
  · rw [mem_leave, h.sits, hgone]
    constructor
    · rintro ⟨⟨p, hp⟩, hstays⟩
      exact ⟨p, (if_neg fun hS => hstays ⟨p, hS, hp⟩).trans hp⟩
    · rintro ⟨p, hp⟩
      split at hp
      · cases hp
      · next hS =>
        refine ⟨⟨p, hp⟩, fun ⟨p', hS', hp'⟩ => ?_⟩
        cases h.once p p' w hp hp'
        exact hS hS'
  · split at hp
    · cases hp
    · split at hp'
      · cases hp'
      · exact h.once p p' w hp hp'

/-- A new worker takes a place. -/
theorem seated [DecidableEq P] (h : Manned seat working) (p : P) {w : W} (hnew : w ∉ working) :
    Manned (Function.update seat p (some w)) (leave (seat p).toList working ++ [w]) := by
  refine ⟨fun v => ?_, fun a b v ha hb => ?_⟩
  · rw [List.mem_append, mem_leave, List.mem_singleton, h.sits, Option.mem_toList]
    constructor
    · rintro (⟨⟨a, ha⟩, hstays⟩ | rfl)
      · have hap : a ≠ p := by
          rintro rfl
          exact hstays ha
        exact ⟨a, (Function.update_of_ne hap _ _).trans ha⟩
      · exact ⟨p, Function.update_self p _ _⟩
    · rintro ⟨a, ha⟩
      by_cases hap : a = p
      · subst hap
        rw [Function.update_self] at ha
        exact .inr (Option.some.inj ha).symm
      · rw [Function.update_of_ne hap] at ha
        exact .inl ⟨⟨a, ha⟩, fun hp => hap (h.once a p v ha hp)⟩
  · -- the new worker sits nowhere else
    have hother : ∀ c, c ≠ p → Function.update seat p (some w) c = some v →
        seat c = some v ∧ v ≠ w := by
      intro c hc hv
      rw [Function.update_of_ne hc] at hv
      refine ⟨hv, ?_⟩
      rintro rfl
      exact hnew ((h.sits v).mpr ⟨c, hv⟩)
    by_cases hap : a = p
    · by_cases hbp : b = p
      · rw [hap, hbp]
      · subst hap
        rw [Function.update_self] at ha
        exact absurd (Option.some.inj ha).symm (hother b hbp hb).2
    · by_cases hbp : b = p
      · subst hbp
        rw [Function.update_self] at hb
        exact absurd (Option.some.inj hb).symm (hother a hap ha).2
      · exact h.once a b v (hother a hap ha).1 (hother b hbp hb).1

end Manned

end Roster
