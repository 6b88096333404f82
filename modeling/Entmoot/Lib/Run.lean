/-
# `Lib.Run` — runs of a partial step function, and what holds along them

A system is a step function `σ → α → Option σ`: the action `α` names who moves
and how every choice left open by the program is resolved, and `none` says the
action is not enabled.  `exec` runs a list of actions.  Three rules are all the
later modules need:

    every step keeps I                          ⟹  every run keeps I        (`exec_invariant`)
    every step that meets P keeps I             ⟹  every run whose steps
                                                    all meet P keeps I
                                                    (`exec_invariant_of_meets`)
    no step decreases f                         ⟺  f never decreases        (`neverDecreases_iff`)

`Meets step P s as` reads `P` off the state *before* each step of the run, so a
condition stated with it is a condition on what the program is about to do and
never on what it produced.
-/
import Mathlib.Order.Basic

namespace Run

variable {σ α : Type*} {step : σ → α → Option σ}

/-- Run a list of actions, stopping at the first that is not enabled. -/
def exec (step : σ → α → Option σ) : σ → List α → Option σ
  | s, [] => some s
  | s, a :: as => (step s a).bind fun s' => exec step s' as

@[simp] theorem exec_nil (s : σ) : exec step s [] = some s := rfl

theorem exec_cons {s s' : σ} {a : α} {as : List α} :
    exec step s (a :: as) = some s' ↔ ∃ t, step s a = some t ∧ exec step t as = some s' := by
  simp [exec, Option.bind_eq_some_iff]

theorem exec_append {as bs : List α} : ∀ {s s' : σ},
    exec step s (as ++ bs) = some s' ↔ ∃ t, exec step s as = some t ∧ exec step t bs = some s' := by
  induction as with
  | nil => intro s s'; simp
  | cons a as ih =>
      intro s s'
      simp only [List.cons_append, exec_cons, ih]
      constructor
      · rintro ⟨t, ht, u, hu, hs⟩
        exact ⟨u, ⟨t, ht, hu⟩, hs⟩
      · rintro ⟨u, ⟨t, ht, hu⟩, hs⟩
        exact ⟨t, ht, u, hu, hs⟩

/-- A run one action longer. -/
theorem exec_concat {as : List α} {a : α} {s s' : σ} :
    exec step s (as ++ [a]) = some s' ↔ ∃ t, exec step s as = some t ∧ step t a = some s' := by
  simp [exec_append, exec_cons]

/-- What every step preserves, every run preserves. -/
theorem exec_invariant {I : σ → Prop}
    (hstep : ∀ s a s', I s → step s a = some s' → I s') :
    ∀ (as : List α) {s s' : σ}, I s → exec step s as = some s' → I s' := by
  intro as
  induction as with
  | nil =>
      intro s s' hI h
      cases h
      exact hI
  | cons a as ih =>
      intro s s' hI h
      obtain ⟨t, ht, hrest⟩ := exec_cons.mp h
      exact ih (hstep s a t hI ht) hrest

/-! ## Runs whose steps meet a condition -/

/-- Every action of the run meets `P` in the state it is taken from. -/
def Meets (step : σ → α → Option σ) (P : σ → α → Prop) : σ → List α → Prop
  | _, [] => True
  | s, a :: as => P s a ∧ ∀ t, step s a = some t → Meets step P t as

variable {P : σ → α → Prop}

theorem Meets.head {s : σ} {a : α} {as : List α} (h : Meets step P s (a :: as)) : P s a := h.1

theorem Meets.tail {s t : σ} {a : α} {as : List α} (h : Meets step P s (a :: as))
    (ht : step s a = some t) : Meets step P t as := h.2 t ht

theorem Meets.cons {s t : σ} {a : α} {as : List α} (ht : step s a = some t) (h : P s a)
    (hrest : Meets step P t as) : Meets step P s (a :: as) := by
  refine ⟨h, fun u hu => ?_⟩
  rw [ht] at hu
  cases hu
  exact hrest

theorem Meets.mono {Q : σ → α → Prop} (hpq : ∀ s a, P s a → Q s a) : ∀ {as : List α} {s : σ},
    Meets step P s as → Meets step Q s as := by
  intro as
  induction as with
  | nil => exact fun _ => trivial
  | cons a as ih => exact fun h => ⟨hpq _ a h.head, fun t ht => ih (h.tail ht)⟩

theorem Meets.take {as bs : List α} : ∀ {s : σ}, Meets step P s (as ++ bs) → Meets step P s as := by
  induction as with
  | nil => intro s _; trivial
  | cons a as ih => exact fun h => ⟨h.1, fun t ht => ih (h.2 t ht)⟩

/-- Two conditions that agree where `I` holds, which steps meeting them preserve. -/
theorem meets_congr {Q : σ → α → Prop} {I : σ → Prop} (hiff : ∀ s a, I s → (P s a ↔ Q s a))
    (hstep : ∀ s a s', I s → Q s a → step s a = some s' → I s') :
    ∀ (as : List α) {s : σ}, I s → (Meets step P s as ↔ Meets step Q s as) := by
  intro as
  induction as with
  | nil => exact fun _ => Iff.rfl
  | cons a as ih =>
      intro s hI
      constructor
      · intro h
        have hQ := (hiff s a hI).mp h.head
        exact ⟨hQ, fun t ht => (ih (hstep s a t hI hQ ht)).mp (h.tail ht)⟩
      · intro h
        exact ⟨(hiff s a hI).mpr h.head, fun t ht =>
          (ih (hstep s a t hI h.head ht)).mpr (h.tail ht)⟩

/-- `K` holds in every state of the run. -/
def Always (step : σ → α → Option σ) (K : σ → Prop) (s : σ) (as : List α) : Prop :=
  ∀ pre s', pre <+: as → exec step s pre = some s' → K s'

theorem always_nil {K : σ → Prop} {s : σ} : Always step K s [] ↔ K s := by
  constructor
  · exact fun h => h [] s List.nil_prefix rfl
  · intro hs pre s' hpre hex
    rw [List.prefix_nil.mp hpre] at hex
    cases hex
    exact hs

theorem always_cons {K : σ → Prop} {s : σ} {a : α} {as : List α} :
    Always step K s (a :: as) ↔ K s ∧ ∀ t, step s a = some t → Always step K t as := by
  constructor
  · intro h
    refine ⟨h [] s List.nil_prefix rfl, fun t ht pre s' hpre hex => ?_⟩
    exact h (a :: pre) s' (List.cons_prefix_cons.mpr ⟨rfl, hpre⟩) (exec_cons.mpr ⟨t, ht, hex⟩)
  · rintro ⟨hs, hrest⟩ pre s' hpre hex
    cases pre with
    | nil =>
        cases hex
        exact hs
    | cons b pre =>
        obtain ⟨rfl, hpre'⟩ := List.cons_prefix_cons.mp hpre
        obtain ⟨t, ht, hex⟩ := exec_cons.mp hex
        exact hrest t ht pre s' hpre' hex

theorem Always.mono {K K' : σ → Prop} {s : σ} {as : List α} (h : Always step K s as)
    (hk : ∀ t, K t → K' t) : Always step K' s as :=
  fun pre s' hpre hex => hk s' (h pre s' hpre hex)

/-- What holds in every state of a run holds at its start and after each step. -/
theorem always_iff {K : σ → Prop} : ∀ {as : List α} {s : σ}, Always step K s as ↔
    K s ∧ Meets step (fun s a => ∀ s', step s a = some s' → K s') s as := by
  intro as
  induction as with
  | nil => exact fun {s} => always_nil.trans (and_iff_left trivial).symm
  | cons a as ih =>
      intro s
      rw [always_cons]
      constructor
      · rintro ⟨hs, hrest⟩
        exact ⟨hs, fun t ht => (ih.mp (hrest t ht)).1, fun t ht => (ih.mp (hrest t ht)).2⟩
      · rintro ⟨hs, hm⟩
        exact ⟨hs, fun t ht => ih.mpr ⟨hm.head t ht, hm.tail ht⟩⟩

/-- Whatever part of the run lies between two states, `f` is no smaller after it. -/
def NeverDecreases {β : Type*} [LE β] (step : σ → α → Option σ) (f : σ → β) (s : σ) (as : List α) :
    Prop :=
  ∀ pre mid t u, pre ++ mid <+: as → exec step s pre = some t → exec step t mid = some u → f t ≤ f u

section
variable {β : Type*} [Preorder β] {f : σ → β}

theorem exec_le : ∀ {as : List α} {s t : σ},
    Meets step (fun s a => ∀ s', step s a = some s' → f s ≤ f s') s as →
      exec step s as = some t → f s ≤ f t := by
  intro as
  induction as with
  | nil =>
      intro s t _ h
      cases h
      exact le_rfl
  | cons a as ih =>
      intro s t hm h
      obtain ⟨u, hu, hrest⟩ := exec_cons.mp h
      exact (hm.head u hu).trans (ih (hm.tail hu) hrest)

theorem Meets.drop {pre as : List α} : ∀ {s t : σ},
    Meets step P s (pre ++ as) → exec step s pre = some t → Meets step P t as := by
  induction pre with
  | nil =>
      intro s t h ht
      cases ht
      exact h
  | cons a pre ih =>
      intro s t h ht
      obtain ⟨u, hu, hrest⟩ := exec_cons.mp ht
      exact ih (h.tail hu) hrest

/-- What never decreases along a run decreases at none of its steps. -/
theorem neverDecreases_iff : ∀ {as : List α} {s : σ}, NeverDecreases step f s as ↔
    Meets step (fun s a => ∀ s', step s a = some s' → f s ≤ f s') s as := by
  intro as s
  constructor
  · induction as generalizing s with
    | nil => exact fun _ => trivial
    | cons a as ih =>
        intro h
        refine ⟨fun t ht => ?_, fun t ht => ih fun pre mid u v hpre hu hv => ?_⟩
        · exact h [] [a] s t (List.cons_prefix_cons.mpr ⟨rfl, List.nil_prefix⟩) rfl
            (exec_cons.mpr ⟨t, ht, rfl⟩)
        · exact h (a :: pre) mid u v (List.cons_prefix_cons.mpr ⟨rfl, hpre⟩)
            (exec_cons.mpr ⟨t, ht, hu⟩) hv
  · rintro hm pre mid t u ⟨rest, rfl⟩ ht hu
    exact exec_le (hm.take.drop ht) hu

end

/-- What every step meeting `P` preserves, every run meeting `P` preserves. -/
theorem exec_invariant_of_meets {I : σ → Prop}
    (hstep : ∀ s a s', I s → P s a → step s a = some s' → I s') :
    ∀ (as : List α) {s s' : σ}, I s → Meets step P s as → exec step s as = some s' → I s' := by
  intro as
  induction as with
  | nil =>
      intro s s' hI _ h
      cases h
      exact hI
  | cons a as ih =>
      intro s s' hI hm h
      obtain ⟨t, ht, hrest⟩ := exec_cons.mp h
      exact ih (hstep s a t hI hm.head ht) (hm.tail ht) hrest

end Run
