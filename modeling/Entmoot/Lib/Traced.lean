/-
# `Lib.Traced` — programs that leave a trace

A `Traced σ ω ε α` runs on a state `σ`, reports effects `ω` in order, and ends
with a value, with an error that is passed up to the next `attempt`, or not at all:
it may wait for something that never comes (`wait`).

What a program can do is read off its ends, one equation for each way to build it
(`ends_bind` and its siblings).  A property of everything that happens between
start and end is a `Frame`; programs stay within one if their parts do
(`Within.bind` and its siblings).
-/
import Mathlib.Logic.Basic

def Traced (σ ω ε α : Type) : Type := σ → Option (Except ε α × List ω × σ)

namespace Traced

variable {σ ω ε α β : Type}

/-! ## Programs -/

def ret (a : α) : Traced σ ω ε α := fun s => some (.ok a, [], s)

def andThen (x : Traced σ ω ε α) (f : α → Traced σ ω ε β) : Traced σ ω ε β := fun s =>
  match x s with
  | none => none
  | some (.error e, w, s') => some (.error e, w, s')
  | some (.ok a, w, s') => (f a s').map fun out => (out.1, w ++ out.2.1, out.2.2)

instance : Monad (Traced σ ω ε) where
  pure := ret
  bind := andThen

/-- One effect. -/
def emit (e : ω) : Traced σ ω ε Unit := fun s => some (.ok (), [e], s)

def fail (e : ε) : Traced σ ω ε α := fun s => some (.error e, [], s)

def getState : Traced σ ω ε σ := fun s => some (.ok s, [], s)

def modifyState (f : σ → σ) : Traced σ ω ε Unit := fun s => some (.ok (), [], f s)

/-- The result of a program, an error included. -/
def attempt (x : Traced σ ω ε α) : Traced σ ω ε (Except ε α) := fun s =>
  (x s).map fun out => (.ok out.1, out.2.1, out.2.2)

/-- A program that never comes to its end. -/
def wait : Traced σ ω ε α := fun _ => none

/-! ## How programs end -/

/-- From `s` the program ends in `s'` with the result `r` and the trace `w`. -/
def Ends (x : Traced σ ω ε α) (s : σ) (r : Except ε α) (w : List ω) (s' : σ) : Prop :=
  x s = some (r, w, s')

variable {x : Traced σ ω ε α} {f : α → Traced σ ω ε β} {s s' : σ} {w : List ω}

theorem ends_pure {a : α} {r : Except ε α} :
    Ends (pure a : Traced σ ω ε α) s r w s' ↔ r = .ok a ∧ w = [] ∧ s' = s := by
  constructor
  · intro h
    cases h
    exact ⟨rfl, rfl, rfl⟩
  · rintro ⟨rfl, rfl, rfl⟩
    rfl

theorem ends_bind {r : Except ε β} :
    Ends (x >>= f) s r w s' ↔
      (∃ e, Ends x s (.error e) w s' ∧ r = .error e) ∨
      ∃ a w₁ t w₂, Ends x s (.ok a) w₁ t ∧ Ends (f a) t r w₂ s' ∧ w = w₁ ++ w₂ := by
  show andThen x f s = some (r, w, s') ↔ _
  simp only [Ends, andThen]
  cases hx : x s with
  | none => simp
  | some out =>
      obtain ⟨_ | a, w₁, t⟩ := out
      · constructor
        · intro h
          cases h
          exact .inl ⟨_, rfl, rfl⟩
        · rintro (⟨e, h, rfl⟩ | ⟨a, w₁, t, w₂, h, _⟩)
          · cases h
            rfl
          · cases h
      · constructor
        · intro h
          obtain ⟨⟨r', w₂, t'⟩, hf, h⟩ := Option.map_eq_some_iff.mp h
          cases h
          exact .inr ⟨a, w₁, t, w₂, rfl, hf, rfl⟩
        · rintro (⟨e, h, rfl⟩ | ⟨a, w₁, t, w₂, h, hf, rfl⟩)
          · cases h
          · cases h
            simp only [hf, Option.map_some]

theorem ends_emit {e : ω} {r : Except ε Unit} :
    Ends (emit e : Traced σ ω ε Unit) s r w s' ↔ r = .ok () ∧ w = [e] ∧ s' = s := by
  constructor
  · intro h
    cases h
    exact ⟨rfl, rfl, rfl⟩
  · rintro ⟨rfl, rfl, rfl⟩
    rfl

theorem ends_fail {e : ε} {r : Except ε α} :
    Ends (fail e : Traced σ ω ε α) s r w s' ↔ r = .error e ∧ w = [] ∧ s' = s := by
  constructor
  · intro h
    cases h
    exact ⟨rfl, rfl, rfl⟩
  · rintro ⟨rfl, rfl, rfl⟩
    rfl

theorem ends_getState {r : Except ε σ} :
    Ends (getState : Traced σ ω ε σ) s r w s' ↔ r = .ok s ∧ w = [] ∧ s' = s := by
  constructor
  · intro h
    cases h
    exact ⟨rfl, rfl, rfl⟩
  · rintro ⟨rfl, rfl, rfl⟩
    rfl

theorem ends_modifyState {g : σ → σ} {r : Except ε Unit} :
    Ends (modifyState g : Traced σ ω ε Unit) s r w s' ↔ r = .ok () ∧ w = [] ∧ s' = g s := by
  constructor
  · intro h
    cases h
    exact ⟨rfl, rfl, rfl⟩
  · rintro ⟨rfl, rfl, rfl⟩
    rfl

theorem ends_attempt {r : Except ε (Except ε α)} :
    Ends (attempt x) s r w s' ↔ ∃ r', Ends x s r' w s' ∧ r = .ok r' := by
  simp only [Ends, attempt, Option.map_eq_some_iff]
  constructor
  · rintro ⟨⟨r', w', t⟩, hx, h⟩
    cases h
    exact ⟨r', hx, rfl⟩
  · rintro ⟨r', hx, rfl⟩
    exact ⟨_, hx, rfl⟩

theorem not_ends_wait {r : Except ε α} : ¬ Ends (wait : Traced σ ω ε α) s r w s' :=
  fun h => nomatch h

/-! A first part that always succeeds just hands on. -/

theorem ends_getState_bind {g : σ → Traced σ ω ε β} {r : Except ε β} :
    Ends (getState >>= g) s r w s' ↔ Ends (g s) s r w s' := by
  constructor
  · intro h
    rcases ends_bind.mp h with ⟨e, he, _⟩ | ⟨_, w₁, t, w₂, hget, hg, rfl⟩
    · cases (ends_getState.mp he).1
    · obtain ⟨ha, rfl, rfl⟩ := ends_getState.mp hget
      cases ha
      exact hg
  · exact fun h => ends_bind.mpr (.inr ⟨s, [], s, w, rfl, h, rfl⟩)

theorem ends_modifyState_bind {g : σ → σ} {y : Unit → Traced σ ω ε β} {r : Except ε β} :
    Ends (modifyState g >>= y) s r w s' ↔ Ends (y ()) (g s) r w s' := by
  constructor
  · intro h
    rcases ends_bind.mp h with ⟨e, he, _⟩ | ⟨_, w₁, t, w₂, hmod, hy, rfl⟩
    · cases (ends_modifyState.mp he).1
    · obtain ⟨_, rfl, rfl⟩ := ends_modifyState.mp hmod
      exact hy
  · exact fun h => ends_bind.mpr (.inr ⟨(), [], g s, w, rfl, h, rfl⟩)

theorem ends_emit_bind {e : ω} {y : Unit → Traced σ ω ε β} {r : Except ε β} :
    Ends (emit e >>= y) s r w s' ↔ ∃ w', w = e :: w' ∧ Ends (y ()) s r w' s' := by
  constructor
  · intro h
    rcases ends_bind.mp h with ⟨e, he, _⟩ | ⟨_, w₁, t, w₂, hemit, hy, rfl⟩
    · cases (ends_emit.mp he).1
    · obtain ⟨_, rfl, rfl⟩ := ends_emit.mp hemit
      exact ⟨w₂, rfl, hy⟩
  · rintro ⟨w', rfl, h⟩
    exact ends_bind.mpr (.inr ⟨(), [e], s, w', rfl, h, rfl⟩)

/-- An attempt is followed by what its result asks for. -/
theorem ends_attempt_bind {g : Except ε α → Traced σ ω ε β} {r : Except ε β} :
    Ends (attempt x >>= g) s r w s' ↔
      ∃ result w₁ t w₂, Ends x s result w₁ t ∧ Ends (g result) t r w₂ s' ∧ w = w₁ ++ w₂ := by
  constructor
  · intro h
    rcases ends_bind.mp h with ⟨e, he, _⟩ | ⟨_, w₁, t, w₂, hatt, hg, rfl⟩
    · obtain ⟨_, _, he⟩ := ends_attempt.mp he
      cases he
    · obtain ⟨result, hx, ha⟩ := ends_attempt.mp hatt
      cases ha
      exact ⟨_, w₁, t, w₂, hx, hg, rfl⟩
  · rintro ⟨result, w₁, t, w₂, hx, hg, rfl⟩
    exact ends_bind.mpr (.inr ⟨result, w₁, t, w₂, ends_attempt.mpr ⟨result, hx, rfl⟩, hg, rfl⟩)

/-! ## Frames -/

/-- A property of what happens on the way: it holds of nothing, and of one thing
after another. -/
structure Frame (σ ω : Type) where
  rel : σ → List ω → σ → Prop
  nil : ∀ s, rel s [] s
  append : ∀ {s t u w w'}, rel s w t → rel t w' u → rel s (w ++ w') u

/-- Whatever the program does stays within the frame, however it ends. -/
def Within (F : Frame σ ω) (x : Traced σ ω ε α) : Prop :=
  ∀ s r w s', Ends x s r w s' → F.rel s w s'

namespace Within

variable {F : Frame σ ω}

theorem pure (a : α) : Within F (Pure.pure a : Traced σ ω ε α) := by
  intro s r w s' h
  obtain ⟨_, rfl, rfl⟩ := ends_pure.mp h
  exact F.nil s'

theorem bind (hx : Within F x) (hf : ∀ a, Within F (f a)) : Within F (x >>= f) := by
  intro s r w s' h
  rcases ends_bind.mp h with ⟨e, hx', _⟩ | ⟨a, w₁, t, w₂, hx', hf', rfl⟩
  · exact hx s _ w s' hx'
  · exact F.append (hx s _ w₁ t hx') (hf a t r w₂ s' hf')

theorem emit {e : ω} (h : ∀ s, F.rel s [e] s) : Within F (Traced.emit e : Traced σ ω ε Unit) := by
  intro s r w s' hend
  obtain ⟨_, rfl, rfl⟩ := ends_emit.mp hend
  exact h s'

theorem fail (e : ε) : Within F (Traced.fail e : Traced σ ω ε α) := by
  intro s r w s' h
  obtain ⟨_, rfl, rfl⟩ := ends_fail.mp h
  exact F.nil s'

theorem getState : Within F (Traced.getState : Traced σ ω ε σ) := by
  intro s r w s' h
  obtain ⟨_, rfl, rfl⟩ := ends_getState.mp h
  exact F.nil s'

theorem modifyState {g : σ → σ} (h : ∀ s, F.rel s [] (g s)) :
    Within F (Traced.modifyState g : Traced σ ω ε Unit) := by
  intro s r w s' hend
  obtain ⟨_, rfl, rfl⟩ := ends_modifyState.mp hend
  exact h s

theorem attempt (hx : Within F x) : Within F (Traced.attempt x) := by
  intro s r w s' h
  obtain ⟨r', hx', _⟩ := ends_attempt.mp h
  exact hx s r' w s' hx'

theorem wait : Within F (Traced.wait : Traced σ ω ε α) := fun _ _ _ _ h => absurd h not_ends_wait

end Within

/-! ## Results -/

/-- Every result of the program has the property. -/
def Returns (R : Except ε α → Prop) (x : Traced σ ω ε α) : Prop :=
  ∀ s r w s', Ends x s r w s' → R r

theorem Returns.pure {R : Except ε α → Prop} {a : α} (h : R (.ok a)) :
    Returns R (Pure.pure a : Traced σ ω ε α) := by
  intro s r w s' hend
  obtain ⟨rfl, _, _⟩ := ends_pure.mp hend
  exact h

/-- What follows may rely on what the first part returns. -/
theorem Within.bind_of_returns {F : Frame σ ω} {R : Except ε α → Prop} (hx : Within F x)
    (hret : Returns R x) (hf : ∀ a, R (.ok a) → Within F (f a)) : Within F (x >>= f) := by
  intro s r w s' h
  rcases ends_bind.mp h with ⟨e, hx', _⟩ | ⟨a, w₁, t, w₂, hx', hf', rfl⟩
  · exact hx s _ w s' hx'
  · exact F.append (hx s _ w₁ t hx') (hf a (hret s _ w₁ t hx') t r w₂ s' hf')

theorem Returns.bind {R : Except ε β → Prop} (herr : ∀ e, R (.error e))
    (hf : ∀ a, Returns R (f a)) :
    Returns R (x >>= f) := by
  intro s r w s' hend
  rcases ends_bind.mp hend with ⟨e, _, rfl⟩ | ⟨a, _, t, w₂, _, hf', _⟩
  · exact herr e
  · exact hf a t r w₂ s' hf'

/-! ## Errors -/

/-- Every error of the program has the property. -/
def Throws (E : ε → Prop) (x : Traced σ ω ε α) : Prop :=
  ∀ s e w s', Ends x s (.error e) w s' → E e

namespace Throws

variable {E : ε → Prop}

theorem pure (a : α) : Throws E (Pure.pure a : Traced σ ω ε α) :=
  fun _ _ _ _ h => (by cases (ends_pure.mp h).1)

theorem emit (e : ω) : Throws E (Traced.emit e : Traced σ ω ε Unit) :=
  fun _ _ _ _ h => (by cases (ends_emit.mp h).1)

theorem modifyState (g : σ → σ) : Throws E (Traced.modifyState g : Traced σ ω ε Unit) :=
  fun _ _ _ _ h => (by cases (ends_modifyState.mp h).1)

theorem getState : Throws E (Traced.getState : Traced σ ω ε σ) :=
  fun _ _ _ _ h => (by cases (ends_getState.mp h).1)

theorem fail {e : ε} (h : E e) : Throws E (Traced.fail e : Traced σ ω ε α) := by
  intro s e' w s' hend
  cases (ends_fail.mp hend).1
  exact h

theorem bind (hx : Throws E x) (hf : ∀ a, Throws E (f a)) : Throws E (x >>= f) := by
  intro s e w s' h
  rcases ends_bind.mp h with ⟨e', hx', he⟩ | ⟨a, w₁, t, w₂, _, hf', _⟩
  · cases he
    exact hx s e w s' hx'
  · exact hf a t e w₂ s' hf'

end Throws

end Traced
