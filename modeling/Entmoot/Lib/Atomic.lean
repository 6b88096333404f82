/-
# `Lib.Atomic` — files that change in one go

Files are changed by writes, renames and removals.  A process that stops has done an
initial part of its operations, and a write it was at may have left anything in its file
(`Stopped`).  A file that is only removed, or replaced by renaming a temporary file, is
never seen half-changed: if the updates concern different files, then each of these, read
after a stop, holds what it held before the updates or what it holds after all of them
(`stopped_cases`).
-/
import Mathlib.Logic.Function.Basic
import Mathlib.Data.List.Nodup

namespace Atomic

variable {P B : Type*} [DecidableEq P]

/-! ## Operations -/

inductive Op (P B : Type*) where
  | write (p : P) (b : B)
  | rename (src dst : P)
  | remove (p : P)

/-- What an operation does to the contents; a rename of nothing does nothing. -/
def Op.apply (d : P → Option B) : Op P B → P → Option B
  | .write p b => Function.update d p (some b)
  | .rename src dst =>
      match d src with
      | none => d
      | some b => Function.update (Function.update d src none) dst (some b)
  | .remove p => Function.update d p none

def applyAll (d : P → Option B) (ops : List (Op P B)) : P → Option B := ops.foldl Op.apply d

/-- What a stop can leave of the contents. -/
inductive Stopped : (P → Option B) → List (Op P B) → (P → Option B) → Prop
  | here (d : P → Option B) (ops : List (Op P B)) : Stopped d ops d
  | torn (d : P → Option B) (p : P) (b b' : B) (ops : List (Op P B)) :
      Stopped d (.write p b :: ops) (Function.update d p (some b'))
  | later (d d' : P → Option B) (op : Op P B) (ops : List (Op P B))
      (h : Stopped (op.apply d) ops d') :
      Stopped d (op :: ops) d'

theorem stopped_append {ops ops' : List (Op P B)} :
    ∀ {d d' : P → Option B}, Stopped d (ops ++ ops') d' →
    Stopped d ops d' ∨ Stopped (applyAll d ops) ops' d' := by
  induction ops with
  | nil => exact fun h => .inr h
  | cons op ops ih =>
      intro d d' h
      cases h with
      | here => exact .inl (.here d _)
      | torn => exact .inl (.torn _ _ _ _ _)
      | later _ _ _ _ h => exact (ih h).imp_left (.later d d' op ops)

/-! ## Updates -/

/-- A file removed, or replaced by way of a temporary file. -/
inductive Update (P B : Type*) where
  | remove (p : P)
  | replace (p tmp : P) (b : B)

namespace Update

def target : Update P B → P
  | .remove p => p
  | .replace p _ _ => p

def tmp : Update P B → Option P
  | .remove _ => none
  | .replace _ tmp _ => some tmp

/-- What the file holds afterwards. -/
def content : Update P B → Option B
  | .remove _ => none
  | .replace _ _ b => some b

def ops : Update P B → List (Op P B)
  | .remove p => [.remove p]
  | .replace p tmp b => [.write tmp b, .rename tmp p]

end Update

def runAll (d : P → Option B) (us : List (Update P B)) : P → Option B :=
  applyAll d (us.flatMap Update.ops)

theorem runAll_cons (d : P → Option B) (u : Update P B) (us : List (Update P B)) :
    runAll d (u :: us) = runAll (applyAll d u.ops) us := by
  rw [runAll, List.flatMap_cons, applyAll, List.foldl_append]
  rfl

theorem runAll_append (d : P → Option B) (us us' : List (Update P B)) :
    runAll d (us ++ us') = runAll (runAll d us) us' := by
  rw [runAll, List.flatMap_append, applyAll, List.foldl_append]
  rfl

/-- After a replacement the temporary file is gone. -/
theorem apply_replace (d : P → Option B) (p tmp : P) (b : B) :
    applyAll d (Update.replace p tmp b).ops =
      Function.update (Function.update d tmp none) p (some b) := by
  show (Op.rename tmp p).apply (Function.update d tmp (some b)) = _
  rw [Op.apply, Function.update_self]
  dsimp only
  rw [Function.update_idem]

theorem applyAll_ops (d : P → Option B) (u : Update P B) {p : P} (hp : u.tmp ≠ some p) :
    applyAll d u.ops p = if p = u.target then u.content else d p := by
  cases u with
  | remove q =>
      show Function.update d q none p = _
      exact Function.update_apply d q none p
  | replace q tmp b =>
      have hne : p ≠ tmp := fun h => hp (congrArg some h.symm)
      rw [apply_replace]
      show _ = if p = q then some b else d p
      rw [Function.update_apply, Function.update_of_ne hne]

theorem stopped_ops {d d' : P → Option B} {u : Update P B} (h : Stopped d u.ops d') {p : P}
    (hp : u.tmp ≠ some p) : d' p = d p ∨ d' = applyAll d u.ops := by
  cases u with
  | remove q =>
      cases h with
      | here => exact .inl rfl
      | later _ _ _ _ h =>
          cases h with
          | here => exact .inr rfl
  | replace q tmp b =>
      have hne : p ≠ tmp := fun h => hp (congrArg some h.symm)
      cases h with
      | here => exact .inl rfl
      | torn _ _ b' => exact .inl (Function.update_of_ne hne _ _)
      | later _ _ _ _ h =>
          cases h with
          | here => exact .inl (Function.update_of_ne hne _ _)
          | later _ _ _ _ h =>
              cases h with
              | here => exact .inr rfl

/-- Other files stay. -/
theorem runAll_other {us : List (Update P B)} :
    ∀ {d : P → Option B} {p : P}, (∀ u ∈ us, u.tmp ≠ some p) →
    p ∉ us.map Update.target → runAll d us p = d p := by
  induction us with
  | nil => exact fun _ _ => rfl
  | cons u us ih =>
      intro d p hp hmem
      obtain ⟨hu, hus⟩ := List.forall_mem_cons.mp hp
      rw [List.map_cons, List.mem_cons, not_or] at hmem
      rw [runAll_cons, ih hus hmem.2, applyAll_ops d u hu, if_neg hmem.1]

/-- **A stop leaves each file as before or as after.** -/
theorem stopped_cases {us : List (Update P B)} : ∀ {d d' : P → Option B} {p : P},
    (us.map Update.target).Nodup → (∀ u ∈ us, u.tmp ≠ some p) →
      Stopped d (us.flatMap Update.ops) d' → d' p = d p ∨ d' p = runAll d us p := by
  induction us with
  | nil =>
      intro d d' p _ _ h
      cases h with
      | here => exact .inl rfl
  | cons u us ih =>
      intro d d' p hnodup hp h
      obtain ⟨hu, hus⟩ := List.forall_mem_cons.mp hp
      obtain ⟨hfresh, hnodup⟩ := List.nodup_cons.mp hnodup
      have hother : p = u.target → runAll (applyAll d u.ops) us p = applyAll d u.ops p :=
        fun htarget => runAll_other hus (htarget ▸ hfresh)
      have hsame : p ≠ u.target → applyAll d u.ops p = d p := by
        intro hne
        rw [applyAll_ops d u hu, if_neg hne]
      rw [List.flatMap_cons] at h
      rw [runAll_cons]
      by_cases htarget : p = u.target
      · rw [hother htarget]
        rcases stopped_append h with h | h
        · exact (stopped_ops h hu).imp_right fun heq => congrFun heq p
        · rcases ih hnodup hus h with h | h
          · exact .inr h
          · exact .inr (h.trans (hother htarget))
      · rcases stopped_append h with h | h
        · rcases stopped_ops h hu with h | h
          · exact .inl h
          · exact .inl ((congrFun h p).trans (hsame htarget))
        · rcases ih hnodup hus h with h | h
          · exact .inl (h.trans (hsame htarget))
          · exact .inr h

end Atomic
