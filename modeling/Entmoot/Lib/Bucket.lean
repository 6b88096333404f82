/-
# `Lib.Bucket` — token buckets and windows

A bucket holds at most `capacity` tokens, gains `rate` of them per unit of time, and
gives one to each call that finds one.  What it holds is one number; what it promises
is about every stretch of calls at once.  The two are the same: as long as no call was
refused, the level at call `n` is the least of `capacity + rate * (tₙ - tⱼ) - (n - j)`
over `j ≤ n` (`le_level_iff`), so call `n` is the first one refused exactly if the
calls `j … n` for some `j` are too many for their stretch of time
(`isLeast_refused_iff`).
-/
import Mathlib.Algebra.Order.Field.Basic
import Mathlib.Order.Bounds.Basic
import Mathlib.Tactic.Ring
import Mathlib.Tactic.Linarith

structure Bucket (K : Type*) where
  capacity : K
  rate : K
  tokens : K
  last : K

namespace Bucket

variable {K : Type*} [Field K] [LinearOrder K] [IsStrictOrderedRing K]

def full (capacity rate now : K) : Bucket K := ⟨capacity, rate, capacity, now⟩

def refill (b : Bucket K) (now : K) : Bucket K :=
  { b with tokens := min (b.tokens + b.rate * (now - b.last)) b.capacity, last := now }

def hasToken (b : Bucket K) : Bool := decide (1 ≤ b.tokens)

/-- One call: the bucket refilled, and one token less if there is one. -/
def take (b : Bucket K) (now : K) : Bucket K :=
  if (b.refill now).hasToken then { b.refill now with tokens := (b.refill now).tokens - 1 }
  else b.refill now

/-- The bucket before call `n` of the calls at times `t`. -/
def before (b : Bucket K) (t : ℕ → K) : ℕ → Bucket K
  | 0 => b
  | n + 1 => (b.before t n).take (t n)

/-- Whether call `n` finds a token. -/
def gives (b : Bucket K) (t : ℕ → K) (n : ℕ) : Bool := ((b.before t n).refill (t n)).hasToken

/-- What call `n` finds if every call before it took a token. -/
def level (capacity rate : K) (t : ℕ → K) : ℕ → K
  | 0 => capacity
  | n + 1 => min (level capacity rate t n - 1 + rate * (t (n + 1) - t n)) capacity

/-- The calls `j … n` are more than their stretch of time and a full bucket allow. -/
def Exceeds (capacity rate : K) (t : ℕ → K) (j n : ℕ) : Prop :=
  capacity + rate * (t n - t j) < (n : K) - j + 1

/-! ## The level as a minimum over all windows -/

variable {capacity rate : K} {t : ℕ → K} {n : ℕ}

/-- **The level is the least of what the windows leave.** -/
theorem le_level_iff {x : K} :
    x ≤ level capacity rate t n ↔
      ∀ j ≤ n, x ≤ capacity + rate * (t n - t j) - ((n : K) - j) := by
  induction n generalizing x with
  | zero => simp [level]
  | succ n ih =>
      have hshift : x ≤ level capacity rate t n - 1 + rate * (t (n + 1) - t n) ↔
          x + 1 - rate * (t (n + 1) - t n) ≤ level capacity rate t n := by
        constructor <;> intro h <;> linarith
      -- a window that ends one call later is longer by that call
      have hwindow : ∀ j, x + 1 - rate * (t (n + 1) - t n) ≤
          capacity + rate * (t n - t j) - ((n : K) - j) ↔
          x ≤ capacity + rate * (t (n + 1) - t j) - (((n + 1 : ℕ) : K) - j) := by
        intro j
        push_cast
        constructor <;> intro h <;> linarith [mul_sub rate (t (n + 1)) (t n), mul_sub rate (t n)
          (t j),
          mul_sub rate (t (n + 1)) (t j)]
      rw [level, le_min_iff, hshift, ih]
      constructor
      · rintro ⟨hold, hcap⟩ j hj
        rcases Nat.le_succ_iff.mp hj with h | rfl
        · exact (hwindow j).mp (hold j h)
        · simpa using hcap
      · intro h
        exact ⟨fun j hj => (hwindow j).mpr (h j (by omega)), by simpa using h (n + 1) le_rfl⟩

theorem level_lt_one_iff : level capacity rate t n < 1 ↔ ∃ j ≤ n, Exceeds capacity rate t j n := by
  rw [← not_le, le_level_iff]
  simp only [not_forall, not_le, Exceeds, exists_prop]
  refine exists_congr fun j => and_congr_right fun _ => ?_
  constructor <;> intro h <;> linarith

/-! ## The level and the bucket -/

omit [IsStrictOrderedRing K] in
theorem take_of_hasToken {b : Bucket K} {now : K} (h : (b.refill now).hasToken = true) :
    b.take now = { b.refill now with tokens := (b.refill now).tokens - 1 } := by
  rw [take, if_pos h]

/-- As long as every call finds a token, a bucket full at the start stands at its level. -/
theorem refill_before_eq {start : K} (hrate : 0 ≤ rate) (hstart : start ≤ t 0)
    (h : ∀ i < n, gives (full capacity rate start) t i = true) :
    ((full capacity rate start).before t n).refill (t n) =
      ⟨capacity, rate, level capacity rate t n, t n⟩ := by
  induction n with
  | zero =>
      have hgain : 0 ≤ rate * (t 0 - start) := mul_nonneg hrate (sub_nonneg.mpr hstart)
      simp only [before, full, refill, level, Bucket.mk.injEq, and_true, true_and]
      exact min_eq_right (by linarith)
  | succ n ih =>
      have hn : (((full capacity rate start).before t n).refill (t n)).hasToken = true :=
        h n (by omega)
      have hlevel := ih fun i hi => h i (by omega)
      rw [before, take_of_hasToken hn, hlevel]
      rfl

theorem gives_iff {start : K} (hrate : 0 ≤ rate) (hstart : start ≤ t 0)
    (h : ∀ i < n, gives (full capacity rate start) t i = true) :
    gives (full capacity rate start) t n = true ↔ ∀ j ≤ n, ¬ Exceeds capacity rate t j n := by
  rw [gives, refill_before_eq hrate hstart h, hasToken, decide_eq_true_eq, ← not_lt,
    level_lt_one_iff]
  simp

theorem all_give_iff {start : K} (hrate : 0 ≤ rate) (hstart : start ≤ t 0) :
    (∀ i < n, gives (full capacity rate start) t i = true) ↔
      ∀ i < n, ∀ j ≤ i, ¬ Exceeds capacity rate t j i := by
  induction n with
  | zero => simp
  | succ n ih =>
      constructor
      · intro h i hi
        exact (gives_iff hrate hstart fun k hk => h k (by omega)).mp (h i hi)
      · intro h i hi
        have hprev := ih.mpr fun k hk => h k (by omega)
        rcases Nat.lt_succ_iff_lt_or_eq.mp hi with hlt | rfl
        · exact hprev i hlt
        · exact (gives_iff hrate hstart hprev).mpr (h i hi)

theorem isLeast_iff {S : Set ℕ} : IsLeast S n ↔ (∀ i < n, i ∉ S) ∧ n ∈ S := by
  constructor
  · rintro ⟨hn, hle⟩
    exact ⟨fun i hi hmem => absurd (hle hmem) (by omega), hn⟩
  · rintro ⟨hbefore, hn⟩
    exact ⟨hn, fun i hi => not_lt.mp fun hlt => hbefore i hlt hi⟩

/-- **The first call refused is the first one to end too full a window.** -/
theorem isLeast_refused_iff {start : K} (hrate : 0 ≤ rate) (hstart : start ≤ t 0) :
    IsLeast {n | gives (full capacity rate start) t n = false} n ↔
      IsLeast {n | ∃ j ≤ n, Exceeds capacity rate t j n} n := by
  simp only [isLeast_iff, Set.mem_ofPred_eq, Bool.not_eq_false, not_exists, not_and,
    all_give_iff hrate hstart]
  refine and_congr_right fun hbefore => ?_
  have hn := gives_iff hrate hstart ((all_give_iff hrate hstart).mpr hbefore)
  rw [← Bool.not_eq_true, hn]
  simp

theorem gives_of_not_exceeds {start : K} (hrate : 0 ≤ rate) (hstart : start ≤ t 0)
    (h : ∀ i, ∀ j ≤ i, ¬ Exceeds capacity rate t j i) (n : ℕ) :
    gives (full capacity rate start) t n = true :=
  (all_give_iff hrate hstart).mpr (fun i _ => h i) n (Nat.lt_succ_self n)

end Bucket
