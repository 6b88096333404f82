/-
# `Lib.History` — sequential histories of concurrent calls

Calls are numbered in the order they are invoked.  A sequential object is a
function `op : σ → ι → σ × ρ` from a state and an operation to a state and a
result.  A log names calls with their operations and results in the order in
which they take effect; `Linearized` says that the object, run along the log,
gives these very results, and that a call which returned before another was
invoked stands in front of it.  A concurrent run is explained by growing a log,
one call at a time (`Linearized.concat`), at the moment each call takes effect.
-/
import Entmoot.Lib.Run
import Mathlib.Data.List.Range

namespace History

variable {σ ι ρ : Type*}

/-- The calls of a log, in order. -/
def ids (log : List (Nat × ι × ρ)) : List Nat := log.map Prod.fst

@[simp] theorem ids_concat (log : List (Nat × ι × ρ)) (e : Nat × ι × ρ) :
    ids (log ++ [e]) = ids log ++ [e.1] := by simp [ids]

variable [DecidableEq ρ] (op : σ → ι → σ × ρ)

/-- One operation replayed: only with the result recorded for it. -/
def replay (s : σ) (e : ι × ρ) : Option σ :=
  if (op s e.1).2 = e.2 then some (op s e.1).1 else none

theorem replay_self (s : σ) (i : ι) : replay op s (i, (op s i).2) = some (op s i).1 := if_pos rfl

/-- From `s₀` to `s` the object did what the log says, in an order that respects
`before`. -/
structure Linearized (before : Nat → Nat → Prop) (s₀ : σ) (log : List (Nat × ι × ρ)) (s : σ) :
    Prop where
  exec : Run.exec (replay op) s₀ (log.map Prod.snd) = some s
  nodup : (ids log).Nodup
  order : ∀ i ∈ ids log, ∀ j, before j i → [j, i].Sublist (ids log)

variable {op} {before before' : Nat → Nat → Prop} {s₀ s : σ} {log : List (Nat × ι × ρ)}

theorem Linearized.nil (s₀ : σ) : Linearized op before s₀ [] s₀ :=
  ⟨rfl, List.nodup_nil, fun _ hi => absurd hi List.not_mem_nil⟩

theorem Linearized.concat (h : Linearized op before s₀ log s) {i : Nat} (hi : i ∉ ids log) (x : ι)
    (hbefore : ∀ j, before j i → j ∈ ids log) :
    Linearized op before s₀ (log ++ [(i, x, (op s x).2)]) (op s x).1 where
  exec := by
    rw [List.map_append]
    exact Run.exec_concat.mpr ⟨s, h.exec, replay_self op s x⟩
  nodup := by
    rw [ids_concat]
    refine List.nodup_append.mpr ⟨h.nodup, List.pairwise_singleton _ _, fun j hj k hk => ?_⟩
    rw [List.mem_singleton] at hk
    subst hk
    exact ne_of_mem_of_not_mem hj hi
  order := by
    intro k hk j hj
    rw [ids_concat] at hk ⊢
    rcases List.mem_append.mp hk with hk | hk
    · exact (h.order k hk j hj).trans (List.sublist_append_left _ _)
    · rw [List.mem_singleton] at hk
      subst hk
      exact (List.singleton_sublist.mpr (hbefore j hj)).append (List.Sublist.refl [k])

/-- Only what is required of the calls in the log matters. -/
theorem Linearized.mono (h : Linearized op before s₀ log s)
    (hb : ∀ i ∈ ids log, ∀ j, before' j i → before j i) : Linearized op before' s₀ log s :=
  ⟨h.exec, h.nodup, fun i hi j hj => h.order i hi j (hb i hi j hj)⟩

/-- A log of all calls below `n` is an order of them. -/
theorem Linearized.perm (h : Linearized op before s₀ log s) {n : Nat}
    (hall : ∀ i, i ∈ ids log ↔ i < n) : (ids log).Perm (List.range n) :=
  (List.perm_ext_iff_of_nodup h.nodup List.nodup_range).mpr fun i => by
    rw [hall, List.mem_range]

end History
