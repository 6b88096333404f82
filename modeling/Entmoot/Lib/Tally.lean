/-
# `Lib.Tally` — sums over the values of a finite map

What a table adds up to, and what an insertion, a removal, a filter and a change
of one value do to the sum.  Each equation has the old sum on one side and the
new one on the other, with what went out beside the new sum and what came in
beside the old, so that nothing is ever subtracted.
-/
import Mathlib.Algebra.BigOperators.Group.List.Basic
import Entmoot.Lib.Keyed

namespace Keyed

variable {κ ν M : Type*} [DecidableEq κ]

section
variable [AddCommMonoid M]

/-- The sum of `f` over the values. -/
def tally (f : ν → M) (m : AList fun _ : κ => ν) : M := ((pairs m).map fun e => f e.2).sum

/-- What a key contributes. -/
def share (f : ν → M) (m : AList fun _ : κ => ν) (k : κ) : M := (m.lookup k).elim 0 f

theorem share_of_lookup {f : ν → M} {m : AList fun _ : κ => ν} {k : κ} {v : ν}
    (h : m.lookup k = some v) : share f m k = f v := by
  rw [share, h]
  rfl

omit [DecidableEq κ] in
theorem tally_entries (f : ν → M) (m : AList fun _ : κ => ν) :
    tally f m = (m.entries.map fun e => f e.2).sum := by
  rw [tally, pairs, List.map_map]
  rfl

theorem tally_erase (f : ν → M) (m : AList fun _ : κ => ν) (k : κ) :
    tally f (m.erase k) + share f m k = tally f m := by
  by_cases hk : k ∈ m
  · obtain ⟨v, l₁, l₂, -, hm, herase⟩ := List.exists_of_kerase hk
    have hv : m.lookup k = some v := by
      have hmem : (⟨k, v⟩ : Σ _ : κ, ν) ∈ m.entries := by
        rw [hm]
        exact List.mem_append_right _ (.head _)
      exact AList.mem_lookup_iff.mpr hmem
    have hgone : (m.erase k).entries = l₁ ++ l₂ := herase
    rw [share_of_lookup hv, tally_entries, tally_entries, hgone, hm]
    simp only [List.map_append, List.map_cons, List.sum_append, List.sum_cons]
    rw [add_assoc, add_comm _ (f v)]
  · have hsame : (m.erase k).entries = m.entries := List.kerase_of_notMem_keys hk
    rw [share, AList.lookup_eq_none.mpr hk, tally_entries, tally_entries, hsame]
    exact add_zero _

theorem tally_insert (f : ν → M) (m : AList fun _ : κ => ν) (k : κ) (v : ν) :
    tally f (m.insert k v) + share f m k = tally f m + f v := by
  have hcons : tally f (m.insert k v) = f v + tally f (m.erase k) := by
    rw [tally_entries, tally_entries]
    exact List.sum_cons
  rw [hcons, add_assoc, tally_erase, add_comm]

omit [DecidableEq κ] in
/-- A filtered map and what the filter takes away. -/
theorem tally_retain (f : ν → M) (p : κ → ν → Bool) (m : AList fun _ : κ => ν) :
    tally f (retain p m) + tally f (retain (fun k v => !p k v) m) = tally f m := by
  rw [tally_entries, tally_entries, tally_entries, ← List.sum_append, ← List.map_append]
  exact ((List.filter_append_perm (fun e : Σ _ : κ, ν => p e.1 e.2) m.entries).map _).sum_eq

theorem tally_congr {f g : ν → M} {m : AList fun _ : κ => ν}
    (h : ∀ k v, m.lookup k = some v → f v = g v) : tally f m = tally g m := by
  refine congrArg List.sum (List.map_congr_left fun e he => ?_)
  exact h e.1 e.2 (mem_pairs.mp he)

theorem tally_change {f g : ν → M} {m : AList fun _ : κ => ν} (k : κ)
    (h : ∀ k' v, m.lookup k' = some v → k' ≠ k → g v = f v) :
    tally g m + share f m k = tally f m + share g m k := by
  have hrest : tally g (m.erase k) = tally f (m.erase k) := by
    refine tally_congr fun k' v hv => ?_
    rw [lookup_erase] at hv
    split at hv
    · cases hv
    · next hne => exact h k' v hv hne
  rw [← tally_erase g m k, ← tally_erase f m k, hrest, add_right_comm]

end

/-- A sum of naturals vanishes only if all of them do. -/
theorem tally_eq_zero {f : ν → Nat} {m : AList fun _ : κ => ν} :
    tally f m = 0 ↔ ∀ k v, m.lookup k = some v → f v = 0 := by
  rw [tally, List.sum_eq_zero_iff_forall_eq_nat]
  constructor
  · intro h k v hv
    exact h _ (List.mem_map.mpr ⟨(k, v), mem_pairs.mpr hv, rfl⟩)
  · intro h x hx
    obtain ⟨e, he, rfl⟩ := List.mem_map.mp hx
    exact h e.1 e.2 (mem_pairs.mp he)

end Keyed
