/-
# `Lib.Keyed` — finite maps with one type of value

Mathlib's `AList` at a constant family: the two `lookup` equations in the form
the proofs use (`if` on the key), the entries as plain pairs, filtering by key
and value (`retain`), and a run of insertions (`insertAll`), whose lookup is the
last pair with that key.
-/
import Mathlib.Data.List.AList
import Mathlib.Data.List.Induction

namespace Keyed

variable {κ ν : Type*} [DecidableEq κ]

theorem lookup_insert (m : AList fun _ : κ => ν) (k k' : κ) (v : ν) :
    (m.insert k v).lookup k' = if k' = k then some v else m.lookup k' := by
  split
  · next h => rw [h, AList.lookup_insert]
  · next h => rw [AList.lookup_insert_ne h]

theorem lookup_erase (m : AList fun _ : κ => ν) (k k' : κ) :
    (m.erase k).lookup k' = if k' = k then none else m.lookup k' := by
  split
  · next h => rw [h, AList.lookup_erase]
  · next h => rw [AList.lookup_erase_ne h]

/-! ## Entries as pairs -/

/-- The entries, as pairs. -/
def pairs (m : AList fun _ : κ => ν) : List (κ × ν) := m.entries.map fun e => (e.1, e.2)

theorem mem_pairs {m : AList fun _ : κ => ν} {k : κ} {v : ν} :
    (k, v) ∈ pairs m ↔ m.lookup k = some v := by
  have h : m.lookup k = some v ↔ (⟨k, v⟩ : Σ _ : κ, ν) ∈ m.entries := AList.mem_lookup_iff
  rw [h, pairs, List.mem_map]
  constructor
  · rintro ⟨⟨k', v'⟩, hmem, heq⟩
    cases heq
    exact hmem
  · exact fun hmem => ⟨_, hmem, rfl⟩

omit [DecidableEq κ] in
theorem pairs_keys (m : AList fun _ : κ => ν) : (pairs m).map Prod.fst = m.keys := by
  rw [pairs, List.map_map]
  rfl

omit [DecidableEq κ] in
theorem pairs_nodup (m : AList fun _ : κ => ν) : ((pairs m).map Prod.fst).Nodup := by
  rw [pairs_keys]
  exact m.keys_nodup

/-! ## Filtering -/

/-- `HashMap::retain`: the entries that pass `p`. -/
def retain (p : κ → ν → Bool) (m : AList fun _ : κ => ν) : AList fun _ : κ => ν :=
  ⟨m.entries.filter fun e => p e.1 e.2, m.nodupKeys.sublist List.filter_sublist⟩

theorem lookup_retain (p : κ → ν → Bool) (m : AList fun _ : κ => ν) (k : κ) :
    (retain p m).lookup k = (m.lookup k).filter (p k) := by
  ext v
  have h : ∀ n : AList fun _ : κ => ν, n.lookup k = some v ↔ (⟨k, v⟩ : Σ _ : κ, ν) ∈ n.entries :=
    fun n => AList.mem_lookup_iff
  rw [h, Option.filter_eq_some_iff, h]
  exact List.mem_filter

/-! ## A run of insertions -/

/-- Insert the pairs of a list, one after the other. -/
def insertAll (m : AList fun _ : κ => ν) (l : List (κ × ν)) : AList fun _ : κ => ν :=
  l.foldl (fun m e => m.insert e.1 e.2) m

@[simp] theorem insertAll_cons (m : AList fun _ : κ => ν) (e : κ × ν) (l : List (κ × ν)) :
    insertAll m (e :: l) = insertAll (m.insert e.1 e.2) l := rfl

theorem insertAll_append (m : AList fun _ : κ => ν) (l l' : List (κ × ν)) :
    insertAll m (l ++ l') = insertAll (insertAll m l) l' := List.foldl_append

/-- A key the list does not mention keeps its value. -/
theorem lookup_insertAll_of_notMem {k : κ} :
    ∀ {l : List (κ × ν)} {m : AList fun _ : κ => ν}, k ∉ l.map Prod.fst →
      (insertAll m l).lookup k = m.lookup k
  | [], _, _ => rfl
  | e :: l, m, h => by
      simp only [List.map_cons, List.mem_cons, not_or] at h
      rw [insertAll_cons, lookup_insertAll_of_notMem h.2, lookup_insert, if_neg h.1]

theorem lookup_insertAll_concat (m : AList fun _ : κ => ν) (l : List (κ × ν)) (e : κ × ν) (k : κ) :
    (insertAll m (l ++ [e])).lookup k = if k = e.1 then some e.2 else (insertAll m l).lookup k := by
  rw [insertAll_append]
  exact lookup_insert _ _ _ _

/-- The value of the last pair with a key. -/
def lastValue (k : κ) (l : List (κ × ν)) : Option ν :=
  (l.filter fun e => e.1 = k).getLast?.map Prod.snd

theorem lastValue_concat (k : κ) (l : List (κ × ν)) (e : κ × ν) :
    lastValue k (l ++ [e]) = if e.1 = k then some e.2 else lastValue k l := by
  rw [lastValue, List.filter_append]
  split
  · next h => simp [h]
  · next h => simp [h, lastValue]

/-- Behind the last pair with a key there is no other. -/
theorem split_of_lastValue {k : κ} {v : ν} {l : List (κ × ν)} (h : lastValue k l = some v) :
    ∃ before after, l = before ++ (k, v) :: after ∧ ∀ v', (k, v') ∉ after := by
  induction l using List.reverseRecOn with
  | nil => cases h
  | append_singleton l e ih =>
      rw [lastValue_concat] at h
      split at h
      · next hk =>
        cases h
        cases hk
        exact ⟨l, [], rfl, fun _ => List.not_mem_nil⟩
      · next hk =>
        obtain ⟨before, after, rfl, hno⟩ := ih h
        refine ⟨before, after ++ [e], List.append_assoc _ _ _, fun v' hmem => ?_⟩
        rcases List.mem_append.mp hmem with hmem | hmem
        · exact hno v' hmem
        · exact hk (congrArg Prod.fst (List.mem_singleton.mp hmem)).symm

theorem mem_of_lastValue {k : κ} {v : ν} {l : List (κ × ν)} (h : lastValue k l = some v) :
    (k, v) ∈ l := by
  obtain ⟨before, after, rfl, -⟩ := split_of_lastValue h
  exact List.mem_append_right before List.mem_cons_self

theorem lookup_insertAll (m : AList fun _ : κ => ν) (l : List (κ × ν)) (k : κ) :
    (insertAll m l).lookup k = (lastValue k l).or (m.lookup k) := by
  induction l using List.reverseRecOn with
  | nil => rfl
  | append_singleton l e ih =>
      rw [lookup_insertAll_concat, lastValue_concat, ih]
      by_cases h : e.1 = k
      · rw [if_pos h, if_pos h.symm, Option.some_or]
      · rw [if_neg h, if_neg (fun hk => h hk.symm)]

/-- A pair that is the only one with its key is found. -/
theorem lookup_insertAll_of_unique {k : κ} {v : ν} :
    ∀ {l : List (κ × ν)} {m : AList fun _ : κ => ν}, (k, v) ∈ l → (∀ v', (k, v') ∈ l → v' = v) →
      (insertAll m l).lookup k = some v := by
  intro l
  induction l with
  | nil => exact fun h _ => absurd h List.not_mem_nil
  | cons e l ih =>
      intro m hmem huniq
      have hrest : ∀ v', (k, v') ∈ l → v' = v := fun v' h => huniq v' (List.mem_cons_of_mem _ h)
      rw [insertAll_cons]
      by_cases hk : k ∈ l.map Prod.fst
      · obtain ⟨⟨_, v'⟩, he, rfl⟩ := List.mem_map.mp hk
        exact ih (hrest v' he ▸ he) hrest
      · rcases List.mem_cons.mp hmem with rfl | hl
        · rw [lookup_insertAll_of_notMem hk, lookup_insert, if_pos rfl]
        · exact absurd (List.mem_map_of_mem hl) hk

/-- With distinct keys, every pair of the list is found. -/
theorem lookup_insertAll_of_mem {k : κ} {v : ν} {l : List (κ × ν)} {m : AList fun _ : κ => ν}
    (hnd : (l.map Prod.fst).Nodup) (h : (k, v) ∈ l) : (insertAll m l).lookup k = some v := by
  refine lookup_insertAll_of_unique h fun v' h' => ?_
  have heq := List.inj_on_of_nodup_map hnd h' h rfl
  exact congrArg Prod.snd heq

/-- Inserting the pairs of a map over another: the map where it has a value, the
other elsewhere. -/
theorem lookup_insertAll_of_perm {m m' : AList fun _ : κ => ν} {l : List (κ × ν)}
    (hl : l.Perm (pairs m')) (k : κ) :
    (insertAll m l).lookup k = (m'.lookup k).or (m.lookup k) := by
  have hnd : (l.map Prod.fst).Nodup := (hl.map Prod.fst).nodup_iff.mpr (pairs_nodup m')
  cases h : m'.lookup k with
  | some v => exact lookup_insertAll_of_mem hnd (hl.mem_iff.mpr (mem_pairs.mpr h))
  | none =>
      have hk : k ∉ l.map Prod.fst := by
        rw [(hl.map Prod.fst).mem_iff, pairs_keys]
        exact AList.lookup_eq_none.mp h
      exact lookup_insertAll_of_notMem hk

end Keyed
