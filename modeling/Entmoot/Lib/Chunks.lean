/-
# `Lib.Chunks` — patterns over lists of chunks, and when some cover another

A key is a list of chunks, some of which are verbatim: no wildcard stands for
them.  A pattern is a list of parts, each a literal chunk, `one` (exactly one
chunk) or `many` (any number of them), and `accepts` is its meaning.

Containment is decided part by part (`covers`), which is sound for every pattern
(`accepts_of_covers`) and complete against a union of patterns as soon as the
contained one has no `many` and one chunk is left that no pattern names
(`covers_of_accepts_fresh`): that chunk put for every wildcard makes a key only a
covering pattern accepts.  A final `many` is all the numbers of `one` it stands
for (`accepts_iff_spread`), and together they say when a union of patterns
contains another (`contains_iff`).
-/
import Mathlib.Data.List.Basic

namespace Chunks

/-- One part of a pattern. -/
inductive Pat (α : Type*) where
  | lit (a : α)
  | one
  | many
  deriving DecidableEq

variable {α : Type*} [DecidableEq α] (verbatim : α → Bool)

/-- Which lists of chunks a pattern accepts. -/
def accepts : List (Pat α) → List α → Bool
  | [], ks => ks.isEmpty
  | .lit a :: ps, ks =>
      match ks with
      | [] => false
      | k :: ks => decide (k = a) && accepts ps ks
  | .one :: ps, ks =>
      match ks with
      | [] => false
      | k :: ks => !verbatim k && accepts ps ks
  | .many :: ps, ks =>
      (List.range (ks.length + 1)).any fun n =>
        (ks.take n).all (fun k => !verbatim k) && accepts ps (ks.drop n)

/-- `many` stands at most at the end. -/
def Final : List (Pat α) → Prop
  | [] => True
  | p :: ps => (p = .many → ps = []) ∧ Final ps

variable {verbatim} {ps o i : List (Pat α)} {ks : List α}

/-- `many`: some chunks at the front, none of them verbatim. -/
theorem accepts_many_iff : accepts verbatim (.many :: ps) ks = true ↔
    ∃ front rest, ks = front ++ rest ∧ (∀ k ∈ front, verbatim k = false) ∧
      accepts verbatim ps rest = true := by
  simp only [accepts, List.any_eq_true, List.mem_range, Bool.and_eq_true, List.all_eq_true,
    Bool.not_eq_true']
  constructor
  · rintro ⟨n, _, hfront, hrest⟩
    exact ⟨ks.take n, ks.drop n, (List.take_append_drop n ks).symm, hfront, hrest⟩
  · rintro ⟨front, rest, rfl, hfront, hrest⟩
    refine ⟨front.length, ?_, ?_, ?_⟩
    · rw [List.length_append]
      omega
    · rwa [List.take_left]
    · rwa [List.drop_left]

theorem accepts_many_nil : accepts verbatim [.many] ks = true ↔ ∀ k ∈ ks, verbatim k = false := by
  rw [accepts_many_iff]
  constructor
  · rintro ⟨front, rest, rfl, hfront, hrest⟩
    rw [accepts, List.isEmpty_iff] at hrest
    rwa [hrest, List.append_nil]
  · intro h
    exact ⟨ks, [], (List.append_nil ks).symm, h, rfl⟩

theorem accepts_lits_iff {pre : List α} : accepts verbatim (pre.map .lit ++ ps) ks = true ↔
    ∃ rest, ks = pre ++ rest ∧ accepts verbatim ps rest = true := by
  induction pre generalizing ks with
  | nil => simp
  | cons a pre ih =>
      cases ks with
      | nil => simp [accepts]
      | cons k ks =>
          simp only [List.map_cons, List.cons_append, accepts, Bool.and_eq_true, decide_eq_true_eq,
            ih, List.cons.injEq]
          constructor
          · rintro ⟨rfl, rest, rfl, h⟩
            exact ⟨rest, ⟨rfl, rfl⟩, h⟩
          · rintro ⟨rest, ⟨rfl, rfl⟩, h⟩
            exact ⟨rfl, rest, rfl, h⟩

/-! ## Covering -/

/-- A part that stands for no verbatim chunk. -/
def visible (verbatim : α → Bool) : Pat α → Bool
  | .lit a => !verbatim a
  | _ => true

/-- Whether the first pattern, `many` at its end at most, contains the second. -/
def covers (verbatim : α → Bool) : List (Pat α) → List (Pat α) → Bool
  | [], i => i.isEmpty
  | .many :: _, i => i.all (visible verbatim)
  | .one :: os, i =>
      match i with
      | [] | .many :: _ => false
      | p :: is => visible verbatim p && covers verbatim os is
  | .lit b :: os, i =>
      match i with
      | .lit a :: is => decide (a = b) && covers verbatim os is
      | _ => false

theorem accepts_visible (hi : ∀ p ∈ i, visible verbatim p = true)
    (h : accepts verbatim i ks = true) : ∀ k ∈ ks, verbatim k = false := by
  induction i generalizing ks with
  | nil =>
      rw [accepts, List.isEmpty_iff] at h
      intro k hk
      exact absurd (h ▸ hk) List.not_mem_nil
  | cons p ps ih =>
      have hps : ∀ q ∈ ps, visible verbatim q = true := fun q hq => hi q (.tail p hq)
      cases p with
      | many =>
          obtain ⟨front, rest, rfl, hfront, hrest⟩ := accepts_many_iff.mp h
          intro k hk
          rcases List.mem_append.mp hk with hk | hk
          · exact hfront k hk
          · exact ih hps hrest k hk
      | one =>
          cases ks with
          | nil => exact absurd h (by simp [accepts])
          | cons k ks =>
              simp only [accepts, Bool.and_eq_true, Bool.not_eq_true'] at h
              intro k' hk'
              rcases List.mem_cons.mp hk' with rfl | hk'
              · exact h.1
              · exact ih hps h.2 k' hk'
      | lit a =>
          cases ks with
          | nil => exact absurd h (by simp [accepts])
          | cons k ks =>
              simp only [accepts, Bool.and_eq_true, decide_eq_true_eq] at h
              have ha : visible verbatim (.lit a) = true := hi _ (.head _)
              rw [visible, Bool.not_eq_true'] at ha
              intro k' hk'
              rcases List.mem_cons.mp hk' with rfl | hk'
              · exact h.1 ▸ ha
              · exact ih hps h.2 k' hk'

/-- **Covering is sound**: the covering pattern accepts every key of the covered. -/
theorem accepts_of_covers (ho : Final o) (hc : covers verbatim o i = true)
    (h : accepts verbatim i ks = true) : accepts verbatim o ks = true := by
  induction o generalizing i ks with
  | nil =>
      rw [covers, List.isEmpty_iff] at hc
      subst hc
      exact h
  | cons p os ih =>
      cases p with
      | many =>
          obtain rfl := ho.1 rfl
          rw [covers, List.all_eq_true] at hc
          exact accepts_many_nil.mpr (accepts_visible hc h)
      | one =>
          rcases i with _ | ⟨q, is⟩
          · exact absurd hc (by simp [covers])
          · cases q with
            | many => exact absurd hc (by simp [covers])
            | one =>
                cases ks with
                | nil => exact absurd h (by simp [accepts])
                | cons k ks =>
                    simp only [covers, accepts, visible, Bool.and_eq_true, Bool.true_and] at hc h ⊢
                    exact ⟨h.1, ih ho.2 hc h.2⟩
            | lit a =>
                cases ks with
                | nil => exact absurd h (by simp [accepts])
                | cons k ks =>
                    simp only [covers, accepts, visible, Bool.and_eq_true,
                      decide_eq_true_eq] at hc h ⊢
                    exact ⟨h.1 ▸ hc.1, ih ho.2 hc.2 h.2⟩
      | lit b =>
          rcases i with _ | ⟨q, is⟩
          · exact absurd hc (by simp [covers])
          · cases q with
            | many | one => exact absurd hc (by simp [covers])
            | lit a =>
                cases ks with
                | nil => exact absurd h (by simp [accepts])
                | cons k ks =>
                    simp only [covers, accepts, Bool.and_eq_true, decide_eq_true_eq] at hc h ⊢
                    exact ⟨h.1.trans hc.1, ih ho.2 hc.2 h.2⟩

/-! ## Keys that only a covering pattern accepts -/

/-- The key of a pattern with `x` for every wildcard. -/
def fill (x : α) : Pat α → α
  | .lit a => a
  | _ => x

omit [DecidableEq α] in
theorem visible_of_fill {x : α} {p : Pat α} (h : verbatim (fill x p) = false) :
    visible verbatim p = true := by
  cases p with
  | lit a =>
      change verbatim a = false at h
      rw [visible, h]
      rfl
  | one | many => rfl

theorem accepts_fill {x : α} (hx : verbatim x = false) (hi : .many ∉ i) :
    accepts verbatim i (i.map (fill x)) = true := by
  induction i with
  | nil => rfl
  | cons p ps ih =>
      have hps := ih fun h => hi (.tail p h)
      cases p with
      | many => exact absurd (.head _) hi
      | one => simp only [List.map_cons, accepts, fill, hx, hps, Bool.not_false, Bool.and_self]
      | lit a => simp only [List.map_cons, accepts, fill, hps, decide_true, Bool.and_self]

/-- **Covering is complete** on patterns without `many`, given a chunk that the
other pattern does not name. -/
theorem covers_of_accepts_fresh {x : α} (ho : Final o) (hx : .lit x ∉ o) (hi : .many ∉ i)
    (h : accepts verbatim o (i.map (fill x)) = true) : covers verbatim o i = true := by
  induction o generalizing i with
  | nil =>
      rw [accepts, List.isEmpty_iff, List.map_eq_nil_iff] at h
      rw [h, covers]
      rfl
  | cons p os ih =>
      have hos : .lit x ∉ os := fun hmem => hx (.tail p hmem)
      cases p with
      | many =>
          obtain rfl := ho.1 rfl
          rw [covers, List.all_eq_true]
          intro q hq
          exact visible_of_fill (accepts_many_nil.mp h _ (List.mem_map_of_mem hq))
      | one =>
          rcases i with _ | ⟨q, is⟩
          · exact absurd h (by simp [accepts])
          · have his : .many ∉ is := fun hmem => hi (.tail q hmem)
            simp only [List.map_cons, accepts, Bool.and_eq_true, Bool.not_eq_true'] at h
            have hrec := ih ho.2 hos his h.2
            cases q with
            | many => exact absurd (.head _) hi
            | one => simp only [covers, visible, hrec, Bool.and_self]
            | lit a => simp only [covers, visible_of_fill h.1, hrec, Bool.and_self]
      | lit b =>
          rcases i with _ | ⟨q, is⟩
          · exact absurd h (by simp [accepts])
          · have his : .many ∉ is := fun hmem => hi (.tail q hmem)
            simp only [List.map_cons, accepts, Bool.and_eq_true, decide_eq_true_eq] at h
            have hrec := ih ho.2 hos his h.2
            cases q with
            | many => exact absurd (.head _) hi
            | one =>
                have hxb : x = b := h.1
                exact absurd (hxb ▸ .head _) hx
            | lit a =>
                have hab : a = b := h.1
                simp only [covers, hab, hrec, decide_true, Bool.and_self]

/-! ## A final `many` as all its lengths -/

/-- A final `many` replaced by `n` times `one`. -/
def spread (n : Nat) : List (Pat α) → List (Pat α)
  | [] => []
  | .many :: _ => List.replicate n .one
  | p :: ps => p :: spread n ps

omit [DecidableEq α] in
theorem many_notMem_spread (n : Nat) : .many ∉ spread n ps := by
  induction ps with
  | nil => exact List.not_mem_nil
  | cons p ps ih =>
      cases p with
      | many =>
          intro h
          cases List.eq_of_mem_replicate h
      | one | lit a =>
          intro h
          rcases List.mem_cons.mp h with h | h
          · cases h
          · exact ih h

theorem accepts_replicate {n : Nat} : accepts verbatim (List.replicate n .one) ks = true ↔
    ks.length = n ∧ ∀ k ∈ ks, verbatim k = false := by
  induction n generalizing ks with
  | zero =>
      simp only [List.replicate_zero, accepts, List.isEmpty_iff, List.length_eq_zero_iff]
      exact ⟨fun h => ⟨h, fun k hk => absurd (h ▸ hk) List.not_mem_nil⟩, fun h => h.1⟩
  | succ n ih =>
      cases ks with
      | nil => simp [List.replicate_succ, accepts]
      | cons k ks =>
          simp only [List.replicate_succ, accepts, Bool.and_eq_true, Bool.not_eq_true', ih,
            List.length_cons, Nat.succ.injEq, List.forall_mem_cons]
          constructor
          · rintro ⟨hk, hlen, hks⟩
            exact ⟨hlen, hk, hks⟩
          · rintro ⟨hlen, hk, hks⟩
            exact ⟨hk, hlen, hks⟩

theorem accepts_iff_spread (hps : Final ps) :
    accepts verbatim ps ks = true ↔ ∃ n, accepts verbatim (spread n ps) ks = true := by
  induction ps generalizing ks with
  | nil => exact ⟨fun h => ⟨0, h⟩, fun ⟨_, h⟩ => h⟩
  | cons p ps ih =>
      cases p with
      | many =>
          obtain rfl := hps.1 rfl
          simp only [spread, accepts_replicate, accepts_many_nil]
          exact ⟨fun h => ⟨ks.length, rfl, h⟩, fun ⟨_, _, h⟩ => h⟩
      | one | lit a =>
          cases ks with
          | nil => simp [accepts, spread]
          | cons k ks =>
              simp only [accepts, spread, Bool.and_eq_true, ih hps.2]
              exact ⟨fun ⟨hk, n, h⟩ => ⟨n, hk, h⟩, fun ⟨n, hk, h⟩ => ⟨hk, n, h⟩⟩

omit [DecidableEq α] in
theorem mem_fill_spread {n : Nat} {x k : α} (h : k ∈ (spread n ps).map (fill x)) :
    k = x ∨ .lit k ∈ ps := by
  induction ps with
  | nil => exact absurd h List.not_mem_nil
  | cons p ps ih =>
      cases p with
      | many =>
          obtain ⟨q, hq, rfl⟩ := List.mem_map.mp h
          rw [List.eq_of_mem_replicate hq]
          exact .inl rfl
      | one | lit a =>
          rw [spread, List.map_cons, List.mem_cons] at h
          · rcases h with rfl | h
            · first
                | exact .inl rfl
                | exact .inr (.head _)
            · exact (ih h).imp_right (.tail _)
          · exact fun hmany => nomatch hmany

/-- **When a union contains a pattern**: each of the patterns without `many` that
make it up is covered by one of the union.  Keys may be confined to chunks with
some property, if the literals and one more chunk have it. -/
theorem contains_iff {P : α → Prop} {os : List (List (Pat α))} (ho : ∀ o ∈ os, Final o)
    (hi : Final i) (hlit : ∀ a, .lit a ∈ i → P a) {x : α} (hPx : P x) (hverb : verbatim x = false)
    (hx : ∀ o ∈ os, .lit x ∉ o) :
    (∀ ks, (∀ k ∈ ks, P k) → accepts verbatim i ks = true →
      ∃ o ∈ os, accepts verbatim o ks = true) ↔
      ∀ n, ∃ o ∈ os, covers verbatim o (spread n i) = true := by
  constructor
  · intro h n
    have hkey : accepts verbatim i ((spread n i).map (fill x)) = true :=
      (accepts_iff_spread hi).mpr ⟨n, accepts_fill hverb (many_notMem_spread n)⟩
    have hP : ∀ k ∈ (spread n i).map (fill x), P k := by
      intro k hk
      rcases mem_fill_spread hk with rfl | hk
      · exact hPx
      · exact hlit k hk
    obtain ⟨o, hmem, hacc⟩ := h _ hP hkey
    exact ⟨o, hmem, covers_of_accepts_fresh (ho o hmem) (hx o hmem) (many_notMem_spread n) hacc⟩
  · intro h ks _ hks
    obtain ⟨n, hn⟩ := (accepts_iff_spread hi).mp hks
    obtain ⟨o, hmem, hcov⟩ := h n
    exact ⟨o, hmem, accepts_of_covers (ho o hmem) hcov hn⟩

end Chunks
