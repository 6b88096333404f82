/-
# `Entmoot.Names` — topics and keys name each other

The translations between topics and keys work on raw strings: a scope is stripped as
a prefix, and `@sys` and `@meta` are recognised as prefixes of what is left.  That a
scope or a chunk such as `@sysx` is never mistaken rests on two facts: stripping a
scope undoes putting it in front, for every scope (`stripScope_inScope`), and no level
of an accepted topic starts with `@`.

Each chunk of an accepted filter comes from one level only (`filterLevelOf`), so the
filter can be read off its key expression, and what the chunks may be is what makes
the key expression canonical (`names_correspond`).
-/
import Entmoot.Routing
import Entmoot.Retained

namespace Entmoot

open Wire (stripPrefix)

/-! ## Topics -/

theorem keyexprToTopic_inScope (scope rest : Str) :
    keyexprToTopic (inScope scope rest) scope = match stripPrefix sysChunk rest with
      | some sys => (stripPrefix ['/'] sys).map fun s => sysPrefix ++ '/' :: s
      | none =>
        match stripPrefix metaChunk rest with
        | some m => (stripPrefix ['/'] m).map fun s => metaPrefix ++ '/' :: s
        | none => if rest.head? = some '@' then none else some rest := by
  rw [keyexprToTopic, stripScope_inScope]
  rfl

/-- A string that starts with something else has no such prefix. -/
theorem stripPrefix_of_head {c : Char} {pre rest : Str} (h : rest.head? ≠ some c) :
    stripPrefix (c :: pre) rest = none := by
  cases rest with
  | nil => rfl
  | cons b rest =>
      have hb : c ≠ b := by
        rintro rfl
        exact h rfl
      rw [stripPrefix, if_neg hb]

theorem keyexprToTopic_of_head {rest : Str} (scope : Str) (h : rest.head? ≠ some '@') :
    keyexprToTopic (inScope scope rest) scope = some rest := by
  have hsys : stripPrefix sysChunk rest = none := stripPrefix_of_head h
  have hmeta : stripPrefix metaChunk rest = none := stripPrefix_of_head h
  rw [keyexprToTopic_inScope, hsys, hmeta]
  exact if_neg h

theorem keyexprToTopic_sysKeyexpr (x scope : Str) :
    keyexprToTopic (sysKeyexpr x scope) scope = some (sysPrefix ++ '/' :: x) := by
  rw [sysKeyexpr, keyexprToTopic_inScope, Wire.stripPrefix_append]
  simp [stripPrefix]

theorem keyexprToTopic_metaKeyexpr (x scope : Str) :
    keyexprToTopic (metaKeyexpr x scope) scope = some (metaPrefix ++ '/' :: x) := by
  have hsys : stripPrefix sysChunk (metaChunk ++ '/' :: x) = none := rfl
  rw [metaKeyexpr, keyexprToTopic_inScope, hsys, Wire.stripPrefix_append]
  simp [stripPrefix]

/-- Whatever follows it, `@retained` does not surface. -/
theorem keyexprToTopic_retained (x scope : Str) :
    keyexprToTopic (inScope scope (retainedChunk ++ x)) scope = none := by
  have hsys : stripPrefix sysChunk (retainedChunk ++ x) = none := rfl
  have hmeta : stripPrefix metaChunk (retainedChunk ++ x) = none := rfl
  rw [keyexprToTopic_inScope, hsys, hmeta]
  rfl

theorem topic_head {t : Str} (h : ∀ l ∈ t.splitOn '/', TopicLevel l) : t.head? ≠ some '@' := by
  intro hat
  obtain ⟨rest, rfl⟩ : ∃ rest, t = '@' :: rest := by
    cases t with
    | nil => cases hat
    | cons c rest =>
        cases hat
        exact ⟨rest, rfl⟩
  obtain ⟨l, ls, hsplit⟩ := List.exists_cons_of_ne_nil (List.splitOn_ne_nil '/' rest)
  have hcons : ('@' :: rest).splitOn '/' = ('@' :: l) :: ls := by
    rw [List.splitOn_cons_eq_if_modifyHead, if_neg (by decide), hsplit]
    rfl
  rw [hcons] at h
  exact (h _ (.head _)).atSign rfl

/-- A topic read off a key that is accepted again is what stands behind the scope. -/
theorem inScope_of_keyexprToTopic {k t scope : Str} (h : keyexprToTopic k scope = some t)
    (hlevels : ∀ l ∈ t.splitOn '/', TopicLevel l) : k = inScope scope t := by
  have hname : ∀ name s : Str, '$' ∈ name → '/' ∉ name → t ≠ name ++ '/' :: s := by
    rintro name s hdollar hslash rfl
    have hfirst : name ∈ (name ++ '/' :: s).splitOn '/' := by
      rw [List.splitOn_append_cons_self]
      have hone : name.splitOn '/' = [name] := List.splitOn_eq_singleton hslash
      rw [hone]
      exact .head _
    exact (hlevels name hfirst).dollar hdollar
  obtain ⟨rest, hrest, h⟩ := Option.bind_eq_some_iff.mp h
  have hk : k = inScope scope rest := stripScope_eq_some.mp hrest
  split at h
  · obtain ⟨s, _, hs⟩ := Option.map_eq_some_iff.mp h
    exact absurd hs.symm (hname sysPrefix s (.head _) (by decide))
  · split at h
    · obtain ⟨s, _, hs⟩ := Option.map_eq_some_iff.mp h
      exact absurd hs.symm (hname metaPrefix s (.head _) (by decide))
    · split at h
      · cases h
      · cases h
        exact hk

/-! ## Filters -/

/-- The level a chunk of an accepted filter comes from. -/
def filterLevelOf (first : Bool) (c : Str) : Str :=
  if c = sysChunk ∧ first = true then sysPrefix
  else if c = metaChunk ∧ first = true then metaPrefix
  else if c = ['*'] then ['+']
  else if c = ['*', '*'] then ['#']
  else c

theorem filterLevelOf_filterChunk {first : Bool} {final : Prop} {l : Str}
    (h : FilterLevel (first = true) final l) : filterLevelOf first (filterChunk first l) = l := by
  rcases h with ⟨rfl, rfl | rfl⟩ | rfl | ⟨_, rfl⟩ | htopic
  · rfl
  · rfl
  · cases first <;> rfl
  · cases first <;> rfl
  · have hverbatim : ∀ chunk : Str, chunk.head? = some '@' → l ≠ chunk := by
      rintro chunk hat rfl
      exact htopic.atSign hat
    have hstar : ∀ chunk : Str, '*' ∈ chunk → l ≠ chunk := by
      rintro chunk hmem rfl
      exact htopic.star hmem
    rw [filterChunk_topicLevel _ htopic, filterLevelOf, if_neg (fun hl => hverbatim _ rfl hl.1),
      if_neg (fun hl => hverbatim _ rfl hl.1), if_neg (hstar _ (.head _)),
        if_neg (hstar _ (.head _))]

theorem filterChunks_injective {ls ls' : List Str} : ∀ {first : Bool}, FilterLevels first ls →
    FilterLevels first ls' → filterChunks first ls = filterChunks first ls' → ls = ls' := by
  induction ls generalizing ls' with
  | nil =>
      intro first _ _ h
      cases ls' with
      | nil => rfl
      | cons l' ls' => cases h
  | cons l ls ih =>
      intro first hl hl' h
      cases ls' with
      | nil => cases h
      | cons l' ls' =>
          rw [filterChunks, filterChunks, List.cons.injEq] at h
          have hhead := congrArg (filterLevelOf first) h.1
          rw [filterLevelOf_filterChunk hl.1, filterLevelOf_filterChunk hl'.1] at hhead
          rw [hhead, ih hl.2 hl'.2 h.2]

theorem filterToKeyexpr_injective {f g scope k : Str} (hf : filterToKeyexpr f scope = .ok k)
    (hg : filterToKeyexpr g scope = .ok k) : f = g := by
  have hchunks := (filterToKeyexpr_chunks hf).symm.trans (filterToKeyexpr_chunks hg)
  have hsplit := filterChunks_injective (filterToKeyexpr_iff.mp hf).1 (filterToKeyexpr_iff.mp hg).1
    (List.append_cancel_left hchunks)
  rw [← joinLevels_splitOn f, hsplit, joinLevels_splitOn]

/-- The chunks of a canonical key expression. -/
structure CanonicalChunks (cs : List Str) : Prop where
  nonempty : ∀ c ∈ cs, c ≠ []
  star : ∀ c ∈ cs, '*' ∈ c → c = ['*'] ∨ c = ['*', '*']
  last : ∀ c ∈ cs.dropLast, c ≠ ['*', '*']
  reserved : ∀ c ∈ cs, '#' ∉ c ∧ '?' ∉ c ∧ '$' ∉ c

/-- No empty chunk, `*` only as a whole chunk, `**` only as the last one, and no other
reserved character. -/
def Canonical (ke : Str) : Prop := CanonicalChunks (ke.splitOn '/')

/-- A scope is empty, or chunks that are not empty and have no wildcard or other
reserved character. -/
def WellFormedScope (scope : Str) : Prop :=
  ScopeOk scope ∧ ∀ c ∈ scopeChunks scope, '#' ∉ c ∧ '?' ∉ c ∧ '$' ∉ c

theorem filterChunk_canonical {first : Bool} {final : Prop} {l : Str}
    (h : FilterLevel (first = true) final l) :
    filterChunk first l ≠ [] ∧
      ('*' ∈ filterChunk first l → filterChunk first l = ['*'] ∨ filterChunk first l = ['*', '*']) ∧
      (filterChunk first l = ['*', '*'] → final) ∧
      '#' ∉ filterChunk first l ∧ '?' ∉ filterChunk first l ∧ '$' ∉ filterChunk first l := by
  rcases h with ⟨rfl, rfl | rfl⟩ | rfl | ⟨hfinal, rfl⟩ | htopic
  · exact ⟨by decide, by decide, fun h => absurd h (by decide), by decide⟩
  · exact ⟨by decide, by decide, fun h => absurd h (by decide), by decide⟩
  · rw [filterChunk_plus]
    exact ⟨by decide, by decide, fun h => absurd h (by decide), by decide⟩
  · rw [filterChunk_hash]
    exact ⟨by decide, fun _ => .inr rfl, fun _ => hfinal, by decide⟩
  · rw [filterChunk_topicLevel _ htopic]
    refine ⟨htopic.nonempty, fun h => absurd h htopic.star, fun h => ?_, htopic.hash,
      htopic.question, htopic.dollar⟩
    exact absurd (h ▸ .head _) htopic.star

theorem filterChunks_canonical {ls : List Str} : ∀ {first : Bool}, FilterLevels first ls →
    CanonicalChunks (filterChunks first ls) := by
  induction ls with
  | nil =>
      intro first _
      constructor <;> intro c hc <;> cases hc
  | cons l ls ih =>
      intro first h
      obtain ⟨hne, hstar, hlast, hreserved⟩ := filterChunk_canonical h.1
      have hrest := ih h.2
      refine ⟨List.forall_mem_cons.mpr ⟨hne, hrest.nonempty⟩,
        List.forall_mem_cons.mpr ⟨hstar, hrest.star⟩, ?_,
        List.forall_mem_cons.mpr ⟨hreserved, hrest.reserved⟩⟩
      rw [filterChunks]
      cases ls with
      | nil => exact fun c hc => absurd hc List.not_mem_nil
      | cons m ms =>
          rw [filterChunks, List.dropLast_cons_cons]
          refine List.forall_mem_cons.mpr ⟨fun heq => ?_, hrest.last⟩
          cases hlast heq

/-- **Topics and keys name each other.**  A topic comes back from its key and from its
retained key; a key whose topic is accepted is that topic's key; the `$SYS` and `$meta`
keys are named after their topics and no retained key is a topic's; a filter can be
read off its key expression, which is canonical behind the scope, and as a whole if the
scope is well formed. -/
theorem names_correspond (scope : Str) :
    (∀ t k, topicToKeyexpr t scope = .ok k → keyexprToTopic k scope = some t ∧
      retainedKeyexprToTopic (retainedKeyexpr t scope) scope = some t) ∧
    (∀ k t k', keyexprToTopic k scope = some t → topicToKeyexpr t scope = .ok k' → k' = k) ∧
    (∀ x, keyexprToTopic (sysKeyexpr x scope) scope = some ("$SYS/".toList ++ x) ∧
      keyexprToTopic (metaKeyexpr x scope) scope = some ("$meta/".toList ++ x) ∧
      keyexprToTopic (inScope scope (retainedChunk ++ x)) scope = none) ∧
    (∀ f g k, filterToKeyexpr f scope = .ok k → filterToKeyexpr g scope = .ok k → f = g) ∧
    ∀ f k, filterToKeyexpr f scope = .ok k →
      (∃ ke, k = inScope scope ke ∧ Canonical ke) ∧ (WellFormedScope scope → Canonical k) := by
  refine ⟨?_, ?_, ?_, fun f g k hf hg => filterToKeyexpr_injective hf hg, ?_⟩
  · intro t k ht
    obtain ⟨hlevels, rfl⟩ := topicToKeyexpr_iff.mp ht
    exact ⟨keyexprToTopic_of_head scope (topic_head hlevels),
      retainedKeyexprToTopic_retainedKeyexpr t scope⟩
  · intro k t k' hk ht
    obtain ⟨hlevels, rfl⟩ := topicToKeyexpr_iff.mp ht
    exact (inScope_of_keyexprToTopic hk hlevels).symm
  · intro x
    exact ⟨keyexprToTopic_sysKeyexpr x scope, keyexprToTopic_metaKeyexpr x scope,
      keyexprToTopic_retained x scope⟩
  · intro f k hf
    have hlevels := (filterToKeyexpr_iff.mp hf).1
    have hcanonical := filterChunks_canonical hlevels
    constructor
    · refine ⟨_, (filterToKeyexpr_iff.mp hf).2, ?_⟩
      have hunscoped :
          filterToKeyexpr f [] = .ok (joinLevels (filterChunks true (f.splitOn '/'))) :=
        filterToKeyexpr_iff.mpr ⟨hlevels, rfl⟩
      rw [Canonical, filterToKeyexpr_chunks hunscoped]
      exact hcanonical
    · rintro ⟨hs, hreserved⟩
      rw [Canonical, filterToKeyexpr_chunks hf]
      refine ⟨List.forall_mem_append.mpr ⟨fun c hc => (hs c hc).1, hcanonical.nonempty⟩,
        List.forall_mem_append.mpr ⟨fun c hc hmem => absurd hmem (hs c hc).2, hcanonical.star⟩, ?_,
        List.forall_mem_append.mpr ⟨hreserved, hcanonical.reserved⟩⟩
      rw [List.dropLast_append_of_ne_nil (filterChunks_ne_nil f)]
      refine List.forall_mem_append.mpr ⟨fun c hc heq => ?_, hcanonical.last⟩
      exact (hs c hc).2 (heq ▸ .head _)

/-- A scope may hold a reserved character without holding a wildcard, and then no key
expression behind it is canonical. -/
theorem reserved_scope_not_canonical :
    ¬ ∀ scope, ScopeOk scope → ∀ f k, filterToKeyexpr f scope = .ok k → Canonical k := by
  intro h
  have hscope : ScopeOk "a?b".toList := by
    intro c hc
    rw [List.mem_singleton.mp hc]
    decide
  have hkey : filterToKeyexpr "x".toList "a?b".toList = .ok "a?b/x".toList := by decide
  have hcanonical := h _ hscope _ _ hkey
  exact absurd (hcanonical.reserved "a?b".toList (by decide)) (by decide)

end Entmoot
