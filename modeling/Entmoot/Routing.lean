/-
# `Entmoot.Routing` — retained matching against live routing, and the keyspaces

Retained messages are picked by `topicMatches` on MQTT levels, live ones by the
bus on translated key expressions.  On an accepted filter and an accepted topic
the two agree, in every scope (`topicMatches_iff_busMatches`): a plain level is
never a verbatim chunk, so wildcards skip nothing that a topic can have.

For the same reason the keyspaces of retained messages, `$SYS` and `$meta` cannot
be reached from outside (`keyspaces_isolated`): no topic translates into one, and
a filter meets a verbatim first chunk only where its first level is the name of
that keyspace.  Scopes separate in the same way: chunk by chunk, whatever their
names have in common as strings.
-/
import Entmoot.KeyExpr

namespace Entmoot

open Chunks (Pat accepts Final accepts_many_nil)

/-! ## Matching levels and matching chunks -/

theorem matchLevels_rest {ls ts : List Str} (hls : LevelsOk false ls)
    (hts : ∀ t ∈ ts, PlainLevel t) :
    matchLevels ls ts = true ↔ accepts verbatim (ls.map (filterPat false)) ts = true := by
  induction ls generalizing ts with
  | nil => exact Iff.rfl
  | cons l ls ih =>
      obtain ⟨hl, hrest⟩ := hls
      rcases hl with ⟨hfirst, _⟩ | rfl | ⟨rfl, rfl⟩ | hplain
      · cases hfirst
      · cases ts with
        | nil => simp [matchLevels, accepts, filterPat_plus]
        | cons t ts =>
            have hvis : verbatim t = false := (hts t (.head _)).visible
            rw [List.map_cons, filterPat_plus, accepts, hvis, Bool.not_false, Bool.true_and]
            exact ih hrest fun t' ht' => hts t' (.tail t ht')
      · simp only [List.map_cons, List.map_nil, filterPat_hash, accepts_many_nil]
        exact ⟨fun _ t ht => (hts t ht).visible, fun _ => rfl⟩
      · rw [List.map_cons, filterPat_plain _ hplain]
        cases ts with
        | nil => simp [matchLevels, accepts, hplain.ne_hash]
        | cons t ts =>
            have hih := ih hrest fun t' ht' => hts t' (.tail t ht')
            by_cases hlt : l = t
            · subst hlt
              rw [matchLevels, if_neg hplain.ne_hash]
              simp only [if_neg hplain.ne_plus, if_true, accepts, decide_true, Bool.true_and, hih]
            · simp [matchLevels, accepts, hplain.ne_hash, hplain.ne_plus, hlt, Ne.symm hlt]

/-- So do they on a whole filter: a keyspace name matches no plain level, and its
chunk no plain chunk. -/
theorem matchLevels_iff {ls ts : List Str} (hls : LevelsOk true ls) (hts : ∀ t ∈ ts, PlainLevel t) :
    matchLevels ls ts = true ↔ accepts verbatim (filterPats ls) ts = true := by
  cases ls with
  | nil => exact Iff.rfl
  | cons l ls =>
      have hname : ∀ (name chunk : Str), '$' ∈ name → name ≠ ['#'] → name ≠ ['+'] →
          chunk.head? = some '@' →
          (matchLevels (name :: ls) ts = true ↔
            accepts verbatim (.lit chunk :: ls.map (filterPat false)) ts = true) := by
        intro name chunk hdollar hhash hplus hat
        cases ts with
        | nil => simp [matchLevels, accepts, hhash]
        | cons t ts =>
            have ht := hts t (.head _)
            have hne : name ≠ t := fun h => ht.dollar (h ▸ hdollar)
            have hne' : t ≠ chunk := fun h => ht.atSign (h ▸ hat)
            simp [matchLevels, accepts, hhash, hplus, hne, hne']
      by_cases hsys : l = sysPrefix
      · subst hsys
        exact hname sysPrefix sysChunk (.head _) (by decide) (by decide) rfl
      · by_cases hmeta : l = metaPrefix
        · subst hmeta
          exact hname metaPrefix metaChunk (.head _) (by decide) (by decide) rfl
        · obtain ⟨hok, hpats⟩ := hls.rest hsys hmeta
          rw [hpats]
          exact matchLevels_rest hok hts

/-- **Retained matching agrees with live routing**, for every accepted filter and
topic in every scope. -/
theorem topicMatches_iff_busMatches {scope f t fk tk : Str} (hs : ScopeOk scope)
    (hf : filterToKeyexpr f scope = .ok fk) (ht : topicToKeyexpr t scope = .ok tk) :
    topicMatches f t = true ↔ busMatches fk tk = true := by
  obtain ⟨hplain, rfl⟩ := topicToKeyexpr_ok ht
  rw [busMatches_inScope hs hf, topicMatches]
  exact matchLevels_iff (filterToKeyexpr_ok hs hf).1 hplain

theorem entmootScopeOk : ScopeOk "entmoot".toList := by
  intro chunk hc
  have heq : chunk = "entmoot".toList := List.mem_singleton.mp hc
  subst heq
  decide

/-- `#` below a level also matches that level itself, on both sides. -/
theorem topicMatches_parent :
    topicMatches "kiln/#".toList "kiln".toList = true ↔
      busMatches "entmoot/kiln/**".toList "entmoot/kiln".toList = true :=
  topicMatches_iff_busMatches entmootScopeOk rfl rfl

/-! ## Keyspaces -/

/-- A key of the keyspace with this first chunk. -/
def InKeyspace (chunk scope key : Str) : Prop :=
  ∃ rest, key.splitOn '/' = scopeChunks scope ++ chunk :: rest

theorem scopeChunks_prefix (scope ke : Str) :
    scopeChunks scope <+: (inScope scope ke).splitOn '/' := by
  rw [inScope_chunks]
  exact List.prefix_append _ _

theorem inKeyspace_of_chunk {chunk : Str} (h : '/' ∉ chunk) (x scope : Str) :
    InKeyspace chunk scope (inScope scope (chunk ++ '/' :: x)) :=
  ⟨x.splitOn '/', by rw [inScope_chunks, List.splitOn_append_cons_self_of_not_mem h]⟩

theorem retainedKeyexpr_inKeyspace (x scope : Str) :
    InKeyspace retainedChunk scope (retainedKeyexpr x scope) :=
  inKeyspace_of_chunk (by decide) x scope

theorem sysKeyexpr_inKeyspace (x scope : Str) : InKeyspace sysChunk scope (sysKeyexpr x scope) :=
  inKeyspace_of_chunk (by decide) x scope

theorem metaKeyexpr_inKeyspace (x scope : Str) : InKeyspace metaChunk scope (metaKeyexpr x scope) :=
  inKeyspace_of_chunk (by decide) x scope

theorem topic_notInKeyspace {t scope k chunk : Str} (h : topicToKeyexpr t scope = .ok k)
    (hchunk : verbatim chunk = true) : ¬ InKeyspace chunk scope k := by
  rintro ⟨rest, hrest⟩
  obtain ⟨hplain, rfl⟩ := topicToKeyexpr_ok h
  rw [inScope_chunks] at hrest
  have hmem : chunk ∈ t.splitOn '/' := by
    rw [List.append_cancel_left hrest]
    exact .head _
  rw [(hplain chunk hmem).visible] at hchunk
  cases hchunk

/-- The parts of an accepted filter meet a verbatim first chunk only with the name
of its keyspace in front. -/
theorem accepts_verbatim {ls : List Str} (hok : LevelsOk true ls) {chunk : Str} {rest : List Str}
    (hchunk : verbatim chunk = true) (h : accepts verbatim (filterPats ls) (chunk :: rest) = true) :
    chunk = sysChunk ∧ ls.head? = some sysPrefix ∨ chunk = metaChunk ∧
      ls.head? = some metaPrefix := by
  cases ls with
  | nil => cases h
  | cons l ls =>
      rcases hok.1 with ⟨_, rfl | rfl⟩ | rfl | ⟨rfl, rfl⟩ | hplain
      · change (decide (chunk = sysChunk) && _) = true at h
        rw [Bool.and_eq_true, decide_eq_true_eq] at h
        exact .inl ⟨h.1, rfl⟩
      · change (decide (chunk = metaChunk) && _) = true at h
        rw [Bool.and_eq_true, decide_eq_true_eq] at h
        exact .inr ⟨h.1, rfl⟩
      · rw [filterPats, filterPat_plus, accepts, hchunk] at h
        cases h
      · have hvis := accepts_many_nil.mp h chunk (.head _)
        rw [hchunk] at hvis
        cases hvis
      · rw [filterPats, filterPat_plain _ hplain, accepts, Bool.and_eq_true, decide_eq_true_eq] at h
        rw [h.1, hplain.visible] at hchunk
        cases hchunk

theorem busMatches_keyspace {f scope k chunk key : Str} (hs : ScopeOk scope)
    (hf : filterToKeyexpr f scope = .ok k) (hchunk : verbatim chunk = true)
    (hkey : InKeyspace chunk scope key) (h : busMatches k key = true) :
    chunk = sysChunk ∧ (f.splitOn '/').head? = some sysPrefix ∨
      chunk = metaChunk ∧ (f.splitOn '/').head? = some metaPrefix := by
  obtain ⟨rest, hrest⟩ := hkey
  obtain ⟨rest', hrest', hacc⟩ := (busMatches_iff hs hf key).mp h
  rw [hrest] at hrest'
  rw [← List.append_cancel_left hrest'] at hacc
  exact accepts_verbatim (filterToKeyexpr_ok hs hf).1 hchunk hacc

/-! ## Scopes -/

/-- The keys a node with this scope writes: data, retained copies, stats, annotations. -/
inductive Produced (scope : Str) : Str → Prop where
  | dataKey {t k : Str} (h : topicToKeyexpr t scope = .ok k) : Produced scope k
  | retainedKey (x : Str) : Produced scope (retainedKeyexpr x scope)
  | sysKey (x : Str) : Produced scope (sysKeyexpr x scope)
  | metaKey (x : Str) : Produced scope (metaKeyexpr x scope)

theorem Produced.scoped {scope key : Str} (h : Produced scope key) :
    scopeChunks scope <+: key.splitOn '/' := by
  cases h with
  | dataKey h =>
      obtain ⟨_, rfl⟩ := topicToKeyexpr_ok h
      exact scopeChunks_prefix _ _
  | retainedKey x | sysKey x | metaKey x => exact scopeChunks_prefix _ _

theorem stripScope_scoped {key scope rest : Str} (h : stripScope key scope = some rest) :
    scopeChunks scope <+: key.splitOn '/' := by
  rw [stripScope_eq_some.mp h]
  exact scopeChunks_prefix _ _

/-- Two scopes are apart if neither continues the other, chunk by chunk. -/
def Apart (scope scope' : Str) : Prop :=
  ¬ scopeChunks scope <+: scopeChunks scope' ∧ ¬ scopeChunks scope' <+: scopeChunks scope

theorem Apart.not_both {scope scope' : Str} (h : Apart scope scope') {ks : List Str}
    (hk : scopeChunks scope <+: ks) (hk' : scopeChunks scope' <+: ks) : False := by
  rcases List.prefix_or_prefix_of_prefix hk hk' with hp | hp
  · exact h.1 hp
  · exact h.2 hp

/-- **The keyspaces are isolated**: no topic enters the retained, `$SYS` or `$meta`
keyspace, no filter matches a retained key, only its own name reaches `$SYS` and
`$meta`, and nothing of a scope is seen under another that is apart from it. -/
theorem keyspaces_isolated (scope : Str) (hs : ScopeOk scope) :
    (∀ t k, topicToKeyexpr t scope = .ok k →
      ¬ InKeyspace retainedChunk scope k ∧ ¬ InKeyspace sysChunk scope k ∧
        ¬ InKeyspace metaChunk scope k) ∧
    (∀ f k, filterToKeyexpr f scope = .ok k → ∀ x, busMatches k (retainedKeyexpr x scope) = false) ∧
    (∀ f k, filterToKeyexpr f scope = .ok k → ∀ x,
      (busMatches k (sysKeyexpr x scope) = true → (f.splitOn '/').head? = some sysPrefix) ∧
        (busMatches k (metaKeyexpr x scope) = true → (f.splitOn '/').head? = some metaPrefix)) ∧
    ∀ scope', ScopeOk scope' → Apart scope scope' → ∀ key, Produced scope' key →
      (∀ f k, filterToKeyexpr f scope = .ok k → busMatches k key = false) ∧
        keyexprToTopic key scope = none ∧ retainedKeyexprToTopic key scope = none := by
  refine ⟨fun t k ht => ?_, fun f k hf x => ?_, fun f k hf x => ⟨fun h => ?_, fun h => ?_⟩, ?_⟩
  · exact ⟨topic_notInKeyspace ht rfl, topic_notInKeyspace ht rfl, topic_notInKeyspace ht rfl⟩
  · rw [Bool.eq_false_iff]
    intro h
    rcases busMatches_keyspace hs hf rfl (retainedKeyexpr_inKeyspace x scope)
      h with ⟨h, _⟩ | ⟨h, _⟩ <;>
      exact absurd h (by decide)
  · rcases busMatches_keyspace hs hf rfl (sysKeyexpr_inKeyspace x scope) h with ⟨_, h⟩ | ⟨h, _⟩
    · exact h
    · exact absurd h (by decide)
  · rcases busMatches_keyspace hs hf rfl (metaKeyexpr_inKeyspace x scope) h with ⟨h, _⟩ | ⟨_, h⟩
    · exact absurd h (by decide)
    · exact h
  · intro scope' _ hapart key hkey
    have hnone : stripScope key scope = none := by
      rw [Option.eq_none_iff_forall_ne_some]
      intro rest hrest
      exact hapart.not_both (stripScope_scoped hrest) hkey.scoped
    refine ⟨fun f k hf => ?_, ?_, ?_⟩
    · rw [Bool.eq_false_iff]
      intro h
      obtain ⟨rest, hrest, _⟩ := (busMatches_iff hs hf key).mp h
      exact hapart.not_both ⟨rest, hrest.symm⟩ hkey.scoped
    · rw [keyexprToTopic, hnone]
      rfl
    · rw [retainedKeyexprToTopic, hnone]
      rfl

/-- A scope whose name another one starts with is still apart from it. -/
theorem ent_isolated_from_entmoot :
    keyexprToTopic "entmoot/kiln".toList "ent".toList = none := by
  have hs : ScopeOk "ent".toList := by
    intro chunk hc
    have heq : chunk = "ent".toList := List.mem_singleton.mp hc
    subst heq
    decide
  have hapart : Apart "ent".toList "entmoot".toList := by
    constructor <;> decide
  have hkey : topicToKeyexpr "kiln".toList "entmoot".toList = .ok "entmoot/kiln".toList := by decide
  exact ((keyspaces_isolated _ hs).2.2.2 _ entmootScopeOk hapart _ (.dataKey hkey)).2.1

end Entmoot
