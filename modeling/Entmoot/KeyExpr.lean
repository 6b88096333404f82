/-
# `Entmoot.KeyExpr` — bus matching, and what the accepted names translate to

Zenoh's matching of a key expression against a key, as the bus does it: `*` is
exactly one chunk and `**` any number of chunks, neither ever a verbatim chunk
(one that starts with `@`), and every other chunk matches itself.  Key
expressions become patterns of `Lib.Chunks` (`keyPats`).

What `topicToKeyexpr` and `filterToKeyexpr` accept, and what they make of it, is
said level by level (`topicToKeyexpr_iff`, `filterToKeyexpr_iff`).  An accepted topic
keeps its levels; an accepted filter becomes the chunks of the scope followed by one
part for each of its levels (`filterToKeyexpr_ok`).  From then on only levels and
parts are talked about.
-/
import Entmoot.Auth
import Entmoot.Lib.Chunks

namespace Entmoot

open Chunks (Pat accepts Final)

/-! ## Bus matching -/

/-- A chunk that wildcards skip. -/
def verbatim (chunk : Str) : Bool := chunk.head? = some '@'

def chunkPat (chunk : Str) : Pat Str :=
  if chunk = ['*'] then .one else if chunk = ['*', '*'] then .many else .lit chunk

def keyPats (ke : Str) : List (Pat Str) := (ke.splitOn '/').map chunkPat

/-- Whether the bus hands a sample on `key` to a subscriber of `ke`. -/
def busMatches (ke key : Str) : Bool := accepts verbatim (keyPats ke) (key.splitOn '/')

/-! ## Scopes -/

def scopeChunks (scope : Str) : List Str := if scope = [] then [] else scope.splitOn '/'

/-- A scope is empty, or chunks that are not empty and have no wildcard. -/
def ScopeOk (scope : Str) : Prop := ∀ chunk ∈ scopeChunks scope, chunk ≠ [] ∧ '*' ∉ chunk

theorem inScope_chunks (scope ke : Str) :
    (inScope scope ke).splitOn '/' = scopeChunks scope ++ ke.splitOn '/' := by
  rw [inScope, scopeChunks]
  split
  · rfl
  · exact List.splitOn_append_cons_self scope ke

theorem chunkPat_of_notMem {chunk : Str} (h : '*' ∉ chunk) : chunkPat chunk = .lit chunk := by
  rw [chunkPat, if_neg, if_neg]
  · rintro rfl
    exact h (.head _)
  · rintro rfl
    exact h (.head _)

theorem ScopeOk.pats {scope : Str} (h : ScopeOk scope) :
    (scopeChunks scope).map chunkPat = (scopeChunks scope).map .lit :=
  List.map_congr_left fun chunk hc => chunkPat_of_notMem (h chunk hc).2

/-! ## Levels -/

theorem notMem_of_mem_splitOn {α : Type*} [DecidableEq α] {a : α} : ∀ {xs l : List α},
    l ∈ xs.splitOn a → a ∉ l := by
  intro xs
  induction xs with
  | nil =>
      intro l hl
      rw [List.splitOn_nil, List.mem_singleton] at hl
      rw [hl]
      exact List.not_mem_nil
  | cons x xs ih =>
      intro l hl
      rw [List.splitOn_cons_eq_if_modifyHead] at hl
      split at hl
      · rcases List.mem_cons.mp hl with rfl | hl
        · exact List.not_mem_nil
        · exact ih hl
      · next hx =>
        obtain ⟨hd, tl, hsp⟩ := List.exists_cons_of_ne_nil (List.splitOn_ne_nil a xs)
        rw [hsp] at hl ih
        rcases List.mem_cons.mp hl with rfl | hl
        · intro hmem
          rcases List.mem_cons.mp hmem with h | h
          · exact hx (by rw [h]; exact beq_self_eq_true x)
          · exact ih (.head _) h
        · exact ih (.tail _ hl)

theorem joinLevels_splitOn (s : Str) : joinLevels (s.splitOn '/') = s :=
  List.intercalate_splitOn '/'

/-- A level with nothing special in it. -/
structure PlainLevel (l : Str) : Prop where
  nonempty : l ≠ []
  plus : '+' ∉ l
  hash : '#' ∉ l
  star : '*' ∉ l
  dollar : '$' ∉ l
  atSign : l.head? ≠ some '@'

theorem PlainLevel.visible {l : Str} (h : PlainLevel l) : verbatim l = false :=
  decide_eq_false h.atSign

theorem PlainLevel.ne_plus {l : Str} (h : PlainLevel l) : l ≠ ['+'] := by
  rintro rfl
  exact h.plus (.head _)

theorem PlainLevel.ne_hash {l : Str} (h : PlainLevel l) : l ≠ ['#'] := by
  rintro rfl
  exact h.hash (.head _)

theorem PlainLevel.ne_sys {l : Str} (h : PlainLevel l) : l ≠ sysPrefix := by
  rintro rfl
  exact h.dollar (.head _)

theorem PlainLevel.ne_meta {l : Str} (h : PlainLevel l) : l ≠ metaPrefix := by
  rintro rfl
  exact h.dollar (.head _)

/-- A level of a publish topic: `?` is reserved besides. -/
structure TopicLevel (l : Str) : Prop extends PlainLevel l where
  question : '?' ∉ l

theorem checkLevelChars_iff {l : Str} :
    checkLevelChars l = .ok () ↔ l.head? ≠ some '@' ∧ '*' ∉ l ∧ '$' ∉ l ∧ '?' ∉ l := by
  rw [checkLevelChars]
  constructor
  · intro h
    split at h
    · cases h
    · next hat =>
      split at h
      · cases h
      · next hfind =>
        rw [List.find?_eq_none] at hfind
        exact ⟨hat, fun hm => hfind _ hm (by decide), fun hm => hfind _ hm (by decide),
          fun hm => hfind _ hm (by decide)⟩
  · rintro ⟨hat, hstar, hdollar, hquestion⟩
    have hfind : l.find? (fun c => c = '*' || c = '$' || c = '?') = none := by
      rw [List.find?_eq_none]
      intro c hc hreserved
      simp only [Bool.or_eq_true, decide_eq_true_eq] at hreserved
      rcases hreserved with (rfl | rfl) | rfl
      · exact hstar hc
      · exact hdollar hc
      · exact hquestion hc
    rw [if_neg hat, hfind]

theorem levels_iff {s : Str} {parts : List Str} :
    levels s = .ok parts ↔ parts = s.splitOn '/' ∧ ∀ l ∈ parts, l ≠ [] := by
  rw [levels]
  constructor
  · intro h
    split at h
    · cases h
    · dsimp only at h
      split at h
      · cases h
      · next hany =>
        cases h
        refine ⟨rfl, fun l hl hnil => hany ?_⟩
        exact List.any_eq_true.mpr ⟨l, hl, by rw [hnil]; rfl⟩
  · rintro ⟨rfl, hne⟩
    have hs : s ≠ [] := by
      rintro rfl
      exact hne [] (.head _) rfl
    have hany : ¬ (s.splitOn '/').any (fun p => p.isEmpty) = true := by
      intro hany
      obtain ⟨l, hl, hempty⟩ := List.any_eq_true.mp hany
      exact hne l hl (List.isEmpty_iff.mp hempty)
    rw [if_neg hs]
    dsimp only
    rw [if_neg hany]

/-! ## Accepted topics -/

theorem checkTopicLevel_iff {l : Str} (hl : l ≠ []) :
    checkTopicLevel l = .ok () ↔ TopicLevel l := by
  rw [checkTopicLevel]
  constructor
  · intro h
    split at h
    · cases h
    · next hplus =>
      split at h
      · cases h
      · next hhash =>
        obtain ⟨hat, hstar, hdollar, hquestion⟩ := checkLevelChars_iff.mp h
        exact ⟨⟨hl, hplus, hhash, hstar, hdollar, hat⟩, hquestion⟩
  · intro h
    rw [if_neg h.plus, if_neg h.hash]
    exact checkLevelChars_iff.mpr ⟨h.atSign, h.star, h.dollar, h.question⟩

theorem checkTopicLevels_iff {ls : List Str} :
    ls.forM checkTopicLevel = .ok () ↔ ∀ l ∈ ls, checkTopicLevel l = .ok () := by
  induction ls with
  | nil => exact ⟨fun _ l hl => absurd hl List.not_mem_nil, fun _ => rfl⟩
  | cons a ls ih =>
      constructor
      · intro h
        obtain ⟨u, ha, hrest⟩ := bind_eq_ok.mp h
        exact List.forall_mem_cons.mpr ⟨ha, ih.mp hrest⟩
      · intro h
        exact bind_eq_ok.mpr ⟨(), h a (.head _), ih.mpr fun l hl => h l (.tail a hl)⟩

/-- A topic is accepted iff its levels are topic levels, and its key is then the
topic in the scope. -/
theorem topicToKeyexpr_iff {t scope k : Str} :
    topicToKeyexpr t scope = .ok k ↔ (∀ l ∈ t.splitOn '/', TopicLevel l) ∧ k = inScope scope t := by
  rw [topicToKeyexpr]
  constructor
  · intro h
    obtain ⟨parts, hl, h⟩ := bind_eq_ok.mp h
    obtain ⟨u, hc, h⟩ := bind_eq_ok.mp h
    cases h
    obtain ⟨rfl, hne⟩ := levels_iff.mp hl
    refine ⟨fun l hmem => ?_, by rw [joinLevels_splitOn]⟩
    exact (checkTopicLevel_iff (hne l hmem)).mp (checkTopicLevels_iff.mp hc l hmem)
  · rintro ⟨hlevels, rfl⟩
    have hl : levels t = .ok (t.splitOn '/') :=
      levels_iff.mpr ⟨rfl, fun l hmem => (hlevels l hmem).nonempty⟩
    have hc : (t.splitOn '/').forM checkTopicLevel = .ok () :=
        checkTopicLevels_iff.mpr fun l hmem =>
      (checkTopicLevel_iff (hlevels l hmem).nonempty).mpr (hlevels l hmem)
    refine bind_eq_ok.mpr ⟨_, hl, bind_eq_ok.mpr ⟨_, hc, ?_⟩⟩
    rw [joinLevels_splitOn]
    rfl

/-- An accepted topic has plain levels, and its key is the topic in the scope. -/
theorem topicToKeyexpr_ok {t scope k : Str} (h : topicToKeyexpr t scope = .ok k) :
    (∀ l ∈ t.splitOn '/', PlainLevel l) ∧ k = inScope scope t := by
  obtain ⟨hlevels, hk⟩ := topicToKeyexpr_iff.mp h
  exact ⟨fun l hl => (hlevels l hl).toPlainLevel, hk⟩

/-! ## Accepted filters -/

/-- The levels of an accepted filter: plain ones, `+`, a final `#`, and the two
names in front that stand for a keyspace. -/
def LevelsOk (first : Bool) : List Str → Prop
  | [] => True
  | l :: ls =>
      (first = true ∧ (l = sysPrefix ∨ l = metaPrefix) ∨ l = ['+'] ∨ (l = ['#'] ∧ ls = []) ∨
        PlainLevel l) ∧ LevelsOk false ls

/-- The part of the key expression for one level of an accepted filter. -/
def filterPat (first : Bool) (l : Str) : Pat Str :=
  if l = sysPrefix ∧ first = true then .lit sysChunk
  else if l = metaPrefix ∧ first = true then .lit metaChunk
  else if l = ['+'] then .one
  else if l = ['#'] then .many
  else .lit l

def filterPats : List Str → List (Pat Str)
  | [] => []
  | l :: ls => filterPat true l :: ls.map (filterPat false)

theorem filterPat_plain {l : Str} (first : Bool) (h : PlainLevel l) :
    filterPat first l = .lit l := by
  rw [filterPat, if_neg (fun hl => h.ne_sys hl.1), if_neg (fun hl => h.ne_meta hl.1),
    if_neg h.ne_plus, if_neg h.ne_hash]

theorem filterPat_plus (first : Bool) : filterPat first ['+'] = .one := by cases first <;> rfl

theorem filterPat_hash (first : Bool) : filterPat first ['#'] = .many := by cases first <;> rfl

/-- Without a keyspace name in front the first level is like the others. -/
theorem LevelsOk.rest {l : Str} {ls : List Str} (h : LevelsOk true (l :: ls)) (hsys : l ≠ sysPrefix)
    (hmeta : l ≠ metaPrefix) :
    LevelsOk false (l :: ls) ∧ filterPats (l :: ls) = (l :: ls).map (filterPat false) := by
  have hpat : filterPat true l = filterPat false l := by
    simp only [filterPat, hsys, hmeta, false_and]
  refine ⟨⟨?_, h.2⟩, by rw [filterPats, hpat]; rfl⟩
  rcases h.1 with ⟨_, hl | hl⟩ | hl
  · exact absurd hl hsys
  · exact absurd hl hmeta
  · exact .inr hl

/-- A level the translation of a filter accepts, and its chunk; `first` and `final`
say where it stands. -/
def FilterLevel (first final : Prop) (l : Str) : Prop :=
  first ∧ (l = sysPrefix ∨ l = metaPrefix) ∨ l = ['+'] ∨ final ∧ l = ['#'] ∨ TopicLevel l

def filterChunk (first : Bool) (l : Str) : Str :=
  if l = sysPrefix ∧ first = true then sysChunk
  else if l = metaPrefix ∧ first = true then metaChunk
  else if l = ['+'] then ['*']
  else if l = ['#'] then ['*', '*']
  else l

theorem filterChunk_topicLevel {l : Str} (first : Bool) (h : TopicLevel l) :
    filterChunk first l = l := by
  rw [filterChunk, if_neg (fun hl => h.ne_sys hl.1), if_neg (fun hl => h.ne_meta hl.1),
    if_neg h.ne_plus, if_neg h.ne_hash]

theorem filterChunk_plus (first : Bool) : filterChunk first ['+'] = ['*'] := by cases first <;> rfl

theorem filterChunk_hash (first : Bool) :
    filterChunk first ['#'] = ['*', '*'] := by cases first <;> rfl

theorem filterLevel_iff {last i : Nat} {l c : Str} (hl : l ≠ []) :
    filterLevel last i l = .ok c ↔
      FilterLevel (i = 0) (i = last) l ∧ c = filterChunk (decide (i = 0)) l := by
  rw [filterLevel]
  constructor
  · intro h
    split at h
    · next hsys =>
      cases h
      obtain ⟨rfl, rfl⟩ := hsys
      exact ⟨.inl ⟨rfl, .inl rfl⟩, rfl⟩
    split at h
    · next hmeta =>
      cases h
      obtain ⟨rfl, rfl⟩ := hmeta
      exact ⟨.inl ⟨rfl, .inr rfl⟩, rfl⟩
    split at h
    · next hplus =>
      cases h
      subst hplus
      exact ⟨.inr (.inl rfl), (filterChunk_plus _).symm⟩
    split at h
    · next hhash =>
      split at h
      · cases h
      · next hlast =>
        cases h
        subst hhash
        exact ⟨.inr (.inr (.inl ⟨not_not.mp hlast, rfl⟩)), (filterChunk_hash _).symm⟩
    split at h
    · cases h
    · next hwild =>
      obtain ⟨u, hc, h⟩ := bind_eq_ok.mp h
      cases h
      obtain ⟨hat, hstar, hdollar, hquestion⟩ := checkLevelChars_iff.mp hc
      have htopic : TopicLevel l :=
        ⟨⟨hl, fun hm => hwild (.inl hm), fun hm => hwild (.inr hm), hstar,
        hdollar, hat⟩, hquestion⟩
      exact ⟨.inr (.inr (.inr htopic)), (filterChunk_topicLevel _ htopic).symm⟩
  · rintro ⟨⟨h0, rfl | rfl⟩ | rfl | ⟨hlast, rfl⟩ | htopic, rfl⟩
    · rw [if_pos ⟨rfl, h0⟩, decide_eq_true h0]
      rfl
    · rw [if_neg (fun h => absurd h.1 (by decide)), if_pos ⟨rfl, h0⟩, decide_eq_true h0]
      rfl
    · rw [if_neg (fun h => absurd h.1 (by decide)), if_neg (fun h => absurd h.1 (by decide)),
        if_pos rfl,
        filterChunk_plus]
    · rw [if_neg (fun h => absurd h.1 (by decide)), if_neg (fun h => absurd h.1 (by decide)),
        if_neg (by decide), if_pos rfl, if_neg (not_not.mpr hlast), filterChunk_hash]
    · have hwild : ¬ ('+' ∈ l ∨ '#' ∈ l) := by
        rintro (hm | hm)
        · exact htopic.plus hm
        · exact htopic.hash hm
      have hc :=
        checkLevelChars_iff.mpr ⟨htopic.atSign, htopic.star, htopic.dollar, htopic.question⟩
      rw [if_neg (fun h => htopic.ne_sys h.1), if_neg (fun h => htopic.ne_meta h.1),
        if_neg htopic.ne_plus,
        if_neg htopic.ne_hash, if_neg hwild, hc, filterChunk_topicLevel _ htopic]
      rfl

/-- The levels of an accepted filter. -/
def FilterLevels (first : Bool) : List Str → Prop
  | [] => True
  | l :: ls => FilterLevel (first = true) (ls = []) l ∧ FilterLevels false ls

def filterChunks : Bool → List Str → List Str
  | _, [] => []
  | first, l :: ls => filterChunk first l :: filterChunks false ls

/-- The levels of a filter from number `i` on, translated. -/
theorem filterLevels_iff {last : Nat} : ∀ {ls : List Str} {i : Nat} {out : List Str},
    (∀ l ∈ ls, l ≠ []) → last + 1 = i + ls.length →
      (filterLevels last i ls = .ok out ↔
        FilterLevels (decide (i = 0)) ls ∧ out = filterChunks (decide (i = 0)) ls) := by
  intro ls
  induction ls with
  | nil =>
      intro i out _ _
      rw [filterLevels, Except.ok.injEq]
      exact ⟨fun h => ⟨trivial, h.symm⟩, fun h => h.2.symm⟩
  | cons l ls ih =>
      intro i out hne hlen
      rw [List.length_cons] at hlen
      have hfinal : (i = last) = (ls = []) := by
        rw [← List.length_eq_zero_iff]
        exact propext ⟨fun h => by omega, fun h => by omega⟩
      have hfirst : decide (i + 1 = 0) = false := rfl
      have hrest : ∀ cs, filterLevels last (i + 1) ls = .ok cs ↔
          FilterLevels false ls ∧ cs = filterChunks false ls := by
        intro cs
        rw [ih (fun m hm => hne m (.tail l hm)) (by omega), hfirst]
      have hhead : ∀ c, filterLevel last i l = .ok c ↔
          FilterLevel (i = 0) (i = last) l ∧ c = filterChunk (decide (i = 0)) l :=
        fun c => filterLevel_iff (hne l (.head _))
      rw [filterLevels, FilterLevels, filterChunks, decide_eq_true_eq, ← hfinal]
      constructor
      · intro h
        obtain ⟨c, hc, h⟩ := bind_eq_ok.mp h
        obtain ⟨cs, hcs, h⟩ := bind_eq_ok.mp h
        cases h
        obtain ⟨hlevel, rfl⟩ := (hhead c).mp hc
        obtain ⟨hlevels, rfl⟩ := (hrest cs).mp hcs
        exact ⟨⟨hlevel, hlevels⟩, rfl⟩
      · rintro ⟨⟨hlevel, hlevels⟩, rfl⟩
        refine bind_eq_ok.mpr ⟨_, (hhead _).mpr ⟨hlevel, rfl⟩, ?_⟩
        exact bind_eq_ok.mpr ⟨_, (hrest _).mpr ⟨hlevels, rfl⟩, rfl⟩

theorem FilterLevels.ne_nil {first : Bool} {ls : List Str} (h : FilterLevels first ls) :
    ∀ l ∈ ls, l ≠ [] := by
  induction ls generalizing first with
  | nil => exact fun l hl => absurd hl List.not_mem_nil
  | cons a ls ih =>
      refine List.forall_mem_cons.mpr ⟨?_, ih h.2⟩
      rcases h.1 with ⟨_, rfl | rfl⟩ | rfl | ⟨_, rfl⟩ | htopic
      · decide
      · decide
      · decide
      · decide
      · exact htopic.nonempty

/-- A filter is accepted iff its levels are, and its key expression is then their
chunks in the scope. -/
theorem filterToKeyexpr_iff {f scope k : Str} :
    filterToKeyexpr f scope = .ok k ↔ FilterLevels true (f.splitOn '/') ∧
      k = inScope scope (joinLevels (filterChunks true (f.splitOn '/'))) := by
  have hpos : 0 < (f.splitOn '/').length := List.length_pos_of_ne_nil (List.splitOn_ne_nil _ _)
  have hlen : (f.splitOn '/').length - 1 + 1 = 0 + (f.splitOn '/').length := by omega
  rw [filterToKeyexpr]
  constructor
  · intro h
    obtain ⟨parts, hl, h⟩ := bind_eq_ok.mp h
    obtain ⟨out, hc, h⟩ := bind_eq_ok.mp h
    cases h
    obtain ⟨rfl, hne⟩ := levels_iff.mp hl
    obtain ⟨hlevels, rfl⟩ := (filterLevels_iff hne hlen).mp hc
    exact ⟨hlevels, rfl⟩
  · rintro ⟨hlevels, rfl⟩
    have hl : levels f = .ok (f.splitOn '/') := levels_iff.mpr ⟨rfl, hlevels.ne_nil⟩
    refine bind_eq_ok.mpr ⟨_, hl, bind_eq_ok.mpr ⟨_, ?_, rfl⟩⟩
    exact (filterLevels_iff hlevels.ne_nil hlen).mpr ⟨hlevels, rfl⟩

/-! ### Their parts -/

theorem FilterLevels.levelsOk {first : Bool} {ls : List Str} (h : FilterLevels first ls) :
    LevelsOk first ls := by
  induction ls generalizing first with
  | nil => trivial
  | cons l ls ih =>
      refine ⟨?_, ih h.2⟩
      rcases h.1 with hname | hplus | ⟨hlast, hhash⟩ | htopic
      · exact .inl hname
      · exact .inr (.inl hplus)
      · exact .inr (.inr (.inl ⟨hhash, hlast⟩))
      · exact .inr (.inr (.inr htopic.toPlainLevel))

/-- The part for the chunk of an accepted level, which is one chunk. -/
theorem chunkPat_filterChunk {first : Bool} {final : Prop} {l : Str}
    (h : FilterLevel (first = true) final l) (hslash : '/' ∉ l) :
    chunkPat (filterChunk first l) = filterPat first l ∧ '/' ∉ filterChunk first l := by
  rcases h with ⟨rfl, rfl | rfl⟩ | rfl | ⟨_, rfl⟩ | htopic
  · exact ⟨rfl, by decide⟩
  · exact ⟨rfl, by decide⟩
  · rw [filterChunk_plus, filterPat_plus]
    exact ⟨rfl, by decide⟩
  · rw [filterChunk_hash, filterPat_hash]
    exact ⟨rfl, by decide⟩
  · rw [filterChunk_topicLevel _ htopic, filterPat_plain _ htopic.toPlainLevel,
      chunkPat_of_notMem htopic.star]
    exact ⟨rfl, hslash⟩

theorem filterChunks_notMem {first : Bool} {ls : List Str} (h : FilterLevels first ls)
    (hslash : ∀ l ∈ ls, '/' ∉ l) : ∀ c ∈ filterChunks first ls, '/' ∉ c := by
  induction ls generalizing first with
  | nil => exact fun c hc => absurd hc List.not_mem_nil
  | cons l ls ih =>
      exact List.forall_mem_cons.mpr ⟨(chunkPat_filterChunk h.1 (hslash l (.head _))).2,
        ih h.2 fun m hm => hslash m (.tail l hm)⟩

theorem map_chunkPat_filterChunks {ls : List Str} (h : FilterLevels false ls)
    (hslash : ∀ l ∈ ls, '/' ∉ l) :
      (filterChunks false ls).map chunkPat = ls.map (filterPat false) := by
  induction ls with
  | nil => rfl
  | cons l ls ih =>
      rw [filterChunks, List.map_cons, List.map_cons,
        (chunkPat_filterChunk h.1 (hslash l (.head _))).1,
        ih h.2 fun m hm => hslash m (.tail l hm)]

theorem filterChunks_ne_nil (f : Str) : filterChunks true (f.splitOn '/') ≠ [] := by
  obtain ⟨l, ls, hsplit⟩ := List.exists_cons_of_ne_nil (List.splitOn_ne_nil '/' f)
  rw [hsplit, filterChunks]
  exact List.cons_ne_nil _ _

/-- The chunks of an accepted filter's key expression, behind those of the scope. -/
theorem filterToKeyexpr_chunks {f scope k : Str} (h : filterToKeyexpr f scope = .ok k) :
    k.splitOn '/' = scopeChunks scope ++ filterChunks true (f.splitOn '/') := by
  obtain ⟨hlevels, rfl⟩ := filterToKeyexpr_iff.mp h
  rw [inScope_chunks, joinLevels, List.splitOn_intercalate _
    (filterChunks_notMem hlevels fun l hl => notMem_of_mem_splitOn hl) (filterChunks_ne_nil f)]

/-- An accepted filter has such levels, and its key expression is the scope
followed by their parts. -/
theorem filterToKeyexpr_ok {f scope k : Str} (hs : ScopeOk scope)
    (h : filterToKeyexpr f scope = .ok k) :
    LevelsOk true (f.splitOn '/') ∧
      keyPats k = (scopeChunks scope).map .lit ++ filterPats (f.splitOn '/') := by
  have hlevels := (filterToKeyexpr_iff.mp h).1
  have hslash : ∀ l ∈ f.splitOn '/', '/' ∉ l := fun l hl => notMem_of_mem_splitOn hl
  refine ⟨hlevels.levelsOk, ?_⟩
  rw [keyPats, filterToKeyexpr_chunks h, List.map_append, hs.pats]
  cases hsplit : f.splitOn '/' with
  | nil => rfl
  | cons l ls =>
      rw [hsplit] at hlevels hslash
      rw [filterChunks, filterPats, List.map_cons,
        (chunkPat_filterChunk hlevels.1 (hslash l (.head _))).1,
        map_chunkPat_filterChunks hlevels.2 fun m hm => hslash m (.tail l hm)]

/-- What a filter matches on the bus: keys of the scope whose rest its parts accept. -/
theorem busMatches_iff {f scope k : Str} (hs : ScopeOk scope) (h : filterToKeyexpr f scope = .ok k)
    (key : Str) : busMatches k key = true ↔ ∃ rest, key.splitOn '/' = scopeChunks scope ++ rest ∧
      accepts verbatim (filterPats (f.splitOn '/')) rest = true := by
  rw [busMatches, (filterToKeyexpr_ok hs h).2]
  exact Chunks.accepts_lits_iff

/-- A key under the scope itself: only its rest counts. -/
theorem busMatches_inScope {f scope k : Str} (hs : ScopeOk scope)
    (h : filterToKeyexpr f scope = .ok k) (ke : Str) : busMatches k (inScope scope ke) = true ↔
      accepts verbatim (filterPats (f.splitOn '/')) (ke.splitOn '/') = true := by
  rw [busMatches_iff hs h, inScope_chunks]
  constructor
  · rintro ⟨rest, heq, hacc⟩
    rwa [List.append_cancel_left heq]
  · exact fun hacc => ⟨_, rfl, hacc⟩

end Entmoot
