/-
# `Entmoot.Covers` — that covering is inclusion

`filterCovers` compares two filters level by level; what it should decide is whether
every topic of the inner one is a topic of the outer one.  Soundness holds for any
lists of levels and is an induction over the outer one (`matchLevels_of_coverLevels`).
For the converse a mismatch has to yield a topic that tells the filters apart
(`exists_separating`): the first level at which they differ decides it, with a level
of its own kind for `+` and `#`, and nothing at all for a `#` that meets a level.

A topic has a first level, so at the front a `#` also means `+/#`, and that is the
one inclusion `filterCovers` misses (`filterCovers_iff`).
-/
import Entmoot.Grants

namespace Entmoot

/-! ## One level at a time -/

theorem matchLevels_cons {f : Str} {fs ts : List Str} (hf : f ≠ ['#']) :
    matchLevels (f :: fs) ts = true ↔
      ∃ l ls, ts = l :: ls ∧ (f = ['+'] ∨ f = l) ∧ matchLevels fs ls = true := by
  cases ts with
  | nil => simp [matchLevels, hf]
  | cons l ls =>
      by_cases hplus : f = ['+']
      · simp [matchLevels, hplus]
      · by_cases hl : f = l
        · simp [matchLevels, hl, hl ▸ hf]
        · simp [matchLevels, hf, hplus, hl]

theorem matchLevels_hash (fs ts : List Str) : matchLevels (['#'] :: fs) ts = true := by
  cases ts <;> simp [matchLevels]

theorem coverLevels_cons {o : Str} {os is : List Str} (ho : o ≠ ['#']) :
    coverLevels (o :: os) is = true ↔ ∃ l ls, is = l :: ls ∧
      (o = ['+'] ∧ l ≠ ['#'] ∨ o ≠ ['+'] ∧ o = l) ∧ coverLevels os ls = true := by
  cases is with
  | nil => simp [coverLevels, ho]
  | cons l ls =>
      by_cases hplus : o = ['+']
      · by_cases hl : l = ['#']
        · simp [coverLevels, hplus, hl]
        · simp [coverLevels, hplus, hl]
      · by_cases hl : o = l
        · simp [coverLevels, hl, hl ▸ hplus, hl ▸ ho]
        · simp [coverLevels, ho, hplus, hl]

theorem coverLevels_hash (os is : List Str) : coverLevels (['#'] :: os) is = true := by
  cases is <;> simp [coverLevels]

/-! ## Soundness -/

/-- What covers matches what the covered matches, on any levels. -/
theorem matchLevels_of_coverLevels {os : List Str} : ∀ {is ts : List Str},
    coverLevels os is = true → matchLevels is ts = true → matchLevels os ts = true := by
  induction os with
  | nil =>
      intro is ts hc hm
      rw [coverLevels, List.isEmpty_iff] at hc
      rwa [hc] at hm
  | cons o os ih =>
      intro is ts hc hm
      by_cases ho : o = ['#']
      · rw [ho]
        exact matchLevels_hash os ts
      · obtain ⟨i, is, rfl, hhead, hrest⟩ := (coverLevels_cons ho).mp hc
        have hi : i ≠ ['#'] := by
          rcases hhead with ⟨_, hi⟩ | ⟨_, rfl⟩
          · exact hi
          · exact ho
        obtain ⟨t, ts, rfl, hit, hm⟩ := (matchLevels_cons hi).mp hm
        refine (matchLevels_cons ho).mpr ⟨t, ts, rfl, ?_, ih hrest hm⟩
        rcases hhead with ⟨hplus, _⟩ | ⟨hplus, rfl⟩
        · exact .inl hplus
        · exact hit

/-! ## Separating topics -/

/-- A level that may stand in a topic. -/
def TopicChunk (l : Str) : Prop := TopicLevel l ∧ '/' ∉ l

theorem exists_topicChunk (l : Str) : ∃ x, TopicChunk x ∧ x ≠ l := by
  have hmem : ∀ c : Char, c ≠ 'x' → c ∉ List.replicate (l.length + 1) 'x' :=
    fun c hc h => hc (List.eq_of_mem_replicate h)
  refine ⟨List.replicate (l.length + 1) 'x', ⟨⟨⟨?_, ?_, ?_, ?_, ?_, ?_⟩, ?_⟩, ?_⟩, ?_⟩
  · exact List.cons_ne_nil _ _
  · exact hmem _ (by decide)
  · exact hmem _ (by decide)
  · exact hmem _ (by decide)
  · exact hmem _ (by decide)
  · rw [List.replicate_succ, List.head?_cons]
    decide
  · exact hmem _ (by decide)
  · exact hmem _ (by decide)
  · intro h
    have hlen := congrArg List.length h
    rw [List.length_replicate] at hlen
    omega

/-- A level the filter's level matches: `x` where it leaves the choice. -/
def sampleLevel (x l : Str) : Str := if l = ['+'] ∨ l = ['#'] then x else l

theorem sampleLevel_topicChunk {final : Prop} {x l : Str} (hx : TopicChunk x)
    (hl : FilterLevel (false = true) final l) (hslash : '/' ∉ l) :
      TopicChunk (sampleLevel x l) := by
  rw [sampleLevel]
  split
  · exact hx
  · next hwild =>
    rcases hl with ⟨hfirst, _⟩ | hplus | ⟨_, hhash⟩ | htopic
    · cases hfirst
    · exact absurd (.inl hplus) hwild
    · exact absurd (.inr hhash) hwild
    · exact ⟨htopic, hslash⟩

theorem sampleLevel_matches {x l : Str} (hl : l ≠ ['#']) : l = ['+'] ∨ l = sampleLevel x l := by
  by_cases hplus : l = ['+']
  · exact .inl hplus
  · exact .inr (by rw [sampleLevel, if_neg (not_or.mpr ⟨hplus, hl⟩)])

theorem exists_sample {x : Str} (hx : TopicChunk x) : ∀ {is : List Str}, FilterLevels false is →
    (∀ i ∈ is, '/' ∉ i) → (∀ t ∈ is.map (sampleLevel x), TopicChunk t) ∧
      matchLevels is (is.map (sampleLevel x)) = true := by
  intro is
  induction is with
  | nil => exact fun _ _ => ⟨fun t ht => absurd ht List.not_mem_nil, rfl⟩
  | cons i is ih =>
      intro his hslash
      obtain ⟨hchunks, hmatch⟩ := ih his.2 fun j hj => hslash j (.tail i hj)
      have hi := sampleLevel_topicChunk hx his.1 (hslash i (.head _))
      refine ⟨List.forall_mem_cons.mpr ⟨hi, hchunks⟩, ?_⟩
      by_cases hhash : i = ['#']
      · rw [hhash]
        exact matchLevels_hash is _
      · exact (matchLevels_cons hhash).mpr ⟨_, _, rfl, sampleLevel_matches hhash, hmatch⟩

/-- Filters that do not cover are told apart by the levels of some topic; only where
the inner one is at its end, or at a `#`, are there none. -/
theorem exists_separating {os : List Str} : ∀ {is : List Str}, FilterLevels false os →
    FilterLevels false is → (∀ i ∈ is, '/' ∉ i) → ¬ coverLevels os is = true →
    ∃ ts, (∀ t ∈ ts, TopicChunk t) ∧ matchLevels is ts = true ∧ ¬ matchLevels os ts = true := by
  induction os with
  | nil =>
      intro is _ his hslash hc
      cases is with
      | nil => exact absurd rfl hc
      | cons i is =>
          obtain ⟨x, hx, _⟩ := exists_topicChunk []
          obtain ⟨hchunks, hmatch⟩ := exists_sample hx his hslash
          exact ⟨_, hchunks, hmatch, by simp [matchLevels]⟩
  | cons o os ih =>
      intro is hos his hslash hc
      have ho : o ≠ ['#'] := by
        rintro rfl
        exact hc (coverLevels_hash os is)
      have hends : ¬ matchLevels (o :: os) [] = true := by
        intro h
        obtain ⟨l, ls, hnil, _⟩ := (matchLevels_cons ho).mp h
        cases hnil
      have hnone : ∀ t ∈ ([] : List Str), TopicChunk t := fun t ht => absurd ht List.not_mem_nil
      cases is with
      | nil => exact ⟨[], hnone, rfl, hends⟩
      | cons i is =>
          by_cases hi : i = ['#']
          · rw [hi]
            exact ⟨[], hnone, matchLevels_hash is [], hends⟩
          · by_cases hhead : o = ['+'] ∨ o = i
            · -- the heads agree, so the filters differ further back
              have hrest : ¬ coverLevels os is = true := by
                intro hrest
                refine hc ((coverLevels_cons ho).mpr ⟨i, is, rfl, ?_, hrest⟩)
                by_cases hplus : o = ['+']
                · exact .inl ⟨hplus, hi⟩
                · exact .inr ⟨hplus, hhead.resolve_left hplus⟩
              obtain ⟨ts, hchunks, hin, hout⟩ := ih hos.2 his.2
                (fun j hj => hslash j (.tail i hj)) hrest
              obtain ⟨x, hx, _⟩ := exists_topicChunk []
              refine ⟨sampleLevel x i :: ts, ?_, ?_, ?_⟩
              · have hlevel := sampleLevel_topicChunk hx his.1 (hslash i (.head _))
                exact List.forall_mem_cons.mpr ⟨hlevel, hchunks⟩
              · exact (matchLevels_cons hi).mpr ⟨_, _, rfl, sampleLevel_matches hi, hin⟩
              · intro h
                obtain ⟨l, ls, heq, _, hrest⟩ := (matchLevels_cons ho).mp h
                cases heq
                exact hout hrest
            · -- the outer head is a name, and the topic starts with another
              obtain ⟨hplus, hne⟩ := not_or.mp hhead
              obtain ⟨x, hx, hxo⟩ := exists_topicChunk o
              obtain ⟨hchunks, hmatch⟩ := exists_sample hx his hslash
              refine ⟨_, hchunks, hmatch, fun h => ?_⟩
              obtain ⟨l, ls, heq, hl, _⟩ := (matchLevels_cons ho).mp h
              cases heq
              have hol := hl.resolve_left hplus
              rw [sampleLevel] at hol
              split at hol
              · exact hxo hol.symm
              · exact hne hol

/-- Where only the empty list of levels told them apart, a topic of one or two levels
does, but for `+/#` and `#`. -/
theorem exists_separating_topic {os is : List Str} (hos : FilterLevels false os)
    (his : FilterLevels false is) (hslash : ∀ i ∈ is, '/' ∉ i) (hne : os ≠ [] ∧ is ≠ [])
    (hc : ¬ coverLevels os is = true) (hexc : ¬ (os = [['+'], ['#']] ∧ is = [['#']])) :
    ∃ ts, ts ≠ [] ∧ (∀ t ∈ ts, TopicChunk t) ∧ matchLevels is ts = true ∧
      ¬ matchLevels os ts = true := by
  obtain ⟨ts, hchunks, hin, hout⟩ := exists_separating hos his hslash hc
  by_cases hts : ts = []
  · subst hts
    obtain ⟨i, is, rfl⟩ := List.exists_cons_of_ne_nil hne.2
    obtain ⟨o, os, rfl⟩ := List.exists_cons_of_ne_nil hne.1
    have hi : i = ['#'] := by
      by_contra hi
      obtain ⟨l, ls, hnil, _⟩ := (matchLevels_cons hi).mp hin
      cases hnil
    have hrest : is = [] := by
      rcases his.1 with ⟨hfirst, _⟩ | hplus | ⟨hlast, _⟩ | htopic
      · cases hfirst
      · exact absurd (hplus.symm.trans hi) (by decide)
      · exact hlast
      · exact absurd hi htopic.ne_hash
    subst hi hrest
    have ho : o ≠ ['#'] := by
      rintro rfl
      exact hc (coverLevels_hash os _)
    obtain ⟨x, hx, hxo⟩ := exists_topicChunk o
    have hone : ∀ t ∈ [x], TopicChunk t := List.forall_mem_singleton.mpr hx
    by_cases hplus : o = ['+']
    · subst hplus
      cases os with
      | nil =>
          refine ⟨[x, x], List.cons_ne_nil _ _, List.forall_mem_cons.mpr ⟨hx, hone⟩,
            matchLevels_hash _ _, fun h => ?_⟩
          obtain ⟨l, ls, heq, _, hend⟩ := (matchLevels_cons ho).mp h
          cases heq
          cases hend
      | cons r os =>
          have hr : r ≠ ['#'] := by
            rintro rfl
            rcases hos.2.1 with ⟨hfirst, _⟩ | hplus | ⟨hlast, _⟩ | htopic
            · cases hfirst
            · exact absurd hplus (by decide)
            · exact hexc ⟨by rw [hlast], rfl⟩
            · exact htopic.ne_hash rfl
          refine ⟨[x], List.cons_ne_nil _ _, hone, matchLevels_hash _ _, fun h => ?_⟩
          obtain ⟨l, ls, heq, _, hend⟩ := (matchLevels_cons ho).mp h
          cases heq
          obtain ⟨l, ls, hnil, _⟩ := (matchLevels_cons hr).mp hend
          cases hnil
    · refine ⟨[x], List.cons_ne_nil _ _, hone, matchLevels_hash _ _, fun h => ?_⟩
      obtain ⟨l, ls, heq, hl, _⟩ := (matchLevels_cons ho).mp h
      cases heq
      exact hxo (hl.resolve_left hplus).symm
  · exact ⟨ts, hts, hchunks, hin, hout⟩

/-! ## Filters and topics -/

theorem FilterLevels.rest {f : Str} (h : FilterLevels true (f.splitOn '/'))
    (hown : ¬ OwnKeyspace f) :
    FilterLevels false (f.splitOn '/') := by
  rw [OwnKeyspace] at hown
  cases hsplit : f.splitOn '/' with
  | nil => trivial
  | cons l ls =>
      rw [hsplit] at h hown
      refine ⟨?_, h.2⟩
      rcases h.1 with ⟨_, hname⟩ | hlevel
      · refine absurd ?_ hown
        rcases hname with rfl | rfl
        · exact .inl rfl
        · exact .inr rfl
      · exact .inr hlevel

theorem topicOf_levels (scope : Str) {ts : List Str} (hts : ts ≠ []) (h : ∀ t ∈ ts, TopicChunk t) :
    (joinLevels ts).splitOn '/' = ts ∧
      topicToKeyexpr (joinLevels ts) scope = .ok (inScope scope (joinLevels ts)) := by
  have hsplit : (joinLevels ts).splitOn '/' = ts :=
    List.splitOn_intercalate _ (fun t ht => (h t ht).2) hts
  refine ⟨hsplit, topicToKeyexpr_iff.mpr ⟨fun t ht => ?_, rfl⟩⟩
  rw [hsplit] at ht
  exact (h t ht).1

/-- Every accepted topic of the one filter is one of the other. -/
def Includes (scope outer inner : Str) : Prop :=
  ∀ t k, topicToKeyexpr t scope = .ok k → topicMatches inner t = true → topicMatches outer t = true

theorem plus_hash_includes (scope : Str) : Includes scope "+/#".toList "#".toList := by
  intro t k _ _
  obtain ⟨l, ls, hsplit⟩ := List.exists_cons_of_ne_nil (List.splitOn_ne_nil '/' t)
  have hfilter : "+/#".toList.splitOn '/' = [['+'], ['#']] := by decide
  rw [topicMatches, hsplit, hfilter]
  exact (matchLevels_cons (by decide)).mpr ⟨l, ls, rfl, .inl rfl, matchLevels_hash _ _⟩

/-- **Covering is inclusion**, for accepted filters outside `$SYS` and `$meta`, but for
`+/#` and `#`: there the topics are included, and the answer is no. -/
theorem filterCovers_iff {outer inner scope outerKe innerKe : Str}
    (houter : filterToKeyexpr outer scope = .ok outerKe)
    (hinner : filterToKeyexpr inner scope = .ok innerKe) (ho : ¬ OwnKeyspace outer)
    (hi : ¬ OwnKeyspace inner) :
    (¬ (outer = "+/#".toList ∧ inner = "#".toList) →
      (filterCovers outer inner = true ↔ Includes scope outer inner)) ∧
    (outer = "+/#".toList ∧ inner = "#".toList →
      filterCovers outer inner = false ∧ Includes scope outer inner) := by
  have hos := (filterToKeyexpr_iff.mp houter).1.rest ho
  have his := (filterToKeyexpr_iff.mp hinner).1.rest hi
  constructor
  · intro hexc
    constructor
    · exact fun hc t _ _ hm => matchLevels_of_coverLevels hc hm
    · intro hincl
      by_contra hc
      have hexc' : ¬ (outer.splitOn '/' = [['+'], ['#']] ∧ inner.splitOn '/' = [['#']]) := by
        rintro ⟨hout, hin⟩
        refine hexc ⟨?_, ?_⟩
        · rw [← joinLevels_splitOn outer, hout]
          rfl
        · rw [← joinLevels_splitOn inner, hin]
          rfl
      obtain ⟨ts, hts, hchunks, hin, hout⟩ := exists_separating_topic hos his
        (fun i h => notMem_of_mem_splitOn h)
        ⟨List.splitOn_ne_nil _ _, List.splitOn_ne_nil _ _⟩ hc hexc'
      obtain ⟨hsplit, haccepted⟩ := topicOf_levels scope hts hchunks
      refine hout ?_
      have hmatch := hincl _ _ haccepted (by rwa [topicMatches, hsplit])
      rwa [topicMatches, hsplit] at hmatch
  · rintro ⟨rfl, rfl⟩
    exact ⟨by decide, plus_hash_includes scope⟩

/-- A wildcard that covers a level. -/
theorem plus_covers_level : filterCovers "plant/+".toList "plant/kiln".toList = true ↔
    Includes [] "plant/+".toList "plant/kiln".toList :=
  (@filterCovers_iff _ _ [] "plant/*".toList "plant/kiln".toList rfl rfl (by decide)
    (by decide)).1 (by decide)

end Entmoot
