/-
# `Entmoot.Patterns` — malformed patterns in ACL rules

`topic_matches` and `filter_covers` (`crates/entmoot-core/src/topic.rs` 137–184) say of
their inputs that they are validated; `Acl` gives them the patterns of the configuration
as they stand.  Most of what validation refuses is refused by matching as well: a level
that is neither `+` nor a level of the topic matches nothing.  But both return at the
first `#` and never look behind it, so a pattern is worth what is left of it when it is
cut there (`topicMatches_cut`, `filterCovers_cut`).

A rule with such a pattern grants something exactly if that much of it is an accepted
filter (`failsClosed_iff`).
-/
import Entmoot.Covers

namespace Entmoot

/-! ## Patterns up to their first `#` -/

def cutLevels : List Str → List Str
  | [] => []
  | l :: ls => if l = ['#'] then [['#']] else l :: cutLevels ls

/-- The pattern without what stands behind its first level `#`. -/
def cutAtHash (p : Str) : Str := joinLevels (cutLevels (p.splitOn '/'))

theorem cutLevels_cons {l : Str} {ls : List Str} (hl : l ≠ ['#']) :
    cutLevels (l :: ls) = l :: cutLevels ls := by
  rw [cutLevels, if_neg hl]

theorem cutLevels_ne_nil {ls : List Str} (h : ls ≠ []) : cutLevels ls ≠ [] := by
  obtain ⟨l, rest, rfl⟩ := List.exists_cons_of_ne_nil h
  rw [cutLevels]
  split
  · exact List.cons_ne_nil _ _
  · exact List.cons_ne_nil _ _

theorem mem_cutLevels {ls : List Str} {l : Str} : l ∈ cutLevels ls → l ∈ ls := by
  induction ls with
  | nil => exact id
  | cons a ls ih =>
      rw [cutLevels]
      split
      · next ha =>
        rintro h
        rw [List.mem_singleton.mp h, ha]
        exact .head _
      · intro h
        rcases List.mem_cons.mp h with rfl | h
        · exact .head _
        · exact .tail _ (ih h)

theorem splitOn_cutAtHash (p : Str) : (cutAtHash p).splitOn '/' = cutLevels (p.splitOn '/') :=
  List.splitOn_intercalate _ (fun _ hl => notMem_of_mem_splitOn (mem_cutLevels hl))
    (cutLevels_ne_nil (List.splitOn_ne_nil '/' p))

/-- Matching does not look behind a `#`. -/
theorem matchLevels_cut {ps : List Str} : ∀ {ts : List Str},
    matchLevels (cutLevels ps) ts = matchLevels ps ts := by
  induction ps with
  | nil => exact rfl
  | cons p ps ih =>
      intro ts
      by_cases hp : p = ['#']
      · rw [hp, matchLevels_hash]
        exact matchLevels_hash [] ts
      · rw [cutLevels_cons hp, Bool.eq_iff_iff, matchLevels_cons hp, matchLevels_cons hp]
        simp only [ih]

/-- Nor does covering. -/
theorem coverLevels_cut {ps : List Str} : ∀ {is : List Str},
    coverLevels (cutLevels ps) is = coverLevels ps is := by
  induction ps with
  | nil => exact rfl
  | cons p ps ih =>
      intro is
      by_cases hp : p = ['#']
      · rw [hp, coverLevels_hash]
        exact coverLevels_hash [] is
      · rw [cutLevels_cons hp, Bool.eq_iff_iff, coverLevels_cons hp, coverLevels_cons hp]
        simp only [ih]

theorem topicMatches_cut (p t : Str) : topicMatches (cutAtHash p) t = topicMatches p t := by
  rw [topicMatches, splitOn_cutAtHash, matchLevels_cut]
  rfl

theorem filterCovers_cut (p f : Str) : filterCovers (cutAtHash p) f = filterCovers p f := by
  rw [filterCovers, splitOn_cutAtHash, coverLevels_cut]
  rfl

/-! ## What a pattern can match -/

/-- A pattern that matches a topic is, up to its `#`, made of levels a filter may have. -/
theorem filterLevels_of_match {ps : List Str} : ∀ {ts : List Str}, (∀ t ∈ ts, TopicLevel t) →
    matchLevels ps ts = true → FilterLevels false (cutLevels ps) := by
  induction ps with
  | nil => exact fun _ _ => trivial
  | cons p ps ih =>
      intro ts hts hm
      by_cases hp : p = ['#']
      · rw [hp]
        exact ⟨.inr (.inr (.inl ⟨rfl, rfl⟩)), trivial⟩
      · rw [cutLevels_cons hp]
        obtain ⟨l, ls, rfl, hl, hrest⟩ := (matchLevels_cons hp).mp hm
        obtain ⟨htopic, hts⟩ := List.forall_mem_cons.mp hts
        refine ⟨?_, ih hts hrest⟩
        rcases hl with rfl | rfl
        · exact .inr (.inl rfl)
        · exact .inr (.inr (.inr htopic))

theorem filterLevels_of_cover {ps : List Str} :
    ∀ {first : Bool} {is : List Str}, FilterLevels first is →
    coverLevels ps is = true → FilterLevels first (cutLevels ps) := by
  induction ps with
  | nil => exact fun _ _ => trivial
  | cons p ps ih =>
      intro first is his hc
      by_cases hp : p = ['#']
      · rw [hp]
        exact ⟨.inr (.inr (.inl ⟨rfl, rfl⟩)), trivial⟩
      · rw [cutLevels_cons hp]
        obtain ⟨l, ls, rfl, hl, hrest⟩ := (coverLevels_cons hp).mp hc
        refine ⟨?_, ih his.2 hrest⟩
        rcases hl with ⟨rfl, _⟩ | ⟨_, rfl⟩
        · exact .inr (.inl rfl)
        · rcases his.1 with hname | hplus | ⟨_, hhash⟩ | htopic
          · exact .inl hname
          · exact .inr (.inl hplus)
          · exact absurd hhash hp
          · exact .inr (.inr (.inr htopic))

theorem coverLevels_self (is : List Str) : coverLevels is is = true := by
  induction is with
  | nil => rfl
  | cons i is ih =>
      by_cases hi : i = ['#']
      · rw [hi]
        exact coverLevels_hash is _
      · refine (coverLevels_cons hi).mpr ⟨i, is, rfl, ?_, ih⟩
        by_cases hplus : i = ['+']
        · exact .inl ⟨hplus, hi⟩
        · exact .inr ⟨hplus, rfl⟩

theorem FilterLevels.first {ls : List Str} (h : FilterLevels false ls) : FilterLevels true ls := by
  cases ls with
  | nil => trivial
  | cons l ls =>
      refine ⟨?_, h.2⟩
      rcases h.1 with ⟨hfirst, _⟩ | hlevel
      · cases hfirst
      · exact .inr hlevel

/-- `filter_to_keyexpr` accepts the filter. -/
def Accepted (scope f : Str) : Prop := ∃ k, filterToKeyexpr f scope = .ok k

theorem accepted_iff {scope f : Str} : Accepted scope f ↔ FilterLevels true (f.splitOn '/') :=
  ⟨fun ⟨_, h⟩ => (filterToKeyexpr_iff.mp h).1, fun h => ⟨_, filterToKeyexpr_iff.mpr ⟨h, rfl⟩⟩⟩

theorem accepted_of_topicMatches {scope p t k : Str} (ht : topicToKeyexpr t scope = .ok k)
    (hm : topicMatches p t = true) : Accepted scope (cutAtHash p) := by
  rw [accepted_iff, splitOn_cutAtHash]
  exact (filterLevels_of_match (topicToKeyexpr_iff.mp ht).1 hm).first

theorem accepted_of_filterCovers {scope p f k : Str} (hf : filterToKeyexpr f scope = .ok k)
    (hc : filterCovers p f = true) : Accepted scope (cutAtHash p) := by
  rw [accepted_iff, splitOn_cutAtHash]
  exact filterLevels_of_cover (filterToKeyexpr_iff.mp hf).1 hc

theorem not_ownKeyspace {f : Str} (h : FilterLevels false (f.splitOn '/')) : ¬ OwnKeyspace f := by
  rw [OwnKeyspace]
  cases hsplit : f.splitOn '/' with
  | nil => exact absurd hsplit (List.splitOn_ne_nil '/' f)
  | cons l ls =>
      rw [hsplit] at h
      rw [List.head?_cons, Option.some.injEq, Option.some.injEq]
      have hname : ∀ name : Str, '$' ∈ name → name ≠ ['+'] → name ≠ ['#'] → l ≠ name := by
        rintro name hdollar hplus hhash rfl
        rcases h.1 with ⟨hfirst, _⟩ | heq | ⟨_, heq⟩ | htopic
        · cases hfirst
        · exact hplus heq
        · exact hhash heq
        · exact htopic.dollar hdollar
      rintro (heq | heq)
      · exact hname sysPrefix (.head _) (by decide) (by decide) heq
      · exact hname metaPrefix (.head _) (by decide) (by decide) heq

/-- A pattern matches some topic exactly if its cut is an accepted filter outside `$SYS` and
`$meta`. -/
theorem opens_topic_iff {scope p : Str} :
    (∃ t k, topicToKeyexpr t scope = .ok k ∧ topicMatches p t = true) ↔
      Accepted scope (cutAtHash p) ∧ ¬ OwnKeyspace (cutAtHash p) := by
  constructor
  · rintro ⟨t, k, ht, hm⟩
    refine ⟨accepted_of_topicMatches ht hm, not_ownKeyspace ?_⟩
    rw [splitOn_cutAtHash]
    exact filterLevels_of_match (topicToKeyexpr_iff.mp ht).1 hm
  · rintro ⟨haccepted, hown⟩
    obtain ⟨x, hx, _⟩ := exists_topicChunk []
    obtain ⟨hchunks, hmatch⟩ := exists_sample hx ((accepted_iff.mp haccepted).rest hown)
      fun i hi => notMem_of_mem_splitOn hi
    obtain ⟨hsplit, hok⟩ := topicOf_levels scope
      (List.map_eq_nil_iff.not.mpr (List.splitOn_ne_nil '/' (cutAtHash p))) hchunks
    refine ⟨_, _, hok, ?_⟩
    rw [← topicMatches_cut, topicMatches, hsplit]
    exact hmatch

/-! ## Rules with one more pattern -/

/-- `rules'` are `rules` with the pattern `p` put into a list of one of them. -/
inductive Adds (p : Str) : List AclRule → List AclRule → Prop where
  | publish (before after : List AclRule) (user : Str) (front back subscribe : List Str) :
      Adds p (before ++ ⟨user, front ++ back, subscribe⟩ :: after)
        (before ++ ⟨user, front ++ p :: back, subscribe⟩ :: after)
  | subscribe (before after : List AclRule) (user : Str) (publish front back : List Str) :
      Adds p (before ++ ⟨user, publish, front ++ back⟩ :: after)
        (before ++ ⟨user, publish, front ++ p :: back⟩ :: after)

/-- Under the deny policy the pattern is worth nothing: put into any rule it changes no
answer about an accepted topic or filter. -/
def FailsClosed (scope p : Str) : Prop :=
  ∀ rules rules', Adds p rules rules' → ∀ u,
    (∀ t k, topicToKeyexpr t scope = .ok k →
      (Acl.new rules' .deny).mayPublish u t = (Acl.new rules .deny).mayPublish u t) ∧
    ∀ f k, filterToKeyexpr f scope = .ok k →
      (Acl.new rules' .deny).maySubscribe u f = (Acl.new rules .deny).maySubscribe u f

theorem mayPublish_deny (rules : List AclRule) (u t : Str) : (Acl.new rules .deny).mayPublish u t =
    ((Acl.new rules .deny).rulesFor u).any fun r => r.publish.any fun pat => topicMatches pat t :=
  Bool.false_or _

theorem maySubscribe_deny (rules : List AclRule) (u f : Str) :
    (Acl.new rules .deny).maySubscribe u f =
    ((Acl.new rules .deny).rulesFor u).any fun r => r.subscribe.any fun pat => filterCovers pat f :=
  Bool.false_or _

theorem any_insert {α : Type} {g : α → Bool} {p : α} (front back : List α) (h : g p = false) :
    (front ++ p :: back).any g = (front ++ back).any g := by
  rw [List.any_append, List.any_append, List.any_cons, h, Bool.false_or]

/-- Rules that apply to the same users and grant the same give the same answer. -/
theorem any_rulesFor {g : AclRule → Bool} {before after : List AclRule} {r r' : AclRule} (u : Str)
    (huser : r'.user = r.user) (hg : g r' = g r) :
    ((Acl.new (before ++ r' :: after) .deny).rulesFor u).any g =
      ((Acl.new (before ++ r :: after) .deny).rulesFor u).any g := by
  simp only [Acl.rulesFor, Acl.new, List.any_filter, List.any_append, List.any_cons, huser, hg]

theorem failsClosed_of_not_accepted {scope p : Str} (h : ¬ Accepted scope (cutAtHash p)) :
    FailsClosed scope p := by
  intro rules rules' hadds u
  have hmatch : ∀ {t k : Str}, topicToKeyexpr t scope = .ok k → topicMatches p t = false :=
    fun ht => Bool.eq_false_iff.mpr fun hm => h (accepted_of_topicMatches ht hm)
  have hcover : ∀ {f k : Str}, filterToKeyexpr f scope = .ok k → filterCovers p f = false :=
    fun hf => Bool.eq_false_iff.mpr fun hc => h (accepted_of_filterCovers hf hc)
  simp only [mayPublish_deny, maySubscribe_deny]
  cases hadds with
  | publish before after user front back subscribe =>
      refine ⟨fun t k ht => any_rulesFor u rfl ?_, fun f k _ => any_rulesFor u rfl rfl⟩
      exact any_insert (g := fun pat => topicMatches pat t) front back (hmatch ht)
  | subscribe before after user publish front back =>
      refine ⟨fun t k _ => any_rulesFor u rfl rfl, fun f k hf => any_rulesFor u rfl ?_⟩
      exact any_insert (g := fun pat => filterCovers pat f) front back (hcover hf)

/-- **What a pattern is worth.**  It fails closed exactly if `filter_to_keyexpr` does not
accept it when it is cut behind its first `#`. -/
theorem failsClosed_iff {scope p : Str} : FailsClosed scope p ↔ ¬ Accepted scope (cutAtHash p) := by
  refine ⟨fun hclosed haccepted => ?_, failsClosed_of_not_accepted⟩
  -- an accepted cut covers itself, so it can be subscribed to
  obtain ⟨k, hk⟩ := haccepted
  have hadds : Adds p [⟨['*'], [], []⟩] [⟨['*'], [], [p]⟩] := .subscribe [] [] ['*'] [] [] []
  have hsame := (hclosed _ _ hadds []).2 _ k hk
  have hcovers : filterCovers p (cutAtHash p) = true := by
    rw [← filterCovers_cut]
    exact coverLevels_self _
  simp [Acl.maySubscribe, Acl.rulesFor, Acl.new, hcovers] at hsame

/-- A malformed pattern that opens the topics in front of its `#`. -/
theorem hash_in_the_middle_opens :
    ¬ ∀ scope p, (∃ e, filterToKeyexpr p scope = .error e) → FailsClosed scope p := by
  intro h
  have hrejected : filterToKeyexpr "plant/#/temp".toList [] = .error .hashNotLast := by decide
  have hadds : Adds "plant/#/temp".toList [⟨['*'], [], []⟩]
      [⟨['*'], ["plant/#/temp".toList], []⟩] :=
    .publish [] [] ['*'] [] [] []
  have hsame := (h [] _ ⟨_, hrejected⟩ _ _ hadds []).1 "plant/kiln".toList _ (by rfl)
  exact absurd hsame (by decide)

end Entmoot
