/-
# `Entmoot.Grants` — what a subscribe grant is worth at the bus

The ACL decides a subscription on MQTT levels (`filterCovers`), the bus delivers on
translated keys.  Behind the first level the two agree: there covering levels is
covering parts (`covers_rest`).  The first level is different, since `$SYS` and
`$meta` become verbatim chunks there that no wildcard stands for, while
`filterCovers` lets `#` and `+` cover them like any other level.

So a permitted filter outside these two keyspaces brings no key that some grant
does not match, and one inside them exactly if grants *with the same first level*
cover it, each length of a final `#` by one of them (`grants_sound_iff`).
`hash_grant_reaches_sys` is the case that fails.
-/
import Entmoot.Routing

namespace Entmoot

open Chunks (Pat accepts Final covers spread visible accepts_of_covers contains_iff)

/-- The subscribe grants that apply to a user. -/
def Acl.grantsFor (acl : Acl) (user : Str) : List Str :=
  (acl.rulesFor user).flatMap AclRule.subscribe

/-- The first level names a keyspace of its own. -/
def OwnKeyspace (f : Str) : Prop :=
  (f.splitOn '/').head? = some sysPrefix ∨ (f.splitOn '/').head? = some metaPrefix

instance (f : Str) : Decidable (OwnKeyspace f) := inferInstanceAs (Decidable (_ ∨ _))

/-- A final `#` replaced by `n` levels `+`. -/
def expand (n : Nat) : List Str → List Str
  | [] => []
  | l :: ls => if l = ['#'] then List.replicate n ['+'] else l :: expand n ls

/-! ## Levels as parts -/

theorem LevelsOk.visible {ls : List Str} (h : LevelsOk false ls) :
    ∀ p ∈ ls.map (filterPat false), visible verbatim p = true := by
  induction ls with
  | nil => exact fun p hp => absurd hp List.not_mem_nil
  | cons l ls ih =>
      rw [List.map_cons, List.forall_mem_cons]
      refine ⟨?_, ih h.2⟩
      rcases h.1 with ⟨hfirst, _⟩ | rfl | ⟨rfl, _⟩ | hplain
      · cases hfirst
      · rw [filterPat_plus]
        rfl
      · rw [filterPat_hash]
        rfl
      · rw [filterPat_plain _ hplain, Chunks.visible, hplain.visible]
        rfl

theorem LevelsOk.final_rest {ls : List Str} (h : LevelsOk false ls) :
    Final (ls.map (filterPat false)) := by
  induction ls with
  | nil => trivial
  | cons l ls ih =>
      refine ⟨fun hmany => ?_, ih h.2⟩
      rcases h.1 with ⟨hfirst, _⟩ | rfl | ⟨rfl, rfl⟩ | hplain
      · cases hfirst
      · rw [filterPat_plus] at hmany
        cases hmany
      · rfl
      · rw [filterPat_plain _ hplain] at hmany
        cases hmany

theorem LevelsOk.final {ls : List Str} (h : LevelsOk true ls) : Final (filterPats ls) := by
  cases ls with
  | nil => trivial
  | cons l ls =>
      refine ⟨fun hmany => ?_, h.2.final_rest⟩
      rcases h.1 with ⟨_, rfl | rfl⟩ | rfl | ⟨rfl, rfl⟩ | hplain
      · cases hmany
      · cases hmany
      · cases hmany
      · rfl
      · rw [filterPat_plain _ hplain] at hmany
        cases hmany

/-- Behind the first level, covering levels is covering parts. -/
theorem covers_rest {os is : List Str} (ho : LevelsOk false os) (hi : LevelsOk false is) :
    covers verbatim (os.map (filterPat false)) (is.map (filterPat false)) = coverLevels os is := by
  induction os generalizing is with
  | nil => cases is <;> rfl
  | cons o os ih =>
      rcases ho.1 with ⟨hfirst, _⟩ | rfl | ⟨rfl, rfl⟩ | hplain
      · cases hfirst
      · cases is with
        | nil => rfl
        | cons l is =>
            have hih := ih ho.2 hi.2
            rcases hi.1 with ⟨hfirst, _⟩ | rfl | ⟨rfl, rfl⟩ | hl
            · cases hfirst
            · simp only [List.map_cons, filterPat_plus, covers, Chunks.visible, Bool.true_and, hih]
              rfl
            · simp only [List.map_cons, filterPat_plus, filterPat_hash, covers]
              rfl
            · simp only [List.map_cons, filterPat_plus, filterPat_plain _ hl, covers,
                Chunks.visible,
                hl.visible, Bool.not_false, Bool.true_and, hih, coverLevels, if_neg hl.ne_hash]
              rfl
      · rw [List.map_cons, filterPat_hash, covers, List.all_eq_true.mpr hi.visible]
        rfl
      · cases is with
        | nil => simp [filterPat_plain _ hplain, covers, coverLevels, hplain.ne_hash]
        | cons l is =>
            have hih := ih ho.2 hi.2
            rcases hi.1 with ⟨hfirst, _⟩ | rfl | ⟨rfl, rfl⟩ | hl
            · cases hfirst
            · simp [filterPat_plain _ hplain, filterPat_plus, covers, coverLevels, hplain.ne_hash,
                hplain.ne_plus]
            · simp [filterPat_plain _ hplain, filterPat_hash, covers, coverLevels, hplain.ne_hash,
                hplain.ne_plus]
            · by_cases hol : o = l
              · subst hol
                simp [filterPat_plain _ hplain, covers, coverLevels, hplain.ne_hash, hplain.ne_plus,
                  hih]
              · simp [filterPat_plain _ hplain, filterPat_plain _ hl, covers, coverLevels,
                  hplain.ne_hash, hplain.ne_plus, hol, Ne.symm hol]

/-! ## The first level -/

/-- Outside the two keyspaces a covering filter covers the parts too. -/
theorem covers_of_coverLevels {os is : List Str} {l : Str} (ho : LevelsOk true os)
    (hi : LevelsOk true (l :: is)) (hsys : l ≠ sysPrefix) (hmeta : l ≠ metaPrefix)
    (h : coverLevels os (l :: is) = true) :
    covers verbatim (filterPats os) (filterPats (l :: is)) = true := by
  obtain ⟨hi', hpats⟩ := hi.rest hsys hmeta
  cases os with
  | nil => cases h
  | cons o os =>
      have hname : ∀ name : Str, o = name → name ≠ ['#'] → name ≠ ['+'] → l ≠ name → False := by
        rintro name rfl hhash hplus hne
        rw [coverLevels, if_neg hhash] at h
        simp only [if_neg hplus, if_neg (Ne.symm hne)] at h
        cases h
      have hosys : o ≠ sysPrefix := fun ho => hname _ ho (by decide) (by decide) hsys
      have hometa : o ≠ metaPrefix := fun ho => hname _ ho (by decide) (by decide) hmeta
      obtain ⟨ho', hpats'⟩ := ho.rest hosys hometa
      rw [hpats, hpats', covers_rest ho' hi']
      exact h

theorem covers_own_iff {os is : List Str} {l : Str} (ho : LevelsOk true os) (hi : LevelsOk false is)
    (hl : l = sysPrefix ∨ l = metaPrefix) :
    covers verbatim (filterPats os) (filterPats (l :: is)) = true ↔
      os.head? = some l ∧ coverLevels os (l :: is) = true := by
  obtain ⟨chunk, hpat, hverb, hhash, hplus⟩ : ∃ chunk, filterPat true l = .lit chunk ∧
      verbatim chunk = true ∧ l ≠ ['#'] ∧ l ≠ ['+'] := by
    rcases hl with rfl | rfl
    · exact ⟨sysChunk, rfl, rfl, by decide, by decide⟩
    · exact ⟨metaChunk, rfl, rfl, by decide, by decide⟩
  have hhidden : visible verbatim (.lit chunk) = false := by
    rw [visible, hverb]
    rfl
  cases os with
  | nil =>
      constructor
      · intro h
        cases h
      · rintro ⟨h, _⟩
        cases h
  | cons o os =>
      have hrest := covers_rest ho.2 hi
      simp only [filterPats, hpat, List.head?_cons, Option.some.injEq]
      by_cases hol : o = l
      · subst hol
        simp only [hpat, covers, decide_true, Bool.true_and, hrest, coverLevels, if_neg hhash,
          if_neg hplus, if_true, true_and]
      · refine ⟨fun h => ?_, fun h => absurd h.1 hol⟩
        rcases ho.1 with ⟨_, hname⟩ | rfl | ⟨rfl, rfl⟩ | hplain
        · -- the other keyspace
          rcases hname with rfl | rfl <;> rcases hl with rfl | rfl
          · exact absurd rfl hol
          · cases hpat
            cases h
          · cases hpat
            cases h
          · exact absurd rfl hol
        · simp only [filterPat_plus, covers, hhidden, Bool.false_and] at h
          cases h
        · rw [filterPat_hash, covers, List.all_cons, hhidden] at h
          cases h
        · rw [filterPat_plain _ hplain, covers, Bool.and_eq_true, decide_eq_true_eq] at h
          rw [h.1, hplain.visible] at hverb
          cases hverb

/-! ## Expanding a final `#` -/

theorem LevelsOk.expand {ls : List Str} (h : LevelsOk false ls) (n : Nat) :
    LevelsOk false (expand n ls) ∧
      (expand n ls).map (filterPat false) = spread n (ls.map (filterPat false)) := by
  induction ls with
  | nil => exact ⟨trivial, rfl⟩
  | cons l ls ih =>
      obtain ⟨hok, hmap⟩ := ih h.2
      rcases h.1 with ⟨hfirst, _⟩ | rfl | ⟨rfl, rfl⟩ | hplain
      · cases hfirst
      · refine ⟨⟨.inr (.inl rfl), hok⟩, ?_⟩
        rw [List.map_cons, filterPat_plus, spread, ← hmap]
        · rfl
        · intro hmany
          cases hmany
      · refine ⟨?_, ?_⟩
        · have hplus : ∀ m, LevelsOk false (List.replicate m ['+']) := by
            intro m
            induction m with
            | zero => trivial
            | succ m ih => exact ⟨.inr (.inl rfl), ih⟩
          exact hplus n
        · rw [List.map_cons, filterPat_hash, spread]
          exact List.map_replicate
      · rw [Entmoot.expand, if_neg hplain.ne_hash]
        refine ⟨⟨.inr (.inr (.inr hplain)), hok⟩, ?_⟩
        rw [List.map_cons, List.map_cons, filterPat_plain _ hplain, spread, ← hmap]
        intro hmany
        cases hmany

theorem covers_spread_iff {os is : List Str} {l : Str} (ho : LevelsOk true os)
    (hi : LevelsOk false is) (hl : l = sysPrefix ∨ l = metaPrefix) (n : Nat) :
    covers verbatim (filterPats os) (spread n (filterPats (l :: is))) = true ↔
      os.head? = some l ∧ coverLevels os (expand n (l :: is)) = true := by
  obtain ⟨hok, hmap⟩ := hi.expand n
  have hexpand : expand n (l :: is) = l :: expand n is := by
    rcases hl with rfl | rfl <;> rfl
  have hspread : spread n (filterPats (l :: is)) = filterPats (l :: expand n is) := by
    rw [filterPats, filterPats, hmap]
    rcases hl with rfl | rfl <;> rfl
  rw [hexpand, hspread]
  exact covers_own_iff ho hok hl

/-! ## Soundness of the grants -/

/-- Some chunk that no wildcard skips is longer than all of these. -/
theorem exists_fresh (ls : List Str) :
    ∃ x, verbatim x = false ∧ '/' ∉ x ∧ x ≠ sysChunk ∧ x ≠ metaChunk ∧ x ∉ ls := by
  have hbound : ∃ n, ∀ l ∈ ls, l.length ≤ n := by
    induction ls with
    | nil => exact ⟨0, fun l hl => absurd hl List.not_mem_nil⟩
    | cons l ls ih =>
        obtain ⟨n, hn⟩ := ih
        refine ⟨max l.length n, List.forall_mem_cons.mpr ⟨le_max_left _ _, fun m hm => ?_⟩⟩
        exact (hn m hm).trans (le_max_right _ _)
  obtain ⟨n, hn⟩ := hbound
  refine ⟨List.replicate (n + 1) 'k', rfl, ?_, ?_, ?_, fun hmem => ?_⟩
  · exact fun h => absurd (List.eq_of_mem_replicate h) (by decide)
  · exact fun h => nomatch congrArg List.head? h
  · exact fun h => nomatch congrArg List.head? h
  · have := hn _ hmem
    rw [List.length_replicate] at this
    omega

theorem mem_of_lit_mem {ls : List Str} {x : Str} (hsys : x ≠ sysChunk) (hmeta : x ≠ metaChunk)
    (h : .lit x ∈ filterPats ls) : x ∈ ls := by
  have hpat : ∀ (first : Bool) (l : Str), filterPat first l = .lit x → l = x := by
    intro first l hl
    rw [filterPat] at hl
    split at hl
    · cases hl
      exact absurd rfl hsys
    split at hl
    · cases hl
      exact absurd rfl hmeta
    split at hl
    · cases hl
    split at hl
    · cases hl
    · cases hl
      rfl
  cases ls with
  | nil => exact absurd h List.not_mem_nil
  | cons l ls =>
      rcases List.mem_cons.mp h with h | h
      · exact hpat true l h.symm ▸ .head _
      · obtain ⟨l', hl', hlit⟩ := List.mem_map.mp h
        exact hpat false l' hlit ▸ .tail _ hl'

theorem Acl.mem_grantsFor {acl : Acl} {u g : Str} :
    g ∈ acl.grantsFor u ↔ ∃ r ∈ acl.rulesFor u, g ∈ r.subscribe := List.mem_flatMap

/-- The chunks after the scope decide: a filter brings only keys of the grants iff
its parts accept only what theirs do. -/
theorem brings_iff {scope f fk : Str} {gs : List Str} (hs : ScopeOk scope)
    (hgs : ∀ g ∈ gs, ∃ gk, filterToKeyexpr g scope = .ok gk) (hf : filterToKeyexpr f scope = .ok fk)
    (hne : accepts verbatim (filterPats (f.splitOn '/')) [] = false) :
    (∀ key, busMatches fk key = true →
      ∃ g ∈ gs, ∃ gk, filterToKeyexpr g scope = .ok gk ∧ busMatches gk key = true) ↔
    ∀ ks : List Str, (∀ k ∈ ks, '/' ∉ k) → accepts verbatim (filterPats (f.splitOn '/')) ks = true →
      ∃ o ∈ gs.map fun g => filterPats (g.splitOn '/'), accepts verbatim o ks = true := by
  constructor
  · intro h ks hslash hacc
    have hnil : scopeChunks scope ++ ks ≠ [] := by
      intro hnil
      rw [(List.append_eq_nil_iff.mp hnil).2, hne] at hacc
      cases hacc
    have hclean : ∀ k ∈ scopeChunks scope ++ ks, '/' ∉ k := by
      intro k hk
      rcases List.mem_append.mp hk with hk | hk
      · rw [scopeChunks] at hk
        split at hk
        · exact absurd hk List.not_mem_nil
        · exact notMem_of_mem_splitOn hk
      · exact hslash k hk
    have hkey : (joinLevels (scopeChunks scope ++ ks)).splitOn '/' = scopeChunks scope ++ ks :=
      List.splitOn_intercalate _ hclean hnil
    obtain ⟨g, hg, gk, hgk, hmatch⟩ := h _ ((busMatches_iff hs hf _).mpr ⟨ks, hkey, hacc⟩)
    obtain ⟨rest, hrest, hacc'⟩ := (busMatches_iff hs hgk _).mp hmatch
    rw [hkey] at hrest
    exact ⟨_, List.mem_map_of_mem hg, List.append_cancel_left hrest ▸ hacc'⟩
  · intro h key hkey
    obtain ⟨rest, hrest, hacc⟩ := (busMatches_iff hs hf key).mp hkey
    have hslash : ∀ k ∈ rest, '/' ∉ k := by
      intro k hk
      have hmem : k ∈ key.splitOn '/' := hrest ▸ List.mem_append_right _ hk
      exact notMem_of_mem_splitOn hmem
    obtain ⟨o, ho, hacc'⟩ := h rest hslash hacc
    obtain ⟨g, hg, rfl⟩ := List.mem_map.mp ho
    obtain ⟨gk, hgk⟩ := hgs g hg
    exact ⟨g, hg, gk, hgk, (busMatches_iff hs hgk key).mpr ⟨rest, hrest, hacc'⟩⟩

/-- A permitted filter outside the two keyspaces brings only keys of the grant that
covers it. -/
theorem covered_brings {scope f g fk gk : Str} (hs : ScopeOk scope)
    (hf : filterToKeyexpr f scope = .ok fk) (hg : filterToKeyexpr g scope = .ok gk)
    (hown : ¬ OwnKeyspace f) (hcov : filterCovers g f = true) (key : Str)
    (hkey : busMatches fk key = true) : busMatches gk key = true := by
  obtain ⟨rest, hrest, hacc⟩ := (busMatches_iff hs hf key).mp hkey
  refine (busMatches_iff hs hg key).mpr ⟨rest, hrest, ?_⟩
  have hfok := (filterToKeyexpr_ok hs hf).1
  have hgok := (filterToKeyexpr_ok hs hg).1
  rw [filterCovers] at hcov
  rw [OwnKeyspace] at hown
  obtain ⟨l, is, hsplit⟩ := List.exists_cons_of_ne_nil (List.splitOn_ne_nil '/' f)
  rw [hsplit] at hacc hfok hcov hown
  have hsys : l ≠ sysPrefix := fun h => hown (.inl (congrArg some h))
  have hmeta : l ≠ metaPrefix := fun h => hown (.inr (congrArg some h))
  exact accepts_of_covers hgok.final (covers_of_coverLevels hgok hfok hsys hmeta hcov) hacc

/-- **What the grants are worth.**  Under the deny policy a permitted filter brings
only keys that the grants match, exactly if it stays out of `$SYS` and `$meta` or
grants with its own first level cover it: for each number of levels put for its
final `#`, one of them. -/
theorem grants_sound_iff {rules : List AclRule} {scope u f fk : Str} (hs : ScopeOk scope)
    (hrules : ∀ r ∈ rules, ∀ g ∈ r.subscribe, ∃ gk, filterToKeyexpr g scope = .ok gk)
    (hf : filterToKeyexpr f scope = .ok fk) (hmay : (Acl.new rules .deny).maySubscribe u f = true) :
    (∀ key, busMatches fk key = true → ∃ g ∈ (Acl.new rules .deny).grantsFor u,
      ∃ gk, filterToKeyexpr g scope = .ok gk ∧ busMatches gk key = true) ↔
    (OwnKeyspace f → ∀ n, ∃ g ∈ (Acl.new rules .deny).grantsFor u,
      (g.splitOn '/').head? = (f.splitOn '/').head? ∧
        coverLevels (g.splitOn '/') (expand n (f.splitOn '/')) = true) := by
  have hgs : ∀ g ∈ (Acl.new rules .deny).grantsFor u, ∃ gk, filterToKeyexpr g scope = .ok gk := by
    intro g hg
    obtain ⟨r, hr, hgr⟩ := Acl.mem_grantsFor.mp hg
    exact hrules r (List.mem_of_mem_filter hr) g hgr
  by_cases hown : OwnKeyspace f
  · -- inside a keyspace: union against union, with a chunk that no grant names
    obtain ⟨x, hverb, hslash, hxsys, hxmeta, hx⟩ :=
      exists_fresh (((Acl.new rules .deny).grantsFor u).flatMap fun g => g.splitOn '/')
    have hfok : LevelsOk true (f.splitOn '/') := (filterToKeyexpr_ok hs hf).1
    have hlits : ∀ a : Str, .lit a ∈ filterPats (f.splitOn '/') → '/' ∉ a := by
      intro a ha
      by_cases hsys : a = sysChunk
      · rw [hsys]
        decide
      · by_cases hmeta : a = metaChunk
        · rw [hmeta]
          decide
        · exact notMem_of_mem_splitOn (mem_of_lit_mem hsys hmeta ha)
    have hfinal : ∀ o ∈ ((Acl.new rules .deny).grantsFor u).map fun g => filterPats (g.splitOn '/'),
        Final o := by
      intro o ho
      obtain ⟨g, hg, rfl⟩ := List.mem_map.mp ho
      obtain ⟨gk, hgk⟩ := hgs g hg
      exact (filterToKeyexpr_ok hs hgk).1.final
    have hfresh : ∀ o ∈ ((Acl.new rules .deny).grantsFor u).map fun g => filterPats (g.splitOn '/'),
        .lit x ∉ o := by
      intro o ho hlit
      obtain ⟨g, hg, rfl⟩ := List.mem_map.mp ho
      exact hx (List.mem_flatMap.mpr ⟨g, hg, mem_of_lit_mem hxsys hxmeta hlit⟩)
    have hname : OwnKeyspace f := hown
    rw [OwnKeyspace] at hname
    obtain ⟨l, is, hsplit⟩ := List.exists_cons_of_ne_nil (List.splitOn_ne_nil '/' f)
    rw [hsplit, List.head?_cons, Option.some.injEq, Option.some.injEq] at hname
    have hnil : accepts verbatim (filterPats (f.splitOn '/')) [] = false := by
      rw [hsplit]
      rcases hname with rfl | rfl <;> rfl
    rw [brings_iff hs hgs hf hnil, contains_iff hfinal hfok.final hlits hslash hverb hfresh]
    rw [hsplit] at hfok ⊢
    refine ⟨fun h _ n => ?_, fun h n => ?_⟩
    · obtain ⟨o, ho, hcov⟩ := h n
      obtain ⟨g, hg, rfl⟩ := List.mem_map.mp ho
      obtain ⟨gk, hgk⟩ := hgs g hg
      exact ⟨g, hg, (covers_spread_iff (filterToKeyexpr_ok hs hgk).1 hfok.2 hname n).mp hcov⟩
    · obtain ⟨g, hg, hcov⟩ := h hown n
      obtain ⟨gk, hgk⟩ := hgs g hg
      exact ⟨_, List.mem_map_of_mem hg,
        (covers_spread_iff (filterToKeyexpr_ok hs hgk).1 hfok.2 hname n).mpr hcov⟩
  · refine ⟨fun _ h => absurd h hown, fun _ key hkey => ?_⟩
    have hcov : ∃ r ∈ (Acl.new rules .deny).rulesFor u, ∃ g ∈ r.subscribe,
        filterCovers g f = true := by
      simpa [Acl.maySubscribe, Acl.new] using hmay
    obtain ⟨r, hr, g, hgr, hcov⟩ := hcov
    have hg : g ∈ (Acl.new rules .deny).grantsFor u := Acl.mem_grantsFor.mpr ⟨r, hr, hgr⟩
    obtain ⟨gk, hgk⟩ := hgs g hg
    exact ⟨g, hg, gk, hgk, covered_brings hs hf hgk hown hcov key hkey⟩

/-- The rule list of one user with these grants. -/
def grantOnly (user : String) (grants : List String) : List AclRule :=
  [{ user := user.toList, subscribe := grants.map String.toList }]

theorem grantOnly_ok {user g scope : String} {gk : Str}
    (h : filterToKeyexpr g.toList scope.toList = .ok gk) :
    ∀ r ∈ grantOnly user [g], ∀ g' ∈ r.subscribe, ∃ gk,
      filterToKeyexpr g' scope.toList = .ok gk := by
  intro r hr g' hg'
  rw [List.mem_singleton.mp hr] at hg'
  rw [List.mem_singleton.mp hg']
  exact ⟨gk, h⟩

theorem kiln_grant_sound :
    ∃ g ∈ (Acl.new (grantOnly "alice" ["kiln/#"]) .deny).grantsFor "alice".toList,
      ∃ gk, filterToKeyexpr g "entmoot".toList = .ok gk ∧
        busMatches gk "entmoot/kiln/temp".toList = true :=
  (grants_sound_iff entmootScopeOk
    (grantOnly_ok (by decide : filterToKeyexpr "kiln/#".toList "entmoot".toList =
      .ok "entmoot/kiln/**".toList))
    (by decide : filterToKeyexpr "kiln/+".toList "entmoot".toList = .ok "entmoot/kiln/*".toList)
    (by decide)).mpr (fun hown => absurd hown (by decide)) _ (by decide)

/-! ## A grant of everything -/

/-- `#` covers `$SYS/#`, and the bus keeps the two apart. -/
theorem hash_grant_reaches_sys :
    ¬ ∀ (rules : List AclRule) (scope u f fk key : Str), ScopeOk scope →
      (∀ r ∈ rules, ∀ g ∈ r.subscribe, ∃ gk, filterToKeyexpr g scope = .ok gk) →
      filterToKeyexpr f scope = .ok fk → (Acl.new rules .deny).maySubscribe u f = true →
      busMatches fk key = true → ∃ g ∈ (Acl.new rules .deny).grantsFor u,
        ∃ gk, filterToKeyexpr g scope = .ok gk ∧ busMatches gk key = true := by
  intro h
  obtain ⟨g, hg, gk, hgk, hmatch⟩ := h (grantOnly "alice" ["#"]) [] "alice".toList "$SYS/#".toList
    "@sys/**".toList "@sys/broker".toList (fun chunk hc => absurd hc List.not_mem_nil)
    (grantOnly_ok (by decide : filterToKeyexpr "#".toList "".toList = .ok "**".toList))
    (by decide) (by decide) (by decide)
  have hhash : g = "#".toList := List.mem_singleton.mp hg
  subst hhash
  cases hgk
  exact absurd hmatch (by decide)

end Entmoot
