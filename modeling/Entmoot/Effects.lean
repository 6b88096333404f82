/-
# `Entmoot.Effects` — the steps at which calls take effect

A detach and a sweep take effect as they begin, an attach when it connects.  The
sequential run does the whole call at that step, the world its first or its middle
part; both end up related (`Rel.detach`, `Rel.sweep`, `Rel.attach`).  What these have
in common is in `Effect` and `Rel.effect`.

For an attach the lookup of the sequential call is run first, on its own: it finds
the session the world has, or makes the one some call of the world has made
already (`Rel.lookedUp`).  Then the connection is installed in both (`Rel.connect`).
-/
import Entmoot.Relate

namespace Entmoot

open DiscardWorld (SamePaths)

namespace RaceWorld

section
variable {c : Str} {w : RaceWorld} {σ : SessionRegistry} {i : Nat} {x : RaceCall} {n : Section}

/-! ## A call takes effect -/

theorem lt_of_keeps {r r' : SessionRegistry} (h : Keeps r r') {a : Addr} (ha : a < r.heap.length) :
    a < r'.heap.length := by
  obtain ⟨s, hs, -⟩ := h.heap a _ (List.getElem?_eq_getElem ha)
  exact (List.getElem?_eq_some_iff.mp hs).1

theorem PcOk.settle {r r' σ' : SessionRegistry} {clean : Bool} {pc : RacePc}
    (h : PcOk c r σ clean pc) (hk : Keeps σ σ')
    (hmap : ∀ b, b < σ.heap.length → σ'.sessions.lookup c = some b → σ.sessions.lookup c = some b)
    (hle : r.heap.length ≤ r'.heap.length)
    (hconn : ∀ a p m, pc = .attachConn a p m → a < σ'.heap.length → a < σ.heap.length ∨ p = true)
    (hlocked : pc.locked → r'.sessions.lookup c = r.sessions.lookup c ∧
      (r.NoSubs c → r'.NoSubs c ∧ ∀ k, r.state c k = none → r'.state c k = none) ∧
      (r.sessions.lookup c = none → ∀ k, σ'.state c k = σ.state c k)) : PcOk c r' σ' clean pc := by
  cases pc with
  | start => trivial
  | kick a | abort a => exact ⟨h.1, (hlocked rfl).1.trans h.2⟩
  | removeQueue => exact ⟨h.1, ((hlocked rfl).2.1 h.2).1⟩
  | removeSubs =>
      obtain ⟨hsubs, hstate⟩ := (hlocked rfl).2.1 h.2.1
      exact ⟨h.1, hsubs, hstate .queue h.2.2⟩
  | makeClean =>
      obtain ⟨hsubs, hstate⟩ := (hlocked rfl).2.1 h.2.1
      exact ⟨h.1, hsubs, fun k => hstate k (h.2.2 k)⟩
  | queueExists => exact ⟨h.1, (hlocked rfl).1.trans h.2⟩
  | subsExists =>
      obtain ⟨hentry, -, hstate⟩ := hlocked rfl
      exact ⟨h.1, hentry.trans h.2.1, (hstate h.2.1 .queue).trans h.2.2⟩
  | load p =>
      obtain ⟨hentry, -, hstate⟩ := hlocked rfl
      refine ⟨h.1, hentry.trans h.2.1, ?_⟩
      rw [hstate h.2.1 .queue, hstate h.2.1 .subs]
      exact h.2.2
  | attachConn a p m =>
      refine ⟨Nat.lt_of_lt_of_le h.1 hle, h.2.1, h.2.2.1, fun hlt => ?_⟩
      rcases hconn a p m rfl hlt with hlt | hp
      · exact h.2.2.2 hlt
      · exact hp
  | discardQueue o => exact SessionRegistry.Handle.keeps h hk
  | ending st a | unregister a => exact SessionRegistry.Handle.keeps h hk
  | sweeping st a rest =>
      intro b hb
      obtain ⟨hlt, hne⟩ := h b hb
      exact ⟨lt_of_keeps hk hlt, fun he => hne (hmap b hlt he)⟩
  | returned o => exact fun o' ho' => (h o' ho').keeps hk

theorem CallOk.settle {r r' σ' : SessionRegistry} {y : RaceCall} (h : CallOk c r σ y)
    (hk : Keeps σ σ') (hpc : PcOk c r' σ' y.op.clean y.pc) : CallOk c r' σ' y :=
  ⟨fun a epoch clean now hop => (h.op a epoch clean now hop).keeps hk, hpc⟩

/-- The first section of a call in the world, and the whole of the call in the sequential
run: what there is of a session stays, and no entry comes. -/
structure Effect (c : Str) (w : RaceWorld) (σ σ' : SessionRegistry) (x : RaceCall) (n : Section) :
    Prop where
  began : x.pc = .start
  keeps : Keeps w.reg n.reg
  whole : Keeps σ σ'
  length : n.reg.heap.length = w.reg.heap.length
  wholeLength : σ'.heap.length = σ.heap.length
  entries : ∀ k a, σ'.sessions.lookup k = some a → σ.sessions.lookup k = some a
  lock : n.lock = w.lock
  unlocked : n.pc.locked = false
  connects : ∀ a p m, n.pc ≠ .attachConn a p m
  /-- what a call under the registry lock has seen -/
  seen : ∀ y ∈ w.calls, y.pc.locked → n.reg.sessions.lookup c = w.reg.sessions.lookup c ∧
    (w.reg.NoSubs c → n.reg.NoSubs c ∧ ∀ k, w.reg.state c k = none → n.reg.state c k = none) ∧
    (w.reg.sessions.lookup c = none → ∀ k, σ'.state c k = σ.state c k)
  ok : PcOk c n.reg σ' x.op.clean n.pc

namespace Effect

variable {σ' : SessionRegistry}

theorem has (he : Effect c w σ σ' x n) (hx : w.calls[i]? = some x) (q : RacePc → Prop)
    (hq : ¬ q .start) (h : w.Has fun y => q y.pc) : (w.after i x n).Has fun y => q y.pc :=
  Has.after h hx fun hself => absurd (he.began ▸ hself) hq

theorem ends (he : Effect c w σ σ' x n) (hx : w.calls[i]? = some x) {a : Addr} (h : w.Ends a) :
    (w.after i x n).Ends a :=
  he.has hx (fun pc => pc.ends = some a) (fun h => by cases h) h

theorem due (he : Effect c w σ σ' x n) (hx : w.calls[i]? = some x) {k : FileKind} (hd : Due c w k) :
    Due c (w.after i x n) k := by
  refine hd.after_idle he.keeps hx ?_
  rw [he.began]
  cases k <;> rfl

theorem unborn (he : Effect c w σ σ' x n) (hx : w.calls[i]? = some x) {clean p : Bool}
    (h : Unborn c w σ clean p) (hentry : n.reg.sessions.lookup c = some σ.heap.length)
    (hcell : n.reg.heap[σ.heap.length]? = w.reg.heap[σ.heap.length]?)
    (hwstate : ∀ k, n.reg.state c k = w.reg.state c k)
    (hstate : clean = false → ∀ k, σ'.state c k = σ.state c k) :
    Unborn c (w.after i x n) σ' clean p where
  entry := by
    rw [he.wholeLength]
    exact hentry
  length := by
    rw [he.wholeLength]
    exact he.length.trans h.length
  cell := by
    rw [he.wholeLength, SessionRegistry.fresh_congr he.whole.toSameConfig fun hc =>
      hstate hc .queue]
    exact hcell.trans h.cell
  found := by
    rw [h.found]
    cases clean with
    | true => rfl
    | false => rw [hstate rfl .queue, hstate rfl .subs]
  free := by
    intro hc
    cases hfree : σ'.sessions.lookup c with
    | none => rfl
    | some a =>
        have hold := (h.free hc).symm.trans (he.entries c a hfree)
        cases hold
  clear := fun hc k => (hwstate k).trans (h.clear hc k)
  made := by
    intro y hy p' hya
    rw [he.wholeLength] at hya
    rcases mem_after hy with ⟨j, -, hj⟩ | rfl
    · exact h.made y (List.mem_of_getElem? hj) p' hya
    · exact absurd hya (he.connects _ _ _)
  maker := by
    rw [he.wholeLength]
    exact he.has hx (fun pc => pc = .attachConn σ.heap.length p true) (fun h => by cases h) h.maker

theorem calls (he : Effect c w σ σ' x n) (h : Rel c w σ) (hx : w.calls[i]? = some x) :
    ∀ y ∈ (w.after i x n).calls, CallOk c n.reg σ' y := by
  intro y hy
  rcases mem_after hy with ⟨j, -, hj⟩ | rfl
  · have hymem := List.mem_of_getElem? hj
    have hok := h.calls y hymem
    refine hok.settle he.whole (hok.pc.settle he.whole (fun b _ => he.entries c b) he.length.ge ?_
      (he.seen y hymem))
    intro b p m _ hb
    rw [he.wholeLength] at hb
    exact .inl hb
  · have hok := h.calls x (List.mem_of_getElem? hx)
    exact ⟨fun b e cl nw hop => (hok.op b e cl nw hop).keeps he.whole, he.ok⟩

end Effect

/-- **A call that takes effect** keeps the relation, if it does the same to the session of
`c` in both runs. -/
theorem Rel.effect (h : Rel c w σ) (hx : w.calls[i]? = some x) {σ' : SessionRegistry}
    (he : Effect c w σ σ' x n)
    (hunborn : ∀ clean p, Unborn c w σ clean p → Unborn c (w.after i x n) σ' clean p)
    (hcore : ∀ (a : Addr) t, σ'.heap[a]? = some t → ∃ s, n.reg.heap[a]? = some s ∧ s.core = t.core)
    (hmapped : ∀ a, σ'.sessions.lookup c = some a → w.reg.sessions.lookup c = some a →
      n.reg.sessions.lookup c = some a)
    (hknown : ∀ a, n.reg.sessions.lookup c = some a → a < σ.heap.length →
      w.reg.sessions.lookup c = some a ∧ (σ.sessions.lookup c = some a →
        σ'.sessions.lookup c = some a ∨ (w.after i x n).Ends a))
    (hended : ∀ a, n.pc.ends = some a → σ'.sessions.lookup c ≠ some a)
    (hsettled : (¬ ∃ p, Unborn c w σ true p) → Settled c w σ → Settled c (w.after i x n) σ')
    (hdue : ∀ k, Due c (w.after i x n) k → σ'.state c k = none)
    (hdueSubs : Due c (w.after i x n) .subs → σ'.NoSubs c) : Rel c (w.after i x n) σ' where
  config := he.whole.toSameConfig.symm.trans (h.config.trans he.keeps.toSameConfig)
  tidy := h.tidy.keep he.whole he.wholeLength he.entries
  core := hcore
  size := by
    rcases h.size with hlen | ⟨clean, p, hu⟩
    · exact .inl (he.length.trans (hlen.trans he.wholeLength.symm))
    · exact .inr ⟨clean, p, hunborn clean p hu⟩
  mapped := by
    intro a ha
    rcases h.mapped a (he.entries c a ha) with hw | ⟨p, hu⟩
    · exact .inl (hmapped a ha hw)
    · exact .inr ⟨p, hunborn true p hu⟩
  known := by
    intro a ha hlt
    rw [he.wholeLength] at hlt
    obtain ⟨hw, hstays⟩ := hknown a ha hlt
    rcases h.known a hw hlt with hold | hends
    · exact hstays hold
    · exact .inr (he.ends hx hends)
  ended := by
    intro a ha
    rcases ha.of_after with hself | hold
    · exact hended a hself
    · exact fun hreg => h.ended a hold (he.entries c a hreg)
  settled := by
    by_cases hu : ∃ p, Unborn c w σ true p
    · obtain ⟨p, hu⟩ := hu
      exact .inr (.inl ⟨p, hunborn true p hu⟩)
    · rcases h.settled with hrep | hu' | hset
      · exact .inl (he.has hx (fun pc => pc.replaces) (fun h => by cases h) hrep)
      · exact absurd hu' hu
      · exact .inr (.inr (hsettled hu hset))
  due := hdue
  dueSubs := hdueSubs
  lock := by
    intro j y hy hyl
    rcases after_calls hy with ⟨-, hj⟩ | ⟨-, rfl⟩
    · exact he.lock.trans (h.lock j y hj hyl)
    · have hyl : n.pc.locked = true := hyl
      rw [he.unlocked] at hyl
      cases hyl
  calls := he.calls h hx
  held := fun k hk => (h.held k hk).keeps he.whole

/-! ## A detach takes effect -/

theorem detached {a : Addr} (epoch : Nat) {clean : Bool} (now : Instant) {t : SessionState}
    (ht : σ.Tidy) (hs : σ.heap[a]? = some t) (hfile : clean → ∀ k, t.file k = none) :
    ∃ t', (σ.detach a epoch clean now).heap = σ.heap.set a t' ∧
      t'.core = (t.detachConn epoch now).1.core ∧
      (t'.inner.subs = t.inner.subs ∨ t'.inner.subs = ∅) ∧
      (((t.detachConn epoch now).2 && clean) = false → t' = (t.detachConn epoch now).1) ∧
      SameConfig σ (σ.detach a epoch clean now) ∧
      (∀ k, (σ.detach a epoch clean now).state c k = σ.state c k) ∧
      ∀ c' b, (σ.detach a epoch clean now).sessions.lookup c' = some b ↔
        σ.sessions.lookup c' = some b ∧
          ¬ (((t.detachConn epoch now).2 && clean) = true ∧ b = a) := by
  have hpaths : SamePaths t (t.detachConn epoch now).1 := samePaths_detachConn t epoch now
  cases hended : (t.detachConn epoch now).2 && clean with
  | false =>
      rw [SessionRegistry.detach_stays hs hended]
      refine ⟨_, rfl, rfl, .inl (t.detachConn_subs epoch now), fun _ => rfl, ⟨rfl, rfl, rfl⟩,
        fun _ => rfl, fun c' b => ?_⟩
      exact ⟨fun hb => ⟨hb, fun h => by cases h.1⟩, fun hb => hb.1⟩
  | true =>
      have hclean : clean = true := (Bool.and_eq_true_iff.mp hended).2
      rw [SessionRegistry.detach_ends hs hended (hfile hclean)]
      have htidy : (σ.setSession a (t.detachConn epoch now).1.abortSubs.1).Tidy :=
        ht.keep (.set ⟨rfl, rfl, rfl⟩ hs (samePaths_trans hpaths (samePaths_of_core
          (t.detachConn epoch now).1.abortSubs_core)) rfl)
          List.length_set fun _ _ h => h
      obtain ⟨m, hm, hlookup⟩ := htidy.removeOwn a
      rw [hm]
      refine ⟨_, rfl, rfl, .inr rfl, fun h => (by cases h), ⟨rfl, rfl, rfl⟩, fun _ => rfl,
        fun c' b => ?_⟩
      show m.lookup c' = some b ↔ _
      rw [hlookup]
      show (if σ.sessions.lookup c' = some a then none else σ.sessions.lookup c') = some b ↔ _
      by_cases ha : σ.sessions.lookup c' = some a
      · rw [if_pos ha]
        refine ⟨fun h => (by cases h), fun h => absurd ⟨rfl, ?_⟩ h.2⟩
        exact Option.some.inj (h.1.symm.trans ha)
      · rw [if_neg ha]
        refine ⟨fun h => ⟨h, fun hb => ha ?_⟩, fun h => h.1⟩
        rw [h, hb.2]

/-- What is due after a detach was due before: a clean connection's session has no files. -/
theorem Rel.due_of_detach (h : Rel c w σ) {a : Addr} {s : SessionState} {epoch : Nat}
    {now : Instant} (hs : w.reg.heap[a]? = some s) {ended : Bool}
    (hfile : ended = true → ∀ k, s.file k = none) {l : Option Nat} {k : FileKind}
    (hd : Due c (w.after i x ⟨w.reg.setSession a (s.detachConn epoch now).1, l,
      if ended then .ending .abort a else .returned none⟩) k) : Due c w k := by
  have hpaths := samePaths_detachConn s epoch now
  have hkeeps : Keeps w.reg (w.reg.setSession a (s.detachConn epoch now).1) :=
    .set ⟨rfl, rfl, rfl⟩ hs hpaths rfl
  rcases h.due_of_after hkeeps hd with ⟨b, hb, s', hs', p, hp, -⟩ | hold
  · dsimp only at hb hs'
    split at hb
    · next he =>
      have hba : b = a := by
        cases k <;> exact List.mem_singleton.mp hb
      subst hba
      cases (Cells.set_self hs).symm.trans hs'
      rw [SessionState.file_eq hpaths k, hfile he k] at hp
      cases hp
    · cases k <;> cases hb
  · exact hold

/-- **A detach takes effect** as it begins: the session goes offline in both runs, and in
the sequential one a clean connection's entry goes with it. -/
theorem Rel.detach (h : Rel c w σ) (hx : w.calls[i]? = some x) {a : Addr} {epoch : Nat}
    {clean : Bool} {now : Instant} (hop : x.op = .detach a epoch clean now) (hpc : x.pc = .start)
    {s : SessionState} (hs : w.reg.heap[a]? = some s) :
    Rel c (w.after i x ⟨w.reg.setSession a (s.detachConn epoch now).1, w.lock,
      if (s.detachConn epoch now).2 && clean then .ending .abort a else .returned none⟩)
      (σ.detach a epoch clean now) := by
  obtain ⟨t, ht, hcid, hfile⟩ := (h.calls x (List.mem_of_getElem? hx)).op a epoch clean now hop
  have hcore : s.core = t.core := h.core_eq hs ht
  obtain ⟨hdcore, hdended⟩ := SessionState.detachConn_core hcore epoch now
  obtain ⟨t', hheap, htcore, htsubs, hstays, hconf, hstate, hentry⟩ :=
    detached epoch now h.tidy ht hfile (c := c)
  rw [← hdended] at hstays hentry
  generalize hσ : σ.detach a epoch clean now = σ' at hheap hconf hstate hentry ⊢
  generalize hended : ((s.detachConn epoch now).2 && clean) = ended at hstays hentry ⊢
  have hclean : ended = true → clean = true := by
    rintro rfl
    exact (Bool.and_eq_true_iff.mp hended).2
  have hlt : a < σ.heap.length := (List.getElem?_eq_some_iff.mp ht).1
  have htpaths : SamePaths t t' :=
    samePaths_trans (samePaths_detachConn t epoch now) (samePaths_of_core htcore)
  have hwhole : Keeps σ σ' := .set hconf ht htpaths hheap
  have hdue : ∀ k, Due c (w.after i x ⟨w.reg.setSession a (s.detachConn epoch now).1, w.lock,
      if ended then .ending .abort a else .returned none⟩) k → Due c w k :=
    fun k => h.due_of_detach hs fun hend k =>
      (SessionState.file_eq (samePaths_of_core hcore) k).trans (hfile (hclean hend) k)
  have he : Effect c w σ σ' x ⟨w.reg.setSession a (s.detachConn epoch now).1, w.lock,
      if ended then .ending .abort a else .returned none⟩ := {
    began := hpc
    keeps := .set ⟨rfl, rfl, rfl⟩ hs (samePaths_detachConn s epoch now) rfl
    whole := hwhole
    length := List.length_set
    wholeLength := by rw [hheap]; exact List.length_set
    entries := fun c' b hb => ((hentry c' b).mp hb).1
    lock := rfl
    unlocked := by dsimp only; split <;> rfl
    connects := fun b p m hb => by dsimp only at hb; split at hb <;> cases hb
    seen := by
      refine fun _ _ _ => ⟨rfl, fun hsubs => ⟨fun b u hb hu => ?_, fun _ hk => hk⟩, fun _ => hstate⟩
      rcases Cells.set_cases hu with ⟨-, hu⟩ | ⟨rfl, rfl⟩
      · exact hsubs b u hb hu
      · rw [SessionState.detachConn_subs]
        exact hsubs b s hb hs
    ok := by
      dsimp only
      split
      · next hend =>
        exact SessionRegistry.Handle.keeps ⟨t, ht, hcid, fun _ => hfile (hclean hend)⟩ hwhole
      · exact fun o ho => by cases ho }
  refine h.effect hx he ?_ ?_ (fun _ _ hw => hw) ?_ ?_ ?_ ?_ ?_
  · intro cl p hu
    exact he.unborn hx hu hu.entry (List.getElem?_set_ne (Nat.ne_of_lt hlt))
      (fun _ => rfl) fun _ => hstate
  · intro b u hu
    rw [hheap] at hu
    rcases Cells.set_cases hu with ⟨hne, hu⟩ | ⟨rfl, rfl⟩
    · obtain ⟨s', hs', hcore'⟩ := h.core b u hu
      exact ⟨s', (List.getElem?_set_ne hne.symm).trans hs', hcore'⟩
    · exact ⟨_, Cells.set_self hs, hdcore.trans htcore.symm⟩
  · refine fun b hb _ => ⟨hb, fun hold => ?_⟩
    by_cases hgone : ended = true ∧ b = a
    · refine .inr ⟨_, self_mem_after hx, ?_⟩
      obtain ⟨rfl, rfl⟩ := hgone
      rfl
    · exact .inl ((hentry c b).mpr ⟨hold, hgone⟩)
  · intro b hb hreg
    dsimp only at hb
    split at hb
    · next hend => exact ((hentry c b).mp hreg).2 ⟨hend, (Option.some.inj hb).symm⟩
    · cases hb
  · intro _ hset
    refine ⟨fun b hb => ?_, fun k => ?_⟩
    · obtain ⟨hold, hnot⟩ := (hentry c b).mp hb
      have hsame := hset.cell b hold
      show (w.reg.heap.set a _)[b]? = _
      rw [hheap]
      by_cases hba : a = b
      · subst hba
        rw [hs, ht] at hsame
        cases hsame
        have hfalse : ended = false := by
          cases ended with
          | false => rfl
          | true => exact absurd ⟨rfl, rfl⟩ hnot
        rw [Cells.set_self hs, Cells.set_self ht, hstays hfalse]
      · rw [List.getElem?_set_ne hba, List.getElem?_set_ne hba]
        exact hsame
    · rw [hstate k]
      exact (hset.files k).imp_right (he.due hx)
  · exact fun k hd => (hstate k).trans (h.due k (hdue k hd))
  · intro hd b u hb hu
    have hold := ((hentry c b).mp hb).1
    rw [hheap] at hu
    rcases Cells.set_cases hu with ⟨-, hu⟩ | ⟨rfl, rfl⟩
    · exact h.dueSubs (hdue .subs hd) b u hold hu
    · rcases htsubs with hsame | hnone
      · rw [hsame]
        exact h.dueSubs (hdue .subs hd) b t hold ht
      · exact hnone

theorem Rel.no_unborn {a : Addr} (hreg : w.reg.sessions.lookup c = some a) (hlt : a < σ.heap.length)
    (clean p : Bool) : ¬ Unborn c w σ clean p := by
  intro hu
  have heq := hu.entry.symm.trans hreg
  cases heq
  exact Nat.lt_irrefl _ hlt

/-! ## A sweep takes effect -/

theorem Rel.handle_of_ends (h : Rel c w σ) {a : Addr} (ha : w.Ends a) : σ.Handle c a true := by
  obtain ⟨y, hy, hends⟩ := ha
  have hok := (h.calls y hy).pc
  obtain ⟨op, pc, before⟩ := y
  cases pc with
  | ending st b =>
      cases hends
      exact hok
  | unregister b =>
      cases hends
      exact hok
  | _ => cases hends

theorem Rel.expiredAt (h : Rel c w σ) (expiry : Duration) (now : Instant) {a : Addr}
    (ha : a < σ.heap.length) : w.reg.expiredAt expiry now a = σ.expiredAt expiry now a := by
  obtain ⟨s, hs, hcore⟩ := h.core a _ (List.getElem?_eq_getElem ha)
  simp only [SessionRegistry.expiredAt, hs, List.getElem?_eq_getElem ha]
  exact SessionState.expired_core hcore expiry now

theorem Unborn.not_expired {clean p : Bool} (h : Unborn c w σ clean p) (expiry : Duration)
    (now : Instant) : w.reg.expiredAt expiry now σ.heap.length = false := by
  simp only [SessionRegistry.expiredAt, h.cell]
  rfl

section
variable [HashOrder]

theorem mem_sweepGone {r : SessionRegistry} {expiry : Duration} {now : Instant} {a : Addr} :
    a ∈ r.sweepGone expiry now ↔
      (∃ k, r.sessions.lookup k = some a) ∧ r.expiredAt expiry now a = true := by
  rw [SessionRegistry.sweepGone, (HashOrder.perm _).mem_iff, List.mem_map]
  constructor
  · rintro ⟨⟨k, b⟩, he, rfl⟩
    obtain ⟨hmem, hexp⟩ := List.mem_filter.mp he
    exact ⟨⟨k, Keyed.mem_pairs.mp hmem⟩, hexp⟩
  · rintro ⟨⟨k, hk⟩, hexp⟩
    exact ⟨(k, a), List.mem_filter.mpr ⟨Keyed.mem_pairs.mpr hk, hexp⟩, rfl⟩

omit [HashOrder] in
theorem lookup_sweepKept {r : SessionRegistry} {expiry : Duration} {now : Instant} {a : Addr} :
    (r.sweepKept expiry now).sessions.lookup c = some a ↔
      r.sessions.lookup c = some a ∧ r.expiredAt expiry now a = false := by
  have hlookup : (r.sweepKept expiry now).sessions.lookup c =
      (r.sessions.lookup c).filter fun a => !r.expiredAt expiry now a := Keyed.lookup_retain _ _ _
  rw [hlookup, Option.filter_eq_some_iff, Bool.not_eq_true']

theorem Rel.sweepGone_lt (h : Rel c w σ) (ht : w.reg.Tidy) {expiry : Duration}
    {now : Instant} {a : Addr} (ha : a ∈ w.reg.sweepGone expiry now) : a < σ.heap.length := by
  obtain ⟨⟨k, hk⟩, hexp⟩ := mem_sweepGone.mp ha
  obtain ⟨s, hs, -⟩ := ht.entries k a hk
  obtain ⟨hlt, -⟩ := List.getElem?_eq_some_iff.mp hs
  rcases h.size with hlen | ⟨cl, p, hu⟩
  · exact hlen ▸ hlt
  · rw [hu.length] at hlt
    refine Nat.lt_of_le_of_ne (Nat.le_of_lt_succ hlt) ?_
    rintro rfl
    rw [hu.not_expired] at hexp
    cases hexp

theorem Rel.due_of_sweep (h : Rel c w σ) (ht : w.reg.Tidy) {expiry : Duration} {now : Instant}
    {l : Option Nat} {k : FileKind}
    (hd : Due c (w.after i x ⟨w.reg.sweepKept expiry now, l,
      SessionRegistry.sweepNext (w.reg.sweepGone expiry now)⟩) k) :
    Due c w k ∨ ∃ a t, σ.sessions.lookup c = some a ∧ σ.expiredAt expiry now a = true ∧
      σ.heap[a]? = some t ∧ σ.Owns c k t := by
  have hkeeps : Keeps w.reg (w.reg.sweepKept expiry now) := .of_heap ⟨rfl, rfl, rfl⟩ rfl
  rcases h.due_of_after hkeeps hd with ⟨b, hb, s, hs, ho⟩ | hold
  · rw [RacePc.files_sweepNext] at hb
    have hs : w.reg.heap[b]? = some s := hs
    have ho : w.reg.Owns c k s := ho
    have hlt := h.sweepGone_lt ht hb
    obtain ⟨⟨k', hk'⟩, hexp⟩ := mem_sweepGone.mp hb
    have hkc : k' = c := (ht.clientId_eq hk' hs).symm.trans (ht.clientId_of_owns hs ho)
    subst hkc
    have hcore := h.core_eq hs (List.getElem?_eq_getElem hlt)
    have ho' :=
      (SessionRegistry.Owns.congr (samePaths_of_core hcore)).mp ((h.config.owns _ k s).mp ho)
    rcases h.known b hk' hlt with hreg | he
    · rw [h.expiredAt expiry now hlt] at hexp
      exact .inr ⟨b, _, hreg, hexp, List.getElem?_eq_getElem hlt, ho'⟩
    · -- a session about to be unregistered has no files
      obtain ⟨t, ht', -, hfile⟩ := h.handle_of_ends he
      rw [List.getElem?_eq_getElem hlt] at ht'
      cases ht'
      obtain ⟨p, hp, -⟩ := ho'
      rw [hfile rfl k] at hp
      cases hp
  · exact .inl hold

/-- **A sweep takes effect** as it begins: the same entries go in both runs, and in the
sequential one the files of their sessions. -/
theorem Rel.sweep (h : Rel c w σ) (ht : w.reg.Tidy) (hx : w.calls[i]? = some x) {expiry : Duration}
    {now : Instant} (hpc : x.pc = .start) (hlock : w.lock = none) :
    Rel c (w.after i x ⟨w.reg.sweepKept expiry now, none,
      SessionRegistry.sweepNext (w.reg.sweepGone expiry now)⟩) (σ.sweep expiry now) := by
  have hswept := h.tidy.swept c expiry now
  generalize hσ : σ.sweep expiry now = σ' at hswept ⊢
  have hentry : ∀ k a, σ'.sessions.lookup k = some a ↔
      σ.sessions.lookup k = some a ∧ σ.expiredAt expiry now a = false := by
    intro k a
    rw [hswept.entry, Option.filter_eq_some_iff, Bool.not_eq_true']
  have hexpired : ∀ a k, σ.sessions.lookup k = some a →
      w.reg.expiredAt expiry now a = σ.expiredAt expiry now a := by
    intro a k hold
    obtain ⟨s, hs, -⟩ := h.tidy.entries k a hold
    exact h.expiredAt expiry now (List.getElem?_eq_some_iff.mp hs).1
  have he : Effect c w σ σ' x ⟨w.reg.sweepKept expiry now, none,
      SessionRegistry.sweepNext (w.reg.sweepGone expiry now)⟩ := {
    began := hpc
    keeps := .of_heap ⟨rfl, rfl, rfl⟩ rfl
    whole := hswept.toKeeps
    length := rfl
    wholeLength := hswept.length
    entries := fun k a ha => ((hentry k a).mp ha).1
    lock := hlock.symm
    unlocked := by
      cases w.reg.sweepGone expiry now <;> rfl
    connects := by
      intro b p m hb
      cases hgone : w.reg.sweepGone expiry now <;> rw [hgone] at hb <;> cases hb
    seen := by
      intro y hy hyl
      rw [h.free hlock y hy] at hyl
      cases hyl
    ok := by
      have hall : ∀ b ∈ w.reg.sweepGone expiry now,
          b < σ'.heap.length ∧ σ'.sessions.lookup c ≠ some b := by
        intro b hb
        refine ⟨hswept.length ▸ h.sweepGone_lt ht hb, fun hreg => ?_⟩
        obtain ⟨hold, hexp⟩ := (hentry c b).mp hreg
        rw [← hexpired b c hold, (mem_sweepGone.mp hb).2] at hexp
        cases hexp
      cases hgone : w.reg.sweepGone expiry now with
      | nil => exact fun o ho => by cases ho
      | cons b rest =>
          rw [hgone] at hall
          exact hall }
  refine h.effect hx he ?_ ?_ ?_ ?_ ?_ ?_ ?_ ?_
  · intro cl p hu
    refine he.unborn hx hu (lookup_sweepKept.mpr ⟨hu.entry, hu.not_expired expiry now⟩) rfl
      (fun _ => rfl)
      fun hcl k => hswept.left k fun a t ha => ?_
    rw [hu.free hcl] at ha
    cases ha
  · intro b u hu
    obtain ⟨hlt, -⟩ := List.getElem?_eq_some_iff.mp hu
    rw [hswept.length] at hlt
    obtain ⟨u', hu', hcore'⟩ := hswept.core b _ (List.getElem?_eq_getElem hlt)
    rw [hu] at hu'
    cases hu'
    obtain ⟨s, hs, hcore⟩ := h.core b _ (List.getElem?_eq_getElem hlt)
    exact ⟨s, hs, hcore.trans hcore'.symm⟩
  · intro b hb hw
    obtain ⟨hold, hexp⟩ := (hentry c b).mp hb
    exact lookup_sweepKept.mpr ⟨hw, (hexpired b c hold).trans hexp⟩
  · intro b hb hlt
    obtain ⟨hw, hexp⟩ := lookup_sweepKept.mp hb
    rw [h.expiredAt expiry now hlt] at hexp
    exact ⟨hw, fun hold => .inl ((hentry c b).mpr ⟨hold, hexp⟩)⟩
  · intro b hb
    cases hgone : w.reg.sweepGone expiry now <;> rw [hgone] at hb <;> cases hb
  · intro hnot hset
    refine ⟨fun b hb => ?_, fun k => ?_⟩
    · obtain ⟨hold, hexp⟩ := (hentry c b).mp hb
      rw [hswept.kept b hexp]
      exact hset.cell b hold
    · by_cases hgone : ∃ a t, σ.sessions.lookup c = some a ∧ σ.expiredAt expiry now a = true ∧
        σ.heap[a]? = some t ∧ σ.Owns c k t
      · obtain ⟨a, t, ha, hexp, hta, ho⟩ := hgone
        have hw : w.reg.sessions.lookup c = some a := (h.mapped a ha).resolve_right hnot
        obtain ⟨s, hs, hcore⟩ := h.core a t hta
        refine .inr ⟨_, self_mem_after hx, a, ?_, s, hs, ?_⟩
        · rw [RacePc.files_sweepNext, mem_sweepGone, hexpired a c ha]
          exact ⟨⟨c, hw⟩, hexp⟩
        · refine (h.config.owns c k s).mpr ?_
          exact (SessionRegistry.Owns.congr (samePaths_of_core hcore)).mpr ho
      · rw [hswept.left k fun a t ha hexp hta ho => hgone ⟨a, t, ha, hexp, hta, ho⟩]
        exact (hset.files k).imp_right (he.due hx)
  · intro k hd
    rcases h.due_of_sweep ht hd with hold | ⟨a, t, ha, hexp, hta, ho⟩
    · rcases hswept.fewer k with hsame | hnone
      · exact hsame.trans (h.due k hold)
      · exact hnone
    · exact hswept.gone k a t ha hexp hta ho
  · intro hd b u hb hu
    obtain ⟨hold, hexp⟩ := (hentry c b).mp hb
    rw [hswept.kept b hexp] at hu
    rcases h.due_of_sweep ht hd with hdold | ⟨a, t, ha, hexpa, -⟩
    · exact h.dueSubs hdold b u hold hu
    · rw [hold] at ha
      cases ha
      rw [hexp] at hexpa
      cases hexpa

/-! ## An attach takes effect -/

omit [HashOrder] in
theorem Rel.due_of_connect (h : Rel c w σ) (hkeeps : Keeps w.reg n.reg) {o : AttachOutcome}
    (hpc : n.pc = .discardQueue o) {s t : SessionState} (hs : w.reg.heap[o.session]? = some s)
    (hst : σ.heap[o.session]? = some t) {k : FileKind} (hd : Due c (w.after i x n) k) :
    Due c w k ∨ k = .queue ∧ σ.Owns c .queue t := by
  rcases h.due_of_after hkeeps hd with ⟨b, hb, s', hs', ho⟩ | hold
  · rw [hpc] at hb
    cases k with
    | queue =>
        have hba : b = o.session := List.mem_singleton.mp hb
        subst hba
        obtain ⟨s'', hs'', hpaths⟩ := hkeeps.heap _ s hs
        cases hs'.symm.trans hs''
        have ho : w.reg.Owns c .queue s :=
          (SessionRegistry.Owns.congr hpaths).mp ((hkeeps.owns c .queue _).mp ho)
        exact .inr ⟨rfl, (SessionRegistry.Owns.congr (samePaths_of_core (h.core_eq hs hst))).mp
          ((h.config.owns c .queue s).mp ho)⟩
    | subs => cases hb
  · exact .inl hold

/-- **A connection is installed** in both runs, on the session they both have registered. -/
theorem Rel.connect (h : Rel c w σ) (ht : w.reg.Tidy) (hc : c ≠ []) (hx : w.calls[i]? = some x)
    (hpc : x.pc = .start) (identity : Str) (sink : Sender) (kick : Notify) {a : Addr}
    {s t : SessionState} (hreg : w.reg.sessions.lookup c = some a)
    (hreg' : σ.sessions.lookup c = some a) (hs : w.reg.heap[a]? = some s)
    (hst : σ.heap[a]? = some t) (hfile : x.op.clean → ∀ k, t.file k = none) (present : Bool)
    {σ' : SessionRegistry}
    (hconn : SessionRegistry.Connected c a t (t.attachConnLocked σ.disk identity sink kick) σ σ') :
    Rel c (w.after i x ⟨{
          w.reg.setSession a (s.attachConnLocked w.reg.disk identity sink kick).session with
          disk := (s.attachConnLocked w.reg.disk identity sink kick).disk },
        w.lock, .discardQueue ⟨a, present, (s.attachConnLocked w.reg.disk identity sink kick).epoch,
          (s.attachConnLocked w.reg.disk identity sink kick).backlog⟩⟩) σ' := by
  have hlt : a < σ.heap.length := (List.getElem?_eq_some_iff.mp hst).1
  have hcid : s.clientId = c := ht.clientId_eq hreg hs
  have hcid' : t.clientId = c := h.tidy.clientId_eq hreg' hst
  have hcore : s.core = t.core := h.core_eq hs hst
  have hpaths : ∀ (u : SessionState) (d : Disk),
      SamePaths u (u.attachConnLocked d identity sink kick).session ∧
        (u.attachConnLocked d identity sink kick).session.inner.subs = u.inner.subs := by
    intro u d
    rw [SessionState.attachConnLocked_session]
    exact ⟨⟨rfl, rfl, rfl⟩, rfl⟩
  have hkcore := (SessionState.attachConnLocked_core hcore w.reg.disk σ.disk identity sink kick).1
  have hqueue := ht.state_attachConnLocked_queue hc hs hcid identity sink kick
  obtain ⟨write, hid, hwrite⟩ := SessionRegistry.state_attachConnLocked_subs s c identity sink kick
  have hsubs := hwrite w.reg a ht hs hcid
  have hsame : s = t → (t.attachConnLocked σ.disk identity sink kick).session =
      (s.attachConnLocked w.reg.disk identity sink kick).session ∧
        σ'.state c .subs = write (σ.state c .subs) := by
    rintro rfl
    rw [SessionState.attachConnLocked_session, SessionState.attachConnLocked_session]
    exact ⟨rfl, hconn.subs.trans (hwrite σ a h.tidy hst hcid)⟩
  have hwithout : t.inner.subs = ∅ → σ'.state c .subs = σ.state c .subs := by
    intro hnone
    obtain ⟨write', hid', hwrite'⟩ :=
      SessionRegistry.state_attachConnLocked_subs t c identity sink kick
    rw [hconn.subs, hwrite' σ a h.tidy hst hcid', hid' hnone]
    rfl
  obtain ⟨hspaths, hssubs⟩ := hpaths s w.reg.disk
  obtain ⟨htpaths, htsubs⟩ := hpaths t σ.disk
  generalize s.attachConnLocked w.reg.disk identity sink kick =
    k at hspaths hssubs hkcore hqueue hsubs hsame ⊢
  have hkeeps : Keeps w.reg { w.reg.setSession a k.session with disk := k.disk } :=
    .set ⟨rfl, rfl, rfl⟩ hs hspaths rfl
  have hwhole : Keeps σ σ' := .set hconn.toSameConfig hst htpaths hconn.heap
  have hdue : ∀ f, Due c (w.after i x ⟨{ w.reg.setSession a k.session with disk := k.disk }, w.lock,
      .discardQueue ⟨a, present, k.epoch, k.backlog⟩⟩) f → Due c w f ∨ f = .queue ∧
        σ.Owns c .queue t :=
    fun f => h.due_of_connect hkeeps rfl hs hst
  have he : Effect c w σ σ' x ⟨{ w.reg.setSession a k.session with disk := k.disk }, w.lock,
      .discardQueue ⟨a, present, k.epoch, k.backlog⟩⟩ := {
    began := hpc
    keeps := hkeeps
    whole := hwhole
    length := List.length_set
    wholeLength := by rw [hconn.heap]; exact List.length_set
    entries := fun b k hb => by rwa [hconn.entry] at hb
    lock := rfl
    unlocked := rfl
    connects := fun b p m hb => by cases hb
    seen := by
      refine fun _ _ _ => ⟨rfl, fun hnone => ⟨fun b u hb hu => ?_, fun f hf => ?_⟩, fun hnone => ?_⟩
      · rcases Cells.set_cases hu with ⟨-, hu⟩ | ⟨rfl, rfl⟩
        · exact hnone b u hb hu
        · rw [hssubs]
          exact hnone b s hreg hs
      · cases f with
        | queue => exact hqueue.trans hf
        | subs =>
            refine hsubs.trans ?_
            rw [hid (hnone a s hreg hs)]
            exact hf
      · rw [hreg] at hnone
        cases hnone
    ok := SessionRegistry.Handle.keeps ⟨t, hst, hcid', hfile⟩ hwhole }
  refine h.effect hx he ?_ ?_ (fun _ _ hw => hw) ?_ (fun b hb => by cases hb) ?_ ?_ ?_
  · exact fun cl p hu => absurd hu (Rel.no_unborn hreg hlt cl p)
  · intro b u hu
    rw [hconn.heap] at hu
    rcases Cells.set_cases hu with ⟨hne, hu⟩ | ⟨rfl, rfl⟩
    · obtain ⟨s', hs', hcore'⟩ := h.core b u hu
      exact ⟨s', (List.getElem?_set_ne hne.symm).trans hs', hcore'⟩
    · exact ⟨_, Cells.set_self hs, hkcore⟩
  · exact fun b hb _ => ⟨hb, fun hold => .inl (by rw [hconn.entry]; exact hold)⟩
  · intro _ hset
    have hst' : s = t := by
      have heq := hset.cell a hreg'
      rw [hs, hst] at heq
      exact Option.some.inj heq
    obtain ⟨hsession, hσsubs⟩ := hsame hst'
    refine ⟨fun b hb => ?_, fun f => ?_⟩
    · rw [hconn.entry, hreg'] at hb
      cases hb
      rw [hconn.heap, Cells.set_self hst, hsession]
      exact Cells.set_self hs
    · cases f with
      | queue =>
          by_cases ho : σ.Owns c .queue t
          · refine .inr ⟨_, self_mem_after hx, a, List.mem_singleton_self a, k.session,
              Cells.set_self hs, ?_⟩
            refine (SessionRegistry.Owns.congr hspaths).mpr ?_
            exact (h.config.owns c .queue s).mpr (hst' ▸ ho)
          · rw [hconn.queue, if_neg ho]
            exact (hset.files .queue).imp hqueue.trans (he.due hx)
      | subs =>
          refine (hset.files .subs).imp (fun hfiles => ?_) (he.due hx)
          rw [hσsubs, ← hfiles]
          exact hsubs
  · intro f hd
    rcases hdue f hd with hold | ⟨rfl, ho⟩
    · cases f with
      | queue =>
          rw [hconn.queue, h.due .queue hold]
          exact ite_self _
      | subs => exact (hwithout (h.dueSubs hold a t hreg' hst)).trans (h.due .subs hold)
    · rw [hconn.queue, if_pos ho]
  · intro hd b u hb hu
    have hold : Due c w .subs := by
      rcases hdue .subs hd with hold | ⟨hf, -⟩
      · exact hold
      · cases hf
    rw [hconn.entry] at hb
    rw [hconn.heap] at hu
    rcases Cells.set_cases hu with ⟨-, hu⟩ | ⟨rfl, rfl⟩
    · exact h.dueSubs hold b u hb hu
    · rw [htsubs]
      exact h.dueSubs hold b t hreg' hst

omit [HashOrder] in
/-- **The session an attach connects to** is the registered one in the sequential run too,
once the lookup of the sequential attach has been run; the call itself is put back. -/
theorem Rel.enter (h : Rel c w σ) (hx : w.calls[i]? = some x) {a : Addr} {p m : Bool}
    (hpc : x.pc = .attachConn a p m) (hmay : MayAttach c w i a) {σ' : SessionRegistry}
    (hkeeps : Keeps σ σ') (htidy : σ'.Tidy)
    (hcore : ∀ (b : Addr) t, σ'.heap[b]? = some t → ∃ s, w.reg.heap[b]? = some s ∧ s.core = t.core)
    (hlen : w.reg.heap.length = σ'.heap.length) (hreg : σ'.sessions.lookup c = some a)
    (hmap : ∀ b, b < σ.heap.length → σ'.sessions.lookup c = some b → σ.sessions.lookup c = some b)
    (hfewer : ∀ k, σ'.state c k = σ.state c k ∨ σ'.state c k = none)
    (hsettled : w.Has (fun x => x.pc.replaces) ∨
      w.reg.heap[a]? = σ'.heap[a]? ∧ ∀ k, w.reg.state c k = σ'.state c k ∨ Due c w k)
    (hsubs : Due c w .subs → ∀ t, σ'.heap[a]? = some t → t.inner.subs = ∅)
    (hpending : ∀ j y, j ≠ i → w.calls[j]? = some y → ∀ b p m, y.pc = .attachConn b p m →
      b < σ'.heap.length → b < σ.heap.length ∨ p = true) :
    Rel c (w.after i x ⟨w.reg, w.lock, .start⟩) σ' := by
  have hmem := List.mem_of_getElem? hx
  have hself : Keeps w.reg w.reg := .of_heap ⟨rfl, rfl, rfl⟩ rfl
  have hends : ∀ b, (w.after i x ⟨w.reg, w.lock, .start⟩).Ends b → w.Ends b := by
    intro b hb
    rcases hb.of_after with hself | hold
    · cases hself
    · exact hold
  have hdue : ∀ k, Due c (w.after i x ⟨w.reg, w.lock, .start⟩) k → Due c w k :=
    fun k => h.due_of_idle hself (by cases k <;> rfl)
  have hdue' : ∀ k, Due c w k → Due c (w.after i x ⟨w.reg, w.lock, .start⟩) k := by
    refine fun k hd => hd.after_idle hself hx ?_
    rw [hpc]
    cases k <;> rfl
  exact {
    config := hkeeps.toSameConfig.symm.trans h.config
    tidy := htidy
    core := hcore
    size := .inl hlen
    mapped := by
      intro b hb
      rw [hreg] at hb
      cases hb
      exact .inl hmay.registered
    known := by
      intro b hb _
      have heq := hmay.registered.symm.trans hb
      cases heq
      exact .inl hreg
    ended := by
      intro b hb hb'
      rw [hreg] at hb'
      cases hb'
      obtain ⟨y, hy, he⟩ := hends a hb
      exact hmay.staying y hy he
    settled := by
      rcases hsettled with hrep | ⟨hcell, hfiles⟩
      · refine .inl (Has.after hrep hx fun hself => ?_)
        rw [hpc] at hself
        cases hself
      · refine .inr (.inr ⟨fun b hb => ?_, fun k => (hfiles k).imp_right (hdue' k)⟩)
        rw [hreg] at hb
        cases hb
        exact hcell
    due := by
      intro k hd
      rcases hfewer k with hsame | hnone
      · exact hsame.trans (h.due k (hdue k hd))
      · exact hnone
    dueSubs := by
      intro hd b t hb ht
      rw [hreg] at hb
      cases hb
      exact hsubs (hdue .subs hd) t ht
    lock := by
      intro j y hy hyl
      rcases after_calls hy with ⟨-, hj⟩ | ⟨-, rfl⟩
      · exact h.lock j y hj hyl
      · cases hyl
    calls := by
      intro y hy
      rcases mem_after hy with ⟨j, hne, hj⟩ | rfl
      · have hok := h.calls y (List.mem_of_getElem? hj)
        refine hok.settle hkeeps (hok.pc.settle hkeeps hmap (Nat.le_refl _) (hpending j y hne hj)
          fun _ => ⟨rfl, fun hsubs => ⟨hsubs, fun _ hk => hk⟩, fun hnone => ?_⟩)
        rw [hmay.registered] at hnone
        cases hnone
      · exact ⟨fun b e cl nw hop => ((h.calls x hmem).op b e cl nw hop).keeps hkeeps, trivial⟩
    held := fun k hk => (h.held k hk).keeps hkeeps }

omit [HashOrder] in
theorem Unborn.unique {cl cl' p p' : Bool} (h : Unborn c w σ cl p) (h' : Unborn c w σ cl' p') :
    cl = cl' := by
  obtain ⟨y, hy, hpc⟩ := h.maker
  exact (h.made y hy p hpc).1.symm.trans (h'.made y hy p hpc).1

omit [HashOrder] in
theorem Rel.born (h : Rel c w σ) (hx : w.calls[i]? = some x) {a : Addr} {p m : Bool}
    (hpc : x.pc = .attachConn a p m) (hmay : MayAttach c w i a) (hle : σ.heap.length ≤ a) :
    a = σ.heap.length ∧ Unborn c w σ x.op.clean p ∧
      ∀ j y, j ≠ i → w.calls[j]? = some y → ∀ b p' m', y.pc = .attachConn b p' m' →
        b < σ.heap.length + 1 → b < σ.heap.length ∨ p' = true := by
  have hmem := List.mem_of_getElem? hx
  have hok := (h.calls x hmem).pc
  rw [hpc] at hok
  obtain ⟨hlt, hfound, -, -⟩ := hok
  obtain ⟨cl, p₀, hu⟩ : ∃ cl p, Unborn c w σ cl p := by
    rcases h.size with hlen | hu
    · exact absurd (hlen ▸ hlt) (Nat.not_lt.mpr hle)
    · exact hu
  have ha : a = σ.heap.length := Option.some.inj (hmay.registered.symm.trans hu.entry)
  subst ha
  have hmade : x.op.clean = cl ∧ p = p₀ := by
    cases m with
    | true => exact hu.made x hmem p hpc
    | false =>
        obtain ⟨rfl, hclean⟩ := hfound rfl
        obtain ⟨y, hy, hya⟩ := hu.maker
        obtain ⟨j, hj⟩ := List.mem_iff_getElem?.mp hy
        have hne : j ≠ i := by
          rintro rfl
          rw [hx] at hj
          cases hj
          rw [hpc] at hya
          cases hya
        have hp₀ : p₀ = true := by
          cases p₀ with
          | true => rfl
          | false => exact absurd hya (hmay.made j y hne hj)
        subst hp₀
        have hcl : cl = false := by
          cases cl with
          | false => rfl
          | true => cases hu.found
        exact ⟨hclean.trans hcl.symm, rfl⟩
  obtain ⟨rfl, rfl⟩ := hmade
  refine ⟨rfl, hu, fun j y hne hj b p' m' hya hb => ?_⟩
  have hymem := List.mem_of_getElem? hj
  rcases Nat.lt_or_eq_of_le (Nat.le_of_lt_succ hb) with hlt | rfl
  · exact .inl hlt
  · refine .inr ?_
    cases p' with
    | true => rfl
    | false =>
        have hyok := (h.calls y hymem).pc
        rw [hya] at hyok
        cases m' with
        | false => cases (hyok.2.1 rfl).1
        | true => exact absurd hya (hmay.made j y hne hj)

omit [HashOrder] in
/-- The lookup of the sequential attach finds or makes the session this one connects to. -/
structure LookedUp (c : Str) (w : RaceWorld) (i : Nat) (x : RaceCall) (a : Addr) (p : Bool)
    (l : SessionRegistry.Lookup) : Prop where
  session : l.session = a
  present : l.sessionPresent = p
  entry : l.registry.sessions.lookup c = some a
  cell : ∃ t, l.registry.heap[a]? = some t ∧ (x.op.clean → ∀ k, t.file k = none)
  rel : Rel c (w.after i x ⟨w.reg, w.lock, .start⟩) l.registry

omit [HashOrder] in
theorem Rel.lookup_old (h : Rel c w σ) (hx : w.calls[i]? = some x) {a : Addr} {p m : Bool}
    (hpc : x.pc = .attachConn a p m) (hmay : MayAttach c w i a) (hlt : a < σ.heap.length) :
    LookedUp c w i x a p (σ.attachLookup c x.op.clean) := by
  have hmem := List.mem_of_getElem? hx
  have hok := (h.calls x hmem).pc
  rw [hpc] at hok
  obtain ⟨-, -, hclean, hpresent⟩ := hok
  have hp : p = true := hpresent hlt
  have hclean : x.op.clean = false := by
    cases hcl : x.op.clean with
    | false => rfl
    | true =>
        have hfalse := hclean hcl
        rw [hp] at hfalse
        cases hfalse
  have hreg : σ.sessions.lookup c = some a := by
    refine (h.known a hmay.registered hlt).resolve_right ?_
    rintro ⟨y, hy, he⟩
    exact hmay.staying y hy he
  have hunborn := Rel.no_unborn hmay.registered hlt
  have hentry : ∀ k, (σ.sessions.insert c a).lookup k = σ.sessions.lookup k := by
    intro k
    rw [Keyed.lookup_insert]
    split
    · next hk => rw [hk, hreg]
    · rfl
  rw [hclean, SessionRegistry.attachLookup_resumed hreg]
  refine ⟨rfl, hp.symm, (hentry c).trans hreg, ⟨_, List.getElem?_eq_getElem hlt, fun hcl => ?_⟩, ?_⟩
  · rw [hclean] at hcl
    cases hcl
  · have hkeeps : Keeps σ { σ with sessions := σ.sessions.insert c a } :=
      .of_heap ⟨rfl, rfl, rfl⟩ rfl
    refine h.enter hx hpc hmay hkeeps (h.tidy.keep hkeeps rfl fun k b hb =>
      (hentry k).symm.trans hb)
      h.core ?_ ((hentry c).trans hreg) (fun b _ hb => (hentry c).symm.trans hb)
        (fun _ => .inl rfl) ?_
      (fun hd t ht => h.dueSubs hd a t hreg ht) fun _ _ _ _ _ _ _ _ hb => .inl hb
    · rcases h.size with hlen | ⟨cl, p', hu⟩
      · exact hlen
      · exact absurd hu (hunborn cl p')
    · rcases h.settled with hrep | ⟨p', hu⟩ | hset
      · exact .inl hrep
      · exact absurd hu (hunborn true p')
      · exact .inr ⟨hset.cell a hreg, hset.files⟩

omit [HashOrder] in
/-- A session entered by the lookup in `σ₁`, which has what `σ` has but for state files a
clean attach removes. -/
theorem Rel.lookup_new (h : Rel c w σ) (hx : w.calls[i]? = some x) {p m : Bool}
    (hpc : x.pc = .attachConn σ.heap.length p m) (hmay : MayAttach c w i σ.heap.length)
    (hu : Unborn c w σ x.op.clean p)
    (hpending : ∀ j y, j ≠ i → w.calls[j]? = some y → ∀ b p' m', y.pc = .attachConn b p' m' →
      b < σ.heap.length + 1 → b < σ.heap.length ∨ p' = true) {σ₁ : SessionRegistry}
    (hkeeps : Keeps σ σ₁) (htidy : σ₁.Tidy) (hlen : σ₁.heap.length = σ.heap.length)
    (hcore : ∀ (a : Addr) s, σ.heap[a]? = some s → ∃ s', σ₁.heap[a]? = some s' ∧ s'.core = s.core)
    (hfresh : σ₁.fresh c x.op.clean = σ.fresh c x.op.clean)
    (hfewer : ∀ k, σ₁.state c k = σ.state c k ∨ σ₁.state c k = none)
    (hfiles : w.Has (fun x => x.pc.replaces) ∨ ∀ k, w.reg.state c k = σ₁.state c k ∨ Due c w k)
    {n : Option Notify} :
    LookedUp c w i x σ.heap.length p
      ⟨(σ₁.addSession c (if x.op.clean then none else σ₁.file c .queue)
        (if x.op.clean then none else σ₁.file c .subs)).1, σ.heap.length, p, n⟩ := by
  generalize hσ' : (σ₁.addSession c (if x.op.clean then none else σ₁.file c .queue)
    (if x.op.clean then none else σ₁.file c .subs)).1 = σ'
  have hheap : σ'.heap = σ₁.heap ++ [σ.fresh c x.op.clean] := by
    rw [← hσ', ← hfresh]
    rfl
  have hmap : σ'.sessions = σ₁.sessions.insert c σ.heap.length := by
    rw [← hσ', ← hlen]
    rfl
  have hconf : SameConfig σ₁ σ' := by
    rw [← hσ']
    exact ⟨rfl, rfl, rfl⟩
  have hstate : ∀ k, σ'.state c k = σ₁.state c k := by
    intro k
    rw [← hσ']
    rfl
  have hentry : σ'.sessions.lookup c = some σ.heap.length := by
    rw [hmap]
    exact AList.lookup_insert _
  have hcell : σ'.heap[σ.heap.length]? = some (σ.fresh c x.op.clean) := by
    rw [hheap, ← hlen]
    exact List.getElem?_concat_length
  have hlen' : σ'.heap.length = σ.heap.length + 1 := by
    rw [hheap, ← hlen]
    exact List.length_append
  refine ⟨rfl, rfl, hentry, ⟨_, hcell, fun hcl k => ?_⟩, ?_⟩
  · rw [SessionRegistry.fresh, if_pos hcl, if_pos hcl]
    cases k <;> rfl
  · refine h.enter hx hpc hmay (hkeeps.trans (.concat hconf hheap)) ?_ ?_
      (hu.length.trans hlen'.symm)
      hentry (fun b hb hb' => ?_) (fun k => ?_) ?_ (fun _ t ht => ?_)
        fun j y hne hj b p' m' hya hb => ?_
    · refine htidy.enter hconf hheap ?_ fun k => ?_
      · rw [hmap, hlen]
        rfl
      · rw [← hfresh, SessionRegistry.fresh]
        cases x.op.clean with
        | true => exact .inl (by cases k <;> rfl)
        | false => exact .inr (by cases k <;> rfl)
    · intro b t ht
      rw [hheap] at ht
      rcases Cells.concat_cases ht with ht | ⟨rfl, rfl⟩
      · obtain ⟨hlt, -⟩ := List.getElem?_eq_some_iff.mp ht
        rw [hlen] at hlt
        obtain ⟨t', ht', hcore'⟩ := hcore b _ (List.getElem?_eq_getElem hlt)
        rw [ht] at ht'
        cases ht'
        obtain ⟨s, hs, hscore⟩ := h.core b _ (List.getElem?_eq_getElem hlt)
        exact ⟨s, hs, hscore.trans hcore'.symm⟩
      · rw [hlen]
        exact ⟨_, hu.cell, rfl⟩
    · rw [hentry] at hb'
      cases hb'
      exact absurd hb (Nat.lt_irrefl _)
    · rw [hstate]
      exact hfewer k
    · refine hfiles.imp_right fun hfiles => ⟨hu.cell.trans hcell.symm, fun k => ?_⟩
      rw [hstate]
      exact hfiles k
    · rw [hcell] at ht
      cases ht
      rfl
    · rw [hlen'] at hb
      exact hpending j y hne hj b p' m' hya hb

omit [HashOrder] in
/-- **The lookup of the sequential attach** gives the session this one connects to. -/
theorem Rel.lookedUp (h : Rel c w σ) (hx : w.calls[i]? = some x) {a : Addr} {p m : Bool}
    (hpc : x.pc = .attachConn a p m) (hmay : MayAttach c w i a) :
    LookedUp c w i x a p (σ.attachLookup c x.op.clean) := by
  by_cases hlt : a < σ.heap.length
  · exact h.lookup_old hx hpc hmay hlt
  · obtain ⟨rfl, hu, hpending⟩ := h.born hx hpc hmay (Nat.le_of_not_lt hlt)
    cases hcl : x.op.clean with
    | false =>
        have hfree := hu.free hcl
        have hself : Keeps σ σ := .of_heap ⟨rfl, rfl, rfl⟩ rfl
        have hnew :=
          h.lookup_new hx hpc hmay hu hpending hself h.tidy rfl (fun _ s hs => ⟨s, hs, rfl⟩) rfl
          (fun _ => .inl rfl) ?_ (n := none)
        · rw [SessionRegistry.attachLookup_opened hfree]
          have hp : p = ((σ.state c .queue).isSome || (σ.state c .subs).isSome) := by
            have hfound := hu.found
            rw [hcl] at hfound
            exact hfound
          rw [hcl] at hnew
          rw [← hp]
          exact hnew
        · rcases h.settled with hrep | ⟨p', hu'⟩ | hset
          · exact .inl hrep
          · have heq := hu.unique hu'
            rw [hcl] at heq
            cases heq
          · exact .inr hset.files
    | true =>
        obtain ⟨σ₁, n, hcleared, hl⟩ := h.tidy.attachLookup_clean c
        have hfresh : σ₁.fresh c x.op.clean = σ.fresh c x.op.clean := by
          refine SessionRegistry.fresh_congr hcleared.toSameConfig fun hfalse => ?_
          rw [hcl] at hfalse
          cases hfalse
        have htidy : σ₁.Tidy := h.tidy.keep hcleared.keeps hcleared.length fun k b hb => by
          rwa [hcleared.entry] at hb
        have hnew := h.lookup_new hx hpc hmay hu hpending hcleared.keeps htidy hcleared.length
          hcleared.core hfresh (fun k => .inr (hcleared.state k))
          (.inr fun k => .inl ((hu.clear hcl k).trans (hcleared.state k).symm)) (n := n)
        rw [hl]
        have hp := hu.found
        rw [hcl] at hnew hp
        rw [show p = false from hp] at hnew ⊢
        exact hnew

/-- **An attach takes effect** when it connects, and returns what the sequential one does. -/
theorem Rel.attach (h : Rel c w σ) (ht : w.reg.Tidy) (hc : c ≠ []) (hx : w.calls[i]? = some x)
    {identity : Str} {clean : Bool} {sink : Sender} {kick : Notify}
    (hop : x.op = .attach identity clean sink kick) {a : Addr} {p m : Bool}
    (hpc : x.pc = .attachConn a p m) (hmay : MayAttach c w i a) {s : SessionState}
    (hs : w.reg.heap[a]? = some s) :
    (σ.attach c identity clean sink kick).outcome =
        ⟨a, p, (s.attachConnLocked w.reg.disk identity sink kick).epoch,
          (s.attachConnLocked w.reg.disk identity sink kick).backlog⟩ ∧
      Rel c (w.after i x ⟨{ w.reg.setSession a
            (s.attachConnLocked w.reg.disk identity sink kick).session with
          disk := (s.attachConnLocked w.reg.disk identity sink kick).disk }, w.lock,
        .discardQueue ⟨a, p, (s.attachConnLocked w.reg.disk identity sink kick).epoch,
          (s.attachConnLocked w.reg.disk identity sink kick).backlog⟩⟩)
        (σ.attach c identity clean sink kick).registry := by
  have hlooked := h.lookedUp hx hpc hmay
  have hclean : x.op.clean = clean := by rw [hop]; rfl
  rw [hclean] at hlooked
  have hatt : σ.attach c identity clean sink kick =
      ⟨((σ.attachLookup c clean).registry.attachConnAt (σ.attachLookup c clean).session
        identity sink kick).1,
        ⟨(σ.attachLookup c clean).session, (σ.attachLookup c clean).sessionPresent,
          ((σ.attachLookup c clean).registry.attachConnAt
            (σ.attachLookup c clean).session identity sink
            kick).2.1,
          ((σ.attachLookup c clean).registry.attachConnAt
            (σ.attachLookup c clean).session identity sink
            kick).2.2.1⟩,
        (σ.attachLookup c clean).notified.toList ++
          ((σ.attachLookup c clean).registry.attachConnAt
            (σ.attachLookup c clean).session identity sink
            kick).2.2.2.toList⟩ := rfl
  rw [hatt]
  generalize σ.attachLookup c clean = l at hlooked
  obtain ⟨hsession, hpresent, hentry, ⟨t, hcell, hfile⟩, hrel⟩ := hlooked
  rw [hsession, hpresent]
  have hcid : t.clientId = c := hrel.tidy.clientId_eq hentry hcell
  have hcore : s.core = t.core := hrel.core_eq hs hcell
  obtain ⟨hconn, hepoch, hbacklog⟩ := hrel.tidy.connected hcell hcid identity sink kick hc
  obtain ⟨-, hepoch', hbacklog'⟩ :=
    SessionState.attachConnLocked_core hcore w.reg.disk l.registry.disk identity sink kick
  refine ⟨?_, ?_⟩
  · rw [hepoch, hbacklog, hepoch', hbacklog']
  · have hx' : (w.after i x ⟨w.reg, w.lock, .start⟩).calls[i]? = some { x with pc := .start } :=
      Cells.set_self hx
    have hafter := hrel.connect ht hc hx' rfl identity sink kick hmay.registered hentry hs
      hcell hfile p hconn
    have heq : ∀ n, (w.after i x ⟨w.reg, w.lock, .start⟩).after i { x with pc := .start } n =
        w.after i x n := by
      intro n
      simp only [after, List.set_set]
    rw [heq] at hafter
    exact hafter

end

end

end RaceWorld

end Entmoot
