/-
# `Entmoot.Expiry` — which offline sessions a sweep can remove

`sweep` discards the sessions that have been offline for longer than the expiry,
by the time in `offline_since`.  Every call that takes a sink away sets it, and a
session made by `attach` has a sink (`Dated`, `Got.dated`); but `rehydrate` makes
sessions without a sink and leaves the time unset, so that no sweep removes them
(`restored_session_never_expires`).  Hence every session without a sink can
expire, in every run after a restart, exactly if the restart restores no session
(`expiring_iff`).
-/
import Entmoot.Calls
import Entmoot.Restart

namespace Entmoot

open SessionRegistry (Attached)

/-- A session without a sink has the time it went offline. -/
def Dated (s : SessionState) : Prop := s.inner.sink = none → s.inner.offlineSince.isSome

theorem Moved.dated {new : Str → Prop} {s s' : SessionState} (h : Moved new s s') (hs : Dated s) :
    Dated s' := by
  intro hsink
  rcases h.presence with ⟨hsame, hoff⟩ | hset | hset
  · rw [hoff]
    exact hs (hsame.symm.trans hsink)
  · rw [hsink] at hset
    cases hset
  · exact hset

/-- What is left of the session at `a`: no subscription, and no file under its paths. -/
structure Removed (a : Addr) (queuePath subsPath : Option Path) (r : SessionRegistry) : Prop where
  subs : ∃ s, r.heap[a]? = some s ∧ s.inner.subs = ∅
  files : ∀ p, queuePath = some p ∨ subsPath = some p → r.disk.lookup p = none

/-- Every registered session without a sink is dated, and the first sweep when it
has been offline for longer than the expiry removes it. -/
structure Expiring (r : SessionRegistry) : Prop where
  dated : ∀ c s, r.registered c = some s → s.inner.sink = none → s.inner.offlineSince.isSome
  swept : ∀ c a s, r.sessions.lookup c = some a → r.heap[a]? = some s → s.inner.sink = none →
    ∃ since, s.inner.offlineSince = some since ∧ ∀ expiry now, elapsed now since > expiry →
      (r.sweep expiry now).sessions.lookup c = none ∧
        Removed a s.queuePath s.subsPath (r.sweep expiry now)

/-- No file of the directory is restored: no subscription file in it loads. -/
def NothingToRestore (queueDir : Bool) (d : Disk) : Prop :=
  queueDir = true → ∀ p, extension p = some "subs".toList → ∀ x, loadSubs d p ≠ .ok x

/-! ## What a sweep removes -/

section
variable {r : SessionRegistry} {a b : Addr} {s : SessionState} {queuePath subsPath : Option Path}

theorem lookup_remove_of_none {d : Disk} {p : Path} (h : d.lookup p = none) (q : Path) :
    (d.remove q).lookup p = none := by
  rw [Disk.remove, Keyed.lookup_erase]
  split
  · rfl
  · exact h

theorem lookup_remove_self (d : Disk) (p : Path) : (d.remove p).lookup p = none := by
  rw [Disk.remove, Keyed.lookup_erase, if_pos rfl]

theorem discardStateFiles_of_none {d : Disk} {p : Path} (h : d.lookup p = none) (s : SessionState) :
    (s.discardStateFiles d).lookup p = none := by
  have hqueue : (s.discardQueueFile d).lookup p = none := by
    rw [SessionState.discardQueueFile]
    split
    · exact lookup_remove_of_none h _
    · exact h
  rw [SessionState.discardStateFiles, SessionState.discardSubsFile]
  split
  · exact lookup_remove_of_none hqueue _
  · exact hqueue

theorem discardStateFiles_own (d : Disk) (s : SessionState) (p : Path)
    (hp : s.queuePath = some p ∨ s.subsPath = some p) :
      (s.discardStateFiles d).lookup p = none := by
  rw [SessionState.discardStateFiles]
  rcases hp with hp | hp
  · have hqueue : (s.discardQueueFile d).lookup p = none := by
      simp only [SessionState.discardQueueFile, hp]
      exact lookup_remove_self d p
    rw [SessionState.discardSubsFile]
    split
    · exact lookup_remove_of_none hqueue _
    · exact hqueue
  · simp only [SessionState.discardSubsFile, hp]
    exact lookup_remove_self _ p

theorem removed_discardAt (hs : r.heap[a]? = some s) :
    Removed a s.queuePath s.subsPath (r.discardAt a) := by
  simp only [SessionRegistry.discardAt, hs]
  exact ⟨⟨_, Cells.set_self hs, rfl⟩, fun p hp => discardStateFiles_own r.disk _ p hp⟩

theorem Removed.discardAt (h : Removed a queuePath subsPath r) (b : Addr) :
    Removed a queuePath subsPath (r.discardAt b) := by
  rw [SessionRegistry.discardAt]
  split
  · exact h
  · next t ht =>
    obtain ⟨s, hs, hnone⟩ := h.subs
    refine ⟨?_, fun p hp => discardStateFiles_of_none (h.files p hp) _⟩
    by_cases hba : b = a
    · subst hba
      exact ⟨_, Cells.set_self ht, rfl⟩
    · exact ⟨s, (List.getElem?_set_ne hba).trans hs, hnone⟩

theorem removed_discardAll : ∀ (gone : List (Str × Addr)) {r : SessionRegistry},
    (∃ s, r.heap[a]? = some s ∧ s.queuePath = queuePath ∧ s.subsPath = subsPath) →
      (∃ c, (c, a) ∈ gone) ∨ Removed a queuePath subsPath r →
      Removed a queuePath subsPath (gone.foldl (fun r e => r.discardAt e.2) r) := by
  intro gone
  induction gone with
  | nil => exact fun _ h => h.resolve_left fun ⟨_, hc⟩ => absurd hc List.not_mem_nil
  | cons e gone ih =>
      rintro r ⟨s, hs, rfl, rfl⟩ h
      have hserved : Tended (fun _ _ => False) r (r.discardAt e.2) := .discardAt r e.2
      obtain ⟨s', hs', hm⟩ := hserved.heap a s hs
      refine ih ⟨s', hs', hm.queuePath, hm.subsPath⟩ ?_
      rcases h with ⟨c, hc⟩ | h
      · rcases List.mem_cons.mp hc with rfl | hc
        · exact .inr (removed_discardAt hs)
        · exact .inl ⟨c, hc⟩
      · exact .inr (h.discardAt e.2)

/-- **A sweep** removes every registered session that has been offline for longer
than the expiry. -/
theorem sweep_removes {c : Str} {since : Instant} {expiry : Duration} {now : Instant}
    (ha : r.sessions.lookup c = some a) (hs : r.heap[a]? = some s)
    (hsince : s.inner.offlineSince = some since) (hlong : elapsed now since > expiry) :
    (r.sweep expiry now).sessions.lookup c = none ∧
      Removed a s.queuePath s.subsPath (r.sweep expiry now) := by
  have hexpired : r.expiredAt expiry now a = true := by
    simp only [SessionRegistry.expiredAt, hs, SessionState.expired, hsince]
    exact decide_eq_true hlong
  have hkept :
      (Keyed.retain (fun _ a => !r.expiredAt expiry now a) r.sessions).lookup c = none := by
    rw [Keyed.lookup_retain, ha]
    simp [hexpired]
  have hgone : (c, a) ∈ (Keyed.pairs r.sessions).filter fun e => r.expiredAt expiry now e.2 :=
    List.mem_filter.mpr ⟨Keyed.mem_pairs.mpr ha, hexpired⟩
  have htended : Tended (fun _ _ => False)
      { r with sessions := Keyed.retain (fun _ a => !r.expiredAt expiry now a) r.sessions }
      (r.sweep expiry now) := .discardAll _ _
  constructor
  · cases hc : (r.sweep expiry now).sessions.lookup c with
    | none => rfl
    | some b => exact absurd (hkept.symm.trans (htended.sessions c b hc)) (fun h => nomatch h)
  · exact removed_discardAll _ ⟨s, hs, rfl, rfl⟩ (.inl ⟨c, hgone⟩)

theorem expiring_of_dated (h : ∀ (a : Addr) s, r.heap[a]? = some s → Dated s) : Expiring r where
  dated := by
    intro c s hs
    obtain ⟨a, _, hs⟩ := Option.bind_eq_some_iff.mp hs
    exact h a s hs
  swept := by
    intro c a s ha hs hsink
    obtain ⟨since, hsince⟩ := Option.isSome_iff_exists.mp (h a s hs hsink)
    exact ⟨since, hsince, fun expiry now hlong => sweep_removes ha hs hsince hlong⟩

end

/-! ## Runs -/

namespace CallWorld

variable [HashOrder]

/-- What a call keeps: every session is dated, and the registered ones exist. -/
structure DatedInv (w : CallWorld) : Prop where
  dated : ∀ (a : Addr) s, w.reg.heap[a]? = some s → Dated s
  mapped : ∀ c, Lives w.reg c

theorem DatedInv.step {scope : Str} {w w' : CallWorld} {act : CallAction} (h : DatedInv w)
    (hstep : w.step scope act = some w') : DatedInv w' := by
  rcases step_cases hstep with ⟨c, identity, clean, sink, kick, rfl, rfl⟩ | hserves
  · have hgot : Got w.reg c clean _ := attach_got (h.mapped c) identity clean sink kick
    refine ⟨fun a s' hs' => ?_, fun c' a ha => ?_⟩
    · rcases hgot.cell hs' with ⟨s, hs, hm⟩ | ⟨_, _, _, hsink⟩
      · exact hm.dated (h.dated a s hs)
      · intro hnone
        rw [hnone] at hsink
        cases hsink
    · rcases hgot.sessions c' a ha with ha | ⟨rfl, rfl⟩
      · obtain ⟨s, hs⟩ := h.mapped c' a ha
        obtain ⟨s', hs', _⟩ := hgot.served.heap a s hs
        exact ⟨s', hs'⟩
      · rcases hgot.session with ⟨_, ha, _⟩ | ⟨ha, ⟨s, hs⟩, _⟩
        · obtain ⟨s, hs⟩ := h.mapped c' _ ha
          obtain ⟨s', hs', _⟩ := hgot.served.heap _ s hs
          exact ⟨s', hs'⟩
        · exact ⟨s, ha ▸ hs.heap⟩
  · refine ⟨fun a s' hs' => ?_, fun c a ha => ?_⟩
    · obtain ⟨hlt, _⟩ := List.getElem?_eq_some_iff.mp hs'
      rw [hserves.reg.length] at hlt
      obtain ⟨t, ht, hm⟩ := hserves.reg.heap a _ (List.getElem?_eq_getElem hlt)
      rw [hs'] at ht
      cases ht
      exact hm.dated (h.dated a _ (List.getElem?_eq_getElem hlt))
    · obtain ⟨s, hs⟩ := h.mapped c a (hserves.reg.sessions c a ha)
      obtain ⟨s', hs', _⟩ := hserves.reg.heap a s hs
      exact ⟨s', hs'⟩

end CallWorld

/-! ## Restarts -/

/-- The sessions of a restart: none has a sink, and none is dated. -/
structure Undated (r : SessionRegistry) : Prop where
  heap : ∀ (a : Addr) s, r.heap[a]? = some s → s.inner.sink = none ∧ s.inner.offlineSince = none
  mapped : ∀ c, Lives r c

/-- A registry like `r`, but for one session that is as undated as before. -/
structure Refreshed (r r' : SessionRegistry) : Prop where
  length : r'.heap.length = r.heap.length
  sessions : r'.sessions = r.sessions
  undated : Undated r → Undated r'

theorem Refreshed.refl (r : SessionRegistry) : Refreshed r r := ⟨rfl, rfl, id⟩

theorem Refreshed.trans {r r' r'' : SessionRegistry} (h : Refreshed r r') (h' : Refreshed r' r'') :
    Refreshed r r'' :=
  ⟨h'.length.trans h.length, h'.sessions.trans h.sessions, fun hr => h'.undated (h.undated hr)⟩

theorem Refreshed.set {r r' : SessionRegistry} {a : Addr} {s s' : SessionState}
    (hs : r.heap[a]? = some s) (hheap : r'.heap = r.heap.set a s')
    (hsess : r'.sessions = r.sessions) (hsink : s'.inner.sink = s.inner.sink)
    (hoff : s'.inner.offlineSince = s.inner.offlineSince) :
    Refreshed r r' where
  length := by
    rw [hheap]
    exact List.length_set
  sessions := hsess
  undated := by
    intro h
    refine ⟨fun b t ht => ?_, fun c b hb => ?_⟩
    · rw [hheap] at ht
      rcases Cells.set_cases ht with ⟨_, ht⟩ | ⟨rfl, rfl⟩
      · exact h.heap b t ht
      · rw [hsink, hoff]
        exact h.heap b s hs
    · rw [hsess] at hb
      obtain ⟨t, ht⟩ := h.mapped c b hb
      rw [hheap]
      by_cases hab : a = b
      · subst hab
        exact ⟨s', Cells.set_self hs⟩
      · exact ⟨t, (List.getElem?_set_ne hab).trans ht⟩

/-- The new session of a restart entered under its client id. -/
theorem Undated.enter {r r₂ r' : SessionRegistry} {s : SessionState} {c : Str} (h : Undated r)
    (hs : s.inner.sink = none ∧ s.inner.offlineSince = none)
    (hr : Refreshed { r with heap := r.heap ++ [s] } r₂) (hheap : r'.heap = r₂.heap)
    (hsess : r'.sessions = r₂.sessions.insert c r.heap.length) :
    Undated r' ∧ ∀ c', c' = c ∨ (r.sessions.lookup c').isSome → (r'.sessions.lookup c').isSome := by
  have hadd : Undated { r with heap := r.heap ++ [s] } := by
    refine ⟨fun a t ht => ?_, fun c' a ha => ?_⟩
    · rcases Cells.concat_cases ht with ht | ⟨_, rfl⟩
      · exact h.heap a t ht
      · exact hs
    · obtain ⟨t, ht⟩ := h.mapped c' a ha
      exact ⟨t, Cells.append_of_some ht⟩
  have h₂ := hr.undated hadd
  have hlookup : ∀ c', r'.sessions.lookup c' =
      if c' = c then some r.heap.length else r.sessions.lookup c' := by
    intro c'
    rw [hsess, Keyed.lookup_insert, hr.sessions]
  refine ⟨⟨fun a t ht => h₂.heap a t (hheap ▸ ht), fun c' a ha => ?_⟩, fun c' hc' => ?_⟩
  · rw [hlookup] at ha
    rw [hheap]
    split at ha
    · cases ha
      refine ⟨_, List.getElem?_eq_getElem ?_⟩
      rw [hr.length]
      exact List.length_append ▸ Nat.lt_succ_self _
    · exact h₂.mapped c' a (by rwa [hr.sessions])
  · rw [hlookup]
    split
    · rfl
    · next hne => exact hc'.resolve_left hne

section
variable [HashOrder] {declare : Str → Bool} {acl : Acl} {scope : Str}

theorem replaySub_refreshed (r : SessionRegistry) (identity : Str) (a : Addr) (e : Str × QoS) :
    Refreshed r (r.replaySub declare acl scope identity a e) := by
  rw [SessionRegistry.replaySub]
  split
  · split
    · next r' hr =>
      rw [SessionRegistry.activateSubscription] at hr
      split at hr
      · cases hr
      · split at hr
        · split at hr
          · cases hr
            exact .refl r
          · next s hs =>
            cases hr
            exact .set hs rfl rfl rfl rfl
        · cases hr
    · exact .refl r
  · exact .refl r

theorem replayAll_refreshed (identity : Str) (a : Addr) :
    ∀ (es : List (Str × QoS)) (r : SessionRegistry),
    Refreshed r (es.foldl (SessionRegistry.replaySub declare acl scope identity a) r) := by
  intro es
  induction es with
  | nil => exact Refreshed.refl
  | cons e es ih => exact fun r => (replaySub_refreshed r identity a e).trans (ih _)

/-- A file that loads becomes a session without a sink and without a time, and no
client id is unregistered. -/
theorem rehydrateOne_undated {r r' : SessionRegistry} {path : Path} {c : Str} (h : Undated r)
    (hr : r.rehydrateOne declare acl scope path = .ok (r', c)) :
    Undated r' ∧ ∀ c', c' = c ∨ (r.sessions.lookup c').isSome → (r'.sessions.lookup c').isSome := by
  obtain ⟨⟨clientId, identity, es⟩, _, hr⟩ := bind_eq_ok.mp hr
  cases hr
  let s : SessionState := .new r.disk c r.maxQueue r.slowGrace (r.queuePath c) (some path)
  let s₀ : SessionState := { s with inner := { s.inner with identity := identity } }
  have hs₀ : s₀.inner.sink = none ∧ s₀.inner.offlineSince = none := ⟨rfl, rfl⟩
  have hreplay : Refreshed { r with heap := r.heap ++ [s₀] }
      (es.foldl (SessionRegistry.replaySub declare acl scope identity r.heap.length) _) :=
    replayAll_refreshed identity r.heap.length es _
  refine h.enter hs₀ hreplay ?_ ?_
  · dsimp only
    split <;> rfl
  · dsimp only
    split <;> rfl

theorem rehydrateStep_undated {r : SessionRegistry} (h : Undated r) (path : Path) :
    Undated (r.rehydrateStep declare acl scope path) ∧ ∀ c, (r.sessions.lookup c).isSome →
      ((r.rehydrateStep declare acl scope path).sessions.lookup c).isSome := by
  rw [SessionRegistry.rehydrateStep]
  split
  · next p hp =>
    obtain ⟨r', c⟩ := p
    obtain ⟨hr', hkeep⟩ := rehydrateOne_undated h hp
    exact ⟨hr', fun c' hc' => hkeep c' (.inr hc')⟩
  · exact ⟨h, fun _ hc => hc⟩

/-- A file that does not load leaves the registry as it is. -/
theorem rehydrateStep_of_error {r : SessionRegistry} {path : Path}
    (h : ∀ x, loadSubs r.disk path ≠ .ok x) :
    r.rehydrateStep declare acl scope path = r := by
  rw [SessionRegistry.rehydrateStep]
  split
  · next p hp =>
    obtain ⟨x, hx, _⟩ := bind_eq_ok.mp hp
    exact absurd hx (h x)
  · rfl

/-- Once a client id is registered, the scan keeps it so. -/
theorem rehydrateSteps_keep {c : Str} : ∀ (ps : List Path) {r : SessionRegistry}, Undated r →
    (r.sessions.lookup c).isSome →
      Undated (ps.foldl (SessionRegistry.rehydrateStep declare acl scope) r) ∧
        ((ps.foldl (SessionRegistry.rehydrateStep declare acl scope) r).sessions.lookup
          c).isSome := by
  intro ps
  induction ps with
  | nil => exact fun h hc => ⟨h, hc⟩
  | cons p ps ih =>
      intro r h hc
      obtain ⟨hstep, hkeep⟩ := rehydrateStep_undated h p
      exact ih hstep (hkeep c hc)

/-- A scan that meets a file that loads registers a session without a time. -/
theorem rehydrateSteps_undated : ∀ (ps : List Path) {r : SessionRegistry}, Undated r →
    (∃ p ∈ ps, ∃ x, loadSubs r.disk p = .ok x) →
      ∃ c, Undated (ps.foldl (SessionRegistry.rehydrateStep declare acl scope) r) ∧
        ((ps.foldl (SessionRegistry.rehydrateStep declare acl scope) r).sessions.lookup
          c).isSome := by
  intro ps
  induction ps with
  | nil => exact fun _ ⟨p, hp, _⟩ => absurd hp List.not_mem_nil
  | cons p ps ih =>
      intro r h hload
      cases hr : r.rehydrateOne declare acl scope p with
      | ok out =>
          obtain ⟨r', c⟩ := out
          obtain ⟨hr', hkeep⟩ := rehydrateOne_undated h hr
          have hstep : r.rehydrateStep declare acl scope p = r' := by
            rw [SessionRegistry.rehydrateStep, hr]
          rw [List.foldl_cons, hstep]
          exact ⟨c, rehydrateSteps_keep ps hr' (hkeep c (.inl rfl))⟩
      | error e =>
          have hstep : r.rehydrateStep declare acl scope p = r := by
            rw [SessionRegistry.rehydrateStep, hr]
          rw [List.foldl_cons, hstep]
          refine ih h ?_
          obtain ⟨q, hq, x, hx⟩ := hload
          rcases List.mem_cons.mp hq with rfl | hq
          · rw [SessionRegistry.rehydrateOne, hx] at hr
            cases hr
          · exact ⟨q, hq, x, hx⟩

theorem rehydrateSteps_of_error : ∀ (ps : List Path) {r : SessionRegistry},
    (∀ p ∈ ps, ∀ x, loadSubs r.disk p ≠ .ok x) →
      ps.foldl (SessionRegistry.rehydrateStep declare acl scope) r = r := by
  intro ps
  induction ps with
  | nil => exact fun _ => rfl
  | cons p ps ih =>
      intro r h
      rw [List.foldl_cons, rehydrateStep_of_error (h p List.mem_cons_self)]
      exact ih fun q hq => h q (List.mem_cons_of_mem _ hq)

end

/-- **Every offline session can expire**, in every run after a restart, exactly if
the restart restores none. -/
theorem expiring_iff [HashOrder] (declare : Str → Bool) (acl : Acl) (scope : Str) (maxQueue : Nat)
    (slowGrace : Option Duration) (queueDir : Bool) (d : Disk) :
    (∀ acts w, Run.exec (CallWorld.step scope) (CallWorld.init
        ((SessionRegistry.new maxQueue slowGrace queueDir d).rehydrate declare acl scope))
          acts = some w →
      Expiring w.reg) ↔ NothingToRestore queueDir d := by
  have hnew : Undated (.new maxQueue slowGrace queueDir d) := by
    refine ⟨fun a s hs => ?_, fun c a ha => ?_⟩
    · cases hs
    · cases ha
  constructor
  · rintro hall rfl p hext x hx
    have hfile : p ∈ SessionRegistry.subsFiles d := mem_subsFiles.mpr ⟨loadSubs_isSome hx, hext⟩
    have hrun : (SessionRegistry.new maxQueue slowGrace true d).rehydrate declare acl scope =
        (SessionRegistry.subsFiles d).foldl (SessionRegistry.rehydrateStep declare acl scope)
          (.new maxQueue slowGrace true d) := rfl
    obtain ⟨c, hund, hc⟩ :
        ∃ c, Undated ((SessionRegistry.subsFiles d).foldl
          (SessionRegistry.rehydrateStep declare acl scope)
            (.new maxQueue slowGrace true d)) ∧
          (((SessionRegistry.subsFiles d).foldl (SessionRegistry.rehydrateStep declare acl scope)
            (.new maxQueue slowGrace true d)).sessions.lookup c).isSome :=
      rehydrateSteps_undated _ hnew ⟨p, hfile, x, hx⟩
    obtain ⟨a, ha⟩ := Option.isSome_iff_exists.mp hc
    obtain ⟨s, hs⟩ := hund.mapped c a ha
    obtain ⟨hsink, hoff⟩ := hund.heap a s hs
    have hdated := (hall [] _ rfl).dated c s ?_ hsink
    · rw [hoff] at hdated
      cases hdated
    · rw [hrun]
      exact Option.bind_eq_some_iff.mpr ⟨a, ha, hs⟩
  · intro hnone acts w h
    have hsame : (SessionRegistry.new maxQueue slowGrace queueDir d).rehydrate declare acl scope =
        .new maxQueue slowGrace queueDir d := by
      rw [SessionRegistry.rehydrate]
      split
      · next hdir =>
          exact rehydrateSteps_of_error _ fun p hp => hnone hdir p (mem_subsFiles.mp hp).2
      · rfl
    rw [hsame] at h
    have hinit : CallWorld.DatedInv (.init (.new maxQueue slowGrace queueDir d)) := by
      refine ⟨fun a s hs => ?_, hnew.mapped⟩
      cases hs
    exact expiring_of_dated
      (Run.exec_invariant (fun _ _ _ hi hs => CallWorld.DatedInv.step hi hs) acts hinit h).dated

/-- A client's subscription file from the run before: its session is still there
after a sweep with an expiry of a minute a year later. -/
theorem restored_session_never_expires :
    ∃ w s, Run.exec (@CallWorld.step .asStored [])
        (CallWorld.init (@SessionRegistry.rehydrate .asStored
          (fun _ => true) (.new [] .allow) [] (.new 10 (some 5) true
            ((∅ : Disk).insert (subsFile "dev".toList)
              (subsBytes "dev".toList [] [("kiln".toList, .atLeastOnce)])))))
        [.sweep 60 31536000] = some w ∧
      w.reg.registered "dev".toList = some s ∧ s.inner.sink = none ∧ s.inner.offlineSince = none ∧
      ¬ Expiring w.reg := by
  refine ⟨_, _, rfl, rfl, rfl, rfl, fun h => ?_⟩
  have hdated := h.dated "dev".toList _ rfl rfl
  cases hdated

end Entmoot
