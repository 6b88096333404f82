/-
# `Entmoot.Durable` — persistent connections and the sessions they are given

Whether a session has its two files is settled when `attach` makes it, but
cleanSession is a flag of each connection.  `attach` asks only the new connection:
one without cleanSession resumes whatever session is registered, also one that was
made for a connection with cleanSession=1 and is only taken over.  Such a session
has no files (`clean_session_is_resumed`).

As long as no session a cleanSession=1 connection was given is still registered
when a persistent connection of its client id attaches (`Unshared`), and only then, every
persistent connection gets a session with both files, which only persistent
connections of its client id have ever had (`durable_iff`).
-/
import Entmoot.Calls

namespace Entmoot

open SessionRegistry (Attached)

namespace CallWorld

/-- A persistent connection of `c` before now. -/
def HadPersistent (w : CallWorld) (c : Str) : Prop :=
  ∃ k ∈ w.conns, k.clientId = c ∧ k.clean = false

/-- The outcome of an attach of `c` without cleanSession, in a directory that
first held `d`. -/
structure Durable (d : Disk) (w : CallWorld) (c : Str) (att : Attached) : Prop where
  /-- its subscriptions and its queue reach the disk -/
  paths : ∃ s, att.registry.heap[att.outcome.session]? = some s ∧ s.clientId = c ∧
    s.queuePath = some (queueFile c) ∧ s.subsPath = some (subsFile c)
  /-- the state it resumes is a session, or a file, of persistent connections -/
  present : att.outcome.sessionPresent →
    (∃ k ∈ w.conns, k.clientId = c ∧ k.clean = false ∧ k.session = att.outcome.session) ∨
    w.reg.sessions.lookup c = none ∧ ∃ p, (p = queueFile c ∨ p = subsFile c) ∧
      (w.reg.disk.lookup p).isSome ∧ ((d.lookup p).isSome ∨ w.HadPersistent c)
  /-- no other connection has had this session -/
  owners : ∀ k ∈ w.conns, k.session = att.outcome.session → k.clientId = c ∧ k.clean = false
  /-- so its subscriptions are those of persistent connections -/
  subs : ∀ s f, att.registry.heap[att.outcome.session]? = some s → (s.inner.subs.lookup f).isSome →
    w.AskedFor att.outcome.session f

/-- The step is no attach of a persistent connection, or one with that outcome. -/
def DurableAttach [HashOrder] (d : Disk) (w : CallWorld) : CallAction → Prop
  | .attach c identity false sink kick => Durable d w c (w.reg.attach c identity false sink kick)
  | _ => True

/-- A persistent connection attaches: the session registered for its client id, if
there is one, was given to no cleanSession=1 connection. -/
def Unshared (w : CallWorld) : CallAction → Prop
  | .attach c _ false _ _ => ∀ a, w.reg.sessions.lookup c = some a →
      ∀ k ∈ w.conns, k.session = a → k.clean = false
  | _ => True

/-! ## The invariant -/

/-- The paths of a session follow from the connection it was given to. -/
structure HasPaths (s : SessionState) (c : Str) (clean : Bool) : Prop where
  clientId : s.clientId = c
  queuePath : s.queuePath = if clean then none else some (queueFile c)
  subsPath : s.subsPath = if clean then none else some (subsFile c)

structure TenantInv (d : Disk) (w : CallWorld) : Prop where
  queueDir : w.reg.queueDir = true
  tenants : ∀ k ∈ w.conns, ∃ s, w.reg.heap[k.session]? = some s ∧ HasPaths s k.clientId k.clean
  made : ∀ (a : Addr) s, w.reg.heap[a]? = some s → ∃ k ∈ w.conns, k.session = a
  mapped : ∀ c a, w.reg.sessions.lookup c = some a → ∃ s, w.reg.heap[a]? = some s ∧ s.clientId = c
  files : ∀ c p, p = queueFile c ∨ p = subsFile c → (w.reg.disk.lookup p).isSome →
    (d.lookup p).isSome ∨ w.HadPersistent c
  subs : ∀ (a : Addr) s f, w.reg.heap[a]? = some s → (s.inner.subs.lookup f).isSome → w.AskedFor a f

variable {d : Disk} {w w' : CallWorld}

theorem HasPaths.moved {new : Str → Prop} {s s' : SessionState} {c : Str} {clean : Bool}
    (h : HasPaths s c clean) (hm : Moved new s s') : HasPaths s' c clean :=
  ⟨hm.clientId.trans h.clientId, hm.queuePath.trans h.queuePath, hm.subsPath.trans h.subsPath⟩

/-- A file of `c` is under the paths of a session only if that is a session of `c`
with files. -/
theorem HasPaths.file {s : SessionState} {c c' : Str} {clean : Bool} {p : Path}
    (h : HasPaths s c' clean) (hp : p = queueFile c ∨ p = subsFile c)
    (hs : s.queuePath = some p ∨ s.subsPath = some p) : c' = c ∧ clean = false := by
  cases clean with
  | true =>
      rw [h.queuePath, h.subsPath] at hs
      rcases hs with hs | hs <;> cases hs
  | false =>
      refine ⟨?_, rfl⟩
      rw [h.queuePath, h.subsPath] at hs
      rcases hs with hs | hs
      · cases hs
        rcases hp with hp | hp
        · exact queueFile_injective hp
        · exact absurd hp (queueFile_ne_subsFile _ _)
      · cases hs
        rcases hp with hp | hp
        · exact absurd hp.symm (queueFile_ne_subsFile _ _)
        · exact subsFile_injective hp

theorem TenantInv.init (maxQueue : Nat) (slowGrace : Option Duration) (d : Disk) :
    TenantInv d (init (.new maxQueue slowGrace true d)) where
  queueDir := rfl
  tenants := fun _ hk => absurd hk List.not_mem_nil
  made := fun _ _ hs => nomatch hs
  mapped := fun _ _ ha => nomatch ha
  files := fun _ _ _ hp => .inl hp
  subs := fun _ _ _ hs => nomatch hs

theorem TenantInv.lives (h : TenantInv d w) (c : Str) : Lives w.reg c := by
  intro a ha
  obtain ⟨s, hs, _⟩ := h.mapped c a ha
  exact ⟨s, hs⟩

theorem TenantInv.serves (h : TenantInv d w) (hw : Serves w w') : TenantInv d w' := by
  have hback : ∀ (a : Addr) s', w'.reg.heap[a]? = some s' →
      ∃ s, w.reg.heap[a]? = some s ∧ Moved (w'.AskedFor a) s s' := by
    intro a s' hs'
    obtain ⟨hlt, _⟩ := List.getElem?_eq_some_iff.mp hs'
    rw [hw.reg.length] at hlt
    obtain ⟨t, ht, hm⟩ := hw.reg.heap a _ (List.getElem?_eq_getElem hlt)
    rw [hs'] at ht
    cases ht
    exact ⟨_, List.getElem?_eq_getElem hlt, hm⟩
  have htenants : ∀ k ∈ w.conns, ∃ s, w'.reg.heap[k.session]? = some s ∧
      HasPaths s k.clientId k.clean := by
    intro k hk
    obtain ⟨s, hs, hpaths⟩ := h.tenants k hk
    obtain ⟨s', hs', hm⟩ := hw.reg.heap _ s hs
    exact ⟨s', hs', hpaths.moved hm⟩
  constructor
  · exact hw.reg.queueDir.trans h.queueDir
  · rw [hw.conns]
    exact htenants
  · intro a s' hs'
    obtain ⟨s, hs, _⟩ := hback a s' hs'
    rw [hw.conns]
    exact h.made a s hs
  · intro c a ha
    obtain ⟨s, hs, hid⟩ := h.mapped c a (hw.reg.sessions c a ha)
    obtain ⟨s', hs', hm⟩ := hw.reg.heap a s hs
    exact ⟨s', hs', hm.clientId.trans hid⟩
  · intro c p hp hsome
    rw [HadPersistent, hw.conns]
    rcases hw.reg.files p hsome with hold | ⟨a, s', hs', hpath⟩
    · exact h.files c p hp hold
    · obtain ⟨s, hs, hm⟩ := hback a s' hs'
      obtain ⟨k, hk, hka⟩ := h.made a s hs
      obtain ⟨t, ht, hpaths⟩ := htenants k hk
      rw [hka, hs'] at ht
      cases ht
      exact .inr ⟨k, hk, hpaths.file hp hpath⟩
  · intro a s' f hs' hf
    obtain ⟨s, hs, hm⟩ := hback a s' hs'
    rcases hm.subs f hf with hf | hf
    · obtain ⟨i, k, hk, hka, hmem⟩ := h.subs a s f hs hf
      exact ⟨i, k, by rw [hw.conns]; exact hk, hka, hw.asked hmem⟩
    · exact hf

/-! ## Attach -/

section
variable [HashOrder]

theorem TenantInv.given (h : TenantInv d w) {c identity : Str} {clean : Bool} {sink : Sender}
    {kick : Notify} (hu : w.Unshared (.attach c identity clean sink kick)) :
    let att := w.reg.attach c identity clean sink kick
    ∃ s, att.registry.heap[att.outcome.session]? = some s ∧ HasPaths s c clean := by
  intro att
  have hgot : Got w.reg c clean att := attach_got (h.lives c) identity clean sink kick
  rcases hgot.session with ⟨rfl, ha, _⟩ | ⟨ha, ⟨s, hs⟩, _⟩
  · obtain ⟨s, hs, hid⟩ := h.mapped c _ ha
    obtain ⟨k, hk, hka⟩ := h.made _ s hs
    obtain ⟨t, ht, hpaths⟩ := h.tenants k hk
    rw [hka, hs] at ht
    cases ht
    obtain ⟨s', hs', hm⟩ := hgot.served.heap _ s hs
    rw [hu _ ha k hk hka, ← hpaths.clientId, hid] at hpaths
    exact ⟨s', hs', hpaths.moved hm⟩
  · refine ⟨s, ha ▸ hs.heap, hs.clientId, ?_, ?_⟩
    · rw [hs.queuePath, SessionRegistry.queuePath, if_pos h.queueDir]
    · rw [hs.subsPath, SessionRegistry.subsPath, if_pos h.queueDir]

theorem TenantInv.attach (h : TenantInv d w) {c identity : Str} {clean : Bool} {sink : Sender}
    {kick : Notify} (hu : w.Unshared (.attach c identity clean sink kick)) :
    TenantInv d { w with
      reg := (w.reg.attach c identity clean sink kick).registry
      conns := w.conns ++
        [⟨c, clean, (w.reg.attach c identity clean sink kick).outcome.session⟩] } := by
  obtain ⟨new, hnew, hpaths⟩ := h.given hu
  have hgot : Got w.reg c clean _ := attach_got (h.lives c) identity clean sink kick
  generalize w.reg.attach c identity clean sink kick = att at hgot hnew
  have htenants : ∀ k ∈ w.conns ++ [⟨c, clean, att.outcome.session⟩],
      ∃ s, att.registry.heap[k.session]? = some s ∧ HasPaths s k.clientId k.clean := by
    intro k hk
    rcases List.mem_append.mp hk with hk | hk
    · obtain ⟨s, hs, hp⟩ := h.tenants k hk
      obtain ⟨s', hs', hm⟩ := hgot.served.heap _ s hs
      exact ⟨s', hs', hp.moved hm⟩
    · rw [List.mem_singleton.mp hk]
      exact ⟨new, hnew, hpaths⟩
  have hmade : ∀ (a : Addr) s', att.registry.heap[a]? = some s' →
      ∃ k ∈ w.conns ++ [⟨c, clean, att.outcome.session⟩], k.session = a := by
    intro a s' hs'
    rcases hgot.cell hs' with ⟨s, hs, _⟩ | ⟨_, ha, _, _⟩
    · obtain ⟨k, hk, hka⟩ := h.made a s hs
      exact ⟨k, List.mem_append_left _ hk, hka⟩
    · exact ⟨_, List.mem_append_right _ (List.mem_singleton_self _), ha.symm⟩
  refine ⟨hgot.served.queueDir.trans h.queueDir, htenants, hmade, fun c' a ha => ?_,
    fun c' p hp hsome => ?_, fun a s' f hs' hf => ?_⟩
  · rcases hgot.sessions c' a ha with ha | ⟨rfl, rfl⟩
    · obtain ⟨s, hs, hid⟩ := h.mapped c' a ha
      obtain ⟨s', hs', hm⟩ := hgot.served.heap a s hs
      exact ⟨s', hs', hm.clientId.trans hid⟩
    · exact ⟨new, hnew, hpaths.clientId⟩
  · rcases hgot.served.files p hsome with hold | ⟨a, s', hs', hpath⟩
    · rcases h.files c' p hp hold with hold | ⟨k, hk, hof⟩
      · exact .inl hold
      · exact .inr ⟨k, List.mem_append_left _ hk, hof⟩
    · obtain ⟨k, hk, hka⟩ := hmade a s' hs'
      obtain ⟨t, ht, hp'⟩ := htenants k hk
      rw [hka, hs'] at ht
      cases ht
      exact .inr ⟨k, hk, hp'.file hp hpath⟩
  · rcases hgot.cell hs' with ⟨s, hs, hm⟩ | ⟨_, _, hnone, _⟩
    · rcases hm.subs f hf with hf | hf
      · obtain ⟨i, k, hk, hka, hmem⟩ := h.subs a s f hs hf
        exact ⟨i, k, Cells.append_of_some hk, hka, hmem⟩
      · exact hf.elim
    · rw [hnone] at hf
      cases hf

theorem TenantInv.step {scope : Str} {act : CallAction} (h : TenantInv d w) (hu : w.Unshared act)
    (hstep : w.step scope act = some w') : TenantInv d w' := by
  rcases step_cases hstep with ⟨c, identity, clean, sink, kick, rfl, rfl⟩ | hserves
  · exact h.attach hu
  · exact h.serves hserves

/-- What a persistent connection is given in a state that keeps the invariant. -/
theorem TenantInv.durable (h : TenantInv d w) {c identity : Str} {sink : Sender} {kick : Notify}
    (hu : w.Unshared (.attach c identity false sink kick)) :
    Durable d w c (w.reg.attach c identity false sink kick) := by
  obtain ⟨new, hnew, hpaths⟩ := h.given hu
  have hgot : Got w.reg c false _ := attach_got (h.lives c) identity false sink kick
  generalize w.reg.attach c identity false sink kick = att at hgot hnew
  -- whoever had the session before had it as a persistent connection of `c`
  have howners : ∀ k ∈ w.conns, k.session = att.outcome.session → k.clientId = c ∧
      k.clean = false := by
    intro k hk hka
    obtain ⟨s, hs, hp⟩ := h.tenants k hk
    obtain ⟨s', hs', hm⟩ := hgot.served.heap _ s hs
    rw [hka, hnew] at hs'
    cases hs'
    have hid : k.clientId = c := hp.clientId.symm.trans (hm.clientId.symm.trans hpaths.clientId)
    refine ⟨hid, ?_⟩
    cases hclean : k.clean with
    | false => rfl
    | true =>
        have hq := hm.queuePath.symm.trans hpaths.queuePath
        rw [hp.queuePath, hclean] at hq
        cases hq
  refine ⟨⟨new, hnew, hpaths.clientId, hpaths.queuePath, hpaths.subsPath⟩,
    fun hpresent => ?_, howners,
    fun s' f hs' hf => ?_⟩
  · rcases hgot.session with ⟨_, ha, _⟩ | ⟨_, _, hfiles⟩
    · obtain ⟨s, hs, _⟩ := h.mapped c _ ha
      obtain ⟨k, hk, hka⟩ := h.made _ s hs
      obtain ⟨hid, hclean⟩ := howners k hk hka
      exact .inl ⟨k, hk, hid, hclean, hka⟩
    · obtain ⟨_, hnone, hexists⟩ := hfiles hpresent
      have hfile : ∃ p, (p = queueFile c ∨ p = subsFile c) ∧ (w.reg.disk.lookup p).isSome := by
        simp only [SessionRegistry.queuePath, SessionRegistry.subsPath,
          if_pos h.queueDir] at hexists
        rcases hexists with hq | hp
        · exact ⟨_, .inl rfl, hq⟩
        · exact ⟨_, .inr rfl, hp⟩
      obtain ⟨p, hp, hsome⟩ := hfile
      exact .inr ⟨hnone, p, hp, hsome, h.files c p hp hsome⟩
  · rcases hgot.cell hs' with ⟨s, hs, hm⟩ | ⟨_, _, hnone, _⟩
    · exact h.subs _ s f hs ((hm.subs f hf).resolve_right id)
    · rw [hnone] at hf
      cases hf

theorem unshared_of_durable {c identity : Str} {sink : Sender} {kick : Notify}
    (h : Durable d w c (w.reg.attach c identity false sink kick)) :
    w.Unshared (.attach c identity false sink kick) := by
  intro a ha k hk hka
  have hsession : (w.reg.attach c identity false sink kick).outcome.session = a := by
    simp only [SessionRegistry.attach, SessionRegistry.attachLookup, ha]
  exact (h.owners k hk (hka.trans hsession.symm)).2

/-- **Persistent connections get persistent sessions** in a run exactly if none of
them finds the session of a cleanSession=1 connection registered. -/
theorem durable_iff (scope : Str) (maxQueue : Nat) (slowGrace : Option Duration) (d : Disk)
    (acts : List CallAction) :
    Run.Meets (step scope) (DurableAttach d) (init (.new maxQueue slowGrace true d)) acts ↔
      Run.Meets (step scope) Unshared (init (.new maxQueue slowGrace true d)) acts := by
  refine Run.meets_congr (fun w act hi => ?_)
    (fun _ _ _ hi hp hs => TenantInv.step hi hp hs) acts (.init maxQueue slowGrace d)
  cases act with
  | attach c identity clean sink kick =>
      cases clean with
      | false => exact ⟨unshared_of_durable, hi.durable⟩
      | true => exact Iff.rfl
  | detach _ _ _ _ | subscribe _ _ _ _ | unsubscribe _ _ | deliver _ _ _ _ _
  | sweep _ _ => exact Iff.rfl

end

/-- A persistent connection takes over a clean one: it resumes a session without
files, and the subscription the clean connection made. -/
theorem clean_session_is_resumed :
    ∃ w att s, Run.exec (@step .asStored []) (init (.new 10 (some 5) true ∅))
        [.attach "dev".toList [] true ⟨0⟩ ⟨0⟩, .subscribe 0 "kiln".toList .atLeastOnce true] =
          some w ∧
      @SessionRegistry.attach .asStored w.reg "dev".toList [] false ⟨1⟩ ⟨1⟩ = att ∧
      att.registry.heap[att.outcome.session]? = some s ∧ s.queuePath = none ∧ s.subsPath = none ∧
      att.outcome.sessionPresent = true ∧ (s.inner.subs.lookup "kiln".toList).isSome ∧
      ¬ @DurableAttach .asStored ∅ w (.attach "dev".toList [] false ⟨1⟩ ⟨1⟩) := by
  refine ⟨_, _, _, rfl, rfl, rfl, rfl, rfl, rfl, rfl, fun h => ?_⟩
  obtain ⟨s, hs, _, hq, _⟩ := Durable.paths h
  cases hs
  cases hq

end CallWorld

end Entmoot
