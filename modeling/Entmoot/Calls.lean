/-
# `Entmoot.Calls` — completed calls on a registry, and what each of them leaves

The operations of a `SessionRegistry` one after the other, with any arguments:
attaches, detaches of any session and epoch, deliveries whose send goes through,
times out or finds its channel closed, sweeps, and subscriptions made and removed.

Whatever a call does to a session is a `Moved` of it, and a move can be followed
by another (`Moved.trans`); files come into being only under the paths of some
session (`Served`).  `attach` is the one call that makes a session, in one of the
four ways of `Found`.
-/
import Entmoot.FileCodec
import Entmoot.Registry
import Entmoot.Lib.Cells
import Entmoot.Lib.Run

namespace Entmoot

/-! ## What a call does to a session -/

/-- From `s` to `s'`: `new` are the filters that may have been added. -/
structure Moved (new : Str → Prop) (s s' : SessionState) : Prop where
  clientId : s'.clientId = s.clientId
  queuePath : s'.queuePath = s.queuePath
  subsPath : s'.subsPath = s.subsPath
  subs : ∀ f, (s'.inner.subs.lookup f).isSome → (s.inner.subs.lookup f).isSome ∨ new f
  /-- connected or not as before, or connected, or with the time it went offline -/
  presence : s'.inner.sink = s.inner.sink ∧ s'.inner.offlineSince = s.inner.offlineSince ∨
    s'.inner.sink.isSome ∨ s'.inner.offlineSince.isSome

namespace Moved

variable {new : Str → Prop} {s s' s'' : SessionState}

theorem refl (new : Str → Prop) (s : SessionState) : Moved new s s :=
  ⟨rfl, rfl, rfl, fun _ h => .inl h, .inl ⟨rfl, rfl⟩⟩

theorem trans (h : Moved new s s') (h' : Moved new s' s'') : Moved new s s'' where
  clientId := h'.clientId.trans h.clientId
  queuePath := h'.queuePath.trans h.queuePath
  subsPath := h'.subsPath.trans h.subsPath
  subs := by
    intro f hf
    rcases h'.subs f hf with hf | hf
    · exact h.subs f hf
    · exact .inr hf
  presence := by
    rcases h'.presence with ⟨hsink, hoff⟩ | hset
    · rw [hsink, hoff]
      exact h.presence
    · exact .inr hset

theorem of_noted (h : s.Noted s') : Moved new s s' := by
  cases h with
  | pkid n => exact ⟨rfl, rfl, rfl, fun _ h => .inl h, .inl ⟨rfl, rfl⟩⟩
  | offline kick reason now => exact ⟨rfl, rfl, rfl, fun _ h => .inl h, .inr (.inr rfl)⟩

theorem abortSubs (s : SessionState) : Moved new s s.abortSubs.1 :=
  ⟨rfl, rfl, rfl, fun _ h => Bool.noConfusion h, .inl ⟨rfl, rfl⟩⟩

theorem kickCurrent (s : SessionState) : Moved new s s.kickCurrent.1 := by
  rw [SessionState.kickCurrent]
  split
  · exact ⟨rfl, rfl, rfl, fun _ h => .inl h, .inl ⟨rfl, rfl⟩⟩
  · exact .refl new s

theorem deliverOffline (s : SessionState) (d : Disk) (m : Msg) (q : QoS) :
    Moved new s (s.deliverOffline d m q).session := by
  rw [SessionState.deliverOffline]
  split
  · exact .refl new s
  · exact ⟨rfl, rfl, rfl, fun _ h => .inl h, .inl ⟨rfl, rfl⟩⟩

theorem deliver (s : SessionState) (d : Disk) (m : Msg) (q : QoS) (r : SessionState.SendResult)
    (now : Instant) : Moved new s (s.deliver d m q r now).session := by
  rw [SessionState.deliver]
  cases s.inner.sink with
  | none => exact .deliverOffline s d m q
  | some tx =>
      have hpub : Moved new s (s.publishFor m q).1 := .of_noted (s.noted_publishFor m q)
      cases r with
      | ok => exact hpub
      | closed =>
          have hclear := hpub.trans (.of_noted (SessionState.noted_clearSink _ tx now))
          exact hclear.trans (.deliverOffline _ d m q)
      | timeout =>
          have hevict := hpub.trans (.of_noted (SessionState.noted_evictSlow _ tx now))
          have hclear := hevict.trans (.of_noted (SessionState.noted_clearSink _ tx now))
          exact hclear.trans (.deliverOffline _ d m q)

variable [HashOrder]

theorem setIdentity (s : SessionState) (d : Disk) (identity : Str) :
    Moved new s (s.setIdentity d identity).1 := by
  rw [SessionState.setIdentity]
  split
  · exact ⟨rfl, rfl, rfl, fun _ h => .inl h, .inl ⟨rfl, rfl⟩⟩
  · exact .refl new s

theorem attachConn (s : SessionState) (d : Disk) (identity : Str) (sink : Sender) (kick : Notify) :
    Moved new s (s.attachConn d identity sink kick).session := by
  have hset : Moved new (s.installConn sink kick)
      ((s.installConn sink kick).setIdentity d identity).1 :=
    .setIdentity _ d identity
  have hinner := s.attachConn_inner d identity sink kick
  refine ⟨hset.clientId, hset.queuePath, hset.subsPath, fun f hf => .inl ?_, .inr (.inl ?_)⟩
  · rwa [SessionState.attachConn_subs] at hf
  · rw [hinner]
    rfl

theorem insertSub (s : SessionState) (d : Disk) (f : Str) (q : QoS) (t : Task) (hnew : new f) :
    Moved new s (s.insertSub d f q t).1 := by
  refine ⟨rfl, rfl, rfl, fun g hg => ?_, .inl ⟨rfl, rfl⟩⟩
  change ((s.inner.subs.insert f ⟨q, t⟩).lookup g).isSome at hg
  rw [Keyed.lookup_insert] at hg
  split at hg
  · next heq =>
    rw [heq]
    exact .inr hnew
  · exact .inl hg

theorem removeSub (s : SessionState) (d : Disk) (f : Str) : Moved new s (s.removeSub d f).1 := by
  refine ⟨rfl, rfl, rfl, fun g hg => ?_, .inl ⟨rfl, rfl⟩⟩
  change ((s.inner.subs.erase f).lookup g).isSome at hg
  rw [Keyed.lookup_erase] at hg
  split at hg
  · cases hg
  · exact .inl hg

end Moved

/-! ## What a call does to the files -/

/-- A file is there that was not only under a path of `s`. -/
def Wrote (s : SessionState) (d d' : Disk) : Prop :=
  ∀ p, (d'.lookup p).isSome → (d.lookup p).isSome ∨ s.queuePath = some p ∨ s.subsPath = some p

namespace Wrote

variable {s : SessionState} {d d' d'' : Disk}

theorem refl (s : SessionState) (d : Disk) : Wrote s d d := fun _ h => .inl h

theorem trans (h : Wrote s d d') (h' : Wrote s d' d'') : Wrote s d d'' := by
  intro p hp
  rcases h' p hp with hp | hp
  · exact h p hp
  · exact .inr hp

theorem remove (s : SessionState) (d : Disk) (p : Path) : Wrote s d (d.remove p) := by
  intro p' hp'
  rw [Disk.remove, Keyed.lookup_erase] at hp'
  split at hp'
  · cases hp'
  · exact .inl hp'

theorem rename (d : Disk) (tmp : Path) (b : Bytes) {p : Path}
    (hp : s.queuePath = some p ∨ s.subsPath = some p) :
      Wrote s d ((d.write tmp b).rename tmp p) := by
  intro p' hp'
  rw [lookup_rename] at hp'
  split at hp'
  · next heq =>
    rw [heq]
    exact .inr hp
  · split at hp'
    · cases hp'
    · exact .inl hp'

theorem persistQueue (s : SessionState) (d : Disk) : Wrote s d (s.persistQueue d) := by
  rw [SessionState.persistQueue]
  split
  · exact .refl s d
  · next path hpath =>
    simp only [saveQueue, bind, Except.bind, pure, Except.pure]
    cases writeQueue queueMagic s.inner.queue with
    | error e => exact .refl s d
    | ok out => exact .rename d _ out (.inl hpath)

theorem persistSubs [HashOrder] (s : SessionState) (d : Disk) : Wrote s d (s.persistSubs d) := by
  rw [SessionState.persistSubs]
  split
  · exact .refl s d
  · next path hpath =>
    dsimp only
    split
    · next d' hsave =>
      rw [saveSubs] at hsave
      split at hsave
      · cases hsave
        exact .remove s d path
      · obtain ⟨_, _, hsave⟩ := bind_eq_ok.mp hsave
        obtain ⟨_, _, hsave⟩ := bind_eq_ok.mp hsave
        obtain ⟨out, _, hsave⟩ := bind_eq_ok.mp hsave
        cases hsave
        exact .rename d _ out (.inr hpath)
    · exact .refl s d

theorem discardQueueFile (s t : SessionState) (d : Disk) : Wrote s d (t.discardQueueFile d) := by
  rw [SessionState.discardQueueFile]
  split
  · exact .remove s d _
  · exact .refl s d

theorem discardStateFiles (s t : SessionState) (d : Disk) : Wrote s d (t.discardStateFiles d) := by
  refine (discardQueueFile s t d).trans ?_
  rw [SessionState.discardStateFiles, SessionState.discardSubsFile]
  split
  · exact .remove s _ _
  · exact .refl s _

/-- A session with the same paths. -/
theorem congr {new : Str → Prop} {t : SessionState} (h : Wrote t d d') (hm : Moved new s t) :
    Wrote s d d' := by
  intro p hp
  rw [← hm.queuePath, ← hm.subsPath]
  exact h p hp

theorem attachConn [HashOrder] (s : SessionState) (d : Disk) (identity : Str) (sink : Sender)
    (kick : Notify) : Wrote s d (s.attachConn d identity sink kick).disk := by
  refine trans ?_ (discardQueueFile s _ _)
  show Wrote s d ((s.installConn sink kick).setIdentity d identity).2
  rw [SessionState.setIdentity]
  split
  · dsimp only
    split
    · intro p hp
      exact persistSubs { s.installConn sink kick with
        inner := { (s.installConn sink kick).inner with identity := identity } } d p hp
    · exact .refl s d
  · exact .refl s d

theorem deliverOffline (s : SessionState) (d : Disk) (m : Msg) (q : QoS) :
    Wrote s d (s.deliverOffline d m q).disk := by
  rw [SessionState.deliverOffline]
  split
  · exact .refl s d
  · exact fun p hp => persistQueue (s.pushQueue m) d p hp

theorem deliver (s : SessionState) (d : Disk) (m : Msg) (q : QoS) (r : SessionState.SendResult)
    (now : Instant) : Wrote s d (s.deliver d m q r now).disk := by
  rw [SessionState.deliver]
  cases s.inner.sink with
  | none => exact .deliverOffline s d m q
  | some tx =>
      have hpub : Moved (fun _ => False) s (s.publishFor m q).1 :=
        .of_noted (s.noted_publishFor m q)
      cases r with
      | ok => exact .refl s d
      | closed =>
          have hclear := hpub.trans (.of_noted (SessionState.noted_clearSink _ tx now))
          exact (deliverOffline _ d m q).congr hclear
      | timeout =>
          have hevict := hpub.trans (.of_noted (SessionState.noted_evictSlow _ tx now))
          have hclear := hevict.trans (.of_noted (SessionState.noted_clearSink _ tx now))
          exact (deliverOffline _ d m q).congr hclear

end Wrote

/-! ## What a call does to the registry -/

/-- From `r` to `r'`: `new a` are the filters the session at `a` may have got. -/
structure Served (new : Addr → Str → Prop) (r r' : SessionRegistry) : Prop where
  queueDir : r'.queueDir = r.queueDir
  heap : ∀ (a : Addr) s, r.heap[a]? = some s → ∃ s', r'.heap[a]? = some s' ∧ Moved (new a) s s'
  files : ∀ p, (r'.disk.lookup p).isSome → (r.disk.lookup p).isSome ∨
    ∃ (a : Addr) (s : SessionState), r'.heap[a]? = some s ∧
      (s.queuePath = some p ∨ s.subsPath = some p)

/-- A call that makes no session and enters none in the map. -/
structure Tended (new : Addr → Str → Prop) (r r' : SessionRegistry) : Prop
    extends Served new r r' where
  length : r'.heap.length = r.heap.length
  sessions : ∀ c a, r'.sessions.lookup c = some a → r.sessions.lookup c = some a

section
variable {new : Addr → Str → Prop} {r r' r'' : SessionRegistry} {a : Addr} {s s' : SessionState}

theorem Served.trans (h : Served new r r') (h' : Served new r' r'') : Served new r r'' where
  queueDir := h'.queueDir.trans h.queueDir
  heap := by
    intro b t ht
    obtain ⟨t', ht', hm⟩ := h.heap b t ht
    obtain ⟨t'', ht'', hm'⟩ := h'.heap b t' ht'
    exact ⟨t'', ht'', hm.trans hm'⟩
  files := by
    intro p hp
    rcases h'.files p hp with hp | hp
    · rcases h.files p hp with hp | ⟨b, t, ht, hpath⟩
      · exact .inl hp
      · obtain ⟨t', ht', hm⟩ := h'.heap b t ht
        refine .inr ⟨b, t', ht', ?_⟩
        rwa [hm.queuePath, hm.subsPath]
    · exact .inr hp

theorem Tended.refl (new : Addr → Str → Prop) (r : SessionRegistry) : Tended new r r where
  queueDir := rfl
  heap := fun _ s hs => ⟨s, hs, .refl _ s⟩
  files := fun _ hp => .inl hp
  length := rfl
  sessions := fun _ _ h => h

theorem Tended.trans (h : Tended new r r') (h' : Tended new r' r'') : Tended new r r'' where
  toServed := h.toServed.trans h'.toServed
  length := h'.length.trans h.length
  sessions := fun c b hb => h.sessions c b (h'.sessions c b hb)

/-- One session written. -/
theorem Tended.set (hs : r.heap[a]? = some s) (hm : Moved (new a) s s')
    (hheap : r'.heap = r.heap.set a s') (hw : Wrote s r.disk r'.disk)
    (hdir : r'.queueDir = r.queueDir)
    (hsess : ∀ c b, r'.sessions.lookup c = some b → r.sessions.lookup c = some b) :
    Tended new r r' where
  queueDir := hdir
  heap := by
    intro b t ht
    rw [hheap]
    by_cases hab : a = b
    · subst hab
      rw [hs] at ht
      cases ht
      exact ⟨s', Cells.set_self hs, hm⟩
    · rw [List.getElem?_set_ne hab]
      exact ⟨t, ht, .refl _ t⟩
  files := by
    intro p hp
    refine (hw p hp).imp_right fun hpath => ⟨a, s', ?_, ?_⟩
    · rw [hheap]
      exact Cells.set_self hs
    · rwa [hm.queuePath, hm.subsPath]
  length := by
    rw [hheap]
    exact List.length_set
  sessions := hsess

/-- Entries dropped from the map. -/
theorem Tended.unmap (m : AList fun _ : Str => Addr)
    (hsess : ∀ c b, m.lookup c = some b → r.sessions.lookup c = some b) :
    Tended new r { r with sessions := m } :=
  { Tended.refl new r with sessions := hsess }

theorem Tended.deliver (r : SessionRegistry) (a : Addr) (m : Msg) (q : QoS)
    (send : SessionState.SendResult) (now : Instant) : Tended new r (r.deliver a m q send now) := by
  rw [SessionRegistry.deliver]
  split
  · exact .refl new r
  · next s hs =>
    exact .set hs (.deliver s r.disk m q send now) rfl (.deliver s r.disk m q send now) rfl
      fun _ _ h => h

theorem Tended.discardAt (r : SessionRegistry) (a : Addr) : Tended new r (r.discardAt a) := by
  rw [SessionRegistry.discardAt]
  split
  · exact .refl new r
  · next s hs => exact .set hs (.abortSubs s) rfl (.discardStateFiles s _ r.disk) rfl fun _ _ h => h

theorem Tended.removeOwn (r : SessionRegistry) (a : Addr) : Tended new r (r.removeOwn a) := by
  rw [SessionRegistry.removeOwn]
  split
  · exact .refl new r
  · split
    · refine .unmap _ fun c b hb => ?_
      rw [Keyed.lookup_erase] at hb
      split at hb
      · cases hb
      · exact hb
    · exact .refl new r

theorem Tended.detach (r : SessionRegistry) (a : Addr) (epoch : Nat) (clean : Bool)
    (now : Instant) :
    Tended new r (r.detach a epoch clean now) := by
  rw [SessionRegistry.detach]
  split
  · exact .refl new r
  · next s hs =>
    have hset : Tended new r (r.setSession a (s.detachConn epoch now).1) :=
      .set hs (.of_noted (s.noted_detachConn epoch now)) rfl (.refl s r.disk) rfl fun _ _ h => h
    dsimp only
    split
    · exact (hset.trans (.discardAt _ a)).trans (.removeOwn _ a)
    · exact hset

theorem Tended.discardAll : ∀ (gone : List (Str × Addr)) (r : SessionRegistry),
    Tended new r (gone.foldl (fun r e => r.discardAt e.2) r) := by
  intro gone
  induction gone with
  | nil => exact Tended.refl new
  | cons e gone ih => exact fun r => (Tended.discardAt r e.2).trans (ih _)

theorem Tended.sweep (r : SessionRegistry) (expiry : Duration) (now : Instant) :
    Tended new r (r.sweep expiry now) := by
  refine (Tended.unmap _ fun c b hb => ?_).trans (.discardAll _ _)
  rw [Keyed.lookup_retain] at hb
  exact (Option.filter_eq_some_iff.mp hb).1

section
variable [HashOrder]

theorem Tended.activate {declare : Str → Bool} {scope filter : Str} {q : QoS} (hnew : new a filter)
    (h : r.activateSubscription declare scope a filter q = .ok r') : Tended new r r' := by
  rw [SessionRegistry.activateSubscription] at h
  split at h
  · cases h
  · split at h
    · split at h
      · cases h
        exact .refl new r
      · next s hs =>
        cases h
        exact .set hs (.insertSub s r.disk filter q r.tasks hnew) rfl (.persistSubs _ r.disk) rfl
          fun _ _ h => h
    · cases h

theorem Tended.removeSub (r : SessionRegistry) (a : Addr) (filter : Str) :
    Tended new r (r.removeSub a filter) := by
  rw [SessionRegistry.removeSub]
  split
  · exact .refl new r
  · next s hs =>
    exact .set hs (.removeSub s r.disk filter) rfl (.persistSubs _ r.disk) rfl fun _ _ h => h

theorem Tended.attachConnAt (r : SessionRegistry) (a : Addr) (identity : Str) (sink : Sender)
    (kick : Notify) : Tended new r (r.attachConnAt a identity sink kick).1 := by
  rw [SessionRegistry.attachConnAt]
  split
  · exact .refl new r
  · next s hs =>
    exact .set hs (.attachConn s r.disk identity sink kick) rfl
      (.attachConn s r.disk identity sink kick) rfl fun _ _ h => h

end

/-! ## Attach -/

open SessionRegistry (Lookup Attached)

/-- What `attach` does under the registry lock: it resumes the registered session,
replaces it, or enters a new one, for a clean connection or for another. -/
inductive Found (r : SessionRegistry) (c : Str) : Bool → Lookup → Prop
  | resumed {a : Addr} (ha : r.sessions.lookup c = some a) :
      Found r c false
        { registry := { r with sessions := r.sessions.insert c a }
          session := a, sessionPresent := true, notified := none }
  | replaced {a : Addr} {s : SessionState} {n : SessionRegistry × Addr}
      (ha : r.sessions.lookup c = some a) (hs : r.heap[a]? = some s)
      (hn : n = ((r.setSession a s.kickCurrent.1.abortSubs.1).removeState c).addSession
        c none none) :
      Found r c true
        { registry := n.1, session := n.2, sessionPresent := false, notified := s.kickCurrent.2 }
  | cleared {n : SessionRegistry × Addr} (ha : r.sessions.lookup c = none)
      (hn : n = (r.removeState c).addSession c none none) :
      Found r c true { registry := n.1, session := n.2, sessionPresent := false, notified := none }
  | opened {n : SessionRegistry × Addr} (ha : r.sessions.lookup c = none)
      (hn : n = r.addSession c (r.queuePath c) (r.subsPath c)) :
      Found r c false
        { registry := n.1, session := n.2
          sessionPresent := r.pathExists (r.queuePath c) || r.pathExists (r.subsPath c)
          notified := none }

/-- The registered session is one there is. -/
def Lives (r : SessionRegistry) (c : Str) : Prop :=
  ∀ a, r.sessions.lookup c = some a → ∃ s, r.heap[a]? = some s

theorem attachLookup_found {c : Str} (clean : Bool) (h : Lives r c) :
    Found r c clean (r.attachLookup c clean) := by
  cases ha : r.sessions.lookup c with
  | none =>
      cases clean with
      | false =>
          simp only [SessionRegistry.attachLookup, ha]
          exact .opened ha rfl
      | true =>
          simp only [SessionRegistry.attachLookup, ha]
          exact .cleared ha rfl
  | some a =>
      cases clean with
      | false =>
          simp only [SessionRegistry.attachLookup, ha]
          exact .resumed ha
      | true =>
          obtain ⟨s, hs⟩ := h a ha
          simp only [SessionRegistry.attachLookup, ha, hs]
          exact .replaced ha hs rfl

theorem Tended.removeState (r : SessionRegistry) (c : Str) : Tended new r (r.removeState c) where
  queueDir := rfl
  heap := fun _ s hs => ⟨s, hs, .refl _ s⟩
  files := by
    have hremove : ∀ (d : Disk) (q p : Path), ((d.remove q).lookup p).isSome →
        (d.lookup p).isSome := by
      intro d q p hp
      rw [Disk.remove, Keyed.lookup_erase] at hp
      split at hp
      · cases hp
      · exact hp
    intro p hp
    refine .inl ?_
    rw [SessionRegistry.removeState] at hp
    cases hq : r.queuePath c with
    | none =>
        cases hs : r.subsPath c with
        | none =>
            simp only [hq, hs] at hp
            exact hp
        | some q =>
            simp only [hq, hs] at hp
            exact hremove _ q p hp
    | some q =>
        cases hs : r.subsPath c with
        | none =>
            simp only [hq, hs] at hp
            exact hremove _ q p hp
        | some q' =>
            simp only [hq, hs] at hp
            exact hremove _ q p (hremove _ q' p hp)
  length := rfl
  sessions := fun _ _ h => h

/-- A session entered: what was there before is as it was. -/
theorem Served.addSession (r : SessionRegistry) (c : Str) (queuePath subsPath : Option Path) :
    Served new r (r.addSession c queuePath subsPath).1 where
  queueDir := rfl
  heap := fun _ s hs => ⟨s, Cells.append_of_some hs, .refl _ s⟩
  files := fun _ hp => .inl hp

/-- A new session, with the paths of its kind of connection. -/
structure Opened (r r' : SessionRegistry) (c : Str) (clean : Bool) (s : SessionState) : Prop where
  length : r'.heap.length = r.heap.length + 1
  heap : r'.heap[r.heap.length]? = some s
  clientId : s.clientId = c
  queuePath : s.queuePath = if clean then none else r.queuePath c
  subsPath : s.subsPath = if clean then none else r.subsPath c
  subs : s.inner.subs = ∅
  sink : s.inner.sink.isSome

/-- What an attach returns: the registered session, or one that is new. -/
structure Got (r : SessionRegistry) (c : Str) (clean : Bool) (att : Attached) : Prop where
  served : Served (fun _ _ => False) r att.registry
  sessions : ∀ c' b, att.registry.sessions.lookup c' = some b →
    r.sessions.lookup c' = some b ∨ c' = c ∧ b = att.outcome.session
  session : clean = false ∧ r.sessions.lookup c = some att.outcome.session ∧
      att.registry.heap.length = r.heap.length ∨
    att.outcome.session = r.heap.length ∧ (∃ s, Opened r att.registry c clean s) ∧
      (att.outcome.sessionPresent → clean = false ∧ r.sessions.lookup c = none ∧
        (r.pathExists (r.queuePath c) ∨ r.pathExists (r.subsPath c)))

/-- The cells of the heap after an attach: the old ones, and at most the new session. -/
theorem Got.cell {c : Str} {clean : Bool} {att : Attached} (h : Got r c clean att)
    (hs' : att.registry.heap[a]? = some s') :
    (∃ s, r.heap[a]? = some s ∧ Moved (fun _ => False) s s') ∨
      r.heap[a]? = none ∧ a = att.outcome.session ∧ s'.inner.subs = ∅ ∧ s'.inner.sink.isSome := by
  cases hs : r.heap[a]? with
  | some s =>
      obtain ⟨t, ht, hm⟩ := h.served.heap a s hs
      rw [hs'] at ht
      cases ht
      exact .inl ⟨s, rfl, hm⟩
  | none =>
      obtain ⟨hlt, _⟩ := List.getElem?_eq_some_iff.mp hs'
      have hle : r.heap.length ≤ a := List.getElem?_eq_none_iff.mp hs
      rcases h.session with ⟨_, _, hlen⟩ | ⟨hsession, ⟨s, hopen⟩, _⟩
      · rw [hlen] at hlt
        exact absurd hlt (Nat.not_lt.mpr hle)
      · have ha : a = r.heap.length := by
          rw [hopen.length] at hlt
          exact Nat.le_antisymm (Nat.le_of_lt_succ hlt) hle
        have hcell := hopen.heap
        rw [← ha, hs'] at hcell
        cases hcell
        exact .inr ⟨rfl, ha.trans hsession.symm, hopen.subs, hopen.sink⟩

variable [HashOrder]

theorem attachConnAt_heap (hs : r.heap[a]? = some s) (identity : Str) (sink : Sender)
    (kick : Notify) :
    (r.attachConnAt a identity sink kick).1.heap[a]? =
      some (s.attachConn r.disk identity sink kick).session := by
  simp only [SessionRegistry.attachConnAt, hs]
  exact Cells.set_self hs

/-- The session entered for an attach, with its connection installed. -/
theorem opened_of_addSession {r₁ : SessionRegistry} {c : Str} {clean : Bool}
    {queuePath subsPath : Option Path} (hlen : r₁.heap.length = r.heap.length)
    (hq : queuePath = if clean then none else r.queuePath c)
    (hp : subsPath = if clean then none else r.subsPath c) (identity : Str) (sink : Sender)
    (kick : Notify) :
    ∃ s, Opened r
      ((r₁.addSession c queuePath subsPath).1.attachConnAt r₁.heap.length identity sink kick).1
        c clean s := by
  have hs : (r₁.addSession c queuePath subsPath).1.heap[r₁.heap.length]? =
      some (.new r₁.disk c r₁.maxQueue r₁.slowGrace queuePath subsPath) :=
    List.getElem?_concat_length
  have hcell := attachConnAt_heap hs identity sink kick
  have htended : Tended (fun _ _ => False) (r₁.addSession c queuePath subsPath).1 _ :=
    .attachConnAt _ r₁.heap.length identity sink kick
  obtain ⟨s', hs', hm⟩ := htended.heap _ _ hs
  rw [hcell] at hs'
  refine ⟨s', ?_, ?_, hm.clientId, hm.queuePath.trans hq, hm.subsPath.trans hp, ?_, ?_⟩
  · rw [htended.length, ← hlen]
    exact List.length_append
  · rw [← hlen, hcell, hs']
  · cases hs'
    exact SessionState.attachConn_subs ..
  · cases hs'
    rw [SessionState.attachConn_inner]
    rfl

/-- **Attach**: everything but the session it returns is served as by any call. -/
theorem attach_got {c : Str} (h : Lives r c) (identity : Str) (clean : Bool) (sink : Sender)
    (kick : Notify) : Got r c clean (r.attach c identity clean sink kick) := by
  have hconn : ∀ (r₁ : SessionRegistry) (b : Addr),
      Tended (fun _ _ => False) r₁ (r₁.attachConnAt b identity sink kick).1 :=
    fun r₁ b => .attachConnAt r₁ b identity sink kick
  have hinsert : ∀ (m : AList fun _ : Str => Addr) (b c' : _) (b' : Addr),
      (m.insert c b).lookup c' = some b' → m.lookup c' = some b' ∨ c' = c ∧ b' = b := by
    intro m b c' b' hb'
    rw [Keyed.lookup_insert] at hb'
    split at hb'
    · next hc =>
      cases hb'
      exact .inr ⟨hc, rfl⟩
    · exact .inl hb'
  -- a session entered in `r₁`, which is `r` but for the old session and the files
  have hnew : ∀ (r₁ : SessionRegistry) (q p : Option Path) (present : Bool) (n : Option Notify),
      Tended (fun _ _ => False) r r₁ → (q = if clean then none else r.queuePath c) →
      (p = if clean then none else r.subsPath c) →
      (present → clean = false ∧ r.sessions.lookup c = none ∧
        (r.pathExists (r.queuePath c) ∨ r.pathExists (r.subsPath c))) →
      r.attachLookup c clean = ⟨(r₁.addSession c q p).1, (r₁.addSession c q p).2, present, n⟩ →
      Got r c clean (r.attach c identity clean sink kick) := by
    intro r₁ q p present n ht hq hp hpresent hl
    rw [SessionRegistry.attach, hl]
    refine ⟨(ht.toServed.trans (.addSession r₁ c q p)).trans (hconn _ _).toServed,
      fun c' b hb => ?_,
      .inr ⟨ht.length, opened_of_addSession ht.length hq hp identity sink kick, hpresent⟩⟩
    rcases hinsert _ _ _ _ ((hconn _ _).sessions c' b hb) with hb | hb
    · exact .inl (ht.sessions c' b hb)
    · exact .inr hb
  have hfound := attachLookup_found clean h
  generalize hl : r.attachLookup c clean = l at hfound
  cases hfound with
  | resumed ha =>
      rename_i b
      rw [SessionRegistry.attach, hl]
      have hr : Served (fun _ _ => False) r { r with sessions := r.sessions.insert c b } :=
        { (Tended.refl _ r).toServed with }
      refine ⟨hr.trans (hconn _ _).toServed, fun c' b' hb' =>
        ?_, .inl ⟨rfl, ha, (hconn _ _).length⟩⟩
      exact hinsert _ _ _ _ ((hconn _ _).sessions c' b' hb')
  | replaced ha hs hn =>
      rename_i b s n
      subst hn
      have hset : Tended (fun _ _ => False) r (r.setSession b s.kickCurrent.1.abortSubs.1) :=
        .set hs ((Moved.kickCurrent s).trans (.abortSubs _)) rfl (.refl s r.disk) rfl fun _ _ h => h
      exact hnew _ none none false _ (hset.trans (.removeState _ c)) rfl rfl (fun h => nomatch h) hl
  | cleared ha hn =>
      subst hn
      exact hnew _ none none false _ (.removeState r c) rfl rfl (fun h => nomatch h) hl
  | opened ha hn =>
      subst hn
      exact hnew r _ _ _ _ (.refl _ r) rfl rfl
        (fun h => ⟨rfl, ha, Bool.or_eq_true_iff.mp h⟩) hl

end

/-! ## Runs of calls -/

/-- A connection: who attached, how, and the session it was given. -/
structure Tenant where
  clientId : Str
  clean : Bool
  session : Addr
  deriving DecidableEq, Repr

structure CallWorld where
  reg : SessionRegistry
  /-- the connections, in the order of their attaches -/
  conns : List Tenant
  /-- the subscriptions made so far: which connection, which filter -/
  asked : List (Nat × Str)

inductive CallAction where
  | attach (clientId identity : Str) (clean : Bool) (sink : Sender) (kick : Notify)
  | detach (session : Addr) (epoch : Nat) (clean : Bool) (now : Instant)
  /-- connection `i` subscribes; the bus accepts the subscriber or not -/
  | subscribe (i : Nat) (filter : Str) (granted : QoS) (declared : Bool)
  | unsubscribe (i : Nat) (filter : Str)
  | deliver (session : Addr) (m : Msg) (qos : QoS) (send : SessionState.SendResult) (now : Instant)
  | sweep (expiry : Duration) (now : Instant)

namespace CallWorld

def init (reg : SessionRegistry) : CallWorld := ⟨reg, [], []⟩

variable [HashOrder]

/-- One completed call; a subscription that is refused leaves everything as it was. -/
def step (scope : Str) (w : CallWorld) : CallAction → Option CallWorld
  | .attach clientId identity clean sink kick =>
      let att := w.reg.attach clientId identity clean sink kick
      some { w with
        reg := att.registry, conns := w.conns ++ [⟨clientId, clean, att.outcome.session⟩] }
  | .detach session epoch clean now => some { w with reg := w.reg.detach session epoch clean now }
  | .subscribe i filter granted declared =>
      w.conns[i]?.map fun k =>
        match w.reg.activateSubscription (fun _ => declared) scope k.session filter granted with
        | .ok reg => { w with reg := reg, asked := w.asked ++ [(i, filter)] }
        | .error _ => w
  | .unsubscribe i filter => w.conns[i]?.map fun k =>
      { w with reg := w.reg.removeSub k.session filter }
  | .deliver session m qos send now => some { w with reg := w.reg.deliver session m qos send now }
  | .sweep expiry now => some { w with reg := w.reg.sweep expiry now }

/-- A connection given the session at `a` asked for the filter. -/
def AskedFor (w : CallWorld) (a : Addr) (filter : Str) : Prop :=
  ∃ i k, w.conns[i]? = some k ∧ k.session = a ∧ (i, filter) ∈ w.asked

/-- A call that is not an attach. -/
structure Serves (w w' : CallWorld) : Prop where
  reg : Tended w'.AskedFor w.reg w'.reg
  conns : w'.conns = w.conns
  asked : w.asked ⊆ w'.asked

/-- **What a call can do**: attach, or serve the sessions there are. -/
theorem step_cases {scope : Str} {w w' : CallWorld} {act : CallAction}
    (h : w.step scope act = some w') :
    (∃ c identity clean sink kick, act = .attach c identity clean sink kick ∧
      w' = { w with
        reg := (w.reg.attach c identity clean sink kick).registry
        conns := w.conns ++
          [⟨c, clean, (w.reg.attach c identity clean sink kick).outcome.session⟩] }) ∨
    Serves w w' := by
  cases act with
  | attach c identity clean sink kick =>
      cases h
      exact .inl ⟨c, identity, clean, sink, kick, rfl, rfl⟩
  | detach a epoch clean now =>
      cases h
      exact .inr ⟨.detach w.reg a epoch clean now, rfl, fun _ h => h⟩
  | subscribe i filter granted declared =>
      obtain ⟨k, hk, hstep⟩ := Option.map_eq_some_iff.mp h
      refine .inr ?_
      split at hstep
      · next reg hreg =>
        cases hstep
        refine ⟨.activate ⟨i, k, hk, rfl, ?_⟩ hreg, rfl, List.subset_append_left _ _⟩
        exact List.mem_append_right _ (List.mem_singleton_self _)
      · cases hstep
        exact ⟨.refl _ w.reg, rfl, fun _ h => h⟩
  | unsubscribe i filter =>
      obtain ⟨k, hk, rfl⟩ := Option.map_eq_some_iff.mp h
      exact .inr ⟨.removeSub w.reg k.session filter, rfl, fun _ h => h⟩
  | deliver a m qos send now =>
      cases h
      exact .inr ⟨.deliver w.reg a m qos send now, rfl, fun _ h => h⟩
  | sweep expiry now =>
      cases h
      exact .inr ⟨.sweep w.reg expiry now, rfl, fun _ h => h⟩

end CallWorld

end Entmoot
