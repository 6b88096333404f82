/-
# `Entmoot.Forwarders` — the forwarding tasks of a node

Every subscription of a session has a task that forwards into it, spawned by
`activate_subscription` and aborted by `insert_sub`, `remove_sub` and `abort_subs`
(`crates/entmoot-node/src/session.rs`).  The handle is in the entry of its filter and
nowhere else, so a task whose entry is overwritten or dropped without an abort would run
for ever, and a second one for a filter would deliver everything twice.

The registry's operations are run here in any order and on any sessions, also on those
that are not registered any more, together with the tasks they spawn and abort.  The
running tasks are those in the entries, one each (`forwarders_accounted`), and all of
them are of registered sessions unless somebody subscribed on a session that had left the
registry (`no_forwarder_leaks`); such a task does outlive its client.
-/
import Entmoot.Registry
import Entmoot.Lib.Roster
import Entmoot.Lib.Cells
import Entmoot.Lib.Run

namespace Entmoot

open Roster (Manned leave mem_leave)

namespace SessionRegistry

/-! ## Tasks and the operations that abort them -/

/-- The task of a filter in the session at an address. -/
def seat (r : SessionRegistry) (p : Addr × Str) : Option Task :=
  (r.heap[p.1]?).bind fun s => (s.inner.subs.lookup p.2).map SubEntry.task

/-- Those that `abort_subs` aborts there. -/
def tasksAt (r : SessionRegistry) (a : Addr) : List Task :=
  match r.heap[a]? with
  | some s => s.abortSubs.2
  | none => []

/-- Those that `attach` aborts. -/
def abortedByAttach (r : SessionRegistry) (clientId : Str) (clean : Bool) : List Task :=
  match r.sessions.lookup clientId, clean with
  | some a, true => r.tasksAt a
  | _, _ => []

def abortedByDetach (r : SessionRegistry) (a : Addr) (epoch : Nat) (clean : Bool) (now : Instant) :
    List Task :=
  match r.heap[a]? with
  | some s => if (s.detachConn epoch now).2 && clean then s.abortSubs.2 else []
  | none => []

def abortedBySweep (r : SessionRegistry) (expiry : Duration) (now : Instant) : List Task :=
  ((Keyed.pairs r.sessions).filter fun e => r.expiredAt expiry now e.2).flatMap
    fun e => r.tasksAt e.2

/-- The session is in the registry. -/
def Registered (r : SessionRegistry) (a : Addr) : Prop := ∃ c, r.sessions.lookup c = some a

variable {r r' : SessionRegistry} {a : Addr} {s s' : SessionState}

theorem seat_of_heap (h : r'.heap = r.heap) : r'.seat = r.seat := by
  funext p
  rw [seat, seat, h]

theorem seat_set (hs : r.heap[a]? = some s) (hheap : r'.heap = r.heap.set a s') :
    r'.seat = fun p => if p.1 = a then (s'.inner.subs.lookup p.2).map SubEntry.task
      else r.seat p := by
  funext p
  rw [seat, hheap]
  split
  · next hp => rw [hp, Cells.set_self hs, Option.bind_some]
  · next hp => rw [List.getElem?_set_ne (Ne.symm hp), seat]

theorem seat_set_same (hs : r.heap[a]? = some s) (hheap : r'.heap = r.heap.set a s')
    (hsubs : s'.inner.subs = s.inner.subs) : r'.seat = r.seat := by
  rw [seat_set hs hheap, hsubs]
  funext p
  split
  · next hp => rw [seat, hp, hs, Option.bind_some]
  · rfl

theorem seat_set_empty (hs : r.heap[a]? = some s) (hheap : r'.heap = r.heap.set a s')
    (hsubs : s'.inner.subs = ∅) : r'.seat = fun p => if p.1 = a then none else r.seat p := by
  rw [seat_set hs hheap, hsubs]
  rfl

/-- A new session without subscriptions. -/
theorem seat_concat (hheap : r'.heap = r.heap ++ [s]) (hsubs : s.inner.subs = ∅) :
    r'.seat = r.seat := by
  funext p
  rw [seat, seat, hheap]
  cases hp : r.heap[p.1]? with
  | some t => rw [Cells.append_of_some hp]
  | none =>
      cases hp' : (r.heap ++ [s])[p.1]? with
      | none => rfl
      | some t =>
          rcases Cells.concat_cases hp' with hold | ⟨-, rfl⟩
          · rw [hp] at hold
            cases hold
          · rw [Option.bind_some, hsubs]
            rfl

theorem mem_tasksAt {t : Task} :
    t ∈ r.tasksAt a ↔ ∃ p : Addr × Str, p.1 = a ∧ r.seat p = some t := by
  rw [tasksAt]
  constructor
  · intro ht
    cases hs : r.heap[a]? with
    | none =>
        rw [hs] at ht
        cases ht
    | some s =>
        rw [hs] at ht
        obtain ⟨⟨f, e⟩, he, rfl⟩ := List.mem_map.mp ht
        refine ⟨(a, f), rfl, ?_⟩
        rw [seat, hs, Option.bind_some, AList.mem_lookup_iff.mpr he]
        rfl
  · rintro ⟨⟨a, f⟩, rfl, hseat⟩
    obtain ⟨s, hs, hseat⟩ := Option.bind_eq_some_iff.mp hseat
    obtain ⟨e, he, rfl⟩ := Option.map_eq_some_iff.mp hseat
    rw [hs]
    exact List.mem_map.mpr ⟨⟨f, e⟩, AList.mem_lookup_iff.mp he, rfl⟩

/-! ## The seats after an operation -/

theorem seat_discardAt (r : SessionRegistry) (a : Addr) :
    (r.discardAt a).seat = fun p => if p.1 = a then none else r.seat p := by
  rw [discardAt]
  cases hs : r.heap[a]? with
  | some s => exact seat_set_empty hs rfl rfl
  | none =>
      funext p
      show r.seat p = if p.1 = a then none else r.seat p
      split
      · next hp => rw [seat, hp, hs, Option.bind_none]
      · rfl

theorem seat_discardAll (gone : List (Str × Addr)) (r : SessionRegistry) :
    (gone.foldl (fun r e => r.discardAt e.2) r).seat =
      fun p => if p.1 ∈ gone.map Prod.snd then none else r.seat p := by
  induction gone generalizing r with
  | nil => rfl
  | cons e gone ih =>
      rw [List.foldl_cons, ih, seat_discardAt]
      funext p
      dsimp only
      by_cases hp : p.1 = e.2
      · rw [if_pos hp, ite_self, if_pos (by rw [hp]; exact List.mem_cons_self)]
      · simp only [hp, List.map_cons, List.mem_cons, false_or, if_false]

theorem seat_removeOwn (r : SessionRegistry) (a : Addr) : (r.removeOwn a).seat = r.seat := by
  rw [removeOwn]
  split
  · rfl
  · split
    · exact seat_of_heap rfl
    · rfl

theorem seat_attachConnAt [HashOrder] (r : SessionRegistry) (a : Addr) (identity : Str)
    (sink : Sender) (kick : Notify) : (r.attachConnAt a identity sink kick).1.seat = r.seat := by
  rw [attachConnAt]
  cases hs : r.heap[a]? with
  | none => rfl
  | some s => exact seat_set_same hs rfl (s.attachConn_subs r.disk identity sink kick)

theorem seat_attachLookup (r : SessionRegistry) (c : Str) (clean : Bool) :
    (r.attachLookup c clean).registry.seat =
      fun p => if r.sessions.lookup c = some p.1 ∧ clean = true then none else r.seat p := by
  cases hc : r.sessions.lookup c with
  | none =>
      have hsame : (r.attachLookup c clean).registry.seat = r.seat := by
        cases clean with
        | true =>
            simp only [attachLookup, hc]
            exact seat_concat (r := r) rfl rfl
        | false =>
            simp only [attachLookup, hc]
            exact seat_concat (r := r) rfl rfl
      rw [hsame]
      rfl
  | some a =>
      cases clean with
      | false =>
          simp only [attachLookup, hc, Bool.false_eq_true, and_false, if_false]
          exact seat_of_heap rfl
      | true =>
          simp only [attachLookup, hc]
          cases hs : r.heap[a]? with
          | none =>
              funext p
              dsimp only
              split
              · next hp =>
                cases hp.1
                rw [seat, hs]
                rfl
              · rfl
          | some s =>
              have hset : (r.setSession a s.kickCurrent.1.abortSubs.1).seat = _ :=
                seat_set_empty hs rfl rfl
              have hnew :
                  (((r.setSession a s.kickCurrent.1.abortSubs.1).removeState c).addSession c none
                    none).1.seat =
                  (r.setSession a s.kickCurrent.1.abortSubs.1).seat := seat_concat rfl rfl
              show (((r.setSession a s.kickCurrent.1.abortSubs.1).removeState c).addSession c none
                none).1.seat = _
              rw [hnew, hset]
              funext p
              simp only [Option.some.injEq, and_true, eq_comm]

theorem sessions_discardAt (r : SessionRegistry) (a : Addr) :
    (r.discardAt a).sessions = r.sessions := by
  rw [discardAt]
  split <;> rfl

/-- The map loses no session but the one at the address. -/
theorem lookup_removeOwn {c : Str} {b : Addr} (hb : b ≠ a) (hc : r.sessions.lookup c = some b) :
    (r.removeOwn a).sessions.lookup c = some b := by
  rw [removeOwn]
  split
  · exact hc
  · next s _ =>
    split
    · next hown =>
      have hne : c ≠ s.clientId := by
        rintro rfl
        exact hb (Option.some.inj (hc.symm.trans hown))
      exact (AList.lookup_erase_ne hne).trans hc
    · exact hc

/-- A detach leaves everything, or drops the entries of its session and nothing else. -/
theorem seat_detach (r : SessionRegistry) (a : Addr) (epoch : Nat) (clean : Bool) (now : Instant) :
    ((r.detach a epoch clean now).seat = r.seat ∧
        (r.detach a epoch clean now).sessions = r.sessions ∧
        r.abortedByDetach a epoch clean now = []) ∨
      ((r.detach a epoch clean now).seat = fun p => if p.1 = a then none else r.seat p) ∧
        (∀ c b, b ≠ a → r.sessions.lookup c = some b →
          (r.detach a epoch clean now).sessions.lookup c = some b) ∧
        r.abortedByDetach a epoch clean now = r.tasksAt a := by
  rw [detach, abortedByDetach, tasksAt]
  cases hs : r.heap[a]? with
  | none => exact .inl ⟨rfl, rfl, rfl⟩
  | some s =>
      have hsame : (r.setSession a (s.detachConn epoch now).1).seat = r.seat := by
        refine seat_set_same hs rfl ?_
        rw [SessionState.detachConn]
        split <;> rfl
      dsimp only
      split
      · refine .inr ⟨?_, fun c b hb hc => lookup_removeOwn hb ?_, rfl⟩
        · rw [seat_removeOwn, seat_discardAt, hsame]
        · rw [sessions_discardAt]
          exact hc
      · exact .inl ⟨hsame, rfl, rfl⟩

theorem seat_sweep (r : SessionRegistry) (expiry : Duration) (now : Instant) :
    (r.sweep expiry now).seat = fun p =>
      if p.1 ∈ ((Keyed.pairs r.sessions).filter fun e => r.expiredAt expiry now e.2).map
        Prod.snd then none
      else r.seat p := by
  rw [sweep, seat_discardAll]
  rfl

/-- A sweep keeps in the map what has not expired. -/
theorem lookup_sweep (r : SessionRegistry) (expiry : Duration) (now : Instant)
    (c : Str) (b : Addr) :
    (r.sweep expiry now).sessions.lookup c = some b ↔
      r.sessions.lookup c = some b ∧ r.expiredAt expiry now b = false := by
  have hmap : ∀ (gone : List (Str × Addr)) (r : SessionRegistry),
      (gone.foldl (fun r e => r.discardAt e.2) r).sessions = r.sessions := by
    intro gone
    induction gone with
    | nil => exact fun r => rfl
    | cons e gone ih => exact fun r => (ih _).trans (sessions_discardAt r e.2)
  rw [sweep, hmap, Keyed.lookup_retain, Option.filter_eq_some_iff, Bool.not_eq_true']

theorem seat_deliver (r : SessionRegistry) (a : Addr) (m : Msg) (qos : QoS)
    (send : SessionState.SendResult) (now : Instant) :
      (r.deliver a m qos send now).seat = r.seat := by
  rw [deliver]
  cases hs : r.heap[a]? with
  | none => rfl
  | some s =>
      have hoffline : ∀ t : SessionState, t.inner.subs = s.inner.subs →
          (t.deliverOffline r.disk m qos).session.inner.subs = s.inner.subs := by
        intro t ht
        rw [SessionState.deliverOffline]
        split <;> exact ht
      have hnoted : ∀ {t t' : SessionState}, t.Noted t' → t'.inner.subs = t.inner.subs := by
        intro t t' h
        cases h <;> rfl
      refine seat_set_same hs rfl ?_
      rw [SessionState.deliver]
      split
      · exact hoffline s rfl
      · next tx _ =>
        have hpublish := hnoted (s.noted_publishFor m qos)
        cases send with
        | ok => exact hpublish
        | closed =>
            exact hoffline _ ((hnoted (SessionState.noted_clearSink _ tx now)).trans hpublish)
        | timeout =>
            have hevict := hnoted (SessionState.noted_evictSlow (s.publishFor m qos).1 tx now)
            exact hoffline _ ((hnoted (SessionState.noted_clearSink _ tx now)).trans
              (hevict.trans hpublish))

theorem seat_insertSub [HashOrder] (hs : r.heap[a]? = some s) (f : Str) (q : QoS)
    (hheap : r'.heap = r.heap.set a (s.insertSub r.disk f q r.tasks).1) :
    r'.seat = Function.update r.seat (a, f) (some r.tasks) := by
  rw [seat_set hs hheap]
  funext p
  obtain ⟨b, f'⟩ := p
  by_cases hp : (b, f') = (a, f)
  · cases hp
    rw [Function.update_self, if_pos rfl]
    simp only [SessionState.insertSub, AList.lookup_insert]
    rfl
  · rw [Function.update_of_ne hp]
    dsimp only
    split
    · next hb =>
      subst hb
      have hf : f' ≠ f := fun hf => hp (by rw [hf])
      simp only [SessionState.insertSub, AList.lookup_insert_ne hf]
      rw [seat, hs, Option.bind_some]
    · rfl

theorem seat_removeSub [HashOrder] (r : SessionRegistry) (a : Addr) (f : Str) :
    (r.removeSub a f).seat = fun p => if p = (a, f) then none else r.seat p := by
  rw [removeSub]
  cases hs : r.heap[a]? with
  | none =>
      funext p
      dsimp only
      split
      · next hp => rw [seat, hp, hs, Option.bind_none]
      · rfl
  | some s =>
      dsimp only
      rw [@seat_set r _ a s (s.removeSub r.disk f).1 hs rfl]
      funext p
      obtain ⟨b, f'⟩ := p
      by_cases hb : b = a
      · subst hb
        rw [if_pos rfl]
        simp only [SessionState.removeSub, Keyed.lookup_erase, Prod.mk.injEq, true_and]
        split
        · rfl
        · rw [seat, hs, Option.bind_some]
      · rw [if_neg hb, if_neg fun hp => hb (Prod.mk.inj hp).1]

/-- `attach` takes no session from the map but the one it replaces. -/
theorem lookup_attachLookup {c c' : Str} {b : Addr} {clean : Bool}
    (hc : r.sessions.lookup c' = some b) (hkept : ¬ (r.sessions.lookup c = some b ∧ clean = true)) :
    (r.attachLookup c clean).registry.sessions.lookup c' = some b := by
  by_cases hcc : c' = c
  · subst hcc
    cases clean with
    | true => exact absurd ⟨hc, rfl⟩ hkept
    | false =>
        simp only [attachLookup, hc]
        exact AList.lookup_insert _
  · rw [attachLookup.eq_def]
    split
    · exact (AList.lookup_insert_ne hcc).trans hc
    · split
      · exact hc
      · exact (AList.lookup_insert_ne hcc).trans hc
    · exact (AList.lookup_insert_ne hcc).trans hc
    · exact (AList.lookup_insert_ne hcc).trans hc

end SessionRegistry

/-! ## The node and its tasks -/

structure TaskWorld where
  registry : SessionRegistry
  /-- the tasks spawned and not aborted -/
  running : List Task

inductive TaskAction where
  /-- `attach` under the registry lock -/
  | lookup (clientId : Str) (clean : Bool)
  /-- and after it, on the session it found -/
  | connect (a : Addr) (identity : Str) (sink : Sender) (kick : Notify)
  | subscribe (a : Addr) (filter : Str) (qos : QoS)
  | unsubscribe (a : Addr) (filter : Str)
  | detach (a : Addr) (epoch : Nat) (clean : Bool) (now : Instant)
  | sweep (expiry : Duration) (now : Instant)
  | deliver (a : Addr) (m : Msg) (qos : QoS) (send : SessionState.SendResult) (now : Instant)
  | rehydrate (path : Path)

namespace TaskWorld

def start (r : SessionRegistry) : TaskWorld := ⟨r, []⟩

section
variable [HashOrder] (declare : Str → Bool) (acl : Acl) (scope : Str)

/-- `activate_subscription`: the new task runs, the one of the filter before is aborted. -/
def subscribe (w : TaskWorld) (a : Addr) (filter : Str) (qos : QoS) : TaskWorld :=
  match w.registry.activateSubscription declare scope a filter qos, w.registry.heap[a]? with
  | .ok r, some s =>
      ⟨r, leave (s.insertSub w.registry.disk filter qos w.registry.tasks).2.2.toList w.running ++
        [w.registry.tasks]⟩
  | _, _ => w

def replaySub (identity : Str) (a : Addr) (w : TaskWorld) (e : Str × QoS) : TaskWorld :=
  if acl.maySubscribe identity e.1 then w.subscribe declare scope a e.1 e.2 else w

/-- The session of a subscription file, on the heap but not yet in the map. -/
def revive (w : TaskWorld) (path : Path) (clientId identity : Str) : TaskWorld :=
  let r := w.registry
  let s := SessionState.new r.disk clientId r.maxQueue r.slowGrace (r.queuePath clientId)
    (some path)
  let s := { s with inner := { s.inner with identity := identity } }
  { w with registry := { r with heap := r.heap ++ [s] } }

def rehydrateOne (w : TaskWorld) (path : Path) (clientId identity : Str)
    (filters : List (Str × QoS)) : TaskWorld :=
  let a := w.registry.heap.length
  let w := filters.foldl (replaySub declare acl scope identity a) (w.revive path clientId identity)
  let r := match w.registry.heap[a]? with
    | some s => { w.registry with disk := s.persistSubs w.registry.disk }
    | none => w.registry
  ⟨{ r with sessions := r.sessions.insert clientId a }, w.running⟩

def perform (w : TaskWorld) : TaskAction → TaskWorld
  | .lookup c clean =>
      ⟨(w.registry.attachLookup c clean).registry,
        leave (w.registry.abortedByAttach c clean) w.running⟩
  | .connect a identity sink kick =>
      { w with registry := (w.registry.attachConnAt a identity sink kick).1 }
  | .subscribe a filter qos => w.subscribe declare scope a filter qos
  | .unsubscribe a filter =>
      ⟨w.registry.removeSub a filter,
        leave (((w.registry.heap[a]?).bind fun s =>
          (s.removeSub w.registry.disk filter).2.2).toList) w.running⟩
  | .detach a epoch clean now =>
      ⟨w.registry.detach a epoch clean now,
        leave (w.registry.abortedByDetach a epoch clean now) w.running⟩
  | .sweep expiry now =>
      ⟨w.registry.sweep expiry now, leave (w.registry.abortedBySweep expiry now) w.running⟩
  | .deliver a m qos send now => { w with registry := w.registry.deliver a m qos send now }
  | .rehydrate path =>
      match loadSubs w.registry.disk path with
      | .ok (clientId, identity, filters) =>
          w.rehydrateOne declare acl scope path clientId identity filters
      | .error _ => w

def step (w : TaskWorld) (act : TaskAction) : Option TaskWorld :=
  some (w.perform declare acl scope act)

end

/-! ## The registry is that of the operations -/

section
variable [HashOrder] {declare : Str → Bool} {acl : Acl} {scope : Str} {w : TaskWorld}

/-- A subscription is activated, and then the session is there; or nothing happens. -/
theorem subscribe_cases (declare : Str → Bool) (scope : Str) (w : TaskWorld) (a : Addr)
    (f : Str) (q : QoS) :
    (∃ s, w.registry.heap[a]? = some s ∧
        w.registry.activateSubscription declare scope a f q =
          .ok (w.subscribe declare scope a f q).registry ∧
        (w.subscribe declare scope a f q).registry =
          { w.registry.setSession a (s.insertSub w.registry.disk f q w.registry.tasks).1 with
            disk := (s.insertSub w.registry.disk f q w.registry.tasks).2.1
            tasks := w.registry.tasks + 1 } ∧
        (w.subscribe declare scope a f q).running =
          leave (s.insertSub w.registry.disk f q w.registry.tasks).2.2.toList w.running ++
            [w.registry.tasks]) ∨
      w.subscribe declare scope a f q = w ∧
        ∀ r, w.registry.activateSubscription declare scope a f q = .ok r → r = w.registry := by
  rw [subscribe, SessionRegistry.activateSubscription]
  cases filterToKeyexpr f scope with
  | error e => exact .inr ⟨rfl, fun r hr => (by cases hr)⟩
  | ok ke =>
      dsimp only
      cases declare ke with
      | false => exact .inr ⟨rfl, fun r hr => (by cases hr)⟩
      | true =>
          cases hs : w.registry.heap[a]? with
          | none => exact .inr ⟨rfl, fun r hr => (Except.ok.inj hr).symm⟩
          | some s => exact .inl ⟨s, rfl, rfl, rfl, rfl⟩

theorem replaySub_registry (w : TaskWorld) (identity : Str) (a : Addr) (e : Str × QoS) :
    (w.replaySub declare acl scope identity a e).registry =
      SessionRegistry.replaySub declare acl scope identity a w.registry e := by
  rw [replaySub, SessionRegistry.replaySub]
  split
  · rcases w.subscribe_cases declare scope a e.1 e.2 with ⟨s, -, hok, -⟩ | ⟨hsame, hok⟩
    · rw [hok]
    · rw [hsame]
      split
      · next r hr => exact (hok r hr).symm
      · rfl
  · rfl

theorem rehydrateOne_registry {path : Path} {c identity : Str} {filters : List (Str × QoS)}
    (hload : loadSubs w.registry.disk path = .ok (c, identity, filters)) :
    (w.rehydrateOne declare acl scope path c identity filters).registry =
      w.registry.rehydrateStep declare acl scope path := by
  have hfold : ∀ (a : Addr) (es : List (Str × QoS)) (w : TaskWorld),
      (es.foldl (TaskWorld.replaySub declare acl scope identity a) w).registry =
        es.foldl (SessionRegistry.replaySub declare acl scope identity a) w.registry := by
    intro a es
    induction es with
    | nil => exact fun w => rfl
    | cons e es ih =>
        intro w
        rw [List.foldl_cons, List.foldl_cons, ih, replaySub_registry]
  simp only [SessionRegistry.rehydrateStep, SessionRegistry.rehydrateOne, hload, rehydrateOne,
    revive, hfold]
  rfl

/-- A subscription changes nothing but its entry. -/
theorem subscribe_elsewhere (declare : Str → Bool) (scope : Str) (w : TaskWorld) (a : Addr)
    (f : Str) (q : QoS) :
    (w.subscribe declare scope a f q).registry.sessions = w.registry.sessions ∧
      ∀ p, p.1 ≠ a → (w.subscribe declare scope a f q).registry.seat p = w.registry.seat p := by
  rcases w.subscribe_cases declare scope a f q with ⟨s, hs, -, hreg, -⟩ | ⟨hsame, -⟩
  · have hseat := SessionRegistry.seat_insertSub hs f q (congrArg SessionRegistry.heap hreg)
    refine ⟨by rw [hreg]; rfl, fun p hp => ?_⟩
    rw [hseat, Function.update_of_ne fun heq => hp (by rw [heq])]
  · rw [hsame]
    exact ⟨rfl, fun _ _ => rfl⟩

/-- A restored session is entered in the map, and the others are not touched. -/
theorem rehydrateOne_elsewhere (w : TaskWorld) (path : Path) (c identity : Str)
    (filters : List (Str × QoS)) :
    (w.rehydrateOne declare acl scope path c identity filters).registry.sessions =
        w.registry.sessions.insert c w.registry.heap.length ∧
      ∀ p, p.1 ≠ w.registry.heap.length →
        (w.rehydrateOne declare acl scope path c identity filters).registry.seat p =
          w.registry.seat p := by
  have hfold : ∀ (a : Addr) (es : List (Str × QoS)) (w : TaskWorld),
      (es.foldl (TaskWorld.replaySub declare acl scope identity a) w).registry.sessions =
        w.registry.sessions ∧
        ∀ p, p.1 ≠ a →
          (es.foldl (TaskWorld.replaySub declare acl scope identity a) w).registry.seat p =
          w.registry.seat p := by
    intro a es
    induction es with
    | nil => exact fun w => ⟨rfl, fun _ _ => rfl⟩
    | cons e es ih =>
        intro w
        obtain ⟨hmap, hseat⟩ := ih (w.replaySub declare acl scope identity a e)
        have hone : (w.replaySub declare acl scope identity a e).registry.sessions =
            w.registry.sessions ∧
            ∀ p, p.1 ≠ a → (w.replaySub declare acl scope identity a e).registry.seat p =
              w.registry.seat p := by
          rw [replaySub]
          split
          · exact subscribe_elsewhere declare scope w a e.1 e.2
          · exact ⟨rfl, fun _ _ => rfl⟩
        exact ⟨hmap.trans hone.1, fun p hp => (hseat p hp).trans (hone.2 p hp)⟩
  obtain ⟨hmap, hseat⟩ := hfold w.registry.heap.length filters (w.revive path c identity)
  have hrevived : (w.revive path c identity).registry.seat = w.registry.seat :=
    SessionRegistry.seat_concat rfl rfl
  refine ⟨?_, fun p hp => ?_⟩
  · rw [TaskWorld.rehydrateOne]
    dsimp only
    split <;> exact congrArg (AList.insert c w.registry.heap.length) hmap
  · rw [← hrevived, ← hseat p hp, TaskWorld.rehydrateOne]
    refine congrFun (SessionRegistry.seat_of_heap ?_) p
    dsimp only
    split <;> rfl

end

/-! ## Every task in its entry -/

/-- The running tasks are those in the entries, one each. -/
structure Accounted (w : TaskWorld) : Prop where
  manned : Manned w.registry.seat w.running
  spawned : ∀ t ∈ w.running, t < w.registry.tasks

namespace Accounted

variable {declare : Str → Bool} {acl : Acl} {scope : Str} {w : TaskWorld} {r : SessionRegistry}

/-- An operation that leaves the entries. -/
theorem same (h : Accounted w) (hseat : r.seat = w.registry.seat)
    (htasks : r.tasks = w.registry.tasks) :
    Accounted ⟨r, w.running⟩ where
  manned := by
    show Manned r.seat w.running
    rw [hseat]
    exact h.manned
  spawned t ht := htasks ▸ h.spawned t ht

/-- An operation that drops some entries and aborts their tasks. -/
theorem clear (h : Accounted w) {S : Addr × Str → Prop} [DecidablePred S]
    (hseat : r.seat = fun p => if S p then none else w.registry.seat p)
    (htasks : r.tasks = w.registry.tasks) {gone : List Task}
    (hgone : ∀ t, t ∈ gone ↔ ∃ p, S p ∧ w.registry.seat p = some t) :
    Accounted ⟨r, leave gone w.running⟩ where
  manned := by
    show Manned r.seat (leave gone w.running)
    rw [hseat]
    exact h.manned.clear hgone
  spawned t ht := htasks ▸ h.spawned t (mem_leave.mp ht).1

theorem tasks_discardAt (r : SessionRegistry) (a : Addr) : (r.discardAt a).tasks = r.tasks := by
  rw [SessionRegistry.discardAt]
  split <;> rfl

variable [HashOrder]

theorem subscribe (h : Accounted w) (a : Addr) (f : Str) (q : QoS) :
    Accounted (w.subscribe declare scope a f q) := by
  rcases w.subscribe_cases declare scope a f q with ⟨s, hs, -, hreg, hrun⟩ | ⟨hsame, -⟩
  · have hseat := SessionRegistry.seat_insertSub hs f q (congrArg SessionRegistry.heap hreg)
    have hold : (s.insertSub w.registry.disk f q w.registry.tasks).2.2 =
        w.registry.seat (a, f) := by
      rw [SessionRegistry.seat, hs, Option.bind_some]
      rfl
    have hnew : w.registry.tasks ∉ w.running := fun hin => Nat.lt_irrefl _ (h.spawned _ hin)
    refine ⟨?_, fun t ht => ?_⟩
    · rw [hseat, hrun, hold]
      exact h.manned.seated (a, f) hnew
    · rw [hrun] at ht
      rw [hreg]
      rcases List.mem_append.mp ht with ht | ht
      · exact Nat.lt_succ_of_lt (h.spawned t (mem_leave.mp ht).1)
      · rw [List.mem_singleton.mp ht]
        exact Nat.lt_succ_self _
  · rw [hsame]
    exact h

theorem rehydrateOne (h : Accounted w) (path : Path) (c identity : Str)
    (filters : List (Str × QoS)) :
    Accounted (w.rehydrateOne declare acl scope path c identity filters) := by
  have hfold : ∀ (a : Addr) (es : List (Str × QoS)) {w : TaskWorld}, Accounted w →
      Accounted (es.foldl (TaskWorld.replaySub declare acl scope identity a) w) := by
    intro a es
    induction es with
    | nil => exact fun hw => hw
    | cons e es ih =>
        intro w hw
        refine ih ?_
        rw [replaySub]
        split
        · exact hw.subscribe a e.1 e.2
        · exact hw
  have hrevived : Accounted (w.revive path c identity) := by
    refine h.same (SessionRegistry.seat_concat rfl ?_) rfl
    rfl
  have hreplayed := hfold w.registry.heap.length filters hrevived
  exact hreplayed.same (SessionRegistry.seat_of_heap (by dsimp only; split <;> rfl))
    (by dsimp only; split <;> rfl)

/-! ### The operations -/

theorem lookup (h : Accounted w) (c : Str) (clean : Bool) :
    Accounted (w.perform declare acl scope (.lookup c clean)) := by
  refine h.clear (w.registry.seat_attachLookup c clean) ?_ fun t => ?_
  · rw [SessionRegistry.attachLookup.eq_def]
    split
    · rfl
    · split <;> rfl
    · rfl
    · rfl
  · rw [SessionRegistry.abortedByAttach.eq_def]
    split
    · next a hc =>
      rw [SessionRegistry.mem_tasksAt, hc]
      refine exists_congr fun p => and_congr_left fun _ => ?_
      rw [Option.some.injEq, eq_comm, and_iff_left rfl]
    · next hno =>
      refine ⟨fun ht => absurd ht List.not_mem_nil, ?_⟩
      rintro ⟨p, ⟨hc, hclean⟩, -⟩
      exact absurd hclean (hno p.1 hc)

theorem unsubscribe (h : Accounted w) (a : Addr) (f : Str) :
    Accounted (w.perform declare acl scope (.unsubscribe a f)) := by
  refine h.clear (w.registry.seat_removeSub a f) ?_ fun t => ?_
  · rw [SessionRegistry.removeSub]
    split <;> rfl
  · rw [Option.mem_toList]
    constructor
    · exact fun ht => ⟨(a, f), rfl, ht⟩
    · rintro ⟨p, rfl, ht⟩
      exact ht

theorem detach (h : Accounted w) (a : Addr) (epoch : Nat) (clean : Bool) (now : Instant) :
    Accounted (w.perform declare acl scope (.detach a epoch clean now)) := by
  have htasks : (w.registry.detach a epoch clean now).tasks = w.registry.tasks := by
    rw [SessionRegistry.detach]
    split
    · rfl
    · dsimp only
      split
      · rw [SessionRegistry.removeOwn]
        split
        · exact tasks_discardAt _ a
        · split <;> exact tasks_discardAt _ a
      · rfl
  rcases w.registry.seat_detach a epoch clean now with ⟨hseat, -, hgone⟩ | ⟨hseat, -, hgone⟩
  · rw [perform, hgone, Roster.leave_nil]
    exact h.same hseat htasks
  · refine h.clear hseat htasks fun t => ?_
    rw [hgone, SessionRegistry.mem_tasksAt]

theorem sweep (h : Accounted w) (expiry : Duration) (now : Instant) :
    Accounted (w.perform declare acl scope (.sweep expiry now)) := by
  have htasks : ∀ (gone : List (Str × Addr)) (r : SessionRegistry),
      (gone.foldl (fun r e => r.discardAt e.2) r).tasks = r.tasks := by
    intro gone
    induction gone with
    | nil => exact fun r => rfl
    | cons e gone ih => exact fun r => (ih _).trans (tasks_discardAt r e.2)
  refine h.clear (w.registry.seat_sweep expiry now) (htasks _ _) fun t => ?_
  rw [SessionRegistry.abortedBySweep, List.mem_flatMap]
  constructor
  · rintro ⟨e, he, ht⟩
    obtain ⟨p, hp, hseat⟩ := SessionRegistry.mem_tasksAt.mp ht
    exact ⟨p, hp ▸ List.mem_map_of_mem he, hseat⟩
  · rintro ⟨p, hp, hseat⟩
    obtain ⟨e, he, hpe⟩ := List.mem_map.mp hp
    exact ⟨e, he, SessionRegistry.mem_tasksAt.mpr ⟨p, hpe.symm, hseat⟩⟩

theorem step {w' : TaskWorld} {act : TaskAction} (h : Accounted w)
    (hs : w.step declare acl scope act = some w') : Accounted w' := by
  cases hs
  cases act with
  | lookup c clean => exact h.lookup c clean
  | connect a identity sink kick =>
      refine h.same (w.registry.seat_attachConnAt a identity sink kick) ?_
      rw [SessionRegistry.attachConnAt]
      split <;> rfl
  | subscribe a f q => exact h.subscribe a f q
  | unsubscribe a f => exact h.unsubscribe a f
  | detach a epoch clean now => exact h.detach a epoch clean now
  | sweep expiry now => exact h.sweep expiry now
  | deliver a m qos send now =>
      refine h.same (w.registry.seat_deliver a m qos send now) ?_
      rw [SessionRegistry.deliver]
      split <;> rfl
  | rehydrate path =>
      rw [perform]
      split
      · exact h.rehydrateOne path _ _ _
      · exact h

end Accounted

/-! ## Every entry in a registered session -/

/-- Nobody subscribes on a session that has left the registry, and no file revives one that
is registered. -/
def Timely (w : TaskWorld) : TaskAction → Prop
  | .subscribe a _ _ => w.registry.Registered a
  | .rehydrate path => ∀ c identity filters, loadSubs w.registry.disk path =
      .ok (c, identity, filters) →
      w.registry.sessions.lookup c = none
  | _ => True

/-- What has an entry is registered. -/
def Homed (w : TaskWorld) : Prop := ∀ p t, w.registry.seat p = some t → w.registry.Registered p.1

namespace Homed

variable {declare : Str → Bool} {acl : Acl} {scope : Str} {w : TaskWorld} {r : SessionRegistry}

theorem same (h : Homed w) (hseat : r.seat = w.registry.seat)
    (hmap : r.sessions = w.registry.sessions) (running : List Task) : Homed ⟨r, running⟩ := by
  intro p t hp
  change r.seat p = some t at hp
  rw [hseat] at hp
  obtain ⟨c, hc⟩ := h p t hp
  exact ⟨c, hmap ▸ hc⟩

variable [HashOrder]

theorem lookup (h : Homed w) (c : Str) (clean : Bool) :
    Homed (w.perform declare acl scope (.lookup c clean)) := by
  intro p t hp
  change (w.registry.attachLookup c clean).registry.seat p = some t at hp
  rw [SessionRegistry.seat_attachLookup] at hp
  dsimp only at hp
  split at hp
  · cases hp
  · next hkept =>
    obtain ⟨c', hc'⟩ := h p t hp
    exact ⟨c', SessionRegistry.lookup_attachLookup hc' hkept⟩

theorem detach (h : Homed w) (a : Addr) (epoch : Nat) (clean : Bool) (now : Instant) :
    Homed (w.perform declare acl scope (.detach a epoch clean now)) := by
  rcases w.registry.seat_detach a epoch clean now with ⟨hseat, hmap, -⟩ | ⟨hseat, hmap, -⟩
  · exact h.same hseat hmap _
  · intro p t hp
    change (w.registry.detach a epoch clean now).seat p = some t at hp
    rw [hseat] at hp
    dsimp only at hp
    split at hp
    · cases hp
    · next hpa =>
      obtain ⟨c, hc⟩ := h p t hp
      exact ⟨c, hmap c p.1 hpa hc⟩

theorem sweep (h : Homed w) (expiry : Duration) (now : Instant) :
    Homed (w.perform declare acl scope (.sweep expiry now)) := by
  intro p t hp
  change (w.registry.sweep expiry now).seat p = some t at hp
  rw [SessionRegistry.seat_sweep] at hp
  dsimp only at hp
  split at hp
  · cases hp
  · next hkept =>
    obtain ⟨c, hc⟩ := h p t hp
    refine ⟨c, (w.registry.lookup_sweep expiry now c p.1).mpr ⟨hc, ?_⟩⟩
    -- had it expired, its entries would be gone
    cases hexp : w.registry.expiredAt expiry now p.1 with
    | false => rfl
    | true => exact absurd (List.mem_map.mpr
        ⟨(c, p.1), List.mem_filter.mpr ⟨Keyed.mem_pairs.mpr hc, hexp⟩, rfl⟩) hkept

theorem subscribe (h : Homed w) {a : Addr} (ha : w.registry.Registered a) (f : Str) (q : QoS) :
    Homed (w.subscribe declare scope a f q) := by
  obtain ⟨hmap, hseat⟩ := subscribe_elsewhere declare scope w a f q
  intro p t hp
  rw [SessionRegistry.Registered, hmap]
  by_cases hpa : p.1 = a
  · rw [hpa]
    exact ha
  · rw [hseat p hpa] at hp
    exact h p t hp

theorem rehydrateOne (h : Homed w) (path : Path) {c : Str}
    (hc : w.registry.sessions.lookup c = none) (identity : Str) (filters : List (Str × QoS)) :
    Homed (w.rehydrateOne declare acl scope path c identity filters) := by
  obtain ⟨hmap, hseat⟩ := rehydrateOne_elsewhere w path c identity filters
  intro p t hp
  by_cases hpa : p.1 = w.registry.heap.length
  · exact ⟨c, by rw [hmap, hpa, AList.lookup_insert]⟩
  · rw [hseat p hpa] at hp
    obtain ⟨c', hc'⟩ := h p t hp
    have hne : c' ≠ c := by
      rintro rfl
      rw [hc] at hc'
      cases hc'
    exact ⟨c', by rw [hmap, AList.lookup_insert_ne hne, hc']⟩

theorem step {w' : TaskWorld} {act : TaskAction} (h : Homed w) (htimely : w.Timely act)
    (hs : w.step declare acl scope act = some w') : Homed w' := by
  cases hs
  cases act with
  | lookup c clean => exact h.lookup c clean
  | connect a identity sink kick =>
      refine h.same (w.registry.seat_attachConnAt a identity sink kick) ?_ _
      rw [SessionRegistry.attachConnAt]
      split <;> rfl
  | subscribe a f q => exact h.subscribe htimely f q
  | unsubscribe a f =>
      intro p t hp
      change (w.registry.removeSub a f).seat p = some t at hp
      have hmap : (w.registry.removeSub a f).sessions = w.registry.sessions := by
        rw [SessionRegistry.removeSub]
        split <;> rfl
      rw [SessionRegistry.seat_removeSub] at hp
      dsimp only at hp
      split at hp
      · cases hp
      · obtain ⟨c, hc⟩ := h p t hp
        refine ⟨c, ?_⟩
        show (w.registry.removeSub a f).sessions.lookup c = some p.1
        rw [hmap]
        exact hc
  | detach a epoch clean now => exact h.detach a epoch clean now
  | sweep expiry now => exact h.sweep expiry now
  | deliver a m qos send now =>
      refine h.same (w.registry.seat_deliver a m qos send now) ?_ _
      rw [SessionRegistry.deliver]
      split <;> rfl
  | rehydrate path =>
      rw [perform]
      split
      · next c identity filters hload =>
          exact h.rehydrateOne path (htimely c identity filters hload) _ _
      · exact h

end Homed

/-! ## Runs -/

section
variable [HashOrder] {declare : Str → Bool} {acl : Acl} {scope : Str} {maxQueue : Nat}
  {slowGrace : Option Duration} {queueDir : Bool} {disk : Disk} {acts : List TaskAction}
    {w : TaskWorld}

/-- **Every forwarding task is accounted for.**  After any operations of a node, in any
order and on whatever sessions, registered or not: the tasks spawned and not aborted are
those in the entries of the sessions, and each is in one entry.  So no subscription has
two, and none runs on behind an entry that was replaced, removed or discarded. -/
theorem forwarders_accounted
    (hrun : Run.exec (step declare acl scope)
      (start (.new maxQueue slowGrace queueDir disk)) acts = some w) :
    (∀ t, t ∈ w.running ↔ ∃ a filter, w.registry.seat (a, filter) = some t) ∧
      ∀ a filter a' filter' t, w.registry.seat (a, filter) = some t →
        w.registry.seat (a', filter') = some t →
        a = a' ∧ filter = filter' := by
  have hstart : Accounted (start (.new maxQueue slowGrace queueDir disk)) :=
    ⟨Manned.empty, fun t ht => (by cases ht)⟩
  have hmanned :=
    (Run.exec_invariant (fun _ _ _ h hs => Accounted.step h hs) acts hstart hrun).manned
  refine ⟨fun t => (hmanned.sits t).trans Prod.exists, fun a f a' f' t h h' => ?_⟩
  exact Prod.mk.inj (hmanned.once (a, f) (a', f') t h h')

end

/-- A client that subscribes, subscribes again, and comes back with cleanSession=1. -/
def resubscriber : List TaskAction :=
  [.lookup "dev".toList true, .subscribe 0 "kiln".toList .atLeastOnce,
    .subscribe 0 "oven".toList .atMostOnce,
    .subscribe 0 "kiln".toList .atMostOnce, .lookup "dev".toList true,
      .subscribe 1 "kiln".toList .atLeastOnce]

theorem resubscriber_accounted :
    ∃ w, Run.exec (@step .asStored (fun _ => true) (.new [] .allow) [])
      (start (.new 10 none false ∅))
        resubscriber = some w ∧ w.running = [3] ∧
      (∀ t, t ∈ w.running ↔ ∃ a filter, w.registry.seat (a, filter) = some t) := by
  obtain ⟨w, hrun, hrunning⟩ : ∃ w, Run.exec (@step .asStored (fun _ => true) (.new [] .allow) [])
      (start (.new 10 none false ∅)) resubscriber = some w ∧ w.running = [3] := ⟨_, rfl, rfl⟩
  exact ⟨w, hrun, hrunning, (@forwarders_accounted .asStored _ _ _ _ _ _ _ _ _ hrun).1⟩

/-- A SUBSCRIBE that is handled after the client came back with cleanSession=1: its task
runs for a session nobody can find any more. -/
theorem late_subscription_leaks :
    ∃ w, Run.exec (@step .asStored (fun _ => true) (.new [] .allow) [])
      (start (.new 10 none false ∅))
        [.lookup "dev".toList true, .lookup "dev".toList true,
          .subscribe 0 "kiln".toList .atLeastOnce] = some w ∧
      w.running = [0] ∧ w.registry.seat (0, "kiln".toList) = some 0 ∧
        ¬ w.registry.Registered 0 := by
  refine ⟨_, rfl, rfl, rfl, ?_⟩
  rintro ⟨c, hc⟩
  change AList.lookup c ((AList.insert "dev".toList 0 ∅).insert "dev".toList 1) = some 0 at hc
  rw [Keyed.lookup_insert] at hc
  split at hc
  · cases hc
  · next hne =>
    rw [AList.lookup_insert_ne hne] at hc
    cases hc

end TaskWorld

end Entmoot
