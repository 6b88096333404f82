/-
# `Entmoot.RaceSteps` — what one step of a call does

`Did` lists the steps of `attach`, `detach` and `sweep`, each with what it does to
the registry, the lock and the call.  All of them keep the sessions there are, and
a registry that was tidy (`Did.tidy`).

`Doomed` says that a call is about to attach a connection to a session that is no
longer registered, or about to be unregistered.  No orderly step undoes that
(`Doomed.step`), and a run that ends with every call returned was never doomed.
-/
import Entmoot.Sections

namespace Entmoot

open DiscardWorld (SamePaths)

/-! ## Cleaning up -/

/-- One step of the cleanup of a session: by a detach, by a sweep, or the queue
file by an attach. -/
inductive Cleaning : Cleanup → Addr → RacePc → RacePc → Prop
  | endAbort (a : Addr) : Cleaning .abort a (.ending .abort a) (.ending .queue a)
  | endQueue (a : Addr) : Cleaning .queue a (.ending .queue a) (.ending .subs a)
  | endSubs (a : Addr) : Cleaning .subs a (.ending .subs a) (.unregister a)
  | sweepAbort (a : Addr) (rest : List Addr) :
      Cleaning .abort a (.sweeping .abort a rest) (.sweeping .queue a rest)
  | sweepQueue (a : Addr) (rest : List Addr) :
      Cleaning .queue a (.sweeping .queue a rest) (.sweeping .subs a rest)
  | sweepSubs (a : Addr) (rest : List Addr) :
      Cleaning .subs a (.sweeping .subs a rest) (SessionRegistry.sweepNext rest)
  | backlog (o : AttachOutcome) : Cleaning .queue o.session (.discardQueue o) (.returned (some o))

section
variable {r : SessionRegistry}

theorem cleanup_heap {a : Addr} {s : SessionState} (hs : r.heap[a]? = some s) (st : Cleanup) :
    ∃ s', (r.cleanup a s st).heap = r.heap.set a s' ∧ Touched s s' := by
  have hself : r.heap = r.heap.set a s := by
    obtain ⟨hlt, rfl⟩ := List.getElem?_eq_some_iff.mp hs
    exact (List.set_getElem_self hlt).symm
  cases st with
  | abort => exact ⟨_, rfl, .abortSubs s⟩
  | queue => exact ⟨s, hself, .refl s⟩
  | subs => exact ⟨s, hself, .refl s⟩

theorem sameConfig_cleanup (a : Addr) (s : SessionState) (st : Cleanup) :
    SameConfig r (r.cleanup a s st) ∧ (r.cleanup a s st).sessions = r.sessions := by
  cases st <;> exact ⟨⟨rfl, rfl, rfl⟩, rfl⟩

/-- The file a step of a cleanup removes. -/
def Cleanup.file : Cleanup → Option FileKind
  | .abort => none
  | .queue => some .queue
  | .subs => some .subs

/-- A step of the cleanup of a session takes the file of `c` away if it is the same one. -/
theorem cleanup_state (ht : r.Tidy) {a : Addr} {s : SessionState} (hs : r.heap[a]? = some s)
    (st : Cleanup) (c : Str) (k : FileKind) : (r.cleanup a s st).state c k =
      if st.file = some k ∧ r.Owns c k s then none else r.state c k := by
  cases st with
  | abort =>
      rw [if_neg (fun h => by cases h.1)]
      rfl
  | queue =>
      have hdiscard := ht.state_discardFile hs c k .queue
      rw [SessionState.discardFile_queue] at hdiscard
      refine hdiscard.trans (if_congr (and_congr_left' ?_) rfl rfl)
      exact ⟨fun h => congrArg some h.symm, fun h => (Option.some.inj h).symm⟩
  | subs =>
      have hdiscard := ht.state_discardFile hs c k .subs
      rw [SessionState.discardFile_subs] at hdiscard
      refine hdiscard.trans (if_congr (and_congr_left' ?_) rfl rfl)
      exact ⟨fun h => congrArg some h.symm, fun h => (Option.some.inj h).symm⟩

namespace RacePc

/-- The sessions with a file of this kind still to be removed by the call. -/
def files (pc : RacePc) : FileKind → List Addr
  | .queue => pc.queues
  | .subs => pc.subs

/-- A clean attach that has begun to replace what there is. -/
def replaces : RacePc → Bool
  | .abort _ | .removeQueue | .removeSubs | .makeClean => true
  | _ => false

theorem locked_of_replaces {pc : RacePc} (h : pc.replaces) : pc.locked := by
  cases pc <;> first | rfl | cases h

theorem files_of_locked {pc : RacePc} (h : pc.locked) (k : FileKind) : pc.files k = [] := by
  cases pc <;> first | (cases k <;> rfl) | cases h

theorem files_sweepNext (gone : List Addr) (k : FileKind) :
    (SessionRegistry.sweepNext gone).files k = gone := by
  cases gone <;> cases k <;> rfl

end RacePc

theorem Cleaning.files {st : Cleanup} {a : Addr} {pc pc' : RacePc} (h : Cleaning st a pc pc')
    (k : FileKind) : pc.files k = if st.file = some k then a :: pc'.files k else pc'.files k := by
  cases h with
  | sweepSubs _ rest =>
      rw [RacePc.files_sweepNext]
      cases k <;> rfl
  | _ => cases k <;> rfl

theorem Cleaning.ends {st : Cleanup} {a : Addr} {pc pc' : RacePc} (h : Cleaning st a pc pc') :
    pc'.ends = pc.ends := by
  cases h with
  | sweepSubs _ rest => cases rest <;> rfl
  | _ => rfl

theorem Cleaning.free {st : Cleanup} {a : Addr} {pc pc' : RacePc} (h : Cleaning st a pc pc') :
    pc.replaces = false ∧ pc'.locked = false ∧ (∀ a p m, pc ≠ .attachConn a p m) ∧
      ∀ a p m, pc' ≠ .attachConn a p m := by
  cases h with
  | sweepSubs _ rest =>
      cases rest with
      | nil => exact ⟨rfl, rfl, fun _ _ _ h => (by cases h), fun _ _ _ h => by cases h⟩
      | cons b rest => exact ⟨rfl, rfl, fun _ _ _ h => (by cases h), fun _ _ _ h => by cases h⟩
  | _ => exact ⟨rfl, rfl, fun _ _ _ h => (by cases h), fun _ _ _ h => by cases h⟩

end

/-! ## The steps -/

/-- What the next step of call `i`, with this operation and at this place, does. -/
inductive Did [HashOrder] (c : Str) (r : SessionRegistry) (lock : Option Nat) (i : Nat) :
    RaceOp → RacePc → Section → Prop
  | find {identity : Str} {sink : Sender} {kick : Notify} {a : Addr} (hlock : lock = none)
      (ha : r.sessions.lookup c = some a) :
      Did c r lock i (.attach identity false sink kick) .start
        ⟨{ r with sessions := r.sessions.insert c a }, none, .attachConn a true false⟩
  | replace {identity : Str} {sink : Sender} {kick : Notify} {a : Addr} (hlock : lock = none)
      (ha : r.sessions.lookup c = some a) :
      Did c r lock i (.attach identity true sink kick) .start ⟨r, some i, .kick a⟩
  | clear {identity : Str} {sink : Sender} {kick : Notify} (hlock : lock = none)
      (ha : r.sessions.lookup c = none) :
      Did c r lock i (.attach identity true sink kick) .start ⟨r, some i, .removeQueue⟩
  | look {identity : Str} {sink : Sender} {kick : Notify} (hlock : lock = none)
      (ha : r.sessions.lookup c = none) :
      Did c r lock i (.attach identity false sink kick) .start ⟨r, some i, .queueExists⟩
  | kick {op : RaceOp} {a : Addr} {s : SessionState} (hs : r.heap[a]? = some s) :
      Did c r lock i op (.kick a) ⟨r.setSession a s.kickCurrent.1, lock, .abort a⟩
  | abort {op : RaceOp} {a : Addr} {s : SessionState} (hs : r.heap[a]? = some s) :
      Did c r lock i op (.abort a) ⟨r.setSession a s.abortSubs.1, lock, .removeQueue⟩
  | removeQueue {op : RaceOp} :
      Did c r lock i op .removeQueue ⟨r.removeFile (r.file c .queue), lock, .removeSubs⟩
  | removeSubs {op : RaceOp} :
      Did c r lock i op .removeSubs ⟨r.removeFile (r.file c .subs), lock, .makeClean⟩
  | makeClean {op : RaceOp} :
      Did c r lock i op .makeClean
        ⟨(r.addSession c none none).1, none, .attachConn r.heap.length false true⟩
  | foundQueue {op : RaceOp} (hq : (r.state c .queue).isSome) :
      Did c r lock i op .queueExists ⟨r, lock, .load true⟩
  | noQueue {op : RaceOp} (hq : r.state c .queue = none) :
      Did c r lock i op .queueExists ⟨r, lock, .subsExists⟩
  | subsExists {op : RaceOp} :
      Did c r lock i op .subsExists ⟨r, lock, .load (r.state c .subs).isSome⟩
  | load {op : RaceOp} (present : Bool) :
      Did c r lock i op (.load present)
        ⟨(r.addSession c (r.file c .queue) (r.file c .subs)).1, none,
          .attachConn r.heap.length present true⟩
  | attachConn {identity : Str} {clean : Bool} {sink : Sender} {kick : Notify} {a : Addr}
      {s : SessionState} (present made : Bool) (hs : r.heap[a]? = some s) :
      Did c r lock i (.attach identity clean sink kick) (.attachConn a present made)
        ⟨{ r.setSession a (s.attachConnLocked r.disk identity sink kick).session with
            disk := (s.attachConnLocked r.disk identity sink kick).disk }, lock,
          .discardQueue ⟨a, present, (s.attachConnLocked r.disk identity sink kick).epoch,
            (s.attachConnLocked r.disk identity sink kick).backlog⟩⟩
  | clean {op : RaceOp} {st : Cleanup} {a : Addr} {s : SessionState} {pc pc' : RacePc}
      (hpc : Cleaning st a pc pc') (hs : r.heap[a]? = some s) :
      Did c r lock i op pc ⟨r.cleanup a s st, lock, pc'⟩
  | detach {a : Addr} {epoch : Nat} {clean : Bool} {now : Instant} {s : SessionState}
      (hs : r.heap[a]? = some s) :
      Did c r lock i (.detach a epoch clean now) .start
        ⟨r.setSession a (s.detachConn epoch now).1, lock,
          if (s.detachConn epoch now).2 && clean then .ending .abort a else .returned none⟩
  | unregister {op : RaceOp} {a : Addr} (hlock : lock = none) :
      Did c r lock i op (.unregister a) ⟨r.removeOwn a, none, .returned none⟩
  | sweep {expiry : Duration} {now : Instant} (hlock : lock = none) :
      Did c r lock i (.sweep expiry now) .start
        ⟨r.sweepKept expiry now, none, SessionRegistry.sweepNext (r.sweepGone expiry now)⟩

variable [HashOrder] {c : Str} {r : SessionRegistry} {lock : Option Nat} {i : Nat} {n : Section}

/-- **Every step** is one of them. -/
theorem RaceCall.did {x : RaceCall} (h : x.next? c r lock i = some n) :
    Did c r lock i x.op x.pc n := by
  obtain ⟨op, pc, before⟩ := x
  cases op with
  | attach identity clean sink kick =>
      change r.attachSection c lock i identity clean sink kick pc = some n at h
      show Did c r lock i _ pc n
      cases pc with
      | start =>
          simp only [SessionRegistry.attachSection] at h
          split at h
          · cases h
          · next hlock =>
            have hlock : lock = none := Option.not_isSome_iff_eq_none.mp hlock
            cases ha : r.sessions.lookup c with
            | none =>
                cases clean with
                | false =>
                    simp only [ha] at h
                    cases h
                    exact .look hlock ha
                | true =>
                    simp only [ha] at h
                    cases h
                    exact .clear hlock ha
            | some a =>
                cases clean with
                | false =>
                    simp only [ha] at h
                    cases h
                    exact .find hlock ha
                | true =>
                    simp only [ha] at h
                    cases h
                    exact .replace hlock ha
      | kick a =>
          obtain ⟨s, hs, rfl⟩ := Option.map_eq_some_iff.mp h
          exact .kick hs
      | abort a =>
          obtain ⟨s, hs, rfl⟩ := Option.map_eq_some_iff.mp h
          exact .abort hs
      | removeQueue =>
          cases h
          exact .removeQueue
      | removeSubs =>
          cases h
          exact .removeSubs
      | makeClean =>
          cases h
          exact .makeClean
      | queueExists =>
          have hexists : r.pathExists (r.queuePath c) = (r.state c .queue).isSome :=
            r.pathExists_file c .queue
          simp only [SessionRegistry.attachSection, hexists] at h
          split at h
          · next hq =>
            cases h
            exact .foundQueue hq
          · next hq =>
            cases h
            exact .noQueue (Option.not_isSome_iff_eq_none.mp hq)
      | subsExists =>
          have hexists : r.pathExists (r.subsPath c) = (r.state c .subs).isSome :=
            r.pathExists_file c .subs
          simp only [SessionRegistry.attachSection, hexists] at h
          cases h
          exact .subsExists
      | load present =>
          cases h
          exact .load present
      | attachConn a present made =>
          obtain ⟨s, hs, rfl⟩ := Option.map_eq_some_iff.mp h
          exact .attachConn present made hs
      | discardQueue o =>
          obtain ⟨s, hs, rfl⟩ := Option.map_eq_some_iff.mp h
          exact .clean (.backlog o) hs
      | ending st a => cases h
      | unregister a => cases h
      | sweeping st a rest => cases h
      | returned o => cases h
  | detach a epoch clean now =>
      change r.detachSection lock a epoch clean now pc = some n at h
      show Did c r lock i _ pc n
      cases pc with
      | start =>
          obtain ⟨s, hs, rfl⟩ := Option.map_eq_some_iff.mp h
          exact .detach hs
      | ending st b =>
          obtain ⟨s, hs, rfl⟩ := Option.map_eq_some_iff.mp h
          cases st with
          | abort => exact .clean (.endAbort b) hs
          | queue => exact .clean (.endQueue b) hs
          | subs => exact .clean (.endSubs b) hs
      | unregister b =>
          simp only [SessionRegistry.detachSection] at h
          split at h
          · cases h
          · next hlock =>
            cases h
            exact .unregister (Option.not_isSome_iff_eq_none.mp hlock)
      | _ => cases h
  | sweep expiry now =>
      change r.sweepSection lock expiry now pc = some n at h
      show Did c r lock i _ pc n
      cases pc with
      | start =>
          simp only [SessionRegistry.sweepSection] at h
          split at h
          · cases h
          · next hlock =>
            cases h
            exact .sweep (Option.not_isSome_iff_eq_none.mp hlock)
      | sweeping st a rest =>
          obtain ⟨s, hs, rfl⟩ := Option.map_eq_some_iff.mp h
          cases st with
          | abort => exact .clean (.sweepAbort a rest) hs
          | queue => exact .clean (.sweepQueue a rest) hs
          | subs => exact .clean (.sweepSubs a rest) hs
      | _ => cases h

/-- **Every step** keeps the sessions there are. -/
theorem Did.keeps {op : RaceOp} {pc : RacePc} (h : Did c r lock i op pc n) (ht : r.Tidy) :
    Keeps r n.reg := by
  cases h with
  | find _ _ | replace _ _ | clear _ _ | look _ _ | foundQueue _ | noQueue _ | subsExists
  | sweep _ =>
      exact .of_heap ⟨rfl, rfl, rfl⟩ rfl
  | kick hs => exact .set ⟨rfl, rfl, rfl⟩ hs (samePaths_of_core (Touched.kickCurrent _).core) rfl
  | abort hs => exact .set ⟨rfl, rfl, rfl⟩ hs (samePaths_of_core (Touched.abortSubs _).core) rfl
  | removeQueue | removeSubs =>
      have hrem := SessionRegistry.sameConfig_removeFile r
      exact .of_heap (hrem _).1 (hrem _).2.1
  | makeClean | load _ => exact .concat ⟨rfl, rfl, rfl⟩ rfl
  | attachConn _ _ hs =>
      refine .set ⟨rfl, rfl, rfl⟩ hs ?_ rfl
      rw [SessionState.attachConnLocked_session]
      exact ⟨rfl, rfl, rfl⟩
  | @clean _ st a s _ _ _ hs =>
      obtain ⟨s', hheap, hs'⟩ := cleanup_heap hs st
      exact .set (sameConfig_cleanup a s st).1 hs (samePaths_of_core hs'.core) hheap
  | @detach a epoch clean now s hs =>
      exact .set ⟨rfl, rfl, rfl⟩ hs (samePaths_detachConn s epoch now) rfl
  | @unregister _ a _ =>
      obtain ⟨m, hm, -⟩ := ht.removeOwn a
      rw [hm]
      exact .of_heap ⟨rfl, rfl, rfl⟩ rfl

/-- What a step does to the map: the entry of `c` may go, or become that of a session
the step makes; a step that makes none enters none. -/
theorem Did.entries {op : RaceOp} {pc : RacePc} (h : Did c r lock i op pc n) (ht : r.Tidy) :
    (n.reg.heap.length = r.heap.length ∧
      ∀ c' a, n.reg.sessions.lookup c' = some a → r.sessions.lookup c' = some a) ∨
    ∃ clean : Bool, n.reg = (r.addSession c (if clean then none else r.file c .queue)
      (if clean then none else r.file c .subs)).1 := by
  cases h with
  | find _ ha =>
      refine .inl ⟨rfl, fun c' b hb => ?_⟩
      rw [Keyed.lookup_insert] at hb
      split at hb
      · next hc =>
        cases hb
        rw [hc]
        exact ha
      · exact hb
  | replace _ _ | clear _ _ | look _ _ | foundQueue _ | noQueue _ | subsExists =>
      exact .inl ⟨rfl, fun _ _ h => h⟩
  | kick _ | abort _ | attachConn _ _ _ | detach _ => exact .inl ⟨List.length_set, fun _ _ h => h⟩
  | removeQueue | removeSubs =>
      have hrem := SessionRegistry.sameConfig_removeFile r
      refine .inl ⟨congrArg List.length (hrem _).2.1, fun c' a ha => ?_⟩
      rwa [(hrem _).2.2] at ha
  | makeClean => exact .inr ⟨true, rfl⟩
  | load _ => exact .inr ⟨false, rfl⟩
  | @clean _ st a s _ _ _ hs =>
      obtain ⟨s', hheap, -⟩ := cleanup_heap hs st
      refine .inl ⟨?_, fun c' b hb => ?_⟩
      · rw [hheap]
        exact List.length_set
      · rwa [(sameConfig_cleanup a s st).2] at hb
  | @unregister _ a _ =>
      obtain ⟨m, hm, hlookup⟩ := ht.removeOwn a
      rw [hm]
      refine .inl ⟨rfl, fun c' b hb => ?_⟩
      rw [hlookup] at hb
      split at hb
      · cases hb
      · exact hb
  | sweep _ =>
      refine .inl ⟨rfl, fun c' b hb => ?_⟩
      rw [SessionRegistry.sweepKept, Keyed.lookup_retain] at hb
      exact (Option.filter_eq_some_iff.mp hb).1

/-- **Every step** leaves a tidy registry tidy. -/
theorem Did.tidy {op : RaceOp} {pc : RacePc} (h : Did c r lock i op pc n) (ht : r.Tidy) :
    n.reg.Tidy := by
  rcases h.entries ht with ⟨hlen, hmap⟩ | ⟨clean, heq⟩
  · exact ht.keep (h.keeps ht) hlen hmap
  · rw [heq]
    refine ht.enter (s := .new r.disk c r.maxQueue r.slowGrace
      (if clean then none else r.file c .queue)
      (if clean then none else r.file c .subs)) ⟨rfl, rfl, rfl⟩ rfl rfl fun k => ?_
    cases clean with
    | true => exact .inl (by cases k <;> rfl)
    | false => exact .inr (by cases k <;> rfl)

theorem Did.ends {op : RaceOp} {pc : RacePc} {a : Addr} (h : Did c r lock i op pc n)
    (ht : r.Tidy) (ha : pc.ends = some a) :
    n.pc.ends = some a ∨ n.reg.sessions.lookup c ≠ some a := by
  cases h with
  | @clean _ st b s _ _ hpc _ =>
      cases hpc with
      | endAbort | endQueue | endSubs => exact .inl ha
      | sweepAbort | sweepQueue | sweepSubs | backlog => cases ha
  | @unregister _ b _ =>
      cases ha
      obtain ⟨m, hm, hlookup⟩ := ht.removeOwn a
      refine .inr fun h => ?_
      rw [hm] at h
      rw [show ({ r with sessions := m } : SessionRegistry).sessions.lookup c = _ from hlookup c]
        at h
      split at h
      · cases h
      · next hne => exact hne h
  | _ => cases ha

theorem Did.not_returned {r : SessionRegistry} {lock : Option Nat} {op : RaceOp} {pc : RacePc}
    (h : Did c r lock i op pc n) (o : Option AttachOutcome) : pc ≠ .returned o := by
  rintro rfl
  cases h with
  | clean hpc _ => cases hpc

/-! ## One call of many -/

namespace RaceWorld

/-- The world after call `i`, which was `x`, took a step. -/
def after (w : RaceWorld) (i : Nat) (x : RaceCall) (n : Section) : RaceWorld :=
  { w with reg := n.reg, lock := n.lock, calls := w.calls.set i { x with pc := n.pc } }

/-- Some call of the world is like this. -/
def Has (w : RaceWorld) (q : RaceCall → Prop) : Prop := ∃ x ∈ w.calls, q x

variable {w w' : RaceWorld} {x : RaceCall}

/-- **What can happen**: a call is made, or one of those made takes a step. -/
theorem step_cases {act : RaceAction} (h : step c w act = some w') :
    (∃ op, act = .invoke op ∧ w.mayCall op ∧
      w' = { w with calls := w.calls ++ [⟨op, .start, w.returnedCalls⟩] }) ∨
    ∃ i x n, act = .run i ∧ w.calls[i]? = some x ∧ Did c w.reg w.lock i x.op x.pc n ∧
      w' = w.after i x n := by
  cases act with
  | invoke op =>
      simp only [step] at h
      split at h
      · next hop =>
        cases h
        exact .inl ⟨op, rfl, hop, rfl⟩
      · cases h
  | run i =>
      obtain ⟨x, hx, h⟩ := Option.bind_eq_some_iff.mp h
      obtain ⟨n, hn, rfl⟩ := Option.map_eq_some_iff.mp h
      exact .inr ⟨i, x, n, rfl, hx, RaceCall.did hn, rfl⟩

omit [HashOrder] in
theorem after_calls {j : Nat} {y : RaceCall} (h : (w.after i x n).calls[j]? = some y) :
    j ≠ i ∧ w.calls[j]? = some y ∨ j = i ∧ y = { x with pc := n.pc } := Cells.set_cases h

omit [HashOrder] in
theorem mem_after {y : RaceCall} (h : y ∈ (w.after i x n).calls) :
    (∃ j, j ≠ i ∧ w.calls[j]? = some y) ∨ y = { x with pc := n.pc } := by
  obtain ⟨j, hj⟩ := List.mem_iff_getElem?.mp h
  rcases after_calls hj with ⟨hne, hj⟩ | ⟨-, rfl⟩
  · exact .inl ⟨j, hne, hj⟩
  · exact .inr rfl

omit [HashOrder] in
theorem self_mem_after (hx : w.calls[i]? = some x) :
    { x with pc := n.pc } ∈ (w.after i x n).calls :=
  List.mem_iff_getElem?.mpr ⟨i, Cells.set_self hx⟩

omit [HashOrder] in
theorem other_mem_after {j : Nat} {y : RaceCall} (hne : j ≠ i) (hy : w.calls[j]? = some y) :
    y ∈ (w.after i x n).calls :=
  List.mem_iff_getElem?.mpr ⟨j, (List.getElem?_set_ne hne.symm).trans hy⟩

omit [HashOrder] in
theorem Has.of_after {q : RaceCall → Prop} (h : (w.after i x n).Has q) :
    q { x with pc := n.pc } ∨ w.Has q := by
  obtain ⟨y, hy, hq⟩ := h
  rcases mem_after hy with ⟨j, -, hj⟩ | rfl
  · exact .inr ⟨y, List.mem_of_getElem? hj, hq⟩
  · exact .inl hq

omit [HashOrder] in
theorem Has.after {q : RaceCall → Prop} (h : w.Has q) (hx : w.calls[i]? = some x)
    (hq : q x → q { x with pc := n.pc }) : (w.after i x n).Has q := by
  obtain ⟨y, hy, hqy⟩ := h
  obtain ⟨j, hj⟩ := List.mem_iff_getElem?.mp hy
  by_cases hji : j = i
  · subst hji
    rw [hx] at hj
    cases hj
    exact ⟨_, self_mem_after hx, hq hqy⟩
  · exact ⟨y, other_mem_after hji hj, hqy⟩

/-! ## Attaching to a session that is gone -/

/-- Some detach is about to unregister the session at `a`. -/
def Ends (w : RaceWorld) (a : Addr) : Prop := w.Has fun x => x.pc.ends = some a

omit [HashOrder] in
/-- What is about to be unregistered after a step was so before, or is so by the step. -/
theorem Ends.of_after {a : Addr} (h : (w.after i x n).Ends a) : n.pc.ends = some a ∨ w.Ends a :=
  Has.of_after h

omit [HashOrder] in
theorem ends_after_iff (hx : w.calls[i]? = some x) (hsame : n.pc.ends = x.pc.ends) (a : Addr) :
    (w.after i x n).Ends a ↔ w.Ends a := by
  constructor
  · intro h
    rcases h.of_after with hself | hold
    · exact ⟨x, List.mem_of_getElem? hx, hsame.symm.trans hself⟩
    · exact hold
  · exact fun h => Has.after h hx fun hself => hsame.trans hself

/-- Some attach is about to connect to a session that is not registered, or not for long. -/
def Doomed (c : Str) (w : RaceWorld) : Prop :=
  w.Has fun x => ∃ a present made, x.pc = .attachConn a present made ∧ a < w.reg.heap.length ∧
    (w.reg.sessions.lookup c ≠ some a ∨ w.Ends a)

omit [HashOrder] in
theorem Finished.not_doomed (h : w.Finished) : ¬ Doomed c w := by
  rintro ⟨x, hx, a, p, m, hpc, -⟩
  have hret := h x hx
  rw [RaceCall.hasReturned, hpc] at hret
  cases hret

/-- **Nothing orderly** saves a doomed attach. -/
theorem Doomed.step {act : RaceAction} (hd : Doomed c w) (ht : w.reg.Tidy) (ho : Orderly c w act)
    (h : step c w act = some w') : Doomed c w' := by
  obtain ⟨y, hy, a, p, m, hpc, hlt, hgone⟩ := hd
  rcases step_cases h with ⟨op, -, -, rfl⟩ | ⟨i, x, n, rfl, hx, hdid, rfl⟩
  · refine ⟨y, List.mem_append_left _ hy, a, p, m, hpc, hlt, hgone.imp_right ?_⟩
    rintro ⟨z, hz, he⟩
    exact ⟨z, List.mem_append_left _ hz, he⟩
  · obtain ⟨j, hj⟩ := List.mem_iff_getElem?.mp hy
    have hji : j ≠ i := by
      rintro rfl
      rw [hx] at hj
      cases hj
      have hmay := ho y hx
      rw [hpc] at hmay
      rcases hgone with hne | ⟨z, hz, he⟩
      · exact hne hmay.registered
      · exact hmay.staying z hz he
    have hle : w.reg.heap.length ≤ n.reg.heap.length := by
      rcases hdid.entries ht with ⟨hlen, -⟩ | ⟨clean, heq⟩
      · exact hlen.ge
      · rw [heq]
        simp [SessionRegistry.addSession]
    have hback : n.reg.sessions.lookup c = some a → w.reg.sessions.lookup c = some a := by
      intro ha
      rcases hdid.entries ht with ⟨-, hmap⟩ | ⟨clean, heq⟩
      · exact hmap c a ha
      · rw [heq] at ha
        have ha' := (AList.lookup_insert w.reg.sessions).symm.trans ha
        cases ha'
        exact absurd hlt (Nat.lt_irrefl _)
    refine ⟨y, other_mem_after hji hj, a, p, m, hpc, Nat.lt_of_lt_of_le hlt hle, ?_⟩
    rcases hgone with hne | ⟨z, hz, he⟩
    · exact .inl fun ha => hne (hback ha)
    · obtain ⟨l, hl⟩ := List.mem_iff_getElem?.mp hz
      by_cases hli : l = i
      · subst hli
        rw [hx] at hl
        cases hl
        rcases hdid.ends ht he with hstill | hne
        · exact .inr ⟨_, self_mem_after hx, hstill⟩
        · exact .inl hne
      · exact .inr ⟨z, other_mem_after hli hl, he⟩

end RaceWorld

end Entmoot
