/-
# `Entmoot.Dropped` — the count of dropped messages

A session whose offline queue is full drops the oldest message for each new one and
counts it.  `stats` adds up the counts of the sessions the map holds at the time,
and `/metrics` exports the sum as a counter, `entmoot_session_queue_dropped_total`.

The world is a registry and any number of `attach`, `detach`, `sweep` and `deliver`
calls on it, for any client ids, interleaved section by section: the first three
take the steps of `Entmoot.Races`, a delivery those of `deliverStep`.  `lost` is kept
beside the counts and knows nothing of them: it says by how much the queues fell
short of what was put into them.  A queue file longer than the queue may be is cut
when it is loaded, which drops nothing from a queue and is not in either number.

The sum is the number of messages lost as long as no session leaves the map with
messages to its account and no message is lost from a session outside the map
(`dropped_total_iff`); the first alone decides whether it ever decreases
(`total_neverDecreases_iff`).
-/
import Entmoot.Lib.Tally
import Entmoot.RaceSteps

namespace Entmoot

open SessionState (DeliverCall DeliverSection DeliverStep SendResult)

/-! ## Counts of a registry -/

namespace SessionRegistry

/-- The messages dropped by the session at an address. -/
def droppedAt (r : SessionRegistry) (a : Addr) : Nat := (r.heap[a]?).elim 0 fun s => s.inner.dropped

/-- The total that `stats` returns. -/
def totalDropped (r : SessionRegistry) : Nat := r.stats.2.2.2

variable {r r' : SessionRegistry} {a : Addr} {s s' : SessionState}

theorem droppedAt_of_session (h : r.heap[a]? = some s) : r.droppedAt a = s.inner.dropped := by
  rw [droppedAt, h]
  rfl

theorem totalDropped_eq (r : SessionRegistry) :
    r.totalDropped = Keyed.tally r.droppedAt r.sessions := by
  show (((Keyed.pairs r.sessions).filterMap fun e => r.heap[e.2]?).map fun s =>
    s.inner.dropped).sum =
    ((Keyed.pairs r.sessions).map fun e => r.droppedAt e.2).sum
  induction Keyed.pairs r.sessions with
  | nil => rfl
  | cons e es ih =>
      rw [List.map_cons, List.sum_cons, ← ih]
      cases he : r.heap[e.2]? with
      | none =>
          rw [List.filterMap_cons, he, droppedAt, he]
          exact (Nat.zero_add _).symm
      | some s =>
          rw [List.filterMap_cons, he, droppedAt_of_session he]
          rfl

/-- Every session has the queue limit of the registry. -/
def Uniform (r : SessionRegistry) : Prop := ∀ (a : Addr) s, r.heap[a]? = some s →
    s.maxQueue = r.maxQueue

/-- No session counts more or less than before. -/
structure SameCounts (r r' : SessionRegistry) : Prop where
  dropped : r'.droppedAt = r.droppedAt
  uniform : r.Uniform → r'.Uniform

theorem SameCounts.of_heap (hmax : r'.maxQueue = r.maxQueue) (hheap : r'.heap = r.heap) :
    SameCounts r r' where
  dropped := by
    funext b
    rw [droppedAt, droppedAt, hheap]
  uniform := fun h b t ht => (h b t (hheap ▸ ht)).trans hmax.symm

theorem uniform_set (hmax : r'.maxQueue = r.maxQueue) (hs : r.heap[a]? = some s)
    (hheap : r'.heap = r.heap.set a s') (hs' : s'.maxQueue = s.maxQueue) (h : r.Uniform) :
    r'.Uniform := by
  intro b t ht
  rw [hheap] at ht
  rw [hmax]
  rcases Cells.set_cases ht with ⟨-, hold⟩ | ⟨-, rfl⟩
  · exact h b t hold
  · exact hs'.trans (h a s hs)

theorem droppedAt_set_ne {b : Addr} (hheap : r'.heap = r.heap.set a s') (hne : b ≠ a) :
    r'.droppedAt b = r.droppedAt b := by
  rw [droppedAt, droppedAt, hheap, List.getElem?_set_ne (Ne.symm hne)]

theorem SameCounts.set (hmax : r'.maxQueue = r.maxQueue) (hs : r.heap[a]? = some s)
    (hheap : r'.heap = r.heap.set a s') (hs' : s'.maxQueue = s.maxQueue)
    (hdropped : s'.inner.dropped = s.inner.dropped) : SameCounts r r' where
  dropped := by
    funext b
    by_cases hb : b = a
    · subst hb
      have hnew : r'.heap[b]? = some s' := by
        rw [hheap]
        exact Cells.set_self hs
      rw [droppedAt_of_session hnew, droppedAt_of_session hs, hdropped]
    · exact droppedAt_set_ne hheap hb
  uniform := uniform_set hmax hs hheap hs'

/-- A new session has dropped nothing, which is what an address without one counts. -/
theorem SameCounts.concat (hmax : r'.maxQueue = r.maxQueue) (hheap : r'.heap = r.heap ++ [s])
    (hs : s.maxQueue = r.maxQueue) (hdropped : s.inner.dropped = 0) : SameCounts r r' where
  dropped := by
    funext b
    rw [droppedAt, droppedAt, hheap]
    rcases Nat.lt_trichotomy b r.heap.length with hlt | heq | hgt
    · rw [List.getElem?_append_left hlt]
    · subst heq
      rw [List.getElem?_concat_length, List.getElem?_eq_none (Nat.le_refl _)]
      exact hdropped
    · rw [List.getElem?_eq_none (Nat.le_of_lt hgt), List.getElem?_eq_none]
      rw [List.length_append]
      exact hgt
  uniform := by
    intro h b t ht
    rw [hheap] at ht
    rw [hmax]
    rcases Cells.concat_cases ht with hold | ⟨-, rfl⟩
    · exact h b t hold
    · exact hs

theorem totalDropped_insert (h : SameCounts r r') {c : Str}
    (hmap : r'.sessions = r.sessions.insert c a) :
    r'.totalDropped + Keyed.share r.droppedAt r.sessions c = r.totalDropped + r.droppedAt a := by
  rw [totalDropped_eq, totalDropped_eq, h.dropped, hmap]
  exact Keyed.tally_insert _ _ _ _

theorem totalDropped_of_sessions (h : SameCounts r r') (hmap : r'.sessions = r.sessions) :
    r'.totalDropped = r.totalDropped := by
  rw [totalDropped_eq, totalDropped_eq, h.dropped, hmap]

/-- A session that counts more adds to the total what it counts, if it is registered. -/
theorem Tidy.totalDropped_set (ht : r.Tidy) (r' : SessionRegistry) (hs : r.heap[a]? = some s)
    (hmap : r'.sessions = r.sessions) (hheap : r'.heap = r.heap.set a s') (n : Nat)
    (hdropped : s'.inner.dropped = s.inner.dropped + n) :
    r'.totalDropped = r.totalDropped + if r.sessions.lookup s.clientId = some a then n else 0 := by
  have hnew : r'.droppedAt a = r.droppedAt a + n := by
    have hs' : r'.heap[a]? = some s' := by
      rw [hheap]
      exact Cells.set_self hs
    rw [droppedAt_of_session hs', droppedAt_of_session hs, hdropped]
  -- only the client id of the session can be its key
  have hchange := Keyed.tally_change (f := r.droppedAt) (g := r'.droppedAt)
    (m := r.sessions) s.clientId
    fun k b hb hne => droppedAt_set_ne hheap fun hba => by
      subst hba
      exact hne (ht.clientId_eq hb hs).symm
  rw [totalDropped_eq, totalDropped_eq, hmap]
  split
  · next hreg =>
    rw [Keyed.share_of_lookup hreg, Keyed.share_of_lookup hreg, hnew] at hchange
    omega
  · next hreg =>
    have hshare : Keyed.share r'.droppedAt r.sessions s.clientId =
        Keyed.share r.droppedAt r.sessions s.clientId := by
      cases hb : r.sessions.lookup s.clientId with
      | none =>
          rw [Keyed.share, Keyed.share, hb]
          rfl
      | some b =>
          rw [Keyed.share_of_lookup hb, Keyed.share_of_lookup hb]
          exact droppedAt_set_ne hheap fun hba => hreg (hba ▸ hb)
    omega

theorem SameCounts.set_of_core (hmax : r'.maxQueue = r.maxQueue) (hs : r.heap[a]? = some s)
    (hheap : r'.heap = r.heap.set a s') (hcore : s'.core = s.core) : SameCounts r r' := by
  have hlimit : s'.core.maxQueue = s.core.maxQueue := by rw [hcore]
  have hdropped : s'.core.inner.dropped = s.core.inner.dropped := by rw [hcore]
  exact .set hmax hs hheap hlimit hdropped

theorem removeOwn_heap (r : SessionRegistry) (a : Addr) :
    (r.removeOwn a).maxQueue = r.maxQueue ∧ (r.removeOwn a).heap = r.heap := by
  rw [removeOwn]
  split
  · exact ⟨rfl, rfl⟩
  · split
    · exact ⟨rfl, rfl⟩
    · exact ⟨rfl, rfl⟩

/-! ## Entries that go -/

theorem Tidy.total_removeOwn (ht : r.Tidy) (a : Addr) :
    ∃ gone, (r.removeOwn a).totalDropped + gone = r.totalDropped ∧
      (gone = 0 ↔ ∀ k, r.sessions.lookup k = some a → r.droppedAt a = 0) := by
  have hsame : SameCounts r (r.removeOwn a) :=
    .of_heap (r.removeOwn_heap a).1 (r.removeOwn_heap a).2
  by_cases hown : ∃ s, r.heap[a]? = some s ∧ r.sessions.lookup s.clientId = some a
  · obtain ⟨s, hs, hreg⟩ := hown
    have hmap : (r.removeOwn a).sessions = r.sessions.erase s.clientId := by
      simp only [SessionRegistry.removeOwn, hs, if_pos hreg]
    refine ⟨r.droppedAt a, ?_, fun h _ _ => h, fun h => h _ hreg⟩
    rw [totalDropped_eq, totalDropped_eq, hsame.dropped, hmap,
      ← Keyed.share_of_lookup (f := r.droppedAt) hreg]
    exact Keyed.tally_erase _ _ _
  · have hfree : ∀ k, r.sessions.lookup k ≠ some a := by
      intro k hk
      obtain ⟨s, hs, hcid⟩ := ht.entries k a hk
      exact hown ⟨s, hs, hcid ▸ hk⟩
    have hmap : r.removeOwn a = r := by
      rw [SessionRegistry.removeOwn]
      split
      · rfl
      · next s hs => exact if_neg (hfree s.clientId)
    refine ⟨0, ?_, fun _ k hk => absurd hk (hfree k), fun _ => rfl⟩
    rw [hmap]
    rfl

theorem total_sweepKept (r : SessionRegistry) (expiry : Duration) (now : Instant) :
    ∃ gone, (r.sweepKept expiry now).totalDropped + gone = r.totalDropped ∧
      (gone = 0 ↔ ∀ k a, r.sessions.lookup k = some a → r.expiredAt expiry now a →
        r.droppedAt a = 0) := by
  have hsame : SameCounts r (r.sweepKept expiry now) := .of_heap rfl rfl
  refine ⟨Keyed.tally r.droppedAt (Keyed.retain (fun _ a => !!r.expiredAt expiry now a) r.sessions),
    ?_, ?_⟩
  · rw [totalDropped_eq, totalDropped_eq, hsame.dropped]
    exact Keyed.tally_retain r.droppedAt (fun _ a => !r.expiredAt expiry now a) r.sessions
  · rw [Keyed.tally_eq_zero]
    refine forall₂_congr fun k a => ?_
    rw [Keyed.lookup_retain, Option.filter_eq_some_iff, Bool.not_not]
    exact and_imp

theorem total_addSession (r : SessionRegistry) (c : Str) (queuePath subsPath : Option Path) :
    (r.addSession c queuePath subsPath).1.totalDropped + Keyed.share r.droppedAt r.sessions c =
      r.totalDropped := by
  have hsame : SameCounts r (r.addSession c queuePath subsPath).1 := .concat rfl rfl rfl rfl
  have hnew : r.droppedAt r.heap.length = 0 := by
    rw [droppedAt, List.getElem?_eq_none (Nat.le_refl _)]
    rfl
  have hinsert := totalDropped_insert hsame (c := c) rfl
  rw [hnew] at hinsert
  exact hinsert

end SessionRegistry

open SessionRegistry (SameCounts)

/-- The queue limit and the count as they were. -/
structure SessionState.SameCount (s s' : SessionState) : Prop where
  maxQueue : s'.maxQueue = s.maxQueue
  dropped : s'.inner.dropped = s.inner.dropped

theorem SessionState.SameCount.of_noted {s s' : SessionState} (h : s.Noted s') :
    s.SameCount s' := by
  cases h <;> exact ⟨rfl, rfl⟩

/-! ## Sections of attach, detach and sweep -/

/-- The sessions the next section of a call takes out of the map, if they are in it. -/
inductive Leaves (r : SessionRegistry) (lock : Option Nat) (c : Str) : RaceOp → RacePc → Addr → Prop
  /-- cleanSession=1: another session is entered in its place -/
  | replaced {identity : Str} {clean : Bool} {sink : Sender} {kick : Notify} {a : Addr}
      (ha : r.sessions.lookup c = some a) :
      Leaves r lock c (.attach identity clean sink kick) .makeClean a
  | unregistered {b : Addr} {epoch : Nat} {clean : Bool} {now : Instant} {a : Addr}
      (hlock : lock = none) : Leaves r lock c (.detach b epoch clean now) (.unregister a) a
  | expired {expiry : Duration} {now : Instant} {a : Addr} (hlock : lock = none)
      (ha : r.expiredAt expiry now a) : Leaves r lock c (.sweep expiry now) .start a

/-- What leaves the map with the next section has nothing to its account. -/
def LeavesNothing (r : SessionRegistry) (lock : Option Nat) (c : Str) (op : RaceOp) (pc : RacePc) :
    Prop :=
  ∀ k a, r.sessions.lookup k = some a → Leaves r lock c op pc a → r.droppedAt a = 0

/-- An attach that is looking for files has found no session. -/
def RacePc.opens : RacePc → Bool
  | .queueExists | .subsExists | .load _ => true
  | _ => false

section
variable [HashOrder] {c : Str} {r : SessionRegistry} {lock : Option Nat} {i : Nat} {op : RaceOp}
  {pc : RacePc} {n : Section}

theorem Did.sameCounts (h : Did c r lock i op pc n) : SameCounts r n.reg := by
  cases h with
  | find _ _ | replace _ _ | clear _ _ | look _ _ | foundQueue _ | noQueue _ | subsExists
  | sweep _ =>
      exact .of_heap rfl rfl
  | kick hs => exact .set_of_core rfl hs rfl (Touched.kickCurrent _).core
  | abort hs => exact .set_of_core rfl hs rfl (Touched.abortSubs _).core
  | removeQueue | removeSubs =>
      have hrem := SessionRegistry.sameConfig_removeFile r
      exact .of_heap (hrem _).1.maxQueue (hrem _).2.1
  | makeClean | load _ => exact .concat rfl rfl rfl rfl
  | attachConn _ _ hs =>
      refine .set rfl hs rfl ?_ ?_
      · rw [SessionState.attachConnLocked_session]
      · rw [SessionState.attachConnLocked_session]
        rfl
  | @clean _ st a s _ _ _ hs =>
      obtain ⟨s', hheap, hs'⟩ := cleanup_heap hs st
      exact .set_of_core (sameConfig_cleanup a s st).1.maxQueue hs hheap hs'.core
  | @detach a epoch _ now s hs =>
      have hsame : s.SameCount (s.detachConn epoch now).1 :=
        .of_noted (s.noted_detachConn epoch now)
      exact .set rfl hs rfl hsame.maxQueue hsame.dropped
  | @unregister _ a _ => exact .of_heap (r.removeOwn_heap a).1 (r.removeOwn_heap a).2

theorem RaceCall.attach_of_makeClean {x : RaceCall} (h : x.next? c r lock i = some n)
    (hpc : x.pc = .makeClean) :
    ∃ identity clean sink kick, x.op = .attach identity clean sink kick := by
  obtain ⟨op, pc, before⟩ := x
  cases hpc
  cases op with
  | attach identity clean sink kick => exact ⟨identity, clean, sink, kick, rfl⟩
  | detach _ _ _ _ => cases h
  | sweep _ _ => cases h

theorem RaceCall.detach_of_unregister {x : RaceCall} {a : Addr} (h : x.next? c r lock i = some n)
    (hpc : x.pc = .unregister a) : ∃ b epoch clean now, x.op = .detach b epoch clean now := by
  obtain ⟨op, pc, before⟩ := x
  cases hpc
  cases op with
  | attach _ _ _ _ => cases h
  | detach b epoch clean now => exact ⟨b, epoch, clean, now, rfl⟩
  | sweep _ _ => cases h

omit [HashOrder] in
theorem SessionRegistry.SameCounts.unmoved {r' : SessionRegistry} (h : SameCounts r r')
    (hmap : r'.sessions = r.sessions) (hnone : ∀ a, ¬ Leaves r lock c op pc a) :
    ∃ gone, r'.totalDropped + gone = r.totalDropped ∧ (gone = 0 ↔ LeavesNothing r lock c op pc) :=
  ⟨0, SessionRegistry.totalDropped_of_sessions h hmap, fun _ _ a _ ha =>
    absurd ha (hnone a), fun _ => rfl⟩

/-- **What a section takes from the total** is what leaves the map with it. -/
theorem RaceCall.total {x : RaceCall} (h : x.next? c r lock i = some n) (ht : r.Tidy)
    (hopens : x.pc.opens → r.sessions.lookup c = none) :
    ∃ gone, n.reg.totalDropped + gone = r.totalDropped ∧
      (gone = 0 ↔ LeavesNothing r lock c x.op x.pc) := by
  have hdid := x.did h
  have hsame := hdid.sameCounts
  obtain ⟨op, pc, before⟩ := x
  cases hdid with
  | @find _ _ _ a _ ha =>
      refine ⟨0, ?_, fun _ _ _ _ hl => (by cases hl), fun _ => rfl⟩
      have hinsert := SessionRegistry.totalDropped_insert hsame (c := c) rfl
      rw [Keyed.share_of_lookup ha] at hinsert
      exact Nat.add_right_cancel hinsert
  | replace _ _ | clear _ _ | look _ _ | foundQueue _ | noQueue _ | subsExists | kick _ | abort _
  | attachConn _ _ _ | detach _ => exact hsame.unmoved rfl fun _ hl => by cases hl
  | removeQueue | removeSubs =>
      exact hsame.unmoved (SessionRegistry.sameConfig_removeFile r _).2.2 fun _ hl => by cases hl
  | @clean _ st a s _ _ hpc hs =>
      refine hsame.unmoved (sameConfig_cleanup a s st).2 fun _ hl => ?_
      cases hl <;> cases hpc
  | makeClean =>
      obtain ⟨identity, clean, sink, kick, rfl⟩ := attach_of_makeClean h rfl
      refine ⟨_, r.total_addSession c none none, ?_, ?_⟩
      · intro hzero k a hk hl
        cases hl with
        | replaced ha =>
          rw [Keyed.share_of_lookup ha] at hzero
          exact hzero
      · intro hleaves
        cases ha : r.sessions.lookup c with
        | none =>
            rw [Keyed.share, ha]
            rfl
        | some a =>
            rw [Keyed.share_of_lookup ha]
            exact hleaves c a ha (.replaced ha)
  | load present =>
      refine ⟨0, ?_, fun _ _ _ _ hl => (by cases hl), fun _ => rfl⟩
      have hadd := r.total_addSession c (r.file c .queue) (r.file c .subs)
      rw [Keyed.share, hopens rfl] at hadd
      exact hadd
  | @unregister _ a hlock =>
      obtain ⟨b, epoch, clean, now, rfl⟩ := detach_of_unregister h rfl
      obtain ⟨gone, htotal, hzero⟩ := ht.total_removeOwn a
      refine ⟨gone, htotal, hzero.trans ⟨?_, ?_⟩⟩
      · intro hkeys k a' hk hl
        cases hl with
        | unregistered _ => exact hkeys k hk
      · exact fun hleaves k hk => hleaves k a hk (.unregistered hlock)
  | @sweep expiry now hlock =>
      obtain ⟨gone, htotal, hzero⟩ := r.total_sweepKept expiry now
      refine ⟨gone, htotal, hzero.trans ⟨?_, ?_⟩⟩
      · intro hkeys k a hk hl
        cases hl with
        | expired _ ha => exact hkeys k a hk ha
      · exact fun hleaves k a hk ha => hleaves k a hk (.expired hlock ha)

/-- The registry lock and the map: taken when free, and the map kept while it is not free,
but for the section that gives it back. -/
theorem Did.locking (h : Did c r lock i op pc n) :
    (pc.locked = false ∧ lock = none ∧ n.lock = if n.pc.locked then some i else none) ∨
    (n.pc.locked = pc.locked ∧ n.lock = lock ∧ n.reg.sessions = r.sessions) ∨
    (pc.locked ∧ n.pc.locked = false ∧ n.lock = none) := by
  cases h with
  | find hlock _ | replace hlock _ | clear hlock _ | look hlock _ | unregister hlock =>
      exact .inl ⟨rfl, hlock, rfl⟩
  | sweep hlock =>
      refine .inl ⟨rfl, hlock, ?_⟩
      cases r.sweepGone _ _ <;> rfl
  | kick _ | abort _ | foundQueue _ | noQueue _ | subsExists | attachConn _ _ _ =>
      exact .inr (.inl ⟨rfl, rfl, rfl⟩)
  | removeQueue | removeSubs =>
      exact .inr (.inl ⟨rfl, rfl, (SessionRegistry.sameConfig_removeFile r _).2.2⟩)
  | @detach a epoch clean now s hs =>
      refine .inr (.inl ⟨?_, rfl, rfl⟩)
      show (if (s.detachConn epoch now).2 && clean then RacePc.ending .abort a
        else RacePc.returned none).locked = false
      split <;> rfl
  | @clean _ st a s pc pc' hpc hs =>
      refine .inr (.inl ⟨?_, rfl, (sameConfig_cleanup a s st).2⟩)
      have hfree : pc.locked = false := by cases hpc <;> rfl
      exact hpc.free.2.1.trans hfree.symm
  | makeClean | load _ => exact .inr (.inr ⟨rfl, rfl, rfl⟩)

/-- An attach that starts to look for files has found no session, and finds none later. -/
theorem Did.opens (h : Did c r lock i op pc n) (hopens : pc.opens → r.sessions.lookup c = none)
    (hn : n.pc.opens) : n.reg.sessions.lookup c = none := by
  cases h with
  | look _ ha => exact ha
  | foundQueue _ | noQueue _ | subsExists => exact hopens rfl
  | @detach a epoch clean now s hs =>
      have hshut : (if (s.detachConn epoch now).2 && clean then RacePc.ending .abort a
          else RacePc.returned none).opens = false := by split <;> rfl
      rw [hshut] at hn
      cases hn
  | @sweep expiry now _ =>
      have hshut : (SessionRegistry.sweepNext (r.sweepGone expiry now)).opens = false := by
        cases r.sweepGone expiry now <;> rfl
      rw [hshut] at hn
      cases hn
  | @clean _ st a s pc pc' hpc hs =>
      cases hpc with
      | sweepSubs _ rest => cases rest <;> cases hn
      | _ => cases hn
  | _ => cases hn

end

/-! ## Sections of deliver -/

namespace SessionState

/-- The next section of a call queues its message, and the queue is full. -/
def Overflows (s : SessionState) (x : DeliverCall) : Prop :=
  x.pc = .queueing ∧ s.inner.sink = none ∧ s.maxQueue ≤ s.inner.queue.length

instance (s : SessionState) (x : DeliverCall) : Decidable (s.Overflows x) :=
  inferInstanceAs (Decidable (_ ∧ _ ∧ _))

/-- By how much the queue falls short of what it held and was given. -/
def shortfall (s : SessionState) (o : DeliverStep) : Nat :=
  if o.call.pc = .done .queued then s.inner.queue.length + 1 - o.session.inner.queue.length else 0

variable (s : SessionState)

/-- A queue with room for something loses one message exactly if it is full. -/
theorem pushQueue_length (m : Msg) (hmax : s.maxQueue ≠ 0) :
    s.inner.queue.length + 1 - (s.pushQueue m).inner.queue.length =
      if s.maxQueue ≤ s.inner.queue.length then 1 else 0 := by
  rw [pushQueue]
  by_cases hfull : s.maxQueue ≤ s.inner.queue.length
  · have hge : s.inner.queue.length ≥ s.maxQueue := hfull
    simp only [if_pos hge, List.length_append, List.length_tail, List.length_singleton]
    omega
  · have hge : ¬ s.inner.queue.length ≥ s.maxQueue := hfull
    simp only [if_neg hge, List.length_append, List.length_singleton]
    omega

variable {s} {d : Disk} {x : DeliverCall} {sent : SendResult} {now : Instant} {o : DeliverStep}

/-- **What a section of a delivery counts** is what the queue loses: one message when it
is full. -/
theorem deliverStep_counts (h : s.deliverStep d x sent now = some o)
    (hmax : x.pc = .queueing → s.maxQueue ≠ 0) :
    o.session.maxQueue = s.maxQueue ∧ s.shortfall o = (if s.Overflows x then 1 else 0) ∧
      o.session.inner.dropped = s.inner.dropped + s.shortfall o := by
  have hidle : ∀ s' : SessionState, SameCount s s' → ¬ s.Overflows x → s.shortfall o = 0 →
      s'.maxQueue = s.maxQueue ∧ s.shortfall o = (if s.Overflows x then 1 else 0) ∧
        s'.inner.dropped = s.inner.dropped + s.shortfall o := by
    intro s' hs hno hzero
    rw [hzero, if_neg hno]
    exact ⟨hs.maxQueue, rfl, hs.dropped⟩
  have helsewhere : ∀ {pc : SessionState.DeliverPc}, x.pc = pc → pc ≠ .queueing → ¬ s.Overflows x :=
    fun hpc hne hover => hne (hpc.symm.trans hover.1)
  cases deliverStep_section h with
  | live hpc _ =>
      exact hidle _ (.of_noted (s.noted_publishFor _ _)) (helsewhere hpc fun h => by cases h) rfl
  | drop hpc _ _ | offline hpc _ _ | sent hpc | timeout hpc _ | closed hpc =>
      exact hidle s ⟨rfl, rfl⟩ (helsewhere hpc fun h => by cases h) rfl
  | evict hpc =>
      exact hidle _ (.of_noted (s.noted_evictSlow _ _)) (helsewhere hpc fun h => by cases h) rfl
  | clear hpc =>
      exact hidle _ (.of_noted (s.noted_clearSink _ _)) (helsewhere hpc fun h => by cases h) rfl
  | retry hpc hsink =>
      refine hidle s ⟨rfl, rfl⟩ (fun hover => ?_) rfl
      have hnone := hover.2.1
      rw [hsink] at hnone
      cases hnone
  | queue hpc hsink =>
      have hloss := s.pushQueue_length x.msg (hmax hpc)
      have hover : s.Overflows x ↔ s.maxQueue ≤ s.inner.queue.length :=
        ⟨fun h => h.2.2, fun h => ⟨hpc, hsink, h⟩⟩
      have hshort : s.shortfall ⟨s.pushQueue x.msg, (s.pushQueue x.msg).persistQueue d,
          { x with pc := .done .queued }, none, none⟩ =
            if s.maxQueue ≤ s.inner.queue.length then 1 else 0 := by
        rw [← hloss]
        exact if_pos rfl
      refine ⟨rfl, ?_, ?_⟩
      · rw [hshort]
        simp only [hover]
      · rw [hshort]
        show (if s.inner.queue.length ≥ s.maxQueue then s.inner.dropped + 1 else s.inner.dropped) =
          _
        by_cases hfull : s.maxQueue ≤ s.inner.queue.length
        · rw [if_pos hfull, if_pos hfull]
        · rw [if_neg hfull, if_neg hfull]
          rfl

end SessionState

/-! ## The system -/

/-- A call, and where it stands. -/
inductive DropCall where
  /-- an attach, detach or sweep; only an attach has to do with the client id -/
  | registry (clientId : Str) (op : RaceOp) (pc : RacePc)
  | deliver (a : Addr) (x : DeliverCall)
  deriving DecidableEq

inductive DropAction where
  | invoke (clientId : Str) (op : RaceOp)
  | deliver (a : Addr) (m : Msg) (qos : QoS)
  /-- the next section of a call; `sent` is how a send ends -/
  | run (i : Nat) (sent : SendResult) (now : Instant)

structure DropWorld where
  reg : SessionRegistry
  /-- the call that holds the registry lock -/
  lock : Option Nat
  calls : List DropCall
  /-- the messages dropped from full offline queues -/
  lost : Nat

namespace DropWorld

def init (maxQueue : Nat) (slowGrace : Option Duration) (queueDir : Bool) (disk : Disk) :
    DropWorld :=
  ⟨.new maxQueue slowGrace queueDir disk, none, [], 0⟩

/-- The `dropped` of `stats`, as exported. -/
def total (w : DropWorld) : Nat := w.reg.totalDropped

def step [HashOrder] (w : DropWorld) : DropAction → Option DropWorld
  | .invoke c op => some { w with calls := w.calls ++ [.registry c op .start] }
  | .deliver a m qos => some { w with calls := w.calls ++ [.deliver a ⟨m, qos, .readSink⟩] }
  | .run i sent now =>
      match w.calls[i]? with
      | none => none
      | some (.registry c op pc) =>
          (RaceCall.next? c w.reg w.lock i ⟨op, pc, []⟩).map fun n =>
            { w with reg := n.reg, lock := n.lock, calls := w.calls.set i (.registry c op n.pc) }
      | some (.deliver a x) =>
          w.reg.heap[a]?.bind fun s =>
            (s.deliverStep w.reg.disk x sent now).map fun o =>
              { w with
                reg := { w.reg.setSession a o.session with disk := o.disk }
                calls := w.calls.set i (.deliver a o.call)
                lost := w.lost + s.shortfall o }

/-! ## The conditions -/

/-- No session leaves the map with messages to its account. -/
def KeepsCounts (w : DropWorld) : DropAction → Prop
  | .run i _ _ => ∀ c op pc, w.calls[i]? = some (.registry c op pc) →
      LeavesNothing w.reg w.lock c op pc
  | _ => True

/-- A message is dropped from the queue of a registered session only. -/
def CountsLost (w : DropWorld) : DropAction → Prop
  | .run i _ _ => ∀ a x s, w.calls[i]? = some (.deliver a x) → w.reg.heap[a]? = some s →
      s.Overflows x → w.reg.sessions.lookup s.clientId = some a
  | _ => True

/-! ## Steps -/

structure Inv (w : DropWorld) : Prop where
  tidy : w.reg.Tidy
  uniform : w.reg.Uniform
  /-- a delivery queues only where there is a queue -/
  queueing : ∀ (i : Nat) a x, w.calls[i]? = some (.deliver a x) → x.pc = .queueing →
    w.reg.maxQueue ≠ 0
  locked : ∀ (i : Nat) c op pc, w.calls[i]? = some (.registry c op pc) → pc.locked → w.lock = some i
  opens : ∀ (i : Nat) c op pc, w.calls[i]? = some (.registry c op pc) → pc.opens →
    w.reg.sessions.lookup c = none

theorem Inv.init (maxQueue : Nat) (slowGrace : Option Duration) (queueDir : Bool) (disk : Disk) :
    Inv (init maxQueue slowGrace queueDir disk) where
  tidy := {
    entries := fun _ _ h => by cases h
    queuePath := fun _ _ h => by cases h
    subsPath := fun _ _ h => by cases h }
  uniform := fun _ _ h => by cases h
  queueing := fun _ _ _ h => by cases h
  locked := fun _ _ _ _ h => by cases h
  opens := fun _ _ _ _ h => by cases h

variable {w w' : DropWorld} {i : Nat}

theorem Inv.invoke (h : Inv w) {y : DropCall}
    (hy : (∃ c op, y = .registry c op .start) ∨ ∃ a m qos, y = .deliver a ⟨m, qos, .readSink⟩) :
    Inv { w with calls := w.calls ++ [y] } where
  tidy := h.tidy
  uniform := h.uniform
  queueing := by
    intro j a x hx hpc
    rcases Cells.concat_cases hx with hold | ⟨-, rfl⟩
    · exact h.queueing j a x hold hpc
    · rcases hy with ⟨c, op, heq⟩ | ⟨b, m, qos, heq⟩
      · cases heq
      · cases heq
        cases hpc
  locked := by
    intro j c op pc hx hlocked
    rcases Cells.concat_cases hx with hold | ⟨-, rfl⟩
    · exact h.locked j c op pc hold hlocked
    · rcases hy with ⟨c, op, heq⟩ | ⟨b, m, qos, heq⟩
      · cases heq
        cases hlocked
      · cases heq
  opens := by
    intro j c op pc hx hopens
    rcases Cells.concat_cases hx with hold | ⟨-, rfl⟩
    · exact h.opens j c op pc hold hopens
    · rcases hy with ⟨c, op, heq⟩ | ⟨b, m, qos, heq⟩
      · cases heq
        cases hopens
      · cases heq

theorem locked_of_opens {pc : RacePc} (h : pc.opens) : pc.locked := by
  cases pc <;> first | rfl | cases h

section
variable [HashOrder]

theorem Inv.registry (h : Inv w) {c : Str} {op : RaceOp} {pc : RacePc}
    (hx : w.calls[i]? = some (.registry c op pc)) {n : Section}
    (hn : RaceCall.next? c w.reg w.lock i ⟨op, pc, []⟩ = some n) :
    Inv { w with reg := n.reg, lock := n.lock, calls := w.calls.set i (.registry c op n.pc) } := by
  have hdid : Did c w.reg w.lock i op pc n := RaceCall.did hn
  -- while another call holds the lock, it keeps it, and the map stays
  have hother : ∀ j, j ≠ i → w.lock = some j → n.lock = some j ∧
      n.reg.sessions = w.reg.sessions := by
    intro j hji hj
    rcases hdid.locking with ⟨-, hnone, -⟩ | ⟨-, hlock, hmap⟩ | ⟨hlocked, -, -⟩
    · rw [hj] at hnone
      cases hnone
    · exact ⟨hlock.trans hj, hmap⟩
    · rw [h.locked i c op pc hx hlocked] at hj
      exact absurd (Option.some.inj hj).symm hji
  refine ⟨hdid.tidy h.tidy, hdid.sameCounts.uniform h.uniform, ?_, ?_, ?_⟩
  · intro j a x hj hpc
    rw [(hdid.keeps h.tidy).maxQueue]
    rcases Cells.set_cases hj with ⟨-, hold⟩ | ⟨-, heq⟩
    · exact h.queueing j a x hold hpc
    · cases heq
  · intro j c' op' pc' hj hlocked
    rcases Cells.set_cases hj with ⟨hji, hold⟩ | ⟨rfl, heq⟩
    · exact (hother j hji (h.locked j c' op' pc' hold hlocked)).1
    · cases heq
      rcases hdid.locking with ⟨-, -, hlock⟩ | ⟨hsame, hlock, -⟩ | ⟨-, hfree, -⟩
      · rw [if_pos hlocked] at hlock
        exact hlock
      · exact hlock.trans (h.locked j c op pc hx (hsame ▸ hlocked))
      · rw [hfree] at hlocked
        cases hlocked
  · intro j c' op' pc' hj hopens
    rcases Cells.set_cases hj with ⟨hji, hold⟩ | ⟨rfl, heq⟩
    · have hmap := (hother j hji (h.locked j c' op' pc' hold (locked_of_opens hopens))).2
      show n.reg.sessions.lookup c' = none
      rw [hmap]
      exact h.opens j c' op' pc' hold hopens
    · cases heq
      exact hdid.opens (h.opens j c op pc hx) hopens

omit [HashOrder] in
theorem Inv.deliver (h : Inv w) {a : Addr} {x : DeliverCall} {s : SessionState} {sent : SendResult}
    {now : Instant} {o : DeliverStep} (hx : w.calls[i]? = some (.deliver a x))
    (hs : w.reg.heap[a]? = some s) (ho : s.deliverStep w.reg.disk x sent now = some o) (k : Nat) :
    Inv ⟨{ w.reg.setSession a o.session with disk := o.disk }, w.lock,
      w.calls.set i (.deliver a o.call),
      k⟩ := by
  have hmax : x.pc = .queueing → s.maxQueue ≠ 0 := fun hpc => by
    rw [h.uniform a s hs]
    exact h.queueing i a x hx hpc
  have hkeeps : Keeps w.reg { w.reg.setSession a o.session with disk := o.disk } :=
    .set ⟨rfl, rfl, rfl⟩ hs (.deliverStep ho) rfl
  refine ⟨h.tidy.keep hkeeps List.length_set fun _ _ h => h, ?_, ?_, ?_, ?_⟩
  · exact SessionRegistry.uniform_set (r := w.reg) rfl hs rfl
      (SessionState.deliverStep_counts ho hmax).1
      h.uniform
  · intro j b y hj hpc
    show w.reg.maxQueue ≠ 0
    rcases Cells.set_cases hj with ⟨-, hold⟩ | ⟨rfl, heq⟩
    · exact h.queueing j b y hold hpc
    · cases heq
      cases SessionState.deliverStep_section ho with
      | offline _ _ hno => exact fun hzero => hno (.inr ((h.uniform a s hs).trans hzero))
      | live _ _ | drop _ _ _ | sent _ | timeout _ _ | closed _ | evict _ | clear _ | retry _ _
      | queue _ _ =>
          cases hpc
  · intro j c op pc hj hlocked
    rcases Cells.set_cases hj with ⟨-, hold⟩ | ⟨-, heq⟩
    · exact h.locked j c op pc hold hlocked
    · cases heq
  · intro j c op pc hj hopens
    rcases Cells.set_cases hj with ⟨-, hold⟩ | ⟨-, heq⟩
    · exact h.opens j c op pc hold hopens
    · cases heq

/-- A section that runs is one of a registry call or of a delivery. -/
theorem step_run {sent : SendResult} {now : Instant} (hstep : w.step (.run i sent now) = some w') :
    (∃ c op pc n, w.calls[i]? = some (.registry c op pc) ∧
      RaceCall.next? c w.reg w.lock i ⟨op, pc, []⟩ = some n ∧
      w' = ⟨n.reg, n.lock, w.calls.set i (.registry c op n.pc), w.lost⟩) ∨
    ∃ a x s o, w.calls[i]? = some (.deliver a x) ∧ w.reg.heap[a]? = some s ∧
      s.deliverStep w.reg.disk x sent now = some o ∧
      w' = ⟨{ w.reg.setSession a o.session with disk := o.disk }, w.lock,
        w.calls.set i (.deliver a o.call), w.lost + s.shortfall o⟩ := by
  cases hy : w.calls[i]? with
  | none =>
      simp only [DropWorld.step, hy] at hstep
      cases hstep
  | some y =>
      cases y with
      | registry c op pc =>
          simp only [DropWorld.step, hy] at hstep
          obtain ⟨n, hn, rfl⟩ := Option.map_eq_some_iff.mp hstep
          exact .inl ⟨c, op, pc, n, rfl, hn, rfl⟩
      | deliver a x =>
          simp only [DropWorld.step, hy] at hstep
          obtain ⟨s, hs, hmap⟩ := Option.bind_eq_some_iff.mp hstep
          obtain ⟨o, ho, rfl⟩ := Option.map_eq_some_iff.mp hmap
          exact .inr ⟨a, x, s, o, rfl, hs, ho, rfl⟩

/-! ## The account of a step -/

/-- What a step takes from the total, what it adds, and what is lost in it. -/
structure Accounts (w w' : DropWorld) (act : DropAction) (gone counted short : Nat) : Prop where
  total : w'.total + gone = w.total + counted
  lost : w'.lost = w.lost + short
  le : counted ≤ short
  one : gone = 0 ∨ counted = 0
  keeps : gone = 0 ↔ w.KeepsCounts act
  counts : counted = short ↔ w.CountsLost act

theorem Inv.registry_accounts (h : Inv w) {c : Str} {op : RaceOp} {pc : RacePc} {n : Section}
    (hx : w.calls[i]? = some (.registry c op pc))
    (hn : RaceCall.next? c w.reg w.lock i ⟨op, pc, []⟩ = some n) (sent : SendResult)
    (now : Instant) :
    ∃ gone, Accounts w ⟨n.reg, n.lock, w.calls.set i (.registry c op n.pc), w.lost⟩
      (.run i sent now)
      gone 0 0 := by
  obtain ⟨gone, htotal, hzero⟩ := RaceCall.total hn h.tidy (h.opens i c op pc hx)
  refine ⟨gone, htotal, rfl, le_rfl, .inr rfl, hzero.trans ⟨?_, ?_⟩, iff_of_true rfl ?_⟩
  · intro hleaves c' op' pc' hx'
    rw [hx] at hx'
    cases hx'
    exact hleaves
  · exact fun hkeeps => hkeeps c op pc hx
  · intro a x s hx'
    rw [hx] at hx'
    cases hx'

omit [HashOrder] in
theorem Inv.deliver_accounts (h : Inv w) {a : Addr} {x : DeliverCall} {s : SessionState}
    {sent : SendResult} {now : Instant} {o : DeliverStep} (hx : w.calls[i]? = some (.deliver a x))
    (hs : w.reg.heap[a]? = some s) (ho : s.deliverStep w.reg.disk x sent now = some o) :
    ∃ counted, Accounts w ⟨{ w.reg.setSession a o.session with disk := o.disk }, w.lock,
      w.calls.set i (.deliver a o.call), w.lost + s.shortfall o⟩ (.run i sent now) 0 counted
        (s.shortfall o) := by
  have hmax : x.pc = .queueing → s.maxQueue ≠ 0 := fun hpc => by
    rw [h.uniform a s hs]
    exact h.queueing i a x hx hpc
  obtain ⟨-, hshort, hdropped⟩ := SessionState.deliverStep_counts ho hmax
  have htotal : SessionRegistry.totalDropped { w.reg.setSession a o.session with disk := o.disk } =
      w.reg.totalDropped + if w.reg.sessions.lookup s.clientId = some a then s.shortfall o else 0 :=
    h.tidy.totalDropped_set { w.reg.setSession a o.session with disk := o.disk } hs rfl
      rfl _ hdropped
  refine ⟨_, htotal, rfl, ?_, .inl rfl, iff_of_true rfl ?_, ?_⟩
  · split
    · exact le_rfl
    · exact Nat.zero_le _
  · intro c op pc hx'
    rw [hx] at hx'
    cases hx'
  · constructor
    · intro heq b y t hy ht hover
      rw [hx] at hy
      cases hy
      rw [hs] at ht
      cases ht
      by_contra hreg
      rw [if_neg hreg, hshort, if_pos hover] at heq
      cases heq
    · intro hcounts
      by_cases hover : s.Overflows x
      · exact if_pos (hcounts a x s hx hs hover)
      · rw [hshort, if_neg hover]
        exact ite_self 0

/-- **Every step** keeps its account. -/
theorem Inv.step {act : DropAction} (h : Inv w) (hstep : w.step act = some w') :
    Inv w' ∧ ∃ gone counted short, Accounts w w' act gone counted short := by
  cases act with
  | invoke c op =>
      cases hstep
      exact ⟨h.invoke (.inl ⟨c, op, rfl⟩), 0, 0, 0, rfl, rfl, le_rfl, .inl rfl,
        iff_of_true rfl trivial, iff_of_true rfl trivial⟩
  | deliver a m qos =>
      cases hstep
      exact ⟨h.invoke (.inr ⟨a, m, qos, rfl⟩), 0, 0, 0, rfl, rfl, le_rfl, .inl rfl,
        iff_of_true rfl trivial, iff_of_true rfl trivial⟩
  | run i sent now =>
      rcases step_run hstep with ⟨c, op, pc, n, hx, hn, rfl⟩ | ⟨a, x, s, o, hx, hs, ho, rfl⟩
      · obtain ⟨gone, hacc⟩ := h.registry_accounts hx hn sent now
        exact ⟨h.registry hx hn, gone, 0, 0, hacc⟩
      · obtain ⟨counted, hacc⟩ := h.deliver_accounts hx hs ho
        exact ⟨h.deliver hx hs ho _, 0, counted, s.shortfall o, hacc⟩

variable {act : DropAction}

theorem Inv.total_le_iff (h : Inv w) (hstep : w.step act = some w') :
    w.total ≤ w'.total ↔ w.KeepsCounts act := by
  obtain ⟨-, gone, counted, short, hacc⟩ := h.step hstep
  have htotal := hacc.total
  have hone := hacc.one
  rw [← hacc.keeps]
  omega

theorem Inv.total_eq_iff (h : Inv w) (heq : w.total = w.lost) (hstep : w.step act = some w') :
    w'.total = w'.lost ↔ w.KeepsCounts act ∧ w.CountsLost act := by
  obtain ⟨-, gone, counted, short, hacc⟩ := h.step hstep
  have htotal := hacc.total
  have hlost := hacc.lost
  have hle := hacc.le
  rw [← hacc.keeps, ← hacc.counts]
  omega

/-- What leaves the map, or is lost, in a step can be: the step is enabled. -/
theorem enabled_of_leaves {c : Str} {op : RaceOp} {pc : RacePc} {a : Addr} (sent : SendResult)
    (now : Instant) (hx : w.calls[i]? = some (.registry c op pc))
    (hl : Leaves w.reg w.lock c op pc a) :
    (w.step (.run i sent now)).isSome := by
  simp only [DropWorld.step, hx, Option.isSome_map]
  cases hl with
  | replaced ha => rfl
  | unregistered hlock =>
      rw [hlock]
      rfl
  | expired hlock ha =>
      rw [hlock]
      rfl

theorem enabled_of_overflows {a : Addr} {x : DeliverCall} {s : SessionState} (sent : SendResult)
    (now : Instant) (hx : w.calls[i]? = some (.deliver a x)) (hs : w.reg.heap[a]? = some s)
    (hover : s.Overflows x) : (w.step (.run i sent now)).isSome := by
  simp only [DropWorld.step, hx, hs, Option.bind_some, Option.isSome_map, SessionState.deliverStep,
    hover.1, hover.2.1]
  rfl

theorem conditions_of_disabled (h : w.step act = none) : w.KeepsCounts act ∧ w.CountsLost act := by
  cases act with
  | invoke _ _ => cases h
  | deliver _ _ _ => cases h
  | run i sent now =>
      constructor
      · intro c op pc hx k a _ hl
        have hsome := enabled_of_leaves sent now hx hl
        rw [h] at hsome
        cases hsome
      · intro a x s hx hs hover
        have hsome := enabled_of_overflows sent now hx hs hover
        rw [h] at hsome
        cases hsome

/-! ## Runs -/

theorem Inv.keeps_iff (h : Inv w) :
    (∀ w', w.step act = some w' → w.total ≤ w'.total) ↔ w.KeepsCounts act := by
  cases hstep : w.step act with
  | none => exact iff_of_true (fun _ hw' => by cases hw') (conditions_of_disabled hstep).1
  | some u =>
      rw [← h.total_le_iff hstep]
      exact ⟨fun hle => hle u rfl, fun hle w' hw' => Option.some.inj hw' ▸ hle⟩

theorem Inv.equal_iff (h : Inv w) (heq : w.total = w.lost) :
    (∀ w', w.step act = some w' → w'.total = w'.lost) ↔ w.KeepsCounts act ∧ w.CountsLost act := by
  cases hstep : w.step act with
  | none => exact iff_of_true (fun _ hw' => by cases hw') (conditions_of_disabled hstep)
  | some u =>
      rw [← h.total_eq_iff heq hstep]
      exact ⟨fun hall => hall u rfl, fun hu w' hw' => Option.some.inj hw' ▸ hu⟩

variable (maxQueue : Nat) (slowGrace : Option Duration) (queueDir : Bool) (disk : Disk)

/-- **The exported total never decreases** along a run exactly if no session leaves the
map in it with messages to its account. -/
theorem total_neverDecreases_iff (acts : List DropAction) :
    Run.NeverDecreases step total (init maxQueue slowGrace queueDir disk) acts ↔
      Run.Meets step KeepsCounts (init maxQueue slowGrace queueDir disk) acts := by
  rw [Run.neverDecreases_iff]
  exact Run.meets_congr (I := Inv) (fun w act h => h.keeps_iff)
    (fun w act w' h _ hs => (h.step hs).1)
    acts (.init maxQueue slowGrace queueDir disk)

/-- **The exported total is a counter of the messages lost**, and never decreases, along a
run exactly if no session leaves the map in it with messages to its account and no
message is dropped from the queue of a session that the map does not hold. -/
theorem dropped_total_iff (acts : List DropAction) :
    (Run.NeverDecreases step total (init maxQueue slowGrace queueDir disk) acts ∧
        Run.Always step (fun w => w.total = w.lost) (init maxQueue slowGrace queueDir disk) acts) ↔
      Run.Meets step (fun w act => w.KeepsCounts act ∧ w.CountsLost act)
        (init maxQueue slowGrace queueDir disk) acts := by
  have hinit : Inv (init maxQueue slowGrace queueDir disk) := .init maxQueue slowGrace queueDir disk
  have hzero : (init maxQueue slowGrace queueDir disk).total =
      (init maxQueue slowGrace queueDir disk).lost := rfl
  have hequal : Run.Always step (fun w => w.total = w.lost)
      (init maxQueue slowGrace queueDir disk) acts ↔
      Run.Meets step (fun w act => w.KeepsCounts act ∧ w.CountsLost act)
        (init maxQueue slowGrace queueDir disk) acts := by
    rw [Run.always_iff, and_iff_right hzero]
    refine Run.meets_congr (I := fun w => Inv w ∧ w.total = w.lost)
      (fun w act hw => hw.1.equal_iff hw.2)
      (fun w act w' hw hc hs => ?_) acts ⟨hinit, hzero⟩
    exact ⟨(hw.1.step hs).1, (hw.1.equal_iff hw.2).mpr hc w' hs⟩
  rw [hequal]
  refine and_iff_right_of_imp fun hm => ?_
  exact (total_neverDecreases_iff maxQueue slowGrace queueDir disk acts).mpr
    (hm.mono fun _ _ h => h.1)

end

/-- A persistent session goes offline, and two messages come for a queue of one. -/
def overflowActs : List DropAction :=
  [.invoke "dev".toList (.attach [] false ⟨1⟩ ⟨1⟩), .run 0 .ok 0, .run 0 .ok 0, .run 0 .ok 0,
    .run 0 .ok 0, .run 0 .ok 0, .run 0 .ok 0,
    .invoke "dev".toList (.detach 0 1 false 5), .run 1 .ok 5,
    .deliver 0 ("kiln".toList, [1]) .atLeastOnce, .run 2 .ok 6, .run 2 .ok 6,
    .deliver 0 ("kiln".toList, [2]) .atLeastOnce, .run 3 .ok 7, .run 3 .ok 7]

/-- The client comes back with cleanSession=1, up to the section that enters the new session. -/
def reattachActs : List DropAction :=
  [.invoke "dev".toList (.attach [] true ⟨2⟩ ⟨2⟩), .run 4 .ok 8, .run 4 .ok 8, .run 4 .ok 8,
    .run 4 .ok 8, .run 4 .ok 8, .run 4 .ok 8]

/-- One message is lost, and then none has been. -/
theorem clean_attach_decreases_total :
    ¬ ∀ (_ : HashOrder) (maxQueue : Nat) (slowGrace : Option Duration)
      (queueDir : Bool) (disk : Disk)
      (acts : List DropAction),
      Run.NeverDecreases step total (init maxQueue slowGrace queueDir disk) acts ∧
        Run.Always step (fun w => w.total = w.lost)
          (init maxQueue slowGrace queueDir disk) acts := by
  intro h
  obtain ⟨hnever, -⟩ := h .asStored 1 none false ∅ (overflowActs ++ reattachActs)
  obtain ⟨t, u, ht, hu, hone, hzero⟩ : ∃ t u, Run.exec (@step .asStored) (init 1 none false ∅)
      overflowActs = some t ∧ Run.exec (@step .asStored) t reattachActs = some u ∧ t.total = 1 ∧
        u.total = 0 := ⟨_, _, rfl, rfl, rfl, rfl⟩
  have hle := hnever overflowActs reattachActs t u List.prefix_rfl ht hu
  rw [hone, hzero] at hle
  cases hle

end DropWorld

end Entmoot
