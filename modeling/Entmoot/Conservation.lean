/-
# `Entmoot.Conservation` — what becomes of every message of a session

The books of `OneSession`.  A `deliver` call has no effect before it is done, and
then exactly the one its result names (`CallOk`).  The offline queue is the queue
of the ledger that replays the log: the backlogs handed out and then the queue are
the messages queued, in their order, less those that were the oldest of a full
queue when one more came (`Balanced`).
-/
import Entmoot.OneSession
import Entmoot.Lib.Cells

namespace Entmoot

open SessionState (DeliverCall DeliverStep SendResult DeliverSection deliverStep_section)

namespace SessionWorld

/-- What call `i` has done. -/
def effectsOf (log : List SessionEvent) (i : Nat) : List SessionEvent :=
  log.filter fun e => e.call = some i

/-- The books of a session that started with the queue `q`. -/
def books (q : List Msg) (w : SessionWorld) : Ledger Msg :=
  w.log.foldl (SessionEvent.record w.session.maxQueue) (.start q)

/-- The packet carries the message of a call. -/
structure Carries (c : DeliverCall) (p : Publish) : Prop where
  topic : p.topic = c.msg.1
  payload : p.payload = c.msg.2
  qos : p.qos = c.qos

/-- What a finished call has done: what it says. -/
def Effect (log : List SessionEvent) (i : Nat) (c : DeliverCall) : Delivery → Prop
  | .sent => ∃ tx p, effectsOf log i = [.accepted i tx p] ∧ Carries c p
  | .queued => effectsOf log i = [.queued i c.msg]
  | .dropped => effectsOf log i = [] ∧ c.qos = .atMostOnce

/-- The books agree with the session: nothing is lost but the oldest entries of a
full queue, nothing doubled, and the order is kept. -/
structure Balanced (s : SessionState) (w : SessionWorld) : Prop where
  cap : w.session.maxQueue = s.maxQueue
  bound : w.session.inner.queue.length ≤ s.maxQueue
  /-- the entries there have been: those at the start, then those queued -/
  entries : (w.books s.inner.queue).entries =
    s.inner.queue ++ w.log.filterMap SessionEvent.msgQueued
  /-- the backlogs, one after the other, are the entries that left and were not lost -/
  handedOut : w.log.flatMap SessionEvent.handedOut = (w.books s.inner.queue).returned
  queue : w.session.inner.queue = (w.books s.inner.queue).queue
  dropped : w.session.inner.dropped = s.inner.dropped + (w.books s.inner.queue).lost.length

/-- What becomes of every message of a session that started as `s`. -/
structure Conserved (s : SessionState) (w : SessionWorld) : Prop where
  effects : ∀ i c r, w.calls[i]? = some c → c.pc = .done r → Effect w.log i c r
  balanced : Balanced s w

/-! ## The books -/

variable {w w' : SessionWorld} {s s' : SessionState}

theorem books_concat (q : List Msg) (e : SessionEvent) (hcap : s'.maxQueue = w.session.maxQueue)
    (d : Disk) (opened : List Sender) (calls : List DeliverCall) :
    books q ⟨s', d, opened, calls, w.log ++ [e]⟩ = e.record w.session.maxQueue (w.books q) := by
  rw [books, hcap]
  exact List.foldl_concat _ _ _ _

theorem Balanced.quiet (h : Balanced s w) (hcap : s'.maxQueue = w.session.maxQueue)
    (hqueue : s'.inner.queue = w.session.inner.queue)
    (hdropped : s'.inner.dropped = w.session.inner.dropped) (d : Disk) (opened : List Sender)
    (calls : List DeliverCall) : Balanced s ⟨s', d, opened, calls, w.log⟩ := by
  have hbooks : books s.inner.queue ⟨s', d, opened, calls, w.log⟩ = w.books s.inner.queue := by
    rw [books, books, hcap]
  constructor <;> (try rw [hbooks]) <;> dsimp only
  · exact hcap.trans h.cap
  · rw [hqueue]
    exact h.bound
  · exact h.entries
  · exact h.handedOut
  · rw [hqueue]
    exact h.queue
  · rw [hdropped]
    exact h.dropped

theorem Balanced.note (h : Balanced s w) (hcap : s'.maxQueue = w.session.maxQueue)
    (hqueue : s'.inner.queue = w.session.inner.queue)
    (hdropped : s'.inner.dropped = w.session.inner.dropped) (d : Disk) (opened : List Sender)
    (calls : List DeliverCall) {e : SessionEvent} (hmsg : e.msgQueued = none)
    (hout : e.handedOut = []) (hrec : ∀ l : Ledger Msg, e.record w.session.maxQueue l = l) :
    Balanced s ⟨s', d, opened, calls, w.log ++ [e]⟩ := by
  have hbooks := books_concat s.inner.queue e hcap d opened calls
  rw [hrec] at hbooks
  have hq := h.quiet hcap hqueue hdropped d opened calls
  constructor <;> (try rw [hbooks]) <;> dsimp only
  · exact hq.cap
  · exact hq.bound
  · rw [List.filterMap_append, List.filterMap_cons, hmsg]
    simpa using h.entries
  · rw [List.flatMap_append, List.flatMap_cons, hout]
    simpa using h.handedOut
  · exact hqueue.trans h.queue
  · exact hdropped ▸ h.dropped

theorem Balanced.attach [HashOrder] (h : Balanced s w) (identity : Str) (sink : Sender)
    (kick : Notify) (opened : List Sender) :
    Balanced s { w with
      session := (w.session.attachConn w.disk identity sink kick).session
      disk := (w.session.attachConn w.disk identity sink kick).disk
      opened := opened
      log := w.log ++ [.backlog (w.session.attachConn w.disk identity sink kick).backlog] } := by
  have hcap : (w.session.attachConn w.disk identity sink kick).session.maxQueue =
      w.session.maxQueue := by
    show ((w.session.installConn sink kick).setIdentity w.disk identity).1.maxQueue = _
    rw [SessionState.setIdentity]
    split <;> rfl
  have hbooks := books_concat s.inner.queue
    (.backlog (w.session.attachConn w.disk identity sink kick).backlog) hcap
    (w.session.attachConn w.disk identity sink kick).disk opened w.calls
  have hinner := w.session.attachConn_inner w.disk identity sink kick
  rw [SessionEvent.record] at hbooks
  constructor <;> (try rw [hbooks]) <;> dsimp only
  · exact hcap.trans h.cap
  · rw [SessionState.attachConn_queue]
    exact Nat.zero_le _
  · rw [List.filterMap_append, Ledger.entries_drain]
    exact (List.append_nil (w.log.filterMap SessionEvent.msgQueued)).symm ▸ h.entries
  · rw [List.flatMap_append, Ledger.returned_drain, ← h.handedOut, ← h.queue,
      SessionState.attachConn_backlog]
    simp [SessionEvent.handedOut]
  · rfl
  · rw [hinner, Ledger.lost_drain]
    exact h.dropped

theorem Balanced.push (h : Balanced s w) (hmax : 1 ≤ s.maxQueue) (i : Nat) (m : Msg) (d : Disk)
    (calls : List DeliverCall) :
    Balanced s { w with
      session := w.session.pushQueue m, disk := d, calls := calls
      log := w.log ++ [.queued i m] } := by
  have hcap : (w.session.pushQueue m).maxQueue = w.session.maxQueue := rfl
  have hbooks := books_concat s.inner.queue (.queued i m) hcap d w.opened calls
  rw [SessionEvent.record] at hbooks
  have hmax' : 1 ≤ w.session.maxQueue := h.cap ▸ hmax
  have hqueue : (w.session.pushQueue m).inner.queue =
      ((w.books s.inner.queue).push w.session.maxQueue m).queue := by
    rw [Ledger.queue_push _ _ _ hmax', ← h.queue]
    rfl
  constructor <;> (try rw [hbooks]) <;> dsimp only
  · exact h.cap
  · rw [hqueue, h.cap]
    exact Ledger.queue_push_le _ _ _ hmax (h.queue ▸ h.bound)
  · rw [List.filterMap_append, Ledger.entries_push, h.entries, List.append_assoc]
    rfl
  · rw [List.flatMap_append, Ledger.returned_push, ← h.handedOut]
    exact List.append_nil _
  · exact hqueue
  · rw [Ledger.lost_push _ _ _ hmax', ← h.queue]
    show (if w.session.inner.queue.length ≥ w.session.maxQueue then _ else _) = _
    have hd := h.dropped
    split <;> omega

/-- In plain terms: the backlogs and then the queue are messages of the session in
their order, none of them twice. -/
theorem Balanced.in_order (h : Balanced s w) :
    (w.log.flatMap SessionEvent.handedOut ++ w.session.inner.queue).Sublist
      (s.inner.queue ++ w.log.filterMap SessionEvent.msgQueued) := by
  rw [h.handedOut, h.queue, ← h.entries]
  exact Ledger.returned_append_queue _

theorem Balanced.count (h : Balanced s w) :
    (s.inner.queue ++ w.log.filterMap SessionEvent.msgQueued).length + s.inner.dropped =
      (w.log.flatMap SessionEvent.handedOut).length + w.session.inner.queue.length +
        w.session.inner.dropped := by
  rw [← h.entries, Ledger.length_entries, h.handedOut, h.queue, h.dropped]
  omega

/-! ## One call -/

/-- What a call has done so far: nothing before it is done. -/
def CallOk (log : List SessionEvent) (i : Nat) (c : DeliverCall) : Prop :=
  match c.pc with
  | .done r => Effect log i c r
  | .sending _ p => effectsOf log i = [] ∧ Carries c p
  | .queueing => effectsOf log i = [] ∧ c.qos ≠ .atMostOnce
  | _ => effectsOf log i = []

theorem CallOk.congr {log log' : List SessionEvent} {i : Nat} {c : DeliverCall} (h : CallOk log i c)
    (hlog : effectsOf log' i = effectsOf log i) : CallOk log' i c := by
  rw [CallOk] at h ⊢
  cases hpc : c.pc with
  | done r =>
      simp only [hpc] at h ⊢
      cases r <;> simpa only [Effect, hlog] using h
  | sending _ _ | queueing | readSink | evicting _ | clearing _ =>
      simp only [hpc] at h ⊢
      rwa [hlog]

theorem publishFor_carries (s : SessionState) (c : DeliverCall) :
    Carries c (s.publishFor c.msg c.qos).2 := by
  simp only [SessionState.publishFor]
  split <;> exact ⟨rfl, rfl, rfl⟩

theorem effectsOf_append (log evs : List SessionEvent) (i : Nat) :
    effectsOf (log ++ evs) i = effectsOf log i ++ effectsOf evs i := List.filter_append ..

/-- The events of a section are its own call's, or no call's. -/
theorem effectsOf_eventsOf_ne {i j : Nat} (hij : i ≠ j) (c : DeliverCall) (o : DeliverStep) :
    effectsOf (eventsOf s i c o) j = [] := by
  rw [effectsOf, List.filter_eq_nil_iff]
  intro e he
  have hcall : e.call = some i ∨ e.call = none := by
    rw [eventsOf] at he
    split at he
    · rw [List.mem_singleton.mp he]
      exact .inl rfl
    · split at he
      · split at he
        · rw [List.mem_singleton.mp he]
          exact .inl rfl
        · exact absurd he List.not_mem_nil
      · rw [evictionOf] at he
        split at he
        · rw [List.mem_singleton.mp he]
          exact .inr rfl
        · exact absurd he List.not_mem_nil
      · exact absurd he List.not_mem_nil
  rcases hcall with h | h <;> simp [h, hij]

/-- **One section of a call** takes it from having done nothing to nothing, or to
the one effect its result names; the books follow. -/
theorem section_conserves (hmax : 1 ≤ s.maxQueue) (h : Balanced s w) {i : Nat} {c : DeliverCall}
    {r : SendResult} {now : Instant} {o : DeliverStep} (hc : CallOk w.log i c)
    (ho : w.session.deliverStep w.disk c r now = some o) (calls : List DeliverCall) :
    CallOk (w.log ++ eventsOf w.session i c o) i o.call ∧
      Balanced s { w with
        session := o.session, disk := o.disk, calls := calls
        log := w.log ++ eventsOf w.session i c o } := by
  rw [CallOk] at hc
  cases deliverStep_section ho with
  | live hpc hsink =>
      simp only [hpc] at hc
      have hsame := publishFor_same w.session c.msg c.qos
      simp only [eventsOf, hpc, List.append_nil]
      have hcar := publishFor_carries w.session c
      exact ⟨⟨hc, hcar.topic, hcar.payload, hcar.qos⟩, h.quiet hsame.maxQueue (by rw [hsame.inner])
        (by rw [hsame.inner]) _ _ _⟩
  | drop hpc hsink hno =>
      simp only [hpc] at hc
      simp only [eventsOf, hpc, List.append_nil]
      refine ⟨⟨hc, hno.resolve_right fun h0 => ?_⟩, h.quiet rfl rfl rfl _ _ _⟩
      rw [h.cap] at h0
      omega
  | offline hpc hsink hno =>
      simp only [hpc] at hc
      simp only [eventsOf, hpc, List.append_nil]
      exact ⟨⟨hc, fun hq => hno (.inl hq)⟩, h.quiet rfl rfl rfl _ _ _⟩
  | @sent tx p hpc =>
      simp only [hpc] at hc
      refine ⟨⟨tx, p, ?_, hc.2.topic, hc.2.payload, hc.2.qos⟩,
        h.note rfl rfl rfl _ _ _ rfl rfl fun l => rfl⟩
      rw [effectsOf_append, hc.1]
      simp [eventsOf, effectsOf, SessionEvent.call]
  | timeout hpc _ =>
      simp only [hpc] at hc
      simp only [eventsOf, hpc, List.append_nil]
      exact ⟨hc.1, h.quiet rfl rfl rfl _ _ _⟩
  | closed hpc =>
      simp only [hpc] at hc
      simp only [eventsOf, hpc, List.append_nil]
      exact ⟨hc.1, h.quiet rfl rfl rfl _ _ _⟩
  | evict hpc =>
      simp only [hpc] at hc
      simp only [eventsOf, hpc]
      rcases evictSlow_cases w.session _ now with ⟨hsame, hev⟩ | ⟨hoff, hsink, hev⟩
      · rw [hev, hsame, List.append_nil]
        exact ⟨hc, h.quiet rfl rfl rfl _ _ _⟩
      · rw [hev]
        refine ⟨?_, h.note hoff.maxQueue hoff.queue hoff.dropped _ _ _ rfl rfl fun l => rfl⟩
        show effectsOf _ i = []
        rw [effectsOf_append, hc]
        rfl
  | clear hpc =>
      simp only [hpc] at hc
      simp only [eventsOf, hpc, List.append_nil]
      rcases clearSink_cases w.session _ now with hsame | hoff
      · rw [hsame]
        exact ⟨hc, h.quiet rfl rfl rfl _ _ _⟩
      · exact ⟨hc, h.quiet hoff.maxQueue hoff.queue hoff.dropped _ _ _⟩
  | retry hpc hsink =>
      simp only [hpc] at hc
      simp only [eventsOf, hpc, hsink, reduceCtorEq, if_false, List.append_nil]
      exact ⟨hc.1, h.quiet rfl rfl rfl _ _ _⟩
  | queue hpc hsink =>
      simp only [hpc] at hc
      simp only [eventsOf, hpc, hsink, if_true]
      refine ⟨?_, h.push hmax i c.msg _ _⟩
      show effectsOf _ i = [.queued i c.msg]
      rw [effectsOf_append, hc.1]
      simp [effectsOf, SessionEvent.call]

/-! ## Runs -/

/-- What a step keeps: the books, and what each call has done. -/
structure ConsInv (s : SessionState) (w : SessionWorld) : Prop where
  balanced : Balanced s w
  calls : ∀ i c, w.calls[i]? = some c → CallOk w.log i c
  fresh : ∀ i, w.calls.length ≤ i → effectsOf w.log i = []

theorem ConsInv.step [HashOrder] {act : SessionAction} (hmax : 1 ≤ s.maxQueue) (h : ConsInv s w)
    (hstep : w.step act = some w') : ConsInv s w' := by
  -- an event of no call changes nothing for any of them
  have hquiet : ∀ e : SessionEvent, e.call = none →
      ∀ i, effectsOf (w.log ++ [e]) i = effectsOf w.log i := by
    intro e he i
    rw [effectsOf_append, effectsOf, effectsOf, List.filter_cons_of_neg (by simp [he])]
    exact List.append_nil _
  cases act with
  | attach identity sink kick =>
      by_cases hused : sink ∈ w.opened
      · rw [SessionWorld.step, if_pos hused] at hstep
        cases hstep
      · rw [SessionWorld.step, if_neg hused] at hstep
        cases hstep
        exact {
          balanced := h.balanced.attach identity sink kick _
          calls := fun i c hc => (h.calls i c hc).congr (hquiet _ rfl i)
          fresh := fun i hi => (hquiet _ rfl i).trans (h.fresh i hi) }
  | detach epoch now =>
      cases hstep
      refine ⟨?_, h.calls, h.fresh⟩
      rcases detachConn_cases w.session epoch now with hsame | hoff
      · rw [hsame]
        exact h.balanced
      · exact h.balanced.quiet hoff.maxQueue hoff.queue hoff.dropped _ _ _
  | evict tx now =>
      cases hstep
      rcases evictSlow_cases w.session tx now with ⟨hsame, hev⟩ | ⟨hoff, hsink, hev⟩
      · rw [hev, hsame, List.append_nil]
        exact h
      · rw [hev]
        exact {
          balanced := h.balanced.note hoff.maxQueue hoff.queue hoff.dropped _ _ _ rfl rfl fun l =>
            rfl
          calls := fun i c hc => (h.calls i c hc).congr (hquiet _ rfl i)
          fresh := fun i hi => (hquiet _ rfl i).trans (h.fresh i hi) }
  | call m qos =>
      cases hstep
      refine ⟨h.balanced.quiet rfl rfl rfl _ _ _, fun i c hc => ?_, fun i hi => h.fresh i ?_⟩
      · rcases Cells.concat_cases hc with hc | ⟨rfl, rfl⟩
        · exact h.calls i c hc
        · exact h.fresh _ (Nat.le_refl _)
      · rw [List.length_append, List.length_singleton] at hi
        omega
  | run i r now =>
      obtain ⟨c, hc, hstep⟩ := Option.bind_eq_some_iff.mp hstep
      obtain ⟨o, ho, rfl⟩ := Option.map_eq_some_iff.mp hstep
      obtain ⟨hcall, hbal⟩ :=
        section_conserves hmax h.balanced (h.calls i c hc) ho (w.calls.set i o.call)
      refine ⟨hbal, fun j c' hc' => ?_, fun j hj => ?_⟩
      · rcases Cells.set_cases hc' with ⟨hji, hc'⟩ | ⟨rfl, rfl⟩
        · refine (h.calls j c' hc').congr ?_
          rw [effectsOf_append, effectsOf_eventsOf_ne (Ne.symm hji), List.append_nil]
        · exact hcall
      · have hij : i ≠ j := by
          rintro rfl
          obtain ⟨hlt, _⟩ := List.getElem?_eq_some_iff.mp hc
          rw [List.length_set] at hj
          omega
        rw [effectsOf_append, effectsOf_eventsOf_ne hij, List.append_nil]
        exact h.fresh j (by rwa [List.length_set] at hj)

/-- **Offline queue conservation**: after any interleaving of deliveries, attaches,
detaches and evictions, every finished delivery has had the one effect it reports,
and the backlogs and the queue are the queued messages in order, less the oldest
entries of a full queue. -/
theorem messages_conserved [HashOrder] (s : SessionState) (d : Disk) (acts : List SessionAction)
    (w : SessionWorld) (hmax : 1 ≤ s.maxQueue) (hqueue : s.inner.queue.length ≤ s.maxQueue)
    (h : Run.exec step (init s d) acts = some w) : Conserved s w := by
  have hinit : ConsInv s (init s d) := {
    balanced := ⟨rfl, hqueue, (List.append_nil _).symm, rfl, rfl, rfl⟩
    calls := fun i c hc => nomatch hc
    fresh := fun i _ => rfl }
  obtain ⟨hbal, hcalls, _⟩ :=
    Run.exec_invariant (fun _ _ _ hi hs => ConsInv.step hmax hi hs) acts hinit h
  refine ⟨fun i c r hc hr => ?_, hbal⟩
  have hok := hcalls i c hc
  rw [CallOk, hr] at hok
  exact hok

/-- Two messages for a queue with room for one, and then a connection: the second
is its backlog. -/
theorem full_queue_conserved :
    ∃ w, Run.exec (@step .asStored) (init (.new ∅ "dev".toList 1 (some 5) none none) ∅)
        [.call ("kiln".toList, [57]) .atLeastOnce, .run 0 .ok 1, .run 0 .ok 1,
          .call ("kiln".toList, [58]) .atLeastOnce, .run 1 .ok 2, .run 1 .ok 2,
          .attach [] ⟨0⟩ ⟨0⟩] = some w ∧
      Conserved (.new ∅ "dev".toList 1 (some 5) none none) w :=
  ⟨_, rfl, @messages_conserved .asStored (.new ∅ "dev".toList 1 (some 5) none none) ∅
    [.call ("kiln".toList, [57]) .atLeastOnce, .run 0 .ok 1, .run 0 .ok 1,
      .call ("kiln".toList, [58]) .atLeastOnce, .run 1 .ok 2, .run 1 .ok 2,
      .attach [] ⟨0⟩ ⟨0⟩] _ (by decide) (by decide) rfl⟩

end SessionWorld

end Entmoot
