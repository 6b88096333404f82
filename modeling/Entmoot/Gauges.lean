/-
# `Entmoot.Gauges` — what the offline queues can hold

`stats` counts the sessions of the map, those without a sink, and their queued messages.
In the world of `Entmoot.Dropped`, where attaches, detaches, sweeps and deliveries
interleave section by section, every session keeps to the limit on its queue and has an
empty queue while it has a sink (`SessionState.Bounded`), whatever the queue files of an
earlier run held.  So the messages a node keeps are at most `max_queued_per_session` for
each offline session (`gauges_bounded`).
-/
import Entmoot.Dropped

namespace Entmoot

open SessionState (DeliverCall DeliverSection DeliverStep SendResult)

/-! ## One session -/

/-- Once over the limit an offline queue is never again, nor does it hold anything while
there is a sink. -/
structure SessionState.Bounded (max : Nat) (s : SessionState) : Prop where
  maxQueue : s.maxQueue = max
  queue_le : s.inner.queue.length ≤ max
  connected : s.inner.sink.isSome → s.inner.queue = []

theorem loadQueueLoop_length {max : Nat} (hmax : max ≠ 0) (fuel : Nat) :
    ∀ {rest : Bytes} {queue q : List Msg},
    queue.length ≤ max → loadQueueLoop max fuel rest queue = .ok q → q.length ≤ max := by
  induction fuel with
  | zero =>
      intro rest queue q hle h
      cases h
      exact hle
  | succ fuel ih =>
      intro rest queue q hle h
      rw [loadQueueLoop] at h
      split at h
      · cases h
        exact hle
      · cases ht : readChunk rest with
        | error e =>
            rw [ht] at h
            cases h
        | ok t =>
            cases htopic : utf8Or "bad topic in offline queue" t.1 with
            | error e =>
                simp only [ht, htopic, bind, Except.bind] at h
                cases h
            | ok topic =>
                cases hp : readChunk t.2 with
                | error e =>
                    simp only [ht, htopic, hp, bind, Except.bind] at h
                    cases h
                | ok p =>
                    simp only [ht, htopic, hp, bind, Except.bind] at h
                    refine ih ?_ h
                    rw [List.length_append, List.length_singleton]
                    split
                    · rw [List.length_tail]
                      omega
                    · omega

theorem initialQueue_length (d : Disk) (max : Nat) (queuePath : Option Path) :
    (SessionState.initialQueue d max queuePath).length ≤ max := by
  cases queuePath with
  | none => exact Nat.zero_le _
  | some path =>
      rw [SessionState.initialQueue]
      cases hload : loadQueue d path max with
      | error e => exact Nat.zero_le _
      | ok q =>
          rw [loadQueue] at hload
          split at hload
          · cases hload
            exact Nat.zero_le _
          · next hmax =>
            cases hread : d.read path with
            | error e =>
                rw [hread] at hload
                cases hload
            | ok data =>
                simp only [hread, bind, Except.bind] at hload
                split at hload
                · exact loadQueueLoop_length hmax _ (Nat.zero_le _) hload
                · cases hload

namespace SessionState

variable {max : Nat} {s s' : SessionState}

theorem Bounded.new (d : Disk) (clientId : Str) (max : Nat) (slowGrace : Option Duration)
    (queuePath subsPath : Option Path) :
      (new d clientId max slowGrace queuePath subsPath).Bounded max :=
  ⟨rfl, initialQueue_length d max queuePath, fun h => (by cases h)⟩

theorem Bounded.noted (h : s.Bounded max) (hn : s.Noted s') : s'.Bounded max := by
  cases hn with
  | pkid n => exact ⟨h.maxQueue, h.queue_le, h.connected⟩
  | offline kick reason now => exact ⟨h.maxQueue, h.queue_le, fun hsome => (by cases hsome)⟩

theorem Bounded.of_core (h : s.Bounded max) (hcore : s'.core = s.core) : s'.Bounded max := by
  have hqueue : s'.core.inner.queue = s.core.inner.queue := by rw [hcore]
  have hsink : s'.core.inner.sink = s.core.inner.sink := by rw [hcore]
  have hmax : s'.core.maxQueue = s.core.maxQueue := by rw [hcore]
  have hqueue : s'.inner.queue = s.inner.queue := hqueue
  have hsink : s'.inner.sink = s.inner.sink := hsink
  exact ⟨Eq.trans hmax h.maxQueue,
    hqueue.symm ▸ h.queue_le, by rw [hqueue, hsink]; exact h.connected⟩

theorem Bounded.attachConnLocked [HashOrder] (h : s.Bounded max) (d : Disk) (identity : Str)
    (sink : Sender) (kick : Notify) :
      (s.attachConnLocked d identity sink kick).session.Bounded max := by
  rw [attachConnLocked_session]
  exact ⟨h.maxQueue, Nat.zero_le _, fun _ => rfl⟩

theorem Bounded.pushQueue (h : s.Bounded max) (m : Msg) (hmax : max ≠ 0)
    (hsink : s.inner.sink = none) :
    (s.pushQueue m).Bounded max := by
  refine ⟨h.maxQueue, ?_, fun hsome => ?_⟩
  · have hle := h.queue_le
    have hlimit := h.maxQueue
    show ((if s.inner.queue.length ≥ s.maxQueue then s.inner.queue.tail else s.inner.queue) ++
      [m]).length ≤ max
    rw [List.length_append, List.length_singleton]
    split
    · rw [List.length_tail]
      omega
    · omega
  · have hnone : (s.pushQueue m).inner.sink = none := hsink
    rw [hnone] at hsome
    cases hsome

/-- A section of a delivery. -/
theorem Bounded.deliverStep (h : s.Bounded max) {d : Disk} {x : DeliverCall} {sent : SendResult}
    {now : Instant} {o : DeliverStep} (hmax : x.pc = .queueing → max ≠ 0)
    (ho : s.deliverStep d x sent now = some o) : o.session.Bounded max := by
  cases deliverStep_section ho with
  | live _ _ => exact h.noted (s.noted_publishFor _ _)
  | drop _ _ _ | offline _ _ _ | sent _ | timeout _ _ | closed _ | retry _ _ => exact h
  | evict _ => exact h.noted (s.noted_evictSlow _ now)
  | clear _ => exact h.noted (s.noted_clearSink _ now)
  | queue hpc hsink => exact h.pushQueue x.msg (hmax hpc) hsink

end SessionState

/-! ## The registry -/

namespace SessionRegistry

/-- Of every session, also one that is no longer in the map. -/
def Bounded (r : SessionRegistry) : Prop := ∀ (a : Addr) s, r.heap[a]? = some s →
    s.Bounded r.maxQueue

variable {r r' : SessionRegistry} {a : Addr} {s s' : SessionState}

theorem Bounded.of_heap (h : r.Bounded) (hmax : r'.maxQueue = r.maxQueue)
    (hheap : r'.heap = r.heap) :
    r'.Bounded := by
  intro b t ht
  rw [hheap] at ht
  rw [hmax]
  exact h b t ht

theorem Bounded.set (h : r.Bounded) (hmax : r'.maxQueue = r.maxQueue)
    (hheap : r'.heap = r.heap.set a s') (hs' : s'.Bounded r.maxQueue) : r'.Bounded := by
  intro b t ht
  rw [hheap] at ht
  rw [hmax]
  rcases Cells.set_cases ht with ⟨-, hold⟩ | ⟨-, rfl⟩
  · exact h b t hold
  · exact hs'

theorem Bounded.addSession (h : r.Bounded) (c : Str) (queuePath subsPath : Option Path) :
    (r.addSession c queuePath subsPath).1.Bounded := by
  intro b t ht
  rcases Cells.concat_cases ht with hold | ⟨-, rfl⟩
  · exact h b t hold
  · exact .new _ _ _ _ _ _

end SessionRegistry

section
variable [HashOrder] {c : Str} {r : SessionRegistry} {lock : Option Nat} {i : Nat} {op : RaceOp}
  {pc : RacePc} {n : Section}

/-- A section of an attach, a detach or a sweep. -/
theorem Did.bounded (h : Did c r lock i op pc n) (hr : r.Bounded) : n.reg.Bounded := by
  cases h with
  | find _ _ | replace _ _ | clear _ _ | look _ _ | foundQueue _ | noQueue _ | subsExists
  | sweep _ =>
      exact hr.of_heap rfl rfl
  | @kick _ a s hs => exact hr.set rfl rfl ((hr a s hs).of_core (Touched.kickCurrent s).core)
  | @abort _ a s hs => exact hr.set rfl rfl ((hr a s hs).of_core (Touched.abortSubs s).core)
  | removeQueue | removeSubs =>
      have hrem := SessionRegistry.sameConfig_removeFile r
      exact hr.of_heap (hrem _).1.maxQueue (hrem _).2.1
  | makeClean | load _ => exact hr.addSession _ _ _
  | @attachConn _ _ _ _ a s _ _ hs => exact hr.set rfl rfl ((hr a s hs).attachConnLocked _ _ _ _)
  | @clean _ st a s _ _ _ hs =>
      obtain ⟨s', hheap, hs'⟩ := cleanup_heap hs st
      exact hr.set (sameConfig_cleanup a s st).1.maxQueue hheap ((hr a s hs).of_core hs'.core)
  | @detach a epoch _ now s hs =>
      exact hr.set rfl rfl ((hr a s hs).noted (s.noted_detachConn epoch now))
  | @unregister _ a _ => exact hr.of_heap (r.removeOwn_heap a).1 (r.removeOwn_heap a).2

end

/-! ## Every interleaving -/

namespace DropWorld

variable [HashOrder] {w w' : DropWorld} {act : DropAction}

theorem bounded_step (h : Inv w) (hw : w.reg.Bounded) (hstep : w.step act = some w') :
    w'.reg.Bounded ∧ w'.reg.maxQueue = w.reg.maxQueue := by
  cases act with
  | invoke c op =>
      cases hstep
      exact ⟨hw, rfl⟩
  | deliver a m qos =>
      cases hstep
      exact ⟨hw, rfl⟩
  | run i sent now =>
      rcases step_run hstep with ⟨c, op, pc, n, hx, hn, rfl⟩ | ⟨a, x, s, o, hx, hs, ho, rfl⟩
      · have hdid := RaceCall.did hn
        exact ⟨hdid.bounded hw, (hdid.keeps h.tidy).maxQueue⟩
      · exact ⟨hw.set rfl rfl ((hw a s hs).deliverStep (h.queueing i a x hx) ho), rfl⟩

theorem bounded_exec {maxQueue : Nat} {slowGrace : Option Duration} {queueDir : Bool} {disk : Disk}
    {acts : List DropAction}
    (hrun : Run.exec step (init maxQueue slowGrace queueDir disk) acts = some w) :
    w.reg.Bounded ∧ w.reg.maxQueue = maxQueue := by
  have hstart : (init maxQueue slowGrace queueDir disk).reg.Bounded := fun _ _ hs => (by cases hs)
  have hstep : ∀ w (a : DropAction) w', Inv w ∧ w.reg.Bounded ∧ w.reg.maxQueue = maxQueue →
      step w a = some w' →
      Inv w' ∧ w'.reg.Bounded ∧ w'.reg.maxQueue = maxQueue := by
    intro w a w' h hstep
    obtain ⟨hinv, hbounded, hmax⟩ := h
    obtain ⟨hbounded', hsame⟩ := bounded_step hinv hbounded hstep
    exact ⟨(hinv.step hstep).1, hbounded', hsame.trans hmax⟩
  exact (Run.exec_invariant hstep acts ⟨.init maxQueue slowGrace queueDir disk, hstart, rfl⟩ hrun).2

end DropWorld

/-! ## The gauges -/

/-- Only sessions without a sink have anything queued, each at most `max`. -/
theorem queued_le {max : Nat} {ss : List SessionState} (h : ∀ s ∈ ss, s.Bounded max) :
    (ss.map fun s => s.inner.queue.length).sum ≤
      max * (ss.filter fun s => s.inner.sink.isNone).length := by
  induction ss with
  | nil => exact Nat.zero_le _
  | cons s ss ih =>
      obtain ⟨hs, hss⟩ := List.forall_mem_cons.mp h
      have hrest := ih hss
      rw [List.map_cons, List.sum_cons, List.filter_cons]
      cases hsink : s.inner.sink with
      | none =>
          have hle := hs.queue_le
          rw [if_pos (by rfl), List.length_cons, Nat.mul_succ]
          omega
      | some tx =>
          have hempty := hs.connected (by rw [hsink]; rfl)
          rw [hempty, if_neg (by simp), List.length_nil, Nat.zero_add]
          exact hrest

/-- **A node queues at most `max_queued_per_session` messages for each offline session**,
and none for a connected one, in every interleaving of attaches, detaches, sweeps and
deliveries, on any directory. -/
theorem gauges_bounded [HashOrder] {maxQueue : Nat} {slowGrace : Option Duration} {queueDir : Bool}
    {disk : Disk} {acts : List DropAction} {w : DropWorld}
    (hrun : Run.exec DropWorld.step (.init maxQueue slowGrace queueDir disk) acts = some w) :
    w.reg.stats.2.1 ≤ w.reg.stats.1 ∧ w.reg.stats.2.2.1 ≤ maxQueue * w.reg.stats.2.1 ∧
      ∀ (a : Addr) s, w.reg.heap[a]? = some s → s.inner.sink.isSome → s.inner.queue = [] := by
  obtain ⟨hbounded, hmax⟩ := DropWorld.bounded_exec hrun
  let ss := (Keyed.pairs w.reg.sessions).filterMap fun e => w.reg.heap[e.2]?
  have hss : ∀ s ∈ ss, s.Bounded maxQueue := by
    intro s hs
    obtain ⟨e, -, he⟩ := List.mem_filterMap.mp hs
    exact hmax ▸ hbounded e.2 s he
  refine ⟨?_, queued_le hss, fun a s hs => (hbounded a s hs).connected⟩
  have hoffline : (ss.filter fun s => s.inner.sink.isNone).length ≤ ss.length :=
    List.length_filter_le _ _
  have hpairs : ss.length ≤ (Keyed.pairs w.reg.sessions).length := List.length_filterMap_le _ _
  rw [Keyed.pairs, List.length_map] at hpairs
  exact hoffline.trans hpairs

/-- Two messages came for an offline session with a queue of one. -/
theorem full_queue_is_bounded :
    ∃ w, Run.exec (@DropWorld.step .asStored)
      (.init 1 none false ∅) DropWorld.overflowActs = some w ∧
      w.reg.stats.1 = 1 ∧ w.reg.stats.2.1 ≤ w.reg.stats.1 ∧
        w.reg.stats.2.2.1 ≤ 1 * w.reg.stats.2.1 := by
  obtain ⟨w, hrun, hone⟩ : ∃ w, Run.exec (@DropWorld.step .asStored) (.init 1 none false ∅)
      DropWorld.overflowActs = some w ∧ w.reg.stats.1 = 1 := ⟨_, rfl, rfl⟩
  obtain ⟨hoffline, hqueued, -⟩ :=
    @gauges_bounded .asStored 1 none false ∅ DropWorld.overflowActs w hrun
  exact ⟨w, hrun, hone, hoffline, hqueued⟩

end Entmoot
