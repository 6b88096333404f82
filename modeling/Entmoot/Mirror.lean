/-
# `Entmoot.Mirror` — a queue and its file under concurrency

A queued message is written to the queue file under the session lock
(`persist_queue`), but `attach_conn` removes the file after it has released the lock.
In between, a message can find the channel of the new connection closed, and be queued
and written: the file that is then removed is the newer one, and the message is only in
memory.

Here one session takes the sections of its calls in any order, and the removal is a
step of its own.  When every removal finds the queue still empty, the file holds the
queue whenever that is not empty, and is there otherwise only while some attach has
its removal to come (`Mirrored.step`), so that it mirrors the queue whenever no call
is in progress (`mirrored_when_idle`).
-/
import Entmoot.Reading
import Entmoot.Session
import Entmoot.Lib.Run

namespace Entmoot

open SessionState (DeliverCall DeliverStep SendResult DeliverSection deliverStep_section)

/-! ## The system -/

structure MirrorWorld where
  session : SessionState
  disk : Disk
  calls : List DeliverCall
  /-- how many `attach_conn` calls have released the lock and the file still to remove -/
  discarding : Nat

inductive MirrorAction where
  /-- the part of `attach_conn` under the lock -/
  | attach (identity : Str) (sink : Sender) (kick : Notify)
  /-- the removal of the queue file behind it -/
  | discard
  | detach (epoch : Nat) (now : Instant)
  | evict (tx : Sender) (now : Instant)
  | call (m : Msg) (qos : QoS)
  /-- the next section of `deliver` call `i` -/
  | run (i : Nat) (r : SendResult) (now : Instant)

namespace MirrorWorld

def init (s : SessionState) (d : Disk) : MirrorWorld := ⟨s, d, [], 0⟩

def step [HashOrder] (w : MirrorWorld) : MirrorAction → Option MirrorWorld
  | .attach identity sink kick =>
      let a := w.session.attachConnLocked w.disk identity sink kick
      some { w with session := a.session, disk := a.disk, discarding := w.discarding + 1 }
  | .discard =>
      match w.discarding with
      | 0 => none
      | n + 1 => some { w with disk := w.session.discardQueueFile w.disk, discarding := n }
  | .detach epoch now => some { w with session := (w.session.detachConn epoch now).1 }
  | .evict tx now => some { w with session := (w.session.evictSlow tx now).1 }
  | .call m qos => some { w with calls := w.calls ++ [⟨m, qos, .readSink⟩] }
  | .run i r now =>
      w.calls[i]?.bind fun c =>
        (w.session.deliverStep w.disk c r now).map fun o =>
          { w with session := o.session, disk := o.disk, calls := w.calls.set i o.call }

/-- No call is in progress. -/
def Idle (w : MirrorWorld) : Prop := w.discarding = 0 ∧ ∀ c ∈ w.calls, ∃ d, c.pc = .done d

/-- The queue file is there iff the queue is not empty, and loads as the queue. -/
def FileIsQueue (w : MirrorWorld) : Prop :=
  (w.disk.lookup (queueFile w.session.clientId) = none ↔ w.session.inner.queue = []) ∧
    (w.session.inner.queue ≠ [] →
      loadQueue w.disk (queueFile w.session.clientId) w.session.maxQueue =
        .ok w.session.inner.queue)

/-- The condition on a step: a removal finds the queue empty, as its attach left it, and
what is to be delivered fits the length fields of the file. -/
def InTime (w : MirrorWorld) : MirrorAction → Prop
  | .discard => w.session.inner.queue = []
  | .call m _ => MsgFits m
  | _ => True

/-! ## The invariant -/

/-- A session with the files of its client id. -/
structure Filed (s : SessionState) : Prop where
  queuePath : s.queuePath = some (queueFile s.clientId)
  subsPath : s.subsPath = some (subsFile s.clientId)

/-- The queue as its file may hold it. -/
structure QueueFits (s : SessionState) : Prop where
  short : s.inner.queue.length ≤ s.maxQueue
  fits : ∀ m ∈ s.inner.queue, MsgFits m

/-- A `deliver` call with a message that fits; one that is about to queue it saw a
bound above 0. -/
structure CallFits (maxQueue : Nat) (c : DeliverCall) : Prop where
  fits : MsgFits c.msg
  bound : c.pc = .queueing → maxQueue ≠ 0

structure Mirrored (w : MirrorWorld) : Prop where
  filed : Filed w.session
  queue : QueueFits w.session
  calls : ∀ c ∈ w.calls, CallFits w.session.maxQueue c
  /-- what is queued is on file -/
  held : w.session.inner.queue ≠ [] →
    loadQueue w.disk (queueFile w.session.clientId) w.session.maxQueue = .ok w.session.inner.queue
  /-- a file without a queue is about to be removed -/
  stale : w.session.inner.queue = [] → w.discarding = 0 →
    w.disk.lookup (queueFile w.session.clientId) = none

/-- What a file mirrors of a session, kept. -/
structure SameQueue (s s' : SessionState) : Prop where
  clientId : s'.clientId = s.clientId
  maxQueue : s'.maxQueue = s.maxQueue
  queuePath : s'.queuePath = s.queuePath
  subsPath : s'.subsPath = s.subsPath
  queue : s'.inner.queue = s.inner.queue

theorem SameQueue.refl (s : SessionState) : SameQueue s s := ⟨rfl, rfl, rfl, rfl, rfl⟩

theorem SameQueue.of_noted {s s' : SessionState} (h : s.Noted s') : SameQueue s s' := by
  cases h <;> exact ⟨rfl, rfl, rfl, rfl, rfl⟩

theorem Filed.same {s s' : SessionState} (h : Filed s) (hs : SameQueue s s') : Filed s' where
  queuePath := by rw [hs.queuePath, hs.clientId, h.queuePath]
  subsPath := by rw [hs.subsPath, hs.clientId, h.subsPath]

theorem QueueFits.same {s s' : SessionState} (h : QueueFits s) (hs : SameQueue s s') :
    QueueFits s' where
  short := by
    rw [hs.queue, hs.maxQueue]
    exact h.short
  fits := by
    rw [hs.queue]
    exact h.fits

variable {w w' : MirrorWorld}

theorem Mirrored.same (h : Mirrored w) {s' : SessionState} (hs : SameQueue w.session s')
    {calls : List DeliverCall} (hcalls : ∀ c ∈ calls, CallFits w.session.maxQueue c) :
    Mirrored { w with session := s', calls := calls } where
  filed := h.filed.same hs
  queue := h.queue.same hs
  calls := by
    dsimp only
    rw [hs.maxQueue]
    exact hcalls
  held := by
    dsimp only
    rw [hs.queue, hs.clientId, hs.maxQueue]
    exact h.held
  stale := by
    dsimp only
    rw [hs.queue, hs.clientId]
    exact h.stale

/-- An attach takes the queue; its file is left to the removal. -/
theorem Mirrored.attach [HashOrder] (h : Mirrored w) (identity : Str) (sink : Sender)
    (kick : Notify) :
    Mirrored { w with
      session := (w.session.attachConnLocked w.disk identity sink kick).session
      disk := (w.session.attachConnLocked w.disk identity sink kick).disk
      discarding := w.discarding + 1 } where
  filed := by
    rw [SessionState.attachConnLocked_session]
    exact ⟨h.filed.queuePath, h.filed.subsPath⟩
  queue := by
    rw [SessionState.attachConnLocked_session]
    exact ⟨Nat.zero_le _, fun m hm => absurd hm List.not_mem_nil⟩
  calls := by
    rw [SessionState.attachConnLocked_session]
    exact h.calls
  held := fun hne => absurd rfl hne
  stale := by
    intro _ hzero
    cases hzero

theorem Mirrored.discard (h : Mirrored w) (hqueue : w.session.inner.queue = []) (n : Nat) :
    Mirrored { w with disk := w.session.discardQueueFile w.disk, discarding := n } where
  filed := h.filed
  queue := h.queue
  calls := h.calls
  held := fun hne => absurd hqueue hne
  stale := by
    intro _ _
    dsimp only
    rw [SessionState.discardQueueFile, h.filed.queuePath]
    dsimp only
    rw [Disk.remove, Keyed.lookup_erase, if_pos rfl]

theorem pushQueue_fits {s : SessionState} (h : QueueFits s) {m : Msg} (hm : MsgFits m)
    (hmax : s.maxQueue ≠ 0) : QueueFits (s.pushQueue m) where
  short := by
    have hshort := h.short
    show ((if s.inner.queue.length ≥ s.maxQueue then s.inner.queue.tail else s.inner.queue) ++
      [m]).length
      ≤ s.maxQueue
    rw [List.length_append, List.length_singleton]
    split
    · rw [List.length_tail]
      omega
    · omega
  fits := by
    intro x hx
    rcases List.mem_append.mp hx with hx | hx
    · split at hx
      · exact h.fits x (List.mem_of_mem_tail hx)
      · exact h.fits x hx
    · rw [List.mem_singleton.mp hx]
      exact hm

theorem Mirrored.push (h : Mirrored w) {m : Msg} (hm : MsgFits m) (hmax : w.session.maxQueue ≠ 0)
    {calls : List DeliverCall} (hcalls : ∀ c ∈ calls, CallFits w.session.maxQueue c) :
    Mirrored { w with
      session := w.session.pushQueue m, disk := (w.session.pushQueue m).persistQueue w.disk
      calls := calls } where
  filed := ⟨h.filed.queuePath, h.filed.subsPath⟩
  queue := pushQueue_fits h.queue hm hmax
  calls := hcalls
  held := by
    intro _
    have hpath : (w.session.pushQueue m).queuePath = some (queueFile w.session.clientId) :=
      h.filed.queuePath
    have hfits := pushQueue_fits h.queue hm hmax
    obtain ⟨d', hsave, hfile⟩ :=
      @saveQueue_lookup w.disk (queueFile w.session.clientId) _ hfits.fits
    dsimp only
    rw [SessionState.persistQueue, hpath]
    dsimp only
    rw [hsave]
    exact loadQueue_queueBytes (Nat.one_le_iff_ne_zero.mpr hmax) hfits.short hfits.fits hfile
  stale := fun hnil => absurd hnil (List.append_ne_nil_of_right_ne_nil _ (List.cons_ne_nil _ _))

theorem callFits_set {calls : List DeliverCall} {maxQueue : Nat} {c : DeliverCall}
    (h : ∀ c ∈ calls, CallFits maxQueue c) (i : Nat) (hc : CallFits maxQueue c) :
    ∀ c' ∈ calls.set i c, CallFits maxQueue c' := by
  intro c' hmem
  rcases List.mem_or_eq_of_mem_set hmem with hmem | rfl
  · exact h c' hmem
  · exact hc

theorem Mirrored.run (h : Mirrored w) {i : Nat} {c : DeliverCall} {r : SendResult} {now : Instant}
    {o : DeliverStep} (hc : w.calls[i]? = some c)
    (ho : w.session.deliverStep w.disk c r now = some o) :
    Mirrored { w with session := o.session, disk := o.disk, calls := w.calls.set i o.call } := by
  have hcall := h.calls c (List.mem_of_getElem? hc)
  -- the call stands elsewhere, and not before the queue
  have hmoved : ∀ pc, pc ≠ .queueing →
      ∀ c' ∈ w.calls.set i { c with pc := pc }, CallFits w.session.maxQueue c' :=
    fun pc hpc => callFits_set h.calls i ⟨hcall.fits, fun heq => absurd heq hpc⟩
  cases deliverStep_section ho with
  | live hpc hsink =>
      exact h.same (.of_noted (SessionState.noted_publishFor _ _ _))
        (hmoved _ (fun h => (by cases h)))
  | drop hpc hsink hno => exact h.same (.refl _) (hmoved _ (fun h => (by cases h)))
  | offline hpc hsink hno =>
      exact h.same (.refl _) (callFits_set h.calls i ⟨hcall.fits, fun _ hzero => hno (.inr hzero)⟩)
  | sent hpc | timeout hpc hgrace | closed hpc | retry hpc hsink =>
      exact h.same (.refl _) (hmoved _ (fun h => (by cases h)))
  | evict hpc =>
      exact h.same (.of_noted (SessionState.noted_evictSlow _ _ _))
        (hmoved _ (fun h => (by cases h)))
  | clear hpc =>
      exact h.same (.of_noted (SessionState.noted_clearSink _ _ _))
        (hmoved _ (fun h => (by cases h)))
  | queue hpc hsink =>
      exact h.push hcall.fits (hcall.bound hpc) (hmoved _ (fun h => (by cases h)))

theorem Mirrored.step [HashOrder] {act : MirrorAction} (h : Mirrored w) (hin : InTime w act)
    (hstep : w.step act = some w') : Mirrored w' := by
  cases act with
  | attach identity sink kick =>
      cases hstep
      exact h.attach identity sink kick
  | discard =>
      rw [MirrorWorld.step] at hstep
      split at hstep
      · cases hstep
      · cases hstep
        exact h.discard hin _
  | detach epoch now =>
      cases hstep
      exact h.same (.of_noted (SessionState.noted_detachConn _ _ _)) h.calls
  | evict tx now =>
      cases hstep
      exact h.same (.of_noted (SessionState.noted_evictSlow _ _ _)) h.calls
  | call m qos =>
      cases hstep
      refine h.same (.refl _) fun c hc => ?_
      rcases List.mem_append.mp hc with hc | hc
      · exact h.calls c hc
      · rw [List.mem_singleton.mp hc]
        exact ⟨hin, fun heq => (by cases heq)⟩
  | run i r now =>
      obtain ⟨c, hc, hstep⟩ := Option.bind_eq_some_iff.mp hstep
      obtain ⟨o, ho, rfl⟩ := Option.map_eq_some_iff.mp hstep
      exact h.run hc ho

/-- A file that loads as a queue that is not empty is there. -/
theorem lookup_of_loadQueue {d : Disk} {path : Path} {maxQueue : Nat} {q : List Msg} (hne : q ≠ [])
    (h : loadQueue d path maxQueue = .ok q) :
    1 ≤ maxQueue ∧ ∃ data, d.lookup path = some data := by
  rw [loadQueue] at h
  split at h
  · cases h
    exact absurd rfl hne
  · next hmax =>
    refine ⟨Nat.one_le_iff_ne_zero.mpr hmax, ?_⟩
    obtain ⟨data, hread, _⟩ := bind_eq_ok.mp h
    rw [Disk.read] at hread
    split at hread
    · next b hb => exact ⟨b, hb⟩
    · cases hread

theorem FileIsQueue.queueFits (h : w.FileIsQueue) : QueueFits w.session := by
  by_cases hnil : w.session.inner.queue = []
  · refine ⟨?_, ?_⟩ <;> rw [hnil]
    · exact Nat.zero_le _
    · exact fun m hm => absurd hm List.not_mem_nil
  · have hload := h.2 hnil
    obtain ⟨hmax, data, hdata⟩ := lookup_of_loadQueue hnil hload
    obtain ⟨all, hfits, _, hq⟩ := (loadQueue_iff hmax hdata).mp hload
    refine ⟨?_, fun m hm => ?_⟩
    · rw [hq, List.length_drop]
      omega
    · rw [hq] at hm
      exact hfits m (List.mem_of_mem_drop hm)

/-- With no removal to come, the file is the queue. -/
theorem Mirrored.fileIsQueue (h : Mirrored w) (hidle : w.discarding = 0) : FileIsQueue w := by
  constructor
  · constructor
    · intro hnone
      by_contra hne
      obtain ⟨_, data, hdata⟩ := lookup_of_loadQueue hne (h.held hne)
      rw [hdata] at hnone
      cases hnone
    · exact fun hnil => h.stale hnil hidle
  · exact h.held

/-- **The queue file mirrors the queue when no removal comes late**: on a session with its
files that starts so, after every run in which each removal of the file by an attach
finds the queue still empty and the messages fit, the file is there iff the queue is not
empty and loads as the queue, whenever no call is in progress. -/
theorem mirrored_when_idle [HashOrder] (s : SessionState) (d : Disk) (hfiled : Filed s)
    (hfile : (init s d).FileIsQueue) (acts : List MirrorAction) (w : MirrorWorld)
    (hmeets : Run.Meets step InTime (init s d) acts) (hrun : Run.exec step (init s d) acts = some w)
    (hidle : w.Idle) : w.FileIsQueue := by
  have hinit : Mirrored (init s d) := {
    filed := hfiled
    queue := hfile.queueFits
    calls := fun c hc => absurd hc List.not_mem_nil
    held := hfile.2
    stale := fun hnil _ => hfile.1.mpr hnil }
  have hend := Run.exec_invariant_of_meets (fun _ _ _ hi hp hs => Mirrored.step hi hp hs) acts hinit
    hmeets hrun
  exact hend.fileIsQueue hidle.1

/-! ## A late removal -/

/-- The session of a client that subscribed and left; nothing is queued for it. -/
def awaySession : SessionState :=
  let s := SessionState.new ∅ "dev".toList 10 none (some (queueFile "dev".toList))
    (some (subsFile "dev".toList))
  { s with inner := { s.inner with
    subs := s.inner.subs.insert "kiln".toList ⟨.atLeastOnce, 0⟩
    offlineSince := some 0 } }

theorem awaySession_filed : Filed awaySession := ⟨rfl, rfl⟩

theorem awaySession_fileIsQueue : (init awaySession ∅).FileIsQueue := by
  have hnil : awaySession.inner.queue = [] := rfl
  exact ⟨⟨fun _ => hnil, fun _ => rfl⟩, fun hne => absurd hnil hne⟩

/-- The client is back, and its attach has still to remove the queue file when a first
message finds the new channel open and a second one finds it closed. -/
def lateRemoval : List MirrorAction :=
  [.attach [] ⟨0⟩ ⟨0⟩, .call ("kiln".toList, [57]) .atLeastOnce, .run 0 .ok 5, .run 0 .ok 5,
    .call ("kiln".toList, [58]) .atLeastOnce, .run 1 .ok 6, .run 1 .closed 6, .run 1 .ok 6,
    .run 1 .ok 6, .run 1 .ok 6, .discard]

/-- The second message is queued and written, then the file is removed: the message is only
in memory. -/
theorem late_removal_forgets :
    ¬ ∀ (_ : HashOrder) (s : SessionState) (d : Disk), Filed s → (init s d).FileIsQueue →
      ∀ acts w, Run.exec step (init s d) acts = some w → w.Idle → w.FileIsQueue := by
  intro h
  have hmirror := h .asStored awaySession ∅ awaySession_filed awaySession_fileIsQueue
    lateRemoval _ rfl
    ⟨rfl, List.forall_mem_cons.mpr ⟨⟨.sent, rfl⟩, List.forall_mem_singleton.mpr ⟨.queued, rfl⟩⟩⟩
  exact absurd (hmirror.1.mp (by decide)) (by decide)

/-- With the removal in time a message that is queued is on file. -/
theorem removal_in_time_keeps :
    ∃ w, Run.exec (@step .asStored) (init awaySession ∅)
        [.attach [] ⟨0⟩ ⟨0⟩, .discard, .detach 1 5, .call ("kiln".toList, [57]) .atLeastOnce,
          .run 0 .ok 6, .run 0 .ok 6] = some w ∧ w.FileIsQueue := by
  refine ⟨_, rfl, @mirrored_when_idle .asStored awaySession ∅ awaySession_filed
    awaySession_fileIsQueue [.attach [] ⟨0⟩ ⟨0⟩, .discard, .detach 1 5,
      .call ("kiln".toList, [57]) .atLeastOnce, .run 0 .ok 6, .run 0 .ok 6] _ ?_ rfl
    ⟨rfl, List.forall_mem_singleton.mpr ⟨.queued, rfl⟩⟩⟩
  refine .cons rfl trivial (.cons rfl rfl (.cons rfl trivial (.cons rfl ⟨?_, ?_⟩ ?_)))
  · decide
  · decide
  · exact .cons rfl trivial (.cons rfl trivial trivial)

end MirrorWorld

end Entmoot
