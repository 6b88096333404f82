/-
# `Entmoot.Session` — one persistent session and its lock-protected sections

`crates/entmoot-node/src/session.rs` 289–576.  Each function below is one
section the source runs under the session lock, as a function of the session and
the queue directory; what it does to other tasks (a `notify_waiters`, the tasks
it aborts) is part of the result.  `deliver` is a loop around several such
sections with awaits between them, so it is a small machine: `DeliverPc` says
where a call stands and `deliverStep` takes it one section further.  The
sequential `deliver` is that machine run without interruption.
-/
import Entmoot.StateFile

namespace Entmoot

/-- The handle of a forwarding task. -/
abbrev Task := Nat

structure SubEntry where
  qos : QoS
  task : Task
  deriving DecidableEq, Repr

/-- What a session keeps under its lock. -/
structure Inner where
  epoch : Nat
  sink : Option Sender
  kick : Option Notify
  kickReason : Option Str
  identity : Str
  subs : AList fun _ : Str => SubEntry
  queue : List Msg
  dropped : Nat
  offlineSince : Option Instant

structure SessionState where
  clientId : Str
  pkid : UInt16
  maxQueue : Nat
  slowGrace : Option Duration
  queuePath : Option Path
  subsPath : Option Path
  inner : Inner

inductive Delivery where
  | sent
  | queued
  | dropped
  deriving DecidableEq, Repr

def kickTakeover : Str := "session taken over by a new connection".toList
def kickSlow : Str := "slow consumer: outbound queue stayed full past the grace period".toList

namespace SessionState

/-- The queue a new session starts from: its queue file, if there is one that loads. -/
def initialQueue (d : Disk) (maxQueue : Nat) (queuePath : Option Path) : List Msg :=
  match queuePath with
  | none => []
  | some path =>
    match loadQueue d path maxQueue with
    | .ok queue => queue
    | .error _ => []

def new (d : Disk) (clientId : Str) (maxQueue : Nat) (slowGrace : Option Duration)
    (queuePath subsPath : Option Path) : SessionState where
  clientId := clientId
  pkid := 1
  maxQueue := maxQueue
  slowGrace := slowGrace
  queuePath := queuePath
  subsPath := subsPath
  inner :=
    { epoch := 0, sink := none, kick := none, kickReason := none, identity := [], subs := ∅,
      queue := initialQueue d maxQueue queuePath, dropped := 0, offlineSince := none }

/-- `take_kick_reason`: consumed on read. -/
def takeKickReason (s : SessionState) : SessionState × Option Str :=
  ({ s with inner := { s.inner with kickReason := none } }, s.inner.kickReason)

/-- `next_pkid`: at most two increments, since after a 0 the counter is at 1. -/
def nextPkid (s : SessionState) : SessionState × UInt16 :=
  if s.pkid ≠ 0 then ({ s with pkid := s.pkid + 1 }, s.pkid)
  else ({ s with pkid := 2 }, 1)

/-! ## State files -/

def discardQueueFile (s : SessionState) (d : Disk) : Disk :=
  match s.queuePath with
  | some path => d.remove path
  | none => d

def discardSubsFile (s : SessionState) (d : Disk) : Disk :=
  match s.subsPath with
  | some path => d.remove path
  | none => d

def discardStateFiles (s : SessionState) (d : Disk) : Disk :=
  s.discardSubsFile (s.discardQueueFile d)

/-- A failed save is logged and leaves the file as it was. -/
def persistQueue (s : SessionState) (d : Disk) : Disk :=
  match s.queuePath with
  | none => d
  | some path =>
    match saveQueue d path s.inner.queue with
    | .ok d' => d'
    | .error _ => d

/-- The subscriptions as (filter, QoS) pairs. -/
def subEntries (subs : AList fun _ : Str => SubEntry) : List (Str × QoS) :=
  subs.entries.map fun e => (e.1, e.2.qos)

def persistSubs [HashOrder] (s : SessionState) (d : Disk) : Disk :=
  match s.subsPath with
  | none => d
  | some path =>
    let entries := HashOrder.order (subEntries s.inner.subs)
    match saveSubs d path s.clientId s.inner.identity entries with
    | .ok d' => d'
    | .error _ => d

/-! ## Connections coming and going -/

/-- What `attach_conn` returns, and the connection it kicks. -/
structure AttachConn where
  session : SessionState
  disk : Disk
  epoch : Nat
  backlog : List Msg
  notified : Option Notify

/-- The new connection installed; the old one marked as taken over. -/
def installConn (s : SessionState) (sink : Sender) (kick : Notify) : SessionState :=
  { s with inner := { s.inner with
      kickReason := if s.inner.kick.isSome then some kickTakeover else s.inner.kickReason
      epoch := s.inner.epoch + 1
      sink := some sink
      kick := some kick
      offlineSince := none } }

/-- The owning identity brought up to date, in memory and, if there are
subscriptions, on disk. -/
def setIdentity [HashOrder] (s : SessionState) (d : Disk) (identity : Str) : SessionState × Disk :=
  if s.inner.identity ≠ identity then
    let s := { s with inner := { s.inner with identity := identity } }
    (s, if s.inner.subs.entries ≠ [] then s.persistSubs d else d)
  else (s, d)

/-- The part of `attach_conn` under the session lock. -/
def attachConnLocked [HashOrder] (s : SessionState) (d : Disk) (identity : Str) (sink : Sender)
    (kick : Notify) : AttachConn :=
  let p := (s.installConn sink kick).setIdentity d identity
  { session := { p.1 with inner := { p.1.inner with queue := [] } }
    disk := p.2
    epoch := p.1.inner.epoch
    backlog := p.1.inner.queue
    notified := s.inner.kick }

/-- `attach_conn`: the locked part, then the queue file goes. -/
def attachConn [HashOrder] (s : SessionState) (d : Disk) (identity : Str) (sink : Sender)
    (kick : Notify) : AttachConn :=
  let a := s.attachConnLocked d identity sink kick
  { a with disk := a.session.discardQueueFile a.disk }

theorem setIdentity_inner [HashOrder] (s : SessionState) (d : Disk) (identity : Str) :
    (s.setIdentity d identity).1.inner = { s.inner with identity := identity } := by
  rw [setIdentity]
  split
  · rfl
  · next h => rw [← not_not.mp h]

/-- The session after the locked part of `attach_conn`, whatever the files hold. -/
theorem attachConnLocked_session [HashOrder] (s : SessionState) (d : Disk) (identity : Str)
    (sink : Sender) (kick : Notify) : (s.attachConnLocked d identity sink kick).session =
      { s with inner := { (s.installConn sink kick).inner with identity := identity
                                                               queue := [] } } := by
  rw [attachConnLocked, setIdentity]
  split
  · rfl
  · next h =>
    have hid : s.inner.identity = identity := not_not.mp h
    subst hid
    rfl

/-- The session after an attach: its queue is empty, its subscriptions stay. -/
theorem attachConn_inner [HashOrder] (s : SessionState) (d : Disk) (identity : Str) (sink : Sender)
    (kick : Notify) : (s.attachConn d identity sink kick).session.inner =
      { (s.installConn sink kick).inner with identity := identity, queue := [] } := by
  show { ((s.installConn sink kick).setIdentity d identity).1.inner with queue := [] } = _
  rw [setIdentity_inner]

theorem attachConn_backlog [HashOrder] (s : SessionState) (d : Disk) (identity : Str)
    (sink : Sender) (kick : Notify) :
    (s.attachConn d identity sink kick).backlog = s.inner.queue := by
  show ((s.installConn sink kick).setIdentity d identity).1.inner.queue = s.inner.queue
  rw [setIdentity_inner]
  rfl

theorem attachConn_queue [HashOrder] (s : SessionState) (d : Disk) (identity : Str)
    (sink : Sender) (kick : Notify) :
    (s.attachConn d identity sink kick).session.inner.queue = [] := rfl

theorem attachConn_subs [HashOrder] (s : SessionState) (d : Disk) (identity : Str)
    (sink : Sender) (kick : Notify) :
    (s.attachConn d identity sink kick).session.inner.subs = s.inner.subs := by
  rw [attachConn_inner]
  rfl

/-- `detach_conn`: false if the connection was already superseded. -/
def detachConn (s : SessionState) (epoch : Nat) (now : Instant) : SessionState × Bool :=
  if s.inner.epoch ≠ epoch then (s, false)
  else
    ({ s with inner := { s.inner with sink := none, kick := none, offlineSince := some now } },
      true)

/-- `kick_current`: the kick stays installed. -/
def kickCurrent (s : SessionState) : SessionState × Option Notify :=
  match s.inner.kick with
  | some kick => ({ s with inner := { s.inner with kickReason := some kickTakeover } }, some kick)
  | none => (s, none)

def expired (s : SessionState) (expiry : Duration) (now : Instant) : Bool :=
  match s.inner.offlineSince with
  | some t => elapsed now t > expiry
  | none => false

/-- `evict_slow`: only if `tx` is still the session's sink. -/
def evictSlow (s : SessionState) (tx : Sender) (now : Instant) : SessionState × Option Notify :=
  if s.inner.sink ≠ some tx then (s, none)
  else
    ({ s with inner := { s.inner with
        kickReason := some kickSlow, sink := none, offlineSince := some now } }, s.inner.kick)

/-! ## Subscriptions -/

/-- `insert_sub`, with the task it aborts. -/
def insertSub [HashOrder] (s : SessionState) (d : Disk) (filter : Str) (qos : QoS) (task : Task) :
    SessionState × Disk × Option Task :=
  let old := s.inner.subs.lookup filter
  let s := { s with inner := { s.inner with subs := s.inner.subs.insert filter ⟨qos, task⟩ } }
  (s, s.persistSubs d, old.map SubEntry.task)

/-- `remove_sub`, with the task it aborts. -/
def removeSub [HashOrder] (s : SessionState) (d : Disk) (filter : Str) :
    SessionState × Disk × Option Task :=
  let old := s.inner.subs.lookup filter
  let s := { s with inner := { s.inner with subs := s.inner.subs.erase filter } }
  (s, s.persistSubs d, old.map SubEntry.task)

/-- `abort_subs`, with the tasks it aborts. -/
def abortSubs (s : SessionState) : SessionState × List Task :=
  ({ s with inner := { s.inner with subs := ∅ } }, s.inner.subs.entries.map fun e => e.2.task)

/-! ## Delivery -/

/-- How a send on an outbound channel ends. -/
inductive SendResult where
  | ok
  | timeout
  | closed
  deriving DecidableEq, Repr

/-- The sink cleared, if nobody replaced it since `tx` was read. -/
def clearSink (s : SessionState) (tx : Sender) (now : Instant) : SessionState :=
  if s.inner.sink = some tx then
    { s with inner := { s.inner with sink := none, offlineSince := some now } }
  else s

/-- The packet a live delivery sends; only QoS above 0 takes a packet id. -/
def publishFor (s : SessionState) (m : Msg) (qos : QoS) : SessionState × Publish :=
  let p := Publish.new m.1 qos m.2
  if qos ≠ .atMostOnce then
    let n := s.nextPkid
    (n.1, { p with pkid := n.2 })
  else (s, p)

theorem publishFor_publish (s : SessionState) (m : Msg) (q : QoS) :
    ((s.publishFor m q).2.topic, (s.publishFor m q).2.payload) = m ∧
      (s.publishFor m q).2.qos = q := by
  rw [publishFor]
  split
  · exact ⟨rfl, rfl⟩
  · exact ⟨rfl, rfl⟩

/-- The queue with one more message, the oldest dropped if it is full. -/
def pushQueue (s : SessionState) (m : Msg) : SessionState :=
  let full := s.inner.queue.length ≥ s.maxQueue
  { s with inner := { s.inner with
      queue := (if full then s.inner.queue.tail else s.inner.queue) ++ [m]
      dropped := if full then s.inner.dropped + 1 else s.inner.dropped } }

/-- At most a packet id taken, or the connection noted as gone. -/
inductive Noted (s : SessionState) : SessionState → Prop where
  | pkid (n : UInt16) : Noted s { s with pkid := n }
  | offline (kick : Option Notify) (reason : Option Str) (now : Instant) :
      Noted s { s with inner := { s.inner with
        kick := kick, kickReason := reason, sink := none, offlineSince := some now } }

theorem Noted.refl (s : SessionState) : Noted s s := .pkid s.pkid

theorem noted_publishFor (s : SessionState) (m : Msg) (qos : QoS) :
    Noted s (s.publishFor m qos).1 := by
  rw [publishFor]
  split
  · show Noted s s.nextPkid.1
    rw [nextPkid]
    split
    · exact .pkid _
    · exact .pkid _
  · exact .refl s

theorem noted_detachConn (s : SessionState) (epoch : Nat) (now : Instant) :
    Noted s (s.detachConn epoch now).1 := by
  rw [detachConn]
  split
  · exact .refl s
  · exact .offline none s.inner.kickReason now

theorem noted_evictSlow (s : SessionState) (tx : Sender) (now : Instant) :
    Noted s (s.evictSlow tx now).1 := by
  rw [evictSlow]
  split
  · exact .refl s
  · exact .offline s.inner.kick (some kickSlow) now

theorem noted_clearSink (s : SessionState) (tx : Sender) (now : Instant) :
    Noted s (s.clearSink tx now) := by
  rw [clearSink]
  split
  · exact .offline s.inner.kick s.inner.kickReason now
  · exact .refl s

/-- Where a `deliver` call stands. -/
inductive DeliverPc where
  /-- at the head of the loop, about to read the sink -/
  | readSink
  /-- waiting in `send` or `send_timeout` on the sink it read -/
  | sending (tx : Sender) (p : Publish)
  /-- timed out, about to evict -/
  | evicting (tx : Sender)
  /-- the send failed, about to clear the sink -/
  | clearing (tx : Sender)
  /-- saw no sink, about to lock the session and queue -/
  | queueing
  | done (d : Delivery)
  deriving DecidableEq, Repr

structure DeliverCall where
  msg : Msg
  qos : QoS
  pc : DeliverPc
  deriving DecidableEq, Repr

/-- What one section of a `deliver` call does. -/
structure DeliverStep where
  session : SessionState
  disk : Disk
  call : DeliverCall
  /-- the packet put into a channel -/
  pushed : Option (Sender × Publish) := none
  notified : Option Notify := none

/-- The next section of a `deliver` call; `r` is how its send ends, `now` the
clock.  A timeout needs a slow-consumer grace. -/
def deliverStep (s : SessionState) (d : Disk) (c : DeliverCall) (r : SendResult) (now : Instant) :
    Option DeliverStep :=
  match c.pc with
  | .readSink =>
      match s.inner.sink with
      | some tx =>
          let q := s.publishFor c.msg c.qos
          some { session := q.1, disk := d, call := { c with pc := .sending tx q.2 } }
      | none =>
          if c.qos = .atMostOnce ∨ s.maxQueue = 0 then
            some { session := s, disk := d, call := { c with pc := .done .dropped } }
          else some { session := s, disk := d, call := { c with pc := .queueing } }
  | .sending tx p =>
      match r with
      | .ok =>
          some { session := s, disk := d, call := { c with pc := .done .sent }
                 pushed := some (tx, p) }
      | .timeout =>
          if s.slowGrace.isSome then
            some { session := s, disk := d, call := { c with pc := .evicting tx } }
          else none
      | .closed => some { session := s, disk := d, call := { c with pc := .clearing tx } }
  | .evicting tx =>
      let e := s.evictSlow tx now
      some { session := e.1, disk := d, call := { c with pc := .clearing tx }, notified := e.2 }
  | .clearing tx =>
      some { session := s.clearSink tx now, disk := d, call := { c with pc := .readSink } }
  | .queueing =>
      if s.inner.sink.isSome then
        some { session := s, disk := d, call := { c with pc := .readSink } }
      else
        let s := s.pushQueue c.msg
        some { session := s, disk := s.persistQueue d, call := { c with pc := .done .queued } }
  | .done _ => none

/-- The sections of a `deliver` call, one by one, with what each does. -/
inductive DeliverSection (s : SessionState) (d : Disk) (c : DeliverCall) (now : Instant) :
    SendResult → DeliverStep → Prop where
  | live {tx : Sender} {r : SendResult} (hpc : c.pc = .readSink) (hsink : s.inner.sink = some tx) :
      DeliverSection s d c now r
        { session := (s.publishFor c.msg c.qos).1, disk := d
          call := { c with pc := .sending tx (s.publishFor c.msg c.qos).2 } }
  | drop {r : SendResult} (hpc : c.pc = .readSink) (hsink : s.inner.sink = none)
      (hno : c.qos = .atMostOnce ∨ s.maxQueue = 0) :
      DeliverSection s d c now r
        { session := s, disk := d, call := { c with pc := .done .dropped } }
  | offline {r : SendResult} (hpc : c.pc = .readSink) (hsink : s.inner.sink = none)
      (hno : ¬ (c.qos = .atMostOnce ∨ s.maxQueue = 0)) :
      DeliverSection s d c now r { session := s, disk := d, call := { c with pc := .queueing } }
  | sent {tx : Sender} {p : Publish} (hpc : c.pc = .sending tx p) :
      DeliverSection s d c now .ok
        { session := s, disk := d, call := { c with pc := .done .sent }, pushed := some (tx, p) }
  | timeout {tx : Sender} {p : Publish} (hpc : c.pc = .sending tx p) (hgrace : s.slowGrace.isSome) :
      DeliverSection s d c now .timeout
        { session := s, disk := d, call := { c with pc := .evicting tx } }
  | closed {tx : Sender} {p : Publish} (hpc : c.pc = .sending tx p) :
      DeliverSection s d c now .closed
        { session := s, disk := d, call := { c with pc := .clearing tx } }
  | evict {tx : Sender} {r : SendResult} (hpc : c.pc = .evicting tx) :
      DeliverSection s d c now r
        { session := (s.evictSlow tx now).1, disk := d, call := { c with pc := .clearing tx }
          notified := (s.evictSlow tx now).2 }
  | clear {tx : Sender} {r : SendResult} (hpc : c.pc = .clearing tx) :
      DeliverSection s d c now r
        { session := s.clearSink tx now, disk := d, call := { c with pc := .readSink } }
  /-- reconnected between the checks -/
  | retry {tx : Sender} {r : SendResult} (hpc : c.pc = .queueing) (hsink : s.inner.sink = some tx) :
      DeliverSection s d c now r { session := s, disk := d, call := { c with pc := .readSink } }
  | queue {r : SendResult} (hpc : c.pc = .queueing) (hsink : s.inner.sink = none) :
      DeliverSection s d c now r
        { session := s.pushQueue c.msg, disk := (s.pushQueue c.msg).persistQueue d
          call := { c with pc := .done .queued } }

/-- One step of a call is one of its sections. -/
theorem deliverStep_section {s : SessionState} {d : Disk} {c : DeliverCall} {r : SendResult}
    {now : Instant} {o : DeliverStep} (h : s.deliverStep d c r now = some o) :
    DeliverSection s d c now r o := by
  cases hpc : c.pc with
  | readSink =>
      simp only [deliverStep, hpc] at h
      split at h
      · next tx hsink =>
        cases h
        exact .live hpc hsink
      · next hsink =>
        split at h
        · next hno =>
          cases h
          exact .drop hpc hsink hno
        · next hno =>
          cases h
          exact .offline hpc hsink hno
  | sending tx p =>
      simp only [deliverStep, hpc] at h
      cases r with
      | ok =>
          cases h
          exact .sent hpc
      | timeout =>
          dsimp only at h
          split at h
          · next hgrace =>
            cases h
            exact .timeout hpc hgrace
          · cases h
      | closed =>
          cases h
          exact .closed hpc
  | evicting tx =>
      simp only [deliverStep, hpc] at h
      cases h
      exact .evict hpc
  | clearing tx =>
      simp only [deliverStep, hpc] at h
      cases h
      exact .clear hpc
  | queueing =>
      simp only [deliverStep, hpc] at h
      split at h
      · next hsink =>
        cases h
        obtain ⟨tx, htx⟩ := Option.isSome_iff_exists.mp hsink
        exact .retry hpc htx
      · next hsink =>
        cases h
        exact .queue hpc (Option.not_isSome_iff_eq_none.mp hsink)
  | done dl =>
      simp only [deliverStep, hpc] at h
      cases h

/-- A call pushes exactly when its send goes through. -/
theorem deliverStep_pushed {s : SessionState} {d : Disk} {c : DeliverCall} {r : SendResult}
    {now : Instant} {o : DeliverStep} (h : s.deliverStep d c r now = some o) (tx : Sender)
    (p : Publish) : o.pushed = some (tx, p) ↔ c.pc = .sending tx p ∧ r = .ok := by
  cases deliverStep_section h with
  | sent hpc => simp [hpc]
  | live hpc _ | drop hpc _ _ | offline hpc _ _ | timeout hpc _ | closed hpc | evict hpc | clear hpc
  | retry hpc _ | queue hpc _ => simp [hpc]

/-! ## Delivery without interruption -/

/-- What a completed `deliver` call did. -/
structure Delivered where
  session : SessionState
  disk : Disk
  delivery : Delivery
  pushed : Option (Sender × Publish) := none
  notified : Option Notify := none

/-- The offline arm of `deliver`. -/
def deliverOffline (s : SessionState) (d : Disk) (m : Msg) (qos : QoS) : Delivered :=
  if qos = .atMostOnce ∨ s.maxQueue = 0 then { session := s, disk := d, delivery := .dropped }
  else
    let s := s.pushQueue m
    { session := s, disk := s.persistQueue d, delivery := .queued }

/-- A `deliver` call nothing interrupts: a failed send leaves no sink, so the
second turn of the loop takes the offline arm. -/
def deliver (s : SessionState) (d : Disk) (m : Msg) (qos : QoS) (r : SendResult) (now : Instant) :
    Delivered :=
  match s.inner.sink with
  | none => s.deliverOffline d m qos
  | some tx =>
      let q := s.publishFor m qos
      match r with
      | .ok => { session := q.1, disk := d, delivery := .sent, pushed := some (tx, q.2) }
      | .closed => (q.1.clearSink tx now).deliverOffline d m qos
      | .timeout =>
          let e := q.1.evictSlow tx now
          { (e.1.clearSink tx now).deliverOffline d m qos with notified := e.2 }

end SessionState

end Entmoot
