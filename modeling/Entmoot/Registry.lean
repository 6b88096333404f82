/-
# `Entmoot.Registry` — the sessions of a node

`crates/entmoot-node/src/session.rs` 40–287.  The registry maps client ids to
sessions, which it shares with connections and forwarding tasks by `Arc`: a
session lives at an address of `heap`, and `sessions` holds addresses.  The
queue directory is part of the state because nearly every operation touches it.

`attach` takes the registry lock to find or make the session (`attachLookup`)
and installs the connection after releasing it (`attachConnAt`).  `detach`,
`sweep`, `activateSubscription` and `rehydrate` follow the source; what a
`declare_subscriber` on the bus answers is the parameter `declare`.
-/
import Entmoot.Auth
import Entmoot.Session
import Entmoot.Lib.Keyed

namespace Entmoot

/-- Where a session lives: two `Arc`s are `ptr_eq` iff their addresses agree. -/
abbrev Addr := Nat

structure SessionRegistry where
  sessions : AList fun _ : Str => Addr
  maxQueue : Nat
  slowGrace : Option Duration
  /-- whether a `queue_dir` is configured -/
  queueDir : Bool
  heap : List SessionState
  /-- the files of the queue directory -/
  disk : Disk
  /-- how many forwarding tasks were spawned -/
  tasks : Nat

structure AttachOutcome where
  session : Addr
  sessionPresent : Bool
  epoch : Nat
  backlog : List Msg
  deriving DecidableEq, Repr

/-- Why a subscription could not be activated. -/
inductive ActivateError where
  | invalidFilter (filter : Str) (e : TopicError)
  | zenohSubscriber (ke : Str)
  deriving DecidableEq, Repr

namespace SessionRegistry

def new (maxQueue : Nat) (slowGrace : Option Duration) (queueDir : Bool) (disk : Disk) :
    SessionRegistry :=
  ⟨∅, maxQueue, slowGrace, queueDir, [], disk, 0⟩

def queuePath (r : SessionRegistry) (clientId : Str) : Option Path :=
  if r.queueDir then some (queueFile clientId) else none

def subsPath (r : SessionRegistry) (clientId : Str) : Option Path :=
  if r.queueDir then some (subsFile clientId) else none

/-- The session at an address replaced. -/
def setSession (r : SessionRegistry) (a : Addr) (s : SessionState) : SessionRegistry :=
  { r with heap := r.heap.set a s }

/-- The session registered for a client id. -/
def registered (r : SessionRegistry) (clientId : Str) : Option SessionState :=
  (r.sessions.lookup clientId).bind fun a => r.heap[a]?

/-! ## Attach -/

/-- Both state files of a client id removed. -/
def removeState (r : SessionRegistry) (clientId : Str) : SessionRegistry :=
  let d := match r.queuePath clientId with | some p => r.disk.remove p | none => r.disk
  let d := match r.subsPath clientId with | some p => d.remove p | none => d
  { r with disk := d }

/-- `p.exists()` on a path that may not be configured. -/
def pathExists (r : SessionRegistry) (p : Option Path) : Bool :=
  match p with
  | some p => r.disk.exists? p
  | none => false

/-- A new session, entered in the map under its client id. -/
def addSession (r : SessionRegistry) (clientId : Str) (queuePath subsPath : Option Path) :
    SessionRegistry × Addr :=
  let s := SessionState.new r.disk clientId r.maxQueue r.slowGrace queuePath subsPath
  ({ r with heap := r.heap ++ [s], sessions := r.sessions.insert clientId r.heap.length },
    r.heap.length)

/-- The session an attach found or made, and the connection it kicked. -/
structure Lookup where
  registry : SessionRegistry
  session : Addr
  sessionPresent : Bool
  notified : Option Notify

/-- The part of `attach` under the registry lock. -/
def attachLookup (r : SessionRegistry) (clientId : Str) (clean : Bool) : Lookup :=
  match r.sessions.lookup clientId, clean with
  | some a, false =>
      { registry := { r with sessions := r.sessions.insert clientId a }
        session := a, sessionPresent := true, notified := none }
  | some a, true =>
      -- cleanSession=1 discards any stored state (MQTT-3.1.2-6)
      match r.heap[a]? with
      | none => { registry := r, session := a, sessionPresent := false, notified := none }
      | some existing =>
          let k := existing.kickCurrent
          let r := (r.setSession a k.1.abortSubs.1).removeState clientId
          let n := r.addSession clientId none none
          { registry := n.1, session := n.2, sessionPresent := false, notified := k.2 }
  | none, true =>
      let n := (r.removeState clientId).addSession clientId none none
      { registry := n.1, session := n.2, sessionPresent := false, notified := none }
  | none, false =>
      let queuePath := r.queuePath clientId
      let subsPath := r.subsPath clientId
      let present := r.pathExists queuePath || r.pathExists subsPath
      let n := r.addSession clientId queuePath subsPath
      { registry := n.1, session := n.2, sessionPresent := present, notified := none }

/-- `attach_conn` on the session at an address. -/
def attachConnAt [HashOrder] (r : SessionRegistry) (a : Addr) (identity : Str) (sink : Sender)
    (kick : Notify) : SessionRegistry × Nat × List Msg × Option Notify :=
  match r.heap[a]? with
  | none => (r, 0, [], none)
  | some s =>
      let c := s.attachConn r.disk identity sink kick
      ({ r.setSession a c.session with disk := c.disk }, c.epoch, c.backlog, c.notified)

/-- A finished attach: the registry after it, its outcome, the connections kicked. -/
structure Attached where
  registry : SessionRegistry
  outcome : AttachOutcome
  notified : List Notify

def attach [HashOrder] (r : SessionRegistry) (clientId identity : Str) (clean : Bool)
    (sink : Sender) (kick : Notify) : Attached :=
  let l := r.attachLookup clientId clean
  let c := l.registry.attachConnAt l.session identity sink kick
  { registry := c.1
    outcome :=
      { session := l.session, sessionPresent := l.sessionPresent, epoch := c.2.1
        backlog := c.2.2.1 }
    notified := l.notified.toList ++ c.2.2.2.toList }

/-! ## Detach and sweep -/

/-- `abort_subs`, then `discard_state_files`, on the session at an address. -/
def discardAt (r : SessionRegistry) (a : Addr) : SessionRegistry :=
  match r.heap[a]? with
  | none => r
  | some s =>
      let s := s.abortSubs.1
      { r.setSession a s with disk := s.discardStateFiles r.disk }

/-- The map entry of a session dropped, if it is still this session's. -/
def removeOwn (r : SessionRegistry) (a : Addr) : SessionRegistry :=
  match r.heap[a]? with
  | none => r
  | some s =>
      if r.sessions.lookup s.clientId = some a then
        { r with sessions := r.sessions.erase s.clientId }
      else r

def detach (r : SessionRegistry) (a : Addr) (epoch : Nat) (clean : Bool) (now : Instant) :
    SessionRegistry :=
  match r.heap[a]? with
  | none => r
  | some s =>
      let d := s.detachConn epoch now
      let r := r.setSession a d.1
      if d.2 && clean then (r.discardAt a).removeOwn a else r

/-- Whether the session at an address has been offline for longer than `expiry`. -/
def expiredAt (r : SessionRegistry) (expiry : Duration) (now : Instant) (a : Addr) : Bool :=
  match r.heap[a]? with
  | some s => s.expired expiry now
  | none => false

def sweep (r : SessionRegistry) (expiry : Duration) (now : Instant) : SessionRegistry :=
  let gone := (Keyed.pairs r.sessions).filter fun e => r.expiredAt expiry now e.2
  let kept := Keyed.retain (fun _ a => !r.expiredAt expiry now a) r.sessions
  gone.foldl (fun r e => r.discardAt e.2) { r with sessions := kept }

/-- (sessions, offline, queued messages, total dropped) for metrics. -/
def stats (r : SessionRegistry) : Nat × Nat × Nat × Nat :=
  let ss := (Keyed.pairs r.sessions).filterMap fun e => r.heap[e.2]?
  (r.sessions.entries.length,
    (ss.filter fun s => s.inner.sink.isNone).length,
    (ss.map fun s => s.inner.queue.length).sum,
    (ss.map fun s => s.inner.dropped).sum)

/-! ## Subscriptions -/

/-- `activate_subscription` on the session at an address; `declare` answers
whether the bus accepts a subscriber on a key expression. -/
def activateSubscription [HashOrder] (r : SessionRegistry) (declare : Str → Bool) (scope : Str)
    (a : Addr) (filter : Str) (granted : QoS) : Except ActivateError SessionRegistry :=
  match filterToKeyexpr filter scope with
  | .error e => .error (.invalidFilter filter e)
  | .ok ke =>
      if declare ke then
        match r.heap[a]? with
        | none => .ok r
        | some s =>
            let i := s.insertSub r.disk filter granted r.tasks
            .ok { r.setSession a i.1 with disk := i.2.1, tasks := r.tasks + 1 }
      else .error (.zenohSubscriber ke)

/-- `remove_sub` on the session at an address. -/
def removeSub [HashOrder] (r : SessionRegistry) (a : Addr) (filter : Str) : SessionRegistry :=
  match r.heap[a]? with
  | none => r
  | some s =>
      let i := s.removeSub r.disk filter
      { r.setSession a i.1 with disk := i.2.1 }

/-- `deliver` on the session at an address. -/
def deliver (r : SessionRegistry) (a : Addr) (m : Msg) (qos : QoS) (send : SessionState.SendResult)
    (now : Instant) : SessionRegistry :=
  match r.heap[a]? with
  | none => r
  | some s =>
      let i := s.deliver r.disk m qos send now
      { r.setSession a i.session with disk := i.disk }

/-! ## Rehydration -/

/-- Replay one entry of a subscription file: only what the ACL still permits. -/
def replaySub [HashOrder] (declare : Str → Bool) (acl : Acl) (scope identity : Str) (a : Addr)
    (r : SessionRegistry) (e : Str × QoS) : SessionRegistry :=
  if acl.maySubscribe identity e.1 then
    match r.activateSubscription declare scope a e.1 e.2 with
    | .ok r' => r'
    | .error _ => r
  else r

def rehydrateOne [HashOrder] (declare : Str → Bool) (acl : Acl) (scope : Str) (r : SessionRegistry)
    (path : Path) : Except String (SessionRegistry × Str) := do
  let (clientId, identity, filters) ← loadSubs r.disk path
  let s := SessionState.new r.disk clientId r.maxQueue r.slowGrace (r.queuePath clientId)
    (some path)
  let s := { s with inner := { s.inner with identity := identity } }
  let a := r.heap.length
  let r := { r with heap := r.heap ++ [s] }
  let r := filters.foldl (replaySub declare acl scope identity a) r
  let r := match r.heap[a]? with
    | some s => { r with disk := s.persistSubs r.disk }
    | none => r
  pure ({ r with sessions := r.sessions.insert clientId a }, clientId)

/-- The subscription files of the queue directory, as the scan meets them. -/
def subsFiles [HashOrder] (d : Disk) : List Path :=
  (HashOrder.order d.keys).filter fun p => extension p = some "subs".toList

/-- One turn of the rehydration scan: a file that does not load is skipped. -/
def rehydrateStep [HashOrder] (declare : Str → Bool) (acl : Acl) (scope : Str) (r : SessionRegistry)
    (path : Path) : SessionRegistry :=
  match r.rehydrateOne declare acl scope path with
  | .ok p => p.1
  | .error _ => r

def rehydrate [HashOrder] (declare : Str → Bool) (acl : Acl) (scope : Str) (r : SessionRegistry) :
    SessionRegistry :=
  if r.queueDir then (subsFiles r.disk).foldl (rehydrateStep declare acl scope) r else r

end SessionRegistry

end Entmoot
