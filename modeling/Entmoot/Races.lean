/-
# `Entmoot.Races` — attach, detach and sweep against each other

Any number of `attach`, `detach` and `sweep` calls for one client id, interleaved
at every point where another thread can get in between: the registry lock is a
field of the world that a call may hold over several steps, a section under a
session lock is one step, and so is each operation on a file (a save is visible
from its rename on).  `attach` lets the registry lock go before `attach_conn`,
whose file removal in turn comes after the session lock; `detach` marks the
session offline and cleans up before it takes the registry lock; `sweep` cleans
up after it.

`Linearizable` is what such a run is measured against: the same calls, one after
the other, by `SessionRegistry.attach`, `detach` and `sweep`.  Two steps can break
it: an `attach_conn` on a session that is being or has been unregistered since the
lookup, and a look at a state file that another call has still to remove.
`Orderly` rules out just these; `stale_session_is_returned` is a run with the
first of them.
-/
import Entmoot.Discard
import Entmoot.Lib.History

namespace Entmoot

/-! ## The system -/

/-- A call on the registry, with the clock it reads. -/
inductive RaceOp where
  | attach (identity : Str) (clean : Bool) (sink : Sender) (kick : Notify)
  | detach (a : Addr) (epoch : Nat) (clean : Bool) (now : Instant)
  | sweep (expiry : Duration) (now : Instant)
  deriving DecidableEq, Repr

/-- The cleanup of a session: `abort_subs`, then both files of `discard_state_files`. -/
inductive Cleanup where
  | abort
  | queue
  | subs
  deriving DecidableEq, Repr

/-- Where a call stands: the step that comes next. -/
inductive RacePc where
  | start
  /-- cleanSession=1, a session found -/
  | kick (a : Addr)
  | abort (a : Addr)
  | removeQueue
  | removeSubs
  | makeClean
  /-- cleanSession=0, no session found -/
  | queueExists
  | subsExists
  | load (present : Bool)
  /-- registry lock released; `made` if this call made the session -/
  | attachConn (a : Addr) (present made : Bool)
  /-- session lock released, about to remove the queue file -/
  | discardQueue (o : AttachOutcome)
  /-- a detach cleaning up, and then taking its map entry away -/
  | ending (st : Cleanup) (a : Addr)
  | unregister (a : Addr)
  /-- a sweep cleaning up, with the sessions that come after -/
  | sweeping (st : Cleanup) (a : Addr) (rest : List Addr)
  | returned (o : Option AttachOutcome)
  deriving DecidableEq, Repr

namespace RacePc

/-- The registry lock is held. -/
def locked : RacePc → Bool
  | .kick _ | .abort _ | .removeQueue | .removeSubs | .makeClean | .queueExists | .subsExists
  | .load _ => true
  | _ => false

/-- The session whose map entry a detach has still to take away. -/
def ends : RacePc → Option Addr
  | .ending _ a | .unregister a => some a
  | _ => none

/-- The sessions whose queue file the call has still to remove. -/
def queues : RacePc → List Addr
  | .discardQueue o => [o.session]
  | .ending .abort a | .ending .queue a => [a]
  | .sweeping .abort a rest | .sweeping .queue a rest => a :: rest
  | .sweeping .subs _ rest => rest
  | _ => []

/-- The sessions whose subscription file the call has still to remove. -/
def subs : RacePc → List Addr
  | .ending _ a => [a]
  | .sweeping _ a rest => a :: rest
  | _ => []

end RacePc

structure RaceCall where
  op : RaceOp
  pc : RacePc
  /-- the calls that had returned when this one was made -/
  before : List Nat
  deriving DecidableEq, Repr

structure RaceWorld where
  reg : SessionRegistry
  /-- the call that holds the registry lock -/
  lock : Option Nat
  calls : List RaceCall
  /-- connections attached before: session, epoch, cleanSession -/
  held : List (Addr × Nat × Bool)

inductive RaceAction where
  | invoke (op : RaceOp)
  /-- the next step of a call -/
  | run (i : Nat)
  deriving DecidableEq, Repr

/-- A call after one step. -/
structure Section where
  reg : SessionRegistry
  lock : Option Nat
  pc : RacePc

namespace SessionRegistry

/-- `remove_state_file` on a path that may not be configured. -/
def removeFile (r : SessionRegistry) (p : Option Path) : SessionRegistry :=
  match p with
  | some p => { r with disk := r.disk.remove p }
  | none => r

/-- One step of the cleanup of a session. -/
def cleanup (r : SessionRegistry) (a : Addr) (s : SessionState) : Cleanup → SessionRegistry
  | .abort => r.setSession a s.abortSubs.1
  | .queue => { r with disk := s.discardQueueFile r.disk }
  | .subs => { r with disk := s.discardSubsFile r.disk }

/-- The sessions a sweep unregisters, in the order the map yields them. -/
def sweepGone [HashOrder] (r : SessionRegistry) (expiry : Duration) (now : Instant) : List Addr :=
  HashOrder.order
    (((Keyed.pairs r.sessions).filter fun e => r.expiredAt expiry now e.2).map Prod.snd)

/-- The map without them. -/
def sweepKept (r : SessionRegistry) (expiry : Duration) (now : Instant) : SessionRegistry :=
  { r with sessions := Keyed.retain (fun _ a => !r.expiredAt expiry now a) r.sessions }

/-! ## The steps of each call -/

/-- `attach`, as call `i`. -/
def attachSection [HashOrder] (c : Str) (r : SessionRegistry) (lock : Option Nat) (i : Nat)
    (identity : Str) (clean : Bool) (sink : Sender) (kick : Notify) : RacePc → Option Section
  | .start =>
      if lock.isSome then none
      else
        match r.sessions.lookup c, clean with
        | some a, false =>
            some ⟨{ r with sessions := r.sessions.insert c a }, none, .attachConn a true false⟩
        | some a, true => some ⟨r, some i, .kick a⟩
        | none, true => some ⟨r, some i, .removeQueue⟩
        | none, false => some ⟨r, some i, .queueExists⟩
  | .kick a => r.heap[a]?.map fun s => ⟨r.setSession a s.kickCurrent.1, lock, .abort a⟩
  | .abort a => r.heap[a]?.map fun s => ⟨r.setSession a s.abortSubs.1, lock, .removeQueue⟩
  | .removeQueue => some ⟨r.removeFile (r.queuePath c), lock, .removeSubs⟩
  | .removeSubs => some ⟨r.removeFile (r.subsPath c), lock, .makeClean⟩
  | .makeClean =>
      let n := r.addSession c none none
      some ⟨n.1, none, .attachConn n.2 false true⟩
  | .queueExists =>
      -- `||` does not look at the second file when the first is there
      some ⟨r, lock, if r.pathExists (r.queuePath c) then .load true else .subsExists⟩
  | .subsExists => some ⟨r, lock, .load (r.pathExists (r.subsPath c))⟩
  | .load present =>
      let n := r.addSession c (r.queuePath c) (r.subsPath c)
      some ⟨n.1, none, .attachConn n.2 present true⟩
  | .attachConn a present _ =>
      r.heap[a]?.map fun s =>
        let k := s.attachConnLocked r.disk identity sink kick
        ⟨{ r.setSession a k.session with disk := k.disk }, lock,
          .discardQueue ⟨a, present, k.epoch, k.backlog⟩⟩
  | .discardQueue o =>
      r.heap[o.session]?.map fun s =>
        ⟨{ r with disk := s.discardQueueFile r.disk }, lock, .returned (some o)⟩
  | _ => none

/-- `detach`. -/
def detachSection (r : SessionRegistry) (lock : Option Nat) (a : Addr) (epoch : Nat) (clean : Bool)
    (now : Instant) : RacePc → Option Section
  | .start =>
      r.heap[a]?.map fun s =>
        let d := s.detachConn epoch now
        ⟨r.setSession a d.1, lock, if d.2 && clean then .ending .abort a else .returned none⟩
  | .ending st b =>
      r.heap[b]?.map fun s =>
        ⟨r.cleanup b s st, lock,
          match st with
          | .abort => .ending .queue b
          | .queue => .ending .subs b
          | .subs => .unregister b⟩
  | .unregister b => if lock.isSome then none else some ⟨r.removeOwn b, none, .returned none⟩
  | _ => none

/-- A sweep with these sessions left to clean up. -/
def sweepNext : List Addr → RacePc
  | [] => .returned none
  | a :: rest => .sweeping .abort a rest

/-- `sweep`. -/
def sweepSection [HashOrder] (r : SessionRegistry) (lock : Option Nat) (expiry : Duration)
    (now : Instant) : RacePc → Option Section
  | .start =>
      if lock.isSome then none
      else some ⟨r.sweepKept expiry now, none, sweepNext (r.sweepGone expiry now)⟩
  | .sweeping st a rest =>
      r.heap[a]?.map fun s =>
        ⟨r.cleanup a s st, lock,
          match st with
          | .abort => .sweeping .queue a rest
          | .queue => .sweeping .subs a rest
          | .subs => sweepNext rest⟩
  | _ => none

end SessionRegistry

namespace RaceCall

def next? [HashOrder] (c : Str) (r : SessionRegistry) (lock : Option Nat) (i : Nat)
    (x : RaceCall) : Option Section :=
  match x.op with
  | .attach identity clean sink kick => r.attachSection c lock i identity clean sink kick x.pc
  | .detach a epoch clean now => r.detachSection lock a epoch clean now x.pc
  | .sweep expiry now => r.sweepSection lock expiry now x.pc

/-- The connection an attach has returned. -/
def connection (x : RaceCall) : Option (Addr × Nat × Bool) :=
  match x.op, x.pc with
  | .attach _ clean _ _, .returned (some o) => some (o.session, o.epoch, clean)
  | _, _ => none

def hasReturned (x : RaceCall) : Bool :=
  match x.pc with
  | .returned _ => true
  | _ => false

end RaceCall

namespace RaceWorld

def init (reg : SessionRegistry) (held : List (Addr × Nat × Bool)) : RaceWorld :=
  ⟨reg, none, [], held⟩

/-- The connections there have been, each with its own cleanSession flag. -/
def connections (w : RaceWorld) : List (Addr × Nat × Bool) :=
  w.held ++ w.calls.filterMap RaceCall.connection

/-- A connection detaches the session and epoch it got; the rest is free. -/
def mayCall (w : RaceWorld) : RaceOp → Bool
  | .detach a epoch clean _ => (a, epoch, clean) ∈ w.connections
  | _ => true

/-- The calls that have returned. -/
def returnedCalls (w : RaceWorld) : List Nat :=
  (List.range w.calls.length).filter fun i => (w.calls[i]?.map RaceCall.hasReturned).getD false

def step [HashOrder] (c : Str) (w : RaceWorld) : RaceAction → Option RaceWorld
  | .invoke op =>
      if w.mayCall op then some { w with calls := w.calls ++ [⟨op, .start, w.returnedCalls⟩] }
      else none
  | .run i =>
      w.calls[i]?.bind fun x =>
        (x.next? c w.reg w.lock i).map fun n =>
          { w with reg := n.reg, lock := n.lock, calls := w.calls.set i { x with pc := n.pc } }

/-- Every call has returned. -/
def Finished (w : RaceWorld) : Prop := ∀ x ∈ w.calls, x.hasReturned

instance (w : RaceWorld) : Decidable w.Finished := inferInstanceAs (Decidable (∀ x ∈ w.calls, _))

end RaceWorld

/-! ## Sequential calls -/

/-- A call nothing interrupts. -/
def RaceOp.run [HashOrder] (c : Str) (r : SessionRegistry) :
    RaceOp → SessionRegistry × Option AttachOutcome
  | .attach identity clean sink kick =>
      let t := r.attach c identity clean sink kick
      (t.registry, some t.outcome)
  | .detach a epoch clean now => (r.detach a epoch clean now, none)
  | .sweep expiry now => (r.sweep expiry now, none)

namespace SessionRegistry

/-- The queue file of a client id, if a directory is configured. -/
def queueState (r : SessionRegistry) (c : Str) : Option Bytes := (r.queuePath c).bind r.disk.lookup

/-- The subscription file of a client id. -/
def subsState (r : SessionRegistry) (c : Str) : Option Bytes := (r.subsPath c).bind r.disk.lookup

/-- The registries agree on a client id: the session the map holds and all that is
in it, its subscriptions among it, and both state files. -/
structure SameFor (c : Str) (r r' : SessionRegistry) : Prop where
  entry : r.sessions.lookup c = r'.sessions.lookup c
  session : r.registered c = r'.registered c
  queue : r.queueState c = r'.queueState c
  subs : r.subsState c = r'.subsState c

end SessionRegistry

namespace RaceWorld

/-- Call `j` had returned when call `i` was made. -/
def Before (w : RaceWorld) (j i : Nat) : Prop := ∃ x, w.calls[i]? = some x ∧ j ∈ x.before

/-- Call `i` was `op` and returned `o`. -/
def Returned (w : RaceWorld) (i : Nat) (op : RaceOp) (o : Option AttachOutcome) : Prop :=
  ∃ x, w.calls[i]? = some x ∧ x.op = op ∧ x.pc = .returned o

/-- The calls could have come one after the other: in some order, in which each
comes after those that had returned when it was made, they return what they did
and leave what is there now.  If the last of them is an attach, the session it
returned is the registered one. -/
def Linearizable [HashOrder] (c : Str) (reg : SessionRegistry) (w : RaceWorld) : Prop :=
  ∃ log r, History.Linearized (RaceOp.run c) w.Before reg log r ∧
    (History.ids log).Perm (List.range w.calls.length) ∧
    (∀ e ∈ log, w.Returned e.1 e.2.1 e.2.2) ∧
    w.reg.SameFor c r ∧
    ∀ i op o, log.getLast? = some (i, op, some o) → w.reg.sessions.lookup c = some o.session

/-! ## Orderly steps -/

/-- Some call has still to remove the queue file of `c`. -/
def QueueDue (c : Str) (w : RaceWorld) : Prop :=
  ∃ x ∈ w.calls, ∃ a ∈ x.pc.queues, ∃ s p,
    w.reg.heap[a]? = some s ∧ s.queuePath = some p ∧ w.reg.queuePath c = some p

/-- Some call has still to remove the subscription file of `c`. -/
def SubsDue (c : Str) (w : RaceWorld) : Prop :=
  ∃ x ∈ w.calls, ∃ a ∈ x.pc.subs, ∃ s p,
    w.reg.heap[a]? = some s ∧ s.subsPath = some p ∧ w.reg.subsPath c = some p

/-- The session at `a` may be attached to by call `i`: it is still registered, no
detach is about to unregister it, and no other attach that made it and found no
state has yet to attach to it. -/
structure MayAttach (c : Str) (w : RaceWorld) (i : Nat) (a : Addr) : Prop where
  registered : w.reg.sessions.lookup c = some a
  staying : ∀ x ∈ w.calls, x.pc.ends ≠ some a
  made : ∀ j x, j ≠ i → w.calls[j]? = some x → x.pc ≠ .attachConn a false true

/-- A step that keeps the calls in order: a connection attaches only to a session
that is there to stay, and an attach that looks at a state file finds none that
another call has still to remove. -/
def Orderly (c : Str) (w : RaceWorld) : RaceAction → Prop
  | .run i => ∀ x, w.calls[i]? = some x →
      match x.pc with
      | .attachConn a _ _ => w.MayAttach c i a
      | .queueExists | .load _ => w.QueueDue c → w.reg.queueState c = none
      | .subsExists => w.SubsDue c → w.reg.subsState c = none
      | _ => True
  | .invoke _ => True

end RaceWorld

/-! ## A registry such calls may meet -/

namespace SessionRegistry

/-- Each entry is a session of its client id, and sessions have their own files or none. -/
structure Tidy (r : SessionRegistry) : Prop where
  entries : ∀ k a, r.sessions.lookup k = some a → ∃ s, r.heap[a]? = some s ∧ s.clientId = k
  queuePath : ∀ (a : Addr) s, r.heap[a]? = some s →
    s.queuePath = none ∨ s.queuePath = r.queuePath s.clientId
  subsPath : ∀ (a : Addr) s, r.heap[a]? = some s →
    s.subsPath = none ∨ s.subsPath = r.subsPath s.clientId

end SessionRegistry

namespace RaceWorld

/-- Connections with cleanSession=1 are on sessions without files. -/
structure Steady (c : Str) (reg : SessionRegistry) (held : List (Addr × Nat × Bool)) : Prop where
  nonempty : c ≠ []
  tidy : reg.Tidy
  held : ∀ x ∈ held, ∃ s, reg.heap[x.1]? = some s ∧ s.clientId = c ∧
    (x.2.2 → s.queuePath = none ∧ s.subsPath = none)

/-! ## A stale session -/

open DiscardWorld (offline)

theorem offline_steady : Steady "dev".toList offline [] where
  nonempty := by decide
  tidy := {
    entries := by
      intro k a h
      have hk : k = "dev".toList := by
        by_contra hne
        have hnone : offline.sessions.lookup k = none := AList.lookup_insert_ne hne
        rw [hnone] at h
        cases h
      subst hk
      cases h
      exact ⟨_, rfl, rfl⟩
    queuePath := by
      intro a s h
      match a, h with
      | 0, h => cases h; exact .inr rfl
    subsPath := by
      intro a s h
      match a, h with
      | 0, h => cases h; exact .inr rfl }
  held := fun x hx => absurd hx List.not_mem_nil

/-- An attach finds the offline session, a sweep takes it away, the attach goes on. -/
def staleActs : List RaceAction :=
  [.invoke (.attach [] false ⟨1⟩ ⟨1⟩), .invoke (.sweep 0 10), .run 0, .run 1, .run 1, .run 1,
    .run 1, .run 0, .run 0]

def staleCalls : List RaceCall :=
  [⟨.attach [] false ⟨1⟩ ⟨1⟩, .returned (some ⟨0, true, 2, []⟩), []⟩,
    ⟨.sweep 0 10, .returned none, []⟩]

/-- The attach returns a session, as present, that the map no longer holds: in
either order of the two calls the map holds one at the end. -/
theorem stale_session_is_returned :
    ¬ ∀ (_ : HashOrder) (c : Str) (reg : SessionRegistry) (held : List (Addr × Nat × Bool))
      (acts : List RaceAction) (w : RaceWorld), Steady c reg held →
      Run.exec (step c) (init reg held) acts = some w → w.Finished → w.Linearizable c reg := by
  intro h
  obtain ⟨w, hw, hcalls, hnone⟩ :
      ∃ w, Run.exec (@step .asStored "dev".toList) (init offline []) staleActs = some w ∧
        w.calls = staleCalls ∧ w.reg.sessions.lookup "dev".toList = none := ⟨_, rfl, rfl, rfl⟩
  have hfin : w.Finished := by
    rw [Finished, hcalls]
    decide
  obtain ⟨log, r, hlin, hperm, hret, hsame, -⟩ := h .asStored _ _ _ _ w offline_steady hw hfin
  rw [hcalls] at hperm
  have hlen : log.length = 2 := by
    have := hperm.length_eq
    rwa [History.ids, List.length_map] at this
  obtain ⟨⟨i, op₀, o₀⟩, ⟨j, op₁, o₁⟩, rfl⟩ := List.length_eq_two.mp hlen
  have hi : i ∈ [0, 1] := hperm.mem_iff.mp (.head _)
  have hj : j ∈ [0, 1] := hperm.mem_iff.mp (.tail _ (.head _))
  have hne : i ≠ j := by
    intro hij
    have := hlin.nodup
    simp [History.ids, hij] at this
  obtain ⟨x, hx, rfl, hpc⟩ := hret _ (.head _)
  obtain ⟨y, hy, rfl, hpc'⟩ := hret _ (.tail _ (.head _))
  have hexec := hlin.exec
  have hentry := hnone ▸ hsame.entry
  rw [hcalls] at hx hy
  simp only [List.mem_cons, List.not_mem_nil, or_false] at hi hj
  rcases hi with rfl | rfl <;> rcases hj with rfl | rfl
  · exact hne rfl
  · -- the attach first: its session is not expired
    cases hx
    cases hy
    cases hpc
    cases hpc'
    cases hexec
    cases hentry
  · -- the sweep first: the attach finds nothing
    cases hx
    cases hy
    cases hpc
    cases hpc'
    cases hexec
  · exact hne rfl

end RaceWorld

end Entmoot
