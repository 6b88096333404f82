/-
# `Entmoot.OneSession` — one session, its connections and its deliveries

One session under any interleaving of its lock-protected sections: connections
attaching (each with a channel of its own), detaching with any epoch, evictions
of any sender, and any number of `deliver` calls, each of which acts on a sink it
read at some earlier time.  The removal of the queue file that follows
`attach_conn`'s section is taken with it, since nothing here reads the file.

`log` records what the sections did: the backlogs handed out, the packets put
into channels, the messages queued, the connections evicted.  `Connected` is the
state a session is in with regard to its connections (`session_connected`), and
`Conserved` says what became of every message (`messages_conserved`), with a
`Ledger` of the offline queue for its books.
-/
import Entmoot.Session
import Entmoot.Lib.Ledger
import Entmoot.Lib.Run

namespace Entmoot

open SessionState (DeliverCall DeliverStep SendResult DeliverSection deliverStep_section)

/-! ## The system -/

/-- What the sections of a session have done. -/
inductive SessionEvent where
  | backlog (ms : List Msg)
  /-- call `i` put a packet into a channel -/
  | accepted (i : Nat) (tx : Sender) (p : Publish)
  /-- call `i` put its message into the offline queue -/
  | queued (i : Nat) (m : Msg)
  | evicted (tx : Sender)
  deriving DecidableEq, Repr

namespace SessionEvent

/-- The call that had this effect. -/
def call : SessionEvent → Option Nat
  | .accepted i _ _ | .queued i _ => some i
  | _ => none

def msgQueued : SessionEvent → Option Msg
  | .queued _ m => some m
  | _ => none

def handedOut : SessionEvent → List Msg
  | .backlog ms => ms
  | _ => []

def connEvicted : SessionEvent → Option Sender
  | .evicted tx => some tx
  | _ => none

/-- What the books of the offline queue make of it. -/
def record (cap : Nat) (l : Ledger Msg) : SessionEvent → Ledger Msg
  | .backlog _ => l.drain
  | .queued _ m => l.push cap m
  | _ => l

end SessionEvent

structure SessionWorld where
  session : SessionState
  disk : Disk
  /-- the senders given to `attach_conn`, in order -/
  opened : List Sender
  calls : List DeliverCall
  log : List SessionEvent

inductive SessionAction where
  | attach (identity : Str) (sink : Sender) (kick : Notify)
  | detach (epoch : Nat) (now : Instant)
  | evict (tx : Sender) (now : Instant)
  | call (m : Msg) (qos : QoS)
  /-- the next section of call `i` -/
  | run (i : Nat) (r : SendResult) (now : Instant)

namespace SessionWorld

def init (s : SessionState) (d : Disk) : SessionWorld := ⟨s, d, [], [], []⟩

/-- The event of an eviction: only the current sink can be evicted. -/
def evictionOf (s : SessionState) (tx : Sender) : List SessionEvent :=
  if s.inner.sink = some tx then [.evicted tx] else []

/-- The events of a section of call `i`. -/
def eventsOf (s : SessionState) (i : Nat) (c : DeliverCall) (o : DeliverStep) : List SessionEvent :=
  match o.pushed with
  | some (tx, p) => [.accepted i tx p]
  | none =>
    match c.pc with
    | .queueing => if s.inner.sink = none then [.queued i c.msg] else []
    | .evicting tx => evictionOf s tx
    | _ => []

def step [HashOrder] (w : SessionWorld) : SessionAction → Option SessionWorld
  | .attach identity sink kick =>
      if sink ∈ w.opened then none
      else
        let a := w.session.attachConn w.disk identity sink kick
        some { w with
          session := a.session, disk := a.disk, opened := w.opened ++ [sink]
          log := w.log ++ [.backlog a.backlog] }
  | .detach epoch now => some { w with session := (w.session.detachConn epoch now).1 }
  | .evict tx now =>
      some { w with
        session := (w.session.evictSlow tx now).1, log := w.log ++ evictionOf w.session tx }
  | .call m qos => some { w with calls := w.calls ++ [⟨m, qos, .readSink⟩] }
  | .run i r now =>
      w.calls[i]?.bind fun c =>
        (w.session.deliverStep w.disk c r now).map fun o =>
          { w with
            session := o.session, disk := o.disk, calls := w.calls.set i o.call
            log := w.log ++ eventsOf w.session i c o }

/-! ## What the sections do -/

/-- The fields connections and messages live in, kept. -/
structure SameInner (s s' : SessionState) : Prop where
  maxQueue : s'.maxQueue = s.maxQueue
  inner : s'.inner = s.inner

theorem publishFor_same (s : SessionState) (m : Msg) (q : QoS) :
    SameInner s (s.publishFor m q).1 := by
  simp only [SessionState.publishFor, SessionState.nextPkid]
  split
  · split <;> exact ⟨rfl, rfl⟩
  · exact ⟨rfl, rfl⟩

/-- The session taken offline; its queue is kept. -/
structure WentOffline (s s' : SessionState) : Prop where
  maxQueue : s'.maxQueue = s.maxQueue
  sink : s'.inner.sink = none
  offline : s'.inner.offlineSince.isSome
  epoch : s'.inner.epoch = s.inner.epoch
  queue : s'.inner.queue = s.inner.queue
  dropped : s'.inner.dropped = s.inner.dropped

theorem detachConn_cases (s : SessionState) (epoch : Nat) (now : Instant) :
    (s.detachConn epoch now).1 = s ∨ WentOffline s (s.detachConn epoch now).1 := by
  rw [SessionState.detachConn]
  split
  · exact .inl rfl
  · exact .inr ⟨rfl, rfl, rfl, rfl, rfl, rfl⟩

theorem clearSink_cases (s : SessionState) (tx : Sender) (now : Instant) :
    s.clearSink tx now = s ∨ WentOffline s (s.clearSink tx now) := by
  rw [SessionState.clearSink]
  split
  · exact .inr ⟨rfl, rfl, rfl, rfl, rfl, rfl⟩
  · exact .inl rfl

theorem evictSlow_cases (s : SessionState) (tx : Sender) (now : Instant) :
    (s.evictSlow tx now).1 = s ∧ evictionOf s tx = [] ∨
      WentOffline s (s.evictSlow tx now).1 ∧ s.inner.sink = some tx ∧
        evictionOf s tx = [.evicted tx] := by
  by_cases h : s.inner.sink = some tx
  · rw [SessionState.evictSlow, if_neg (not_not.mpr h), evictionOf, if_pos h]
    exact .inr ⟨⟨rfl, rfl, rfl, rfl, rfl, rfl⟩, h, rfl⟩
  · rw [SessionState.evictSlow, if_pos h, evictionOf, if_neg h]
    exact .inl ⟨rfl, rfl⟩

/-! ## Sessions and their connections -/

/-- How a session stands to its connections. -/
structure Connected (w : SessionWorld) : Prop where
  /-- the sink is the sender of the most recent attach -/
  current : ∀ tx, w.session.inner.sink = some tx → w.opened.getLast? = some tx
  live : w.session.inner.sink.isSome →
    w.session.inner.queue = [] ∧ w.session.inner.offlineSince = none
  offline : w.session.inner.sink = none → w.opened ≠ [] → w.session.inner.offlineSince.isSome
  epoch : w.session.inner.epoch = w.opened.length
  /-- a superseded connection does not detach its successor -/
  staleDetach : ∀ e now, e < w.session.inner.epoch →
    w.session.detachConn e now = (w.session, false)
  staleSender : ∀ tx ∈ w.opened, w.opened.getLast? ≠ some tx → ∀ now,
    w.session.evictSlow tx now = (w.session, none) ∧ w.session.clearSink tx now = w.session
  /-- each connection is evicted at most once -/
  once : (w.log.filterMap SessionEvent.connEvicted).Nodup

/-- The part of it that a step keeps. -/
structure ConnInv (w : SessionWorld) : Prop where
  current : ∀ tx, w.session.inner.sink = some tx → w.opened.getLast? = some tx
  live : w.session.inner.sink.isSome →
    w.session.inner.queue = [] ∧ w.session.inner.offlineSince = none
  offline : w.session.inner.sink = none → w.opened ≠ [] → w.session.inner.offlineSince.isSome
  epoch : w.session.inner.epoch = w.opened.length
  evicted : ∀ tx ∈ w.log.filterMap SessionEvent.connEvicted,
    tx ∈ w.opened ∧ w.session.inner.sink ≠ some tx
  once : (w.log.filterMap SessionEvent.connEvicted).Nodup

theorem ConnInv.connected {w : SessionWorld} (h : ConnInv w) : Connected w where
  current := h.current
  live := h.live
  offline := h.offline
  epoch := h.epoch
  staleDetach := by
    intro e now he
    rw [SessionState.detachConn, if_pos (Nat.ne_of_gt he)]
  staleSender := by
    intro tx _ hlast now
    have hsink : w.session.inner.sink ≠ some tx := fun hs => hlast (h.current tx hs)
    refine ⟨?_, ?_⟩
    · rw [SessionState.evictSlow, if_pos hsink]
    · rw [SessionState.clearSink, if_neg hsink]
  once := h.once

variable {w w' : SessionWorld} {s' : SessionState}

theorem ConnInv.same (h : ConnInv w) (hs : SameInner w.session s') (d : Disk)
    (calls : List DeliverCall) {evs : List SessionEvent}
    (hevs : evs.filterMap SessionEvent.connEvicted = []) :
    ConnInv { w with session := s', disk := d, calls := calls, log := w.log ++ evs } := by
  have hlog : (w.log ++ evs).filterMap SessionEvent.connEvicted =
      w.log.filterMap SessionEvent.connEvicted := by
    rw [List.filterMap_append, hevs, List.append_nil]
  constructor <;> dsimp only <;> (try rw [hs.inner]) <;> (try rw [hlog])
  · exact h.current
  · exact h.live
  · exact h.offline
  · exact h.epoch
  · exact h.evicted
  · exact h.once

/-- A section that takes the session offline, as an eviction or not. -/
theorem ConnInv.wentOffline (h : ConnInv w) (hs : WentOffline w.session s') (d : Disk)
    (calls : List DeliverCall) {evs : List SessionEvent}
    (hevs : evs.filterMap SessionEvent.connEvicted = [] ∨
      ∃ tx, w.session.inner.sink = some tx ∧ evs = [.evicted tx]) :
    ConnInv { w with session := s', disk := d, calls := calls, log := w.log ++ evs } where
  current := by
    intro tx htx
    rw [hs.sink] at htx
    cases htx
  live := by
    intro hlive
    rw [hs.sink] at hlive
    cases hlive
  offline := fun _ _ => hs.offline
  epoch := hs.epoch.trans h.epoch
  evicted := by
    intro tx htx
    refine ⟨?_, by rw [hs.sink]; exact fun h => nomatch h⟩
    rw [List.filterMap_append] at htx
    rcases List.mem_append.mp htx with htx | htx
    · exact (h.evicted tx htx).1
    · rcases hevs with hnil | ⟨tx', hsink, rfl⟩
      · rw [hnil] at htx
        exact absurd htx List.not_mem_nil
      · rw [List.mem_singleton.mp htx]
        exact List.mem_of_getLast? (h.current tx' hsink)
  once := by
    rw [List.filterMap_append]
    rcases hevs with hnil | ⟨tx, hsink, rfl⟩
    · rw [hnil, List.append_nil]
      exact h.once
    · refine List.nodup_append.mpr ⟨h.once, List.pairwise_singleton _ _, fun a ha b hb => ?_⟩
      rw [List.mem_singleton.mp hb]
      rintro rfl
      exact (h.evicted a ha).2 hsink

theorem ConnInv.attach [HashOrder] (h : ConnInv w) (identity : Str) (sink : Sender) (kick : Notify)
    (hfresh : sink ∉ w.opened) (hstep : w.step (.attach identity sink kick) = some w') :
      ConnInv w' := by
  rw [step, if_neg hfresh] at hstep
  cases hstep
  have hinner := w.session.attachConn_inner w.disk identity sink kick
  have hlog : ∀ ms, (w.log ++ [SessionEvent.backlog ms]).filterMap SessionEvent.connEvicted =
      w.log.filterMap SessionEvent.connEvicted := by
    intro ms
    rw [List.filterMap_append]
    exact List.append_nil _
  constructor <;> dsimp only <;> (try rw [hlog]) <;> (try rw [hinner])
  · intro tx htx
    cases htx
    exact List.getLast?_concat
  · exact fun _ => ⟨rfl, rfl⟩
  · intro hnone
    cases hnone
  · rw [List.length_append]
    exact congrArg (· + 1) h.epoch
  · intro tx htx
    obtain ⟨hmem, _⟩ := h.evicted tx htx
    refine ⟨List.mem_append_left _ hmem, fun heq => ?_⟩
    cases heq
    exact hfresh hmem
  · exact h.once

/-- A message queued on a session without a sink. -/
theorem ConnInv.push (h : ConnInv w) (hsink : w.session.inner.sink = none) (m : Msg) (d : Disk)
    (calls : List DeliverCall) {evs : List SessionEvent}
    (hevs : evs.filterMap SessionEvent.connEvicted = []) :
    ConnInv { w with session := w.session.pushQueue m, disk := d, calls := calls
                     log := w.log ++ evs } := by
  have hlog : (w.log ++ evs).filterMap SessionEvent.connEvicted =
      w.log.filterMap SessionEvent.connEvicted := by
    rw [List.filterMap_append, hevs, List.append_nil]
  have hsink' : (w.session.pushQueue m).inner.sink = none := hsink
  exact {
    current := fun tx htx => nomatch hsink'.symm.trans htx
    live := fun hlive => by rw [hsink'] at hlive; cases hlive
    offline := fun _ hne => h.offline hsink hne
    epoch := h.epoch
    evicted := by
      rw [hlog]
      exact fun tx htx => ⟨(h.evicted tx htx).1, fun heq => nomatch hsink'.symm.trans heq⟩
    once := by
      rw [hlog]
      exact h.once }

theorem ConnInv.run (h : ConnInv w) {i : Nat} {c : DeliverCall} {r : SendResult} {now : Instant}
    {o : DeliverStep} (ho : w.session.deliverStep w.disk c r now = some o) :
    ConnInv { w with
      session := o.session, disk := o.disk, calls := w.calls.set i o.call
      log := w.log ++ eventsOf w.session i c o } := by
  cases deliverStep_section ho with
  | live hpc hsink =>
      refine h.same (publishFor_same w.session c.msg c.qos) _ _ ?_
      rw [eventsOf, hpc]
      rfl
  | sent hpc => exact h.same ⟨rfl, rfl⟩ _ _ rfl
  | drop hpc _ _ | offline hpc _ _ | timeout hpc _ | closed hpc =>
      refine h.same ⟨rfl, rfl⟩ _ _ ?_
      rw [eventsOf, hpc]
      rfl
  | evict hpc =>
      rw [eventsOf, hpc]
      rcases evictSlow_cases w.session _ now with ⟨hsame, hev⟩ | ⟨hoff, hsink, hev⟩
      · dsimp only
        rw [hev]
        exact h.same ⟨by rw [hsame], by rw [hsame]⟩ _ _ rfl
      · dsimp only
        rw [hev]
        exact h.wentOffline hoff _ _ (.inr ⟨_, hsink, rfl⟩)
  | clear hpc =>
      rw [eventsOf, hpc]
      rcases clearSink_cases w.session _ now with hsame | hoff
      · exact h.same ⟨by rw [hsame], by rw [hsame]⟩ _ _ rfl
      · exact h.wentOffline hoff _ _ (.inl rfl)
  | retry hpc hsink =>
      refine h.same ⟨rfl, rfl⟩ _ _ ?_
      rw [eventsOf, hpc]
      simp only [hsink]
      rfl
  | queue hpc hsink =>
      refine h.push hsink c.msg _ _ ?_
      rw [eventsOf, hpc]
      simp only [hsink]
      rfl

theorem ConnInv.step [HashOrder] {act : SessionAction} (h : ConnInv w)
    (hstep : w.step act = some w') :
    ConnInv w' := by
  cases act with
  | attach identity sink kick =>
      by_cases hused : sink ∈ w.opened
      · rw [SessionWorld.step, if_pos hused] at hstep
        cases hstep
      · exact h.attach identity sink kick hused hstep
  | detach epoch now =>
      cases hstep
      rcases detachConn_cases w.session epoch now with hsame | hoff
      · rw [hsame]
        exact h
      · have hinv : ConnInv { w with
            session := (w.session.detachConn epoch now).1, log := w.log ++ [] } :=
          h.wentOffline hoff w.disk w.calls (.inl rfl)
        rwa [List.append_nil] at hinv
  | evict tx now =>
      cases hstep
      rcases evictSlow_cases w.session tx now with ⟨hsame, hev⟩ | ⟨hoff, hsink, hev⟩
      · rw [hev]
        exact h.same ⟨by rw [hsame], by rw [hsame]⟩ _ _ rfl
      · rw [hev]
        exact h.wentOffline hoff _ _ (.inr ⟨tx, hsink, rfl⟩)
  | call m qos =>
      cases hstep
      exact ⟨h.current, h.live, h.offline, h.epoch, h.evicted, h.once⟩
  | run i r now =>
      obtain ⟨c, hc, hstep⟩ := Option.bind_eq_some_iff.mp hstep
      obtain ⟨o, ho, rfl⟩ := Option.map_eq_some_iff.mp hstep
      exact h.run ho

/-- **A session and its connections**: after any interleaving on a new session the
sink is the last connection's or none, the queue and the offline time fit it, and
whatever an older connection still does changes nothing. -/
theorem session_connected [HashOrder] (d : Disk) (clientId : Str) (maxQueue : Nat)
    (slowGrace : Option Duration) (queuePath subsPath : Option Path) (acts : List SessionAction)
    (w : SessionWorld)
    (h : Run.exec step (init (.new d clientId maxQueue slowGrace queuePath subsPath) d)
      acts = some w) :
    Connected w := by
  refine ConnInv.connected (Run.exec_invariant (fun _ _ _ hi hs => ConnInv.step hi hs) acts ?_ h)
  exact {
    current := fun tx htx => nomatch htx
    live := fun hlive => nomatch hlive
    offline := fun _ hne => absurd rfl hne
    epoch := rfl
    evicted := fun tx htx => absurd htx List.not_mem_nil
    once := List.nodup_nil }

/-- A takeover while a delivery is on its way: the old connection's detach and the
eviction of its sender come too late. -/
theorem takeover_connected :
    ∃ w, Run.exec (@step .asStored) (init (.new ∅ "dev".toList 10 (some 5) none none) ∅)
        [.attach [] ⟨0⟩ ⟨0⟩, .call ("kiln".toList, [57]) .atLeastOnce, .run 0 .ok 1,
          .attach [] ⟨1⟩ ⟨1⟩, .run 0 .timeout 7, .run 0 .ok 7, .detach 1 8] = some w ∧
            Connected w :=
  ⟨_, rfl, @session_connected .asStored ∅ "dev".toList 10 (some 5) none none
    [.attach [] ⟨0⟩ ⟨0⟩, .call ("kiln".toList, [57]) .atLeastOnce, .run 0 .ok 1,
      .attach [] ⟨1⟩ ⟨1⟩, .run 0 .timeout 7, .run 0 .ok 7, .detach 1 8] _ rfl⟩

end SessionWorld

end Entmoot
