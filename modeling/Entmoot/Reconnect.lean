/-
# `Entmoot.Reconnect` — a reconnect that fails while it drains

`crates/entmoot-node/src/connection.rs` 101–136: `serve` attaches, sends the
CONNACK and then the backlog, each send with `?`.  `attach_conn` has emptied the
queue and removed its file by then, so what the channel did not accept before it
closed is in no queue any more.

`serveStart` is that sequence against a channel that closes after some packets
(`Room`).  The accepted messages and the unaccepted rest are the old queue
(`serveStart_splits`); nothing is lost iff there is no rest
(`nothing_lost_iff`).
-/
import Entmoot.Registry

namespace Entmoot

/-- How many more packets an outbound channel accepts before it closes; `none`
if it stays open. -/
abbrev Room := Option Nat

namespace Room

/-- One send: `none` on a closed channel, else the room left. -/
def send : Room → Option Room
  | none => some none
  | some 0 => none
  | some (n + 1) => some (some n)

/-- The room suffices for `n` packets. -/
def Holds (room : Room) (n : Nat) : Prop := ∀ k, room = some k → n ≤ k

theorem holds_none (n : Nat) : Holds none n := by
  intro k hk
  cases hk

theorem holds_some {k n : Nat} : Holds (some k) n ↔ n ≤ k := by
  constructor
  · exact fun h => h k rfl
  · intro h k' hk'
    cases hk'
    exact h

/-- A channel with room for one packet more than `n` is one that accepts a packet
and then holds `n`. -/
theorem holds_succ {room room' : Room} (h : room.send = some room') (n : Nat) :
    room.Holds (n + 1) ↔ room'.Holds n := by
  match room with
  | none =>
      cases h
      exact ⟨fun _ => holds_none n, fun _ => holds_none (n + 1)⟩
  | some (k + 1) =>
      cases h
      rw [holds_some, holds_some, Nat.succ_le_succ_iff]

theorem not_holds_succ {room : Room} (h : room.send = none) (n : Nat) : ¬ room.Holds (n + 1) := by
  match room with
  | some 0 =>
      rw [holds_some]
      exact Nat.not_succ_le_zero n

end Room

/-- The message a packet carries. -/
def Packet.msg? : Packet → Option Msg
  | .publish p => some (p.topic, p.payload)
  | _ => none

/-- The packet of a backlog message. -/
def backlogPublish (m : Msg) (pkid : UInt16) : Publish :=
  { Publish.new m.1 .atLeastOnce m.2 with pkid := pkid }

/-- The backlog loop of `serve`, stopped by the first send that fails. -/
structure Drained where
  session : SessionState
  pushed : List Packet
  unaccepted : List Msg

def drain (s : SessionState) (room : Room) : List Msg → Drained
  | [] => ⟨s, [], []⟩
  | m :: backlog =>
      let n := s.nextPkid
      match room.send with
      | none => ⟨n.1, [], m :: backlog⟩
      | some room =>
          let d := drain n.1 room backlog
          { d with pushed := .publish (backlogPublish m n.2) :: d.pushed }

/-- `serve` from `attach` to the end of the backlog. -/
structure Started where
  registry : SessionRegistry
  pushed : List Packet
  unaccepted : List Msg

namespace SessionRegistry

def serveStart [HashOrder] (r : SessionRegistry) (clientId identity : Str) (sink : Sender)
    (kick : Notify) (room : Room) : Started :=
  let att := r.attach clientId identity false sink kick
  match room.send with
  | none => ⟨att.registry, [], att.outcome.backlog⟩
  | some room =>
      match att.registry.heap[att.outcome.session]? with
      | none => ⟨att.registry, [], att.outcome.backlog⟩
      | some s =>
          let d := drain s room att.outcome.backlog
          ⟨att.registry.setSession att.outcome.session d.session,
            .connAck att.outcome.sessionPresent :: d.pushed, d.unaccepted⟩

/-- One delivery to the session at an address. -/
structure LaterDelivery where
  addr : Addr
  msg : Msg
  qos : QoS
  send : SessionState.SendResult
  now : Instant
  deriving DecidableEq, Repr

def deliverAll (r : SessionRegistry) (later : List LaterDelivery) : SessionRegistry :=
  later.foldl (fun r d => r.deliver d.addr d.msg d.qos d.send d.now) r

/-- What the channel did not accept is still queued, and the next attach returns
it in order, whatever is delivered in between. -/
def NothingLost [HashOrder] (r : SessionRegistry) (clientId identity : Str) (sink : Sender)
    (kick : Notify) (room : Room) : Prop :=
  let st := r.serveStart clientId identity sink kick room
  (∃ s, st.registry.registered clientId = some s ∧ st.unaccepted.Sublist s.inner.queue) ∧
  ∀ (later : List LaterDelivery) (identity' : Str) (sink' : Sender) (kick' : Notify),
    st.unaccepted.Sublist
      ((st.registry.deliverAll later).attach clientId identity' false sink' kick').outcome.backlog

end SessionRegistry

/-! ## The drain -/

theorem nextPkid_inner (s : SessionState) : s.nextPkid.1.inner = s.inner := by
  rw [SessionState.nextPkid]
  split <;> rfl

theorem drain_inner (q : List Msg) : ∀ (s : SessionState) (room : Room),
    (drain s room q).session.inner = s.inner := by
  induction q with
  | nil => exact fun _ _ => rfl
  | cons m q ih =>
      intro s room
      rw [drain]
      cases room.send with
      | none => exact nextPkid_inner s
      | some room' => exact (ih _ room').trans (nextPkid_inner s)

theorem drain_splits (q : List Msg) : ∀ (s : SessionState) (room : Room),
    (drain s room q).pushed.filterMap Packet.msg? ++ (drain s room q).unaccepted = q := by
  induction q with
  | nil => exact fun _ _ => rfl
  | cons m q ih =>
      intro s room
      rw [drain]
      cases room.send with
      | none => rfl
      | some room' => exact congrArg (m :: ·) (ih _ room')

theorem drain_unaccepted_eq_nil (q : List Msg) : ∀ (s : SessionState) (room : Room),
    (drain s room q).unaccepted = [] ↔ room.Holds q.length := by
  induction q with
  | nil =>
      intro s room
      exact ⟨fun _ k _ => Nat.zero_le k, fun _ => rfl⟩
  | cons m q ih =>
      intro s room
      rw [drain]
      cases hroom : room.send with
      | none =>
          refine ⟨fun h => absurd h (List.cons_ne_nil m q), fun h => ?_⟩
          exact absurd h (Room.not_holds_succ hroom q.length)
      | some room' =>
          refine (ih _ room').trans ?_
          exact (Room.holds_succ hroom q.length).symm

/-! ## The start of a connection -/

namespace SessionRegistry

section
variable [HashOrder]

omit [HashOrder] in
theorem registered_eq_some {r : SessionRegistry} {clientId : Str} {s : SessionState} :
    r.registered clientId = some s ↔
      ∃ a, r.sessions.lookup clientId = some a ∧ r.heap[a]? = some s := by
  simp [registered, Option.bind_eq_some_iff]

theorem attach_resume {r : SessionRegistry} {clientId : Str} {a : Addr} {s : SessionState}
    (ha : r.sessions.lookup clientId = some a) (hs : r.heap[a]? = some s) (identity : Str)
    (sink : Sender) (kick : Notify) :
    let att := r.attach clientId identity false sink kick
    att.outcome.session = a ∧ att.outcome.backlog = s.inner.queue ∧
      att.registry.sessions.lookup clientId = some a ∧
      ∃ s', att.registry.heap[a]? = some s' ∧ s'.inner.queue = [] := by
  obtain ⟨hlt, _⟩ := List.getElem?_eq_some_iff.mp hs
  simp only [attach, attachLookup, ha, attachConnAt, hs]
  refine ⟨trivial, s.attachConn_backlog _ _ _ _, ?_, _, ?_,
    s.attachConn_queue r.disk identity sink kick⟩
  · simp [setSession]
  · simp [setSession, hlt]

/-- After the start the queue is empty, and the accepted messages and the rest are
the old one. -/
theorem serveStart_splits {r : SessionRegistry} {clientId : Str} {s : SessionState}
    (hs : r.registered clientId = some s) (identity : Str) (sink : Sender) (kick : Notify)
    (room : Room) :
    let st := r.serveStart clientId identity sink kick room
    (∃ s', st.registry.registered clientId = some s' ∧ s'.inner.queue = []) ∧
      st.pushed.filterMap Packet.msg? ++ st.unaccepted = s.inner.queue ∧
      (st.unaccepted = [] ↔ s.inner.queue = [] ∨ room.Holds (s.inner.queue.length + 1)) := by
  obtain ⟨a, ha, hs⟩ := registered_eq_some.mp hs
  obtain ⟨haddr, hback, hreg, s', hs', hq⟩ := attach_resume ha hs identity sink kick
  obtain ⟨hlt, _⟩ := List.getElem?_eq_some_iff.mp hs'
  simp only [serveStart, haddr, hback, hs']
  cases hroom : room.send with
  | none =>
      -- not even the CONNACK was accepted
      refine ⟨⟨s', registered_eq_some.mpr ⟨a, hreg, hs'⟩, hq⟩, rfl, ⟨.inl, fun h => ?_⟩⟩
      rcases h with h | h
      · exact h
      · exact absurd h (Room.not_holds_succ hroom _)
  | some room' =>
      refine ⟨⟨(drain s' room' s.inner.queue).session, ?_, ?_⟩, drain_splits _ s' room', ?_⟩
      · exact registered_eq_some.mpr ⟨a, hreg, by simp [setSession, hlt]⟩
      · rw [drain_inner, hq]
      · refine (drain_unaccepted_eq_nil _ s' room').trans ?_
        rw [Room.holds_succ hroom]
        refine ⟨.inr, fun h => ?_⟩
        rcases h with h | h
        · intro k _
          rw [h]
          exact Nat.zero_le k
        · exact h

/-- **Nothing is lost iff there is nothing left to lose**: the queue was empty, or
the channel took the CONNACK and all of it. -/
theorem nothing_lost_iff (r : SessionRegistry) (clientId identity : Str) (sink : Sender)
    (kick : Notify) (room : Room) (s : SessionState) (hs : r.registered clientId = some s) :
    r.NothingLost clientId identity sink kick room ↔
      s.inner.queue = [] ∨ room.Holds (s.inner.queue.length + 1) := by
  obtain ⟨⟨s', hs', hq⟩, _, hnil⟩ := serveStart_splits hs identity sink kick room
  rw [← hnil]
  constructor
  · rintro ⟨⟨s'', hs'', hsub⟩, _⟩
    rw [hs'] at hs''
    cases hs''
    rw [hq] at hsub
    exact List.sublist_nil.mp hsub
  · intro h
    refine ⟨⟨s', hs', ?_⟩, fun _ _ _ _ => ?_⟩
    · rw [h]
      exact List.nil_sublist _
    · rw [h]
      exact List.nil_sublist _

end

/-- A registry whose one session is offline with one message queued. -/
def parked : SessionRegistry :=
  let att := @attach .asStored (.new 10 none false ∅) "dev".toList [] false ⟨0⟩ ⟨0⟩
  (att.registry.detach att.outcome.session att.outcome.epoch false 0).deliver att.outcome.session
    ("kiln".toList, [57]) .atLeastOnce .closed 0

/-- On a channel that stays open the message is not lost. -/
theorem parked_message_is_drained :
    ∃ s, parked.registered "dev".toList = some s ∧ s.inner.queue = [("kiln".toList, [57])] ∧
      @NothingLost .asStored parked "dev".toList [] ⟨1⟩ ⟨1⟩ none :=
  ⟨_, rfl, rfl,
    (@nothing_lost_iff .asStored parked "dev".toList [] ⟨1⟩ ⟨1⟩ none _ rfl).mpr
      (.inr (Room.holds_none _))⟩

/-- The channel accepts the CONNACK and closes: the message is in no queue. -/
theorem parked_message_is_lost :
    ¬ ∀ (_ : HashOrder) (r : SessionRegistry) (clientId identity : Str) (sink : Sender)
      (kick : Notify) (room : Room) (s : SessionState), r.registered clientId = some s →
      r.NothingLost clientId identity sink kick room := by
  intro h
  obtain ⟨⟨s, hs, hsub⟩, _⟩ := h .asStored parked "dev".toList [] ⟨1⟩ ⟨1⟩ (some 1) _ rfl
  obtain ⟨⟨s', hs', hq⟩, _, hnil⟩ :=
    @serveStart_splits .asStored parked "dev".toList _ rfl [] ⟨1⟩ ⟨1⟩
    (some 1)
  rw [hs'] at hs
  cases hs
  rw [hq] at hsub
  rcases hnil.mp (List.sublist_nil.mp hsub) with hempty | hroom
  · exact absurd hempty (by decide)
  · exact absurd (Room.holds_some.mp hroom) (by decide)

end SessionRegistry

end Entmoot
