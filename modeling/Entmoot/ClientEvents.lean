/-
# `Entmoot.ClientEvents` — what `$meta/clients` says of a client

`serve` tells of a connection on the key of its client: `connect` behind the CONNACK,
each subscription that is granted or given up, and `disconnect` when the session is
detached.  A takeover runs two connections of one client side by side, and neither
looks at what the other tells.

Here the connections of `Entmoot.Kick` tell of themselves, any put succeeding or not.
A `disconnect` that comes behind the `connect` of a connection that goes on makes the
key say the wrong thing, and so does a connection that ends without one: the send of
the backlog leaves `serve` early.  When neither happens to a client, its last event is
`disconnect`, in every quiescent state, exactly if it has no live connection
(`last_event_truthful`).
-/
import Entmoot.Kick
import Entmoot.Serve
import Entmoot.Lib.Keyed

namespace Entmoot

/-! ## Events -/

/-- A QoS under `Debug`. -/
def QoS.debug : QoS → Str
  | .atMostOnce => "AtMostOnce".toList
  | .atLeastOnce => "AtLeastOnce".toList
  | .exactlyOnce => "ExactlyOnce".toList

def ClientEvent.text : ClientEvent → Str
  | .connect peer clean =>
      "connect addr=".toList ++ peer ++ " clean=".toList ++
        (if clean then "true".toList else "false".toList)
  | .subscribe filter granted =>
      "subscribe filter=".toList ++ filter ++ " qos=".toList ++ granted.debug
  | .unsubscribe filter => "unsubscribe filter=".toList ++ filter
  | .disconnect reason => "disconnect reason=".toList ++ reason

def IsDisconnect (text : Str) : Prop := "disconnect".toList <+: text

instance (text : Str) : Decidable (IsDisconnect text) :=
  inferInstanceAs (Decidable ("disconnect".toList <+: text))

theorem isDisconnect_text {e : ClientEvent} :
    IsDisconnect e.text ↔ ∃ reason, e = .disconnect reason := by
  constructor
  · rintro ⟨rest, htext⟩
    have hhead : e.text.head? = some 'd' := by
      rw [← htext]
      rfl
    cases e with
    | connect peer clean =>
        have hc : (ClientEvent.connect peer clean).text.head? = some 'c' := rfl
        rw [hc] at hhead
        exact absurd hhead (by decide)
    | subscribe filter granted =>
        have hs : (ClientEvent.subscribe filter granted).text.head? = some 's' := rfl
        rw [hs] at hhead
        exact absurd hhead (by decide)
    | unsubscribe filter =>
        have hu : (ClientEvent.unsubscribe filter).text.head? = some 'u' := rfl
        rw [hu] at hhead
        exact absurd hhead (by decide)
    | disconnect reason => exact ⟨reason, rfl⟩
  · rintro ⟨reason, rfl⟩
    exact ⟨" reason=".toList ++ reason, rfl⟩

theorem clientKey_injective (b : Broker) : Function.Injective (clientKey b) := by
  intro x y h
  have hkey : metaChunk ++ '/' :: ("clients/".toList ++ b.id ++ '/' :: x) =
      metaChunk ++ '/' :: ("clients/".toList ++ b.id ++ '/' :: y) := by
    rw [clientKey, clientKey, metaKeyexpr, metaKeyexpr, inScope, inScope] at h
    split at h
    · exact h
    · exact List.tail_eq_of_cons_eq (List.append_cancel_left h)
  have hname := List.tail_eq_of_cons_eq (List.append_cancel_left hkey)
  exact List.tail_eq_of_cons_eq (List.append_cancel_left hname)

/-! ## How a connection moves on -/

/-- What a move does to the phase of its connection. -/
inductive PhaseStep : Move → Phase → Phase → Prop where
  | attach : PhaseStep .attach .picked .starting
  | startFails : PhaseStep .startFails .starting .gone
  | enter : PhaseStep .enter .starting (.selecting false)
  | packet (woken : Bool) : PhaseStep .packet (.selecting woken) .handling
  | finish : PhaseStep .finish .handling (.selecting false)
  | disconnect : PhaseStep .disconnect .handling .left
  | failSelecting (woken : Bool) : PhaseStep .fail (.selecting woken) .left
  | failHandling : PhaseStep .fail .handling .left
  | kicked : PhaseStep .kicked (.selecting true) .left
  | detachClean (now : Instant) : PhaseStep (.detach now) .left .removing
  | detach (now : Instant) : PhaseStep (.detach now) .left .gone
  | unregister : PhaseStep .unregister .removing .gone

namespace KickWorld

open Cells

variable [HashOrder] {k k' : KickWorld}

theorem move_conns {i : Nat} {c : Conn} {m : Move} (h : k.move i c m = some k') :
    ∃ kick c', k'.conns = (notifyWaiters k.conns kick).set i c' ∧ c'.clientId = c.clientId ∧
      c'.kicked = c.kicked ∧ PhaseStep m c.phase c'.phase := by
  cases m with
  | attach =>
      simp only [KickWorld.move] at h
      split at h
      · next hp =>
        cases h
        rw [hp]
        exact ⟨_, _, rfl, rfl, rfl, .attach⟩
      · cases h
  | startFails | enter | packet | finish | disconnect | unregister =>
      simp only [KickWorld.move] at h
      split at h
      · next hp =>
        cases h
        rw [hp]
        exact ⟨none, _, rfl, rfl, rfl, by constructor⟩
      · cases h
  | fail =>
      simp only [KickWorld.move] at h
      split at h
      · next hp =>
        cases h
        rw [hp]
        exact ⟨none, _, rfl, rfl, rfl, .failSelecting _⟩
      · next hp =>
        cases h
        rw [hp]
        exact ⟨none, _, rfl, rfl, rfl, .failHandling⟩
      · cases h
  | kicked =>
      simp only [KickWorld.move] at h
      split at h
      · next hp _ =>
        cases h
        rw [hp]
        exact ⟨none, _, rfl, rfl, rfl, .kicked⟩
      · cases h
  | detach now =>
      simp only [KickWorld.move] at h
      split at h
      · next hp _ =>
        rw [hp]
        split at h
        · cases h
          exact ⟨none, _, rfl, rfl, rfl, .detachClean now⟩
        · cases h
          exact ⟨none, _, rfl, rfl, rfl, .detach now⟩
      · cases h

omit [HashOrder] in
theorem length_notifyWaiters (conns : List Conn) (kick : Option Notify) :
    (notifyWaiters conns kick).length = conns.length := by
  cases kick with
  | none => rfl
  | some k => exact List.length_modify _ _ _

theorem step_length {a : KickAction} (h : k.step a = some k') :
    k.conns.length ≤ k'.conns.length := by
  cases a with
  | lookup clientId identity clean =>
      cases h
      rw [List.length_append, length_notifyWaiters]
      exact Nat.le_add_right _ _
  | evict a tx now =>
      simp only [KickWorld.step] at h
      split at h
      · cases h
        exact Nat.le_of_eq (length_notifyWaiters _ _).symm
      · cases h
  | conn i m =>
      simp only [KickWorld.step] at h
      split at h
      · obtain ⟨kick, c', hconns, _⟩ := move_conns h
        rw [hconns, List.length_set, length_notifyWaiters]
      · cases h

/-- A connection after a step: it was looked up, it made a move, or at most it was
woken. -/
theorem step_conn_cases {a : KickAction} (h : k.step a = some k') {i : Nat} {c' : Conn}
    (hc' : k'.conns[i]? = some c') :
    (k.conns[i]? = none ∧ c'.phase = .picked) ∨
      ∃ c, k.conns[i]? = some c ∧ c'.clientId = c.clientId ∧ (c.kicked = true → c'.kicked = true) ∧
        ((∃ m, a = .conn i m ∧ PhaseStep m c.phase c'.phase) ∨
          (∀ m, a ≠ .conn i m) ∧ (c' = c ∨ c' = c.wake)) := by
  -- a notification wakes at most
  have hnotified : ∀ {kick : Option Notify}, (notifyWaiters k.conns kick)[i]? = some c' →
      (∀ m, a ≠ .conn i m) → ∃ c, k.conns[i]? = some c ∧ c'.clientId = c.clientId ∧
        (c.kicked = true → c'.kicked = true) ∧
          ((∃ m, a = .conn i m ∧ PhaseStep m c.phase c'.phase) ∨
          (∀ m, a ≠ .conn i m) ∧ (c' = c ∨ c' = c.wake)) := by
    intro kick hget hother
    rcases notified_cases hget with hc | ⟨c, hc, _, hrunning, rfl⟩
    · exact ⟨c', hc, rfl, id, .inr ⟨hother, .inl rfl⟩⟩
    · exact ⟨c, hc, (wake_same c).1, fun _ => wake_running hrunning, .inr ⟨hother, .inr rfl⟩⟩
  cases a with
  | lookup clientId identity clean =>
      cases h
      rcases concat_cases hc' with hget | ⟨rfl, rfl⟩
      · exact .inr (hnotified hget (fun _ heq => (by cases heq)))
      · refine .inl ⟨?_, rfl⟩
        rw [length_notifyWaiters]
        exact List.getElem?_eq_none (Nat.le_refl _)
  | evict a tx now =>
      simp only [KickWorld.step] at h
      split at h
      · cases h
        exact .inr (hnotified hc' (fun _ heq => (by cases heq)))
      · cases h
  | conn j m =>
      simp only [KickWorld.step] at h
      split at h
      · next c hc =>
        obtain ⟨kick, c₁, hconns, hid, hkicked, hphase⟩ := move_conns h
        rw [hconns] at hc'
        rcases set_cases hc' with ⟨hne, hget⟩ | ⟨rfl, rfl⟩
        · refine .inr (hnotified hget ?_)
          rintro m' heq
          cases heq
          exact hne rfl
        · exact .inr ⟨c, hc, hid, fun hk => hkicked.trans hk, .inl ⟨m, rfl, hphase⟩⟩
      · cases h

theorem step_conn {a : KickAction} (h : k.step a = some k') {i : Nat} {c : Conn}
    (hc : k.conns[i]? = some c) : ∃ c', k'.conns[i]? = some c' ∧ c'.clientId = c.clientId := by
  obtain ⟨hlt, _⟩ := List.getElem?_eq_some_iff.mp hc
  have hget := List.getElem?_eq_getElem (Nat.lt_of_lt_of_le hlt (step_length h))
  refine ⟨_, hget, ?_⟩
  rcases step_conn_cases h hget with ⟨hnone, _⟩ | ⟨c₀, hc₀, hid, _⟩
  · rw [hc] at hnone
    cases hnone
  · rw [hc] at hc₀
    cases hc₀
    exact hid

end KickWorld

/-! ## The system -/

/-- How far a connection has told of itself. -/
inductive Telling where
  | silent
  /-- the put of its `connect` is done -/
  | connected
  /-- `serve` has returned -/
  | done
  deriving DecidableEq, Repr

structure EventWorld where
  kick : KickWorld
  told : Nat → Telling
  /-- the puts on the keys of clients that succeeded, oldest first -/
  log : List (Str × Str)

inductive EventAction where
  | kick (a : KickAction)
  /-- connection `i` tells of its connect, and whether the put succeeds -/
  | connected (i : Nat) (peer : Str) (put : Bool)
  | subscribed (i : Nat) (filter : Str) (granted : QoS) (put : Bool)
  | unsubscribed (i : Nat) (filter : Str) (put : Bool)
  /-- detached, it tells of its disconnect, and `serve` returns -/
  | disconnected (i : Nat) (put : Bool)

/-- Why a connection ended, as its disconnect event has it. -/
def Conn.reason (c : Conn) : Str := if c.ok then "clean".toList else "abnormal".toList

/-- A connection that runs and was not kicked. -/
def Conn.Live (c : Conn) : Prop := c.phase.Running ∧ c.kicked = false

/-- A connection that is out of its loop, or was told to leave it. -/
def Conn.Leaving (c : Conn) : Prop :=
  c.kicked = true ∨ c.phase = .left ∨ c.phase = .removing ∨ c.phase = .gone

namespace EventWorld

section
variable (b : Broker)

def init (maxQueue : Nat) (slowGrace : Option Duration) (queueDir : Bool) (disk : Disk) :
    EventWorld :=
  ⟨.start maxQueue slowGrace queueDir disk, fun _ => .silent, []⟩

/-- `publish_client_event`: a put that fails is only logged. -/
def publishClientEvent (w : EventWorld) (clientId : Str) (e : ClientEvent) (put : Bool) :
    EventWorld :=
  if put then { w with log := w.log ++ [(clientKey b clientId, e.text)] } else w

def setTold (w : EventWorld) (i : Nat) (t : Telling) : EventWorld :=
  { w with told := Function.update w.told i t }

/-- The loop is entered behind the connect event; a connection whose CONNACK or backlog
cannot be sent leaves `serve` there and then. -/
def tellingAfter (w : EventWorld) : KickAction → Option (Nat → Telling)
  | .conn i .enter => if w.told i = .connected then some w.told else none
  | .conn i .startFails => some (Function.update w.told i .done)
  | _ => some w.told

def step [HashOrder] (w : EventWorld) : EventAction → Option EventWorld
  | .kick a =>
      (w.tellingAfter a).bind fun told =>
        (w.kick.step a).map fun k => { w with kick := k, told := told }
  | .connected i peer put =>
      (w.kick.conns[i]?).bind fun c =>
        if c.phase = .starting ∧ w.told i = .silent then
          some ((w.publishClientEvent b c.clientId (.connect peer c.clean) put).setTold i
            .connected)
        else none
  | .subscribed i filter granted put =>
      (w.kick.conns[i]?).bind fun c =>
        if c.phase = .handling then
          some (w.publishClientEvent b c.clientId (.subscribe filter granted) put)
        else none
  | .unsubscribed i filter put =>
      (w.kick.conns[i]?).bind fun c =>
        if c.phase = .handling then
          some (w.publishClientEvent b c.clientId (.unsubscribe filter) put)
        else none
  | .disconnected i put =>
      (w.kick.conns[i]?).bind fun c =>
        if c.phase = .gone ∧ w.told i = .connected then
          some ((w.publishClientEvent b c.clientId (.disconnect c.reason) put).setTold i .done)
        else none

/-! ## The property and the condition -/

/-- The last event on a client's key. -/
def last (w : EventWorld) (clientId : Str) : Option Str :=
  Keyed.lastValue (clientKey b clientId) w.log

def Live (w : EventWorld) (clientId : Str) : Prop :=
  ∃ (i : Nat) (c : Conn), w.kick.conns[i]? = some c ∧ c.clientId = clientId ∧ c.Live

/-- No connection is between its attach and its connect event, and every kicked or closed
one has finished `serve`. -/
def Quiescent (w : EventWorld) : Prop :=
  ∀ (i : Nat) (c : Conn), w.kick.conns[i]? = some c →
    (c.phase = .starting → w.told i ≠ .silent) ∧ (c.Leaving → w.told i = .done)

/-- Behind every event of the client of one kind there was one of another kind. -/
def Followed (w : EventWorld) (clientId : Str) (kind : Str → Prop) : Prop :=
  ∀ before text after, w.log = before ++ (clientKey b clientId, text) :: after → kind text →
    ∃ text', (clientKey b clientId, text') ∈ after ∧ ¬ kind text'

/-- Whatever the client told of itself, a disconnect came behind it; or another connection
of it has told of its connect and not finished. -/
def GoneOrOther (w : EventWorld) (clientId : Str) (i : Nat) : Prop :=
  w.Followed b clientId (fun text => ¬ IsDisconnect text) ∨
    ∃ (j : Nat) (c : Conn), j ≠ i ∧ w.kick.conns[j]? = some c ∧ c.clientId = clientId ∧
      w.told j = .connected

/-- The condition on a step, for the connections of one client: a disconnect is told
only when no live connection of the client has told of its connect; a connection that
ends untold does so behind another's disconnect or next to another that goes on; and a
connect that is not told has another event before it, behind any disconnect. -/
def InOrder (clientId : Str) (w : EventWorld) : EventAction → Prop
  | .disconnected i true =>
      ∀ c, w.kick.conns[i]? = some c → c.clientId = clientId →
        ∀ (j : Nat) (c' : Conn), w.kick.conns[j]? = some c' → c'.clientId = clientId →
          c'.Live → w.told j ≠ .connected
  | .disconnected i false | .kick (.conn i .startFails) =>
      ∀ c, w.kick.conns[i]? = some c → c.clientId = clientId → w.told i = .connected →
        w.GoneOrOther b clientId i
  | .connected i _ false =>
      ∀ c, w.kick.conns[i]? = some c → c.clientId = clientId →
        w.Followed b clientId IsDisconnect
  | _ => True

/-! ## The invariant -/

/-- How far a connection has told, by where it stands. -/
def Stands : Phase → Telling → Prop
  | .picked, t => t = .silent
  | .starting, t => t ≠ .done
  | .gone, t => t ≠ .silent
  | _, t => t = .connected

structure Standing (w : EventWorld) : Prop where
  unknown : ∀ i, w.kick.conns[i]? = none → w.told i = .silent
  stands : ∀ (i : Nat) (c : Conn), w.kick.conns[i]? = some c → Stands c.phase (w.told i)

structure Honest (clientId : Str) (w : EventWorld) : Prop extends Standing w where
  /-- a live connection that has told of its connect is not said to be gone -/
  here : ∀ (i : Nat) (c : Conn), w.kick.conns[i]? = some c → c.clientId = clientId → c.Live →
    w.told i = .connected → ∀ text, w.last b clientId = some text → ¬ IsDisconnect text
  /-- a client not said to be gone has a connection that will say so -/
  owed : ∀ text, w.last b clientId = some text → ¬ IsDisconnect text →
    ∃ (i : Nat) (c : Conn), w.kick.conns[i]? = some c ∧ c.clientId = clientId ∧
      w.told i = .connected

end

variable {b : Broker} {clientId : Str} {w w' : EventWorld}

theorem Honest.init {maxQueue : Nat} {slowGrace : Option Duration} {queueDir : Bool} {disk : Disk} :
    Honest b clientId (init maxQueue slowGrace queueDir disk) where
  unknown := fun _ _ => rfl
  stands := fun _ _ h => (by cases h)
  here := fun _ _ h => (by cases h)
  owed := fun _ h => (by cases h)

/-- An event with another kind behind it is not the last one. -/
theorem Followed.last {kind : Str → Prop} (h : w.Followed b clientId kind) {text : Str}
    (hlast : w.last b clientId = some text) : ¬ kind text := by
  intro hkind
  obtain ⟨before, after, hlog, hno⟩ := Keyed.split_of_lastValue hlast
  obtain ⟨text', hmem, -⟩ := h before text after hlog hkind
  exact hno text' hmem

/-- The last event on the key of a client, after one on some key that is put or not. -/
theorem last_publishClientEvent (w : EventWorld) (id : Str) (e : ClientEvent) (put : Bool) :
    (w.publishClientEvent b id e put).last b clientId =
      if put = true ∧ id = clientId then some e.text else w.last b clientId := by
  rw [publishClientEvent]
  cases put with
  | false => simp only [Bool.false_eq_true, false_and, if_false]
  | true =>
      simp only [true_and, if_true]
      rw [last, last, Keyed.lastValue_concat]
      by_cases h : id = clientId
      · rw [if_pos (congrArg _ h), if_pos h]
      · rw [if_neg (fun hkey => h (clientKey_injective b hkey)), if_neg h]

theorem publishClientEvent_kick (w : EventWorld) (id : Str) (e : ClientEvent) (put : Bool) :
    (w.publishClientEvent b id e put).kick = w.kick := by
  cases put <;> rfl

theorem publishClientEvent_told (w : EventWorld) (id : Str) (e : ClientEvent) (put : Bool) :
    (w.publishClientEvent b id e put).told = w.told := by
  cases put <;> rfl

theorem stands_wake {c : Conn} {t : Telling} (h : Stands c.phase t) : Stands c.wake.phase t := by
  cases hp : c.phase <;> simpa [Conn.wake, hp, Stands] using h

theorem stands_step {m : Move} {p p' : Phase} {t : Telling} (hstep : PhaseStep m p p')
    (h : Stands p t) (hfail : m ≠ .startFails) (henter : m = .enter → t = .connected) :
      Stands p' t := by
  cases hstep with
  | attach =>
      have ht : t = .silent := h
      rw [ht]
      exact fun heq => (by cases heq)
  | startFails => exact absurd rfl hfail
  | enter => exact henter rfl
  | packet | finish | disconnect | failSelecting | failHandling | kicked | detachClean => exact h
  | detach | unregister =>
      have ht : t = .connected := h
      rw [ht]
      exact fun heq => (by cases heq)

theorem stands_of_startFails {p p' : Phase} (hstep : PhaseStep .startFails p p') :
    Stands p' .done := by
  cases hstep
  exact fun heq => (by cases heq)

theorem running_of_step {m : Move} {p p' : Phase} (hstep : PhaseStep m p p') (h : p'.Running) :
    p = .picked ∨ p.Running := by
  cases hstep with
  | attach => exact .inl rfl
  | enter | packet | finish => exact .inr trivial
  | startFails | disconnect | failSelecting | failHandling | kicked | detachClean | detach
  | unregister => exact h.elim

/-- What the connections have told, after a step of theirs: one that fails to start is
done, one that enters its loop has told of its connect. -/
theorem tellingAfter_cases {a : KickAction} {told : Nat → Telling}
    (h : w.tellingAfter a = some told) (i : Nat) :
    a = .conn i .startFails ∧ told i = .done ∨
      a ≠ .conn i .startFails ∧ told i = w.told i ∧
        (a = .conn i .enter → w.told i = .connected) := by
  simp only [tellingAfter] at h
  split at h
  · next j =>
    split at h
    · next htold =>
      cases h
      refine .inr ⟨fun heq => (by cases heq), rfl, ?_⟩
      rintro heq
      cases heq
      exact htold
    · cases h
  · next j =>
    cases h
    by_cases hji : i = j
    · subst hji
      exact .inl ⟨rfl, Function.update_self _ _ _⟩
    · refine .inr ⟨?_, Function.update_of_ne hji _ _, fun heq => (by cases heq)⟩
      rintro heq
      cases heq
      exact hji rfl
  · next hnot hnot' =>
    cases h
    exact .inr ⟨fun heq => hnot' i heq, rfl, fun heq => absurd heq (hnot i)⟩

theorem Honest.kick [HashOrder] (h : Honest b clientId w) {a : KickAction} {k : KickWorld}
    {told : Nat → Telling} (hin : InOrder b clientId w (.kick a))
    (htold : w.tellingAfter a = some told) (hk : w.kick.step a = some k) :
    Honest b clientId { w with kick := k, told := told } where
  unknown := by
    intro i hnone
    cases hc : w.kick.conns[i]? with
    | some c =>
        obtain ⟨c', hc', _⟩ := KickWorld.step_conn hk hc
        exact absurd (hc'.symm.trans hnone) (by simp)
    | none =>
        rcases tellingAfter_cases htold i with ⟨rfl, _⟩ | ⟨_, hsame, _⟩
        · simp only [KickWorld.step, hc] at hk
          cases hk
        · exact hsame.trans (h.unknown i hc)
  stands := by
    intro i c' hc'
    dsimp only at hc' ⊢
    rcases KickWorld.step_conn_cases hk hc' with ⟨hnone, hpicked⟩ | ⟨c, hc, _, _, hmoved⟩
    · rw [hpicked]
      rcases tellingAfter_cases htold i with ⟨rfl, _⟩ | ⟨_, hsame, _⟩
      · simp only [KickWorld.step, hnone] at hk
        cases hk
      · exact hsame.trans (h.unknown i hnone)
    · have hstands := h.stands i c hc
      rcases tellingAfter_cases htold i with ⟨rfl, hdone⟩ | ⟨hfail, hsame, henter⟩
      · rw [hdone]
        rcases hmoved with ⟨m, hm, hphase⟩ | ⟨hother, _⟩
        · cases hm
          exact stands_of_startFails hphase
        · exact absurd rfl (hother _)
      · rw [hsame]
        rcases hmoved with ⟨m, rfl, hphase⟩ | ⟨_, rfl | rfl⟩
        · refine stands_step hphase hstands ?_ ?_
          · rintro rfl
            exact hfail rfl
          · rintro rfl
            exact henter rfl
        · exact hstands
        · exact stands_wake hstands
  here := by
    intro i c' hc' hid hlive hconnected
    dsimp only at hc' hconnected
    rcases tellingAfter_cases htold i with ⟨_, hdone⟩ | ⟨_, hsame, _⟩
    · exact absurd (hdone.symm.trans hconnected) (by decide)
    · rw [hsame] at hconnected
      rcases KickWorld.step_conn_cases hk hc' with ⟨hnone, _⟩ | ⟨c, hc, hid', hkicked, hmoved⟩
      · rw [h.unknown i hnone] at hconnected
        cases hconnected
      · -- it was live before, for what is picked has told nothing
        have hrunning : c.phase.Running := by
          rcases hmoved with ⟨m, _, hphase⟩ | ⟨_, rfl | rfl⟩
          · rcases running_of_step hphase hlive.1 with hpicked | hrunning
            · have hstands := h.stands i c hc
              rw [hpicked, hconnected] at hstands
              cases hstands
            · exact hrunning
          · exact hlive.1
          · exact (KickWorld.wake_phase c).1.mp hlive.1
        have hunkicked : c.kicked = false := by
          cases hkc : c.kicked with
          | false => rfl
          | true => exact absurd ((hkicked hkc).symm.trans hlive.2) (by decide)
        exact h.here i c hc (hid'.symm.trans hid) ⟨hrunning, hunkicked⟩ hconnected
  owed := by
    intro text hlast hnot
    obtain ⟨i, c, hc, hid, hconnected⟩ := h.owed text hlast hnot
    rcases tellingAfter_cases htold i with ⟨rfl, _⟩ | ⟨_, hsame, _⟩
    · -- the one that owes the event fails to start: another does
      rcases hin c hc hid hconnected with hgone | ⟨j, cj, hne, hcj, hidj, hconnectedj⟩
      · exact absurd hnot (hgone.last hlast)
      · obtain ⟨cj', hcj', hidj'⟩ := KickWorld.step_conn hk hcj
        rcases tellingAfter_cases htold j with ⟨heq, _⟩ | ⟨_, hsame, _⟩
        · cases heq
          exact absurd rfl hne
        · exact ⟨j, cj', hcj', hidj'.trans hidj, hsame.trans hconnectedj⟩
    · obtain ⟨c', hc', hid'⟩ := KickWorld.step_conn hk hc
      exact ⟨i, c', hc', hid'.trans hid, hsame.trans hconnected⟩

theorem Standing.set (h : Standing w) {i : Nat} {c : Conn} {t : Telling} {id : Str}
    {e : ClientEvent} {put : Bool} (hc : w.kick.conns[i]? = some c) (hstands : Stands c.phase t) :
    Standing ((w.publishClientEvent b id e put).setTold i t) where
  unknown := by
    intro j hnone
    rw [setTold, publishClientEvent_kick] at hnone
    rw [setTold, publishClientEvent_told]
    dsimp only at hnone ⊢
    rw [Function.update_of_ne, h.unknown j hnone]
    rintro rfl
    rw [hc] at hnone
    cases hnone
  stands := by
    intro j c' hc'
    rw [setTold, publishClientEvent_kick] at hc'
    rw [setTold, publishClientEvent_told]
    dsimp only at hc' ⊢
    by_cases hji : j = i
    · subst hji
      rw [hc] at hc'
      cases hc'
      rw [Function.update_self]
      exact hstands
    · rw [Function.update_of_ne hji]
      exact h.stands j c' hc'

/-- A connection that stands at its connect tells of anything but its end. -/
theorem Honest.tellHere (h : Honest b clientId w) {i : Nat} {c : Conn} {e : ClientEvent}
    {put : Bool} (hc : w.kick.conns[i]? = some c) (hstands : Stands c.phase .connected)
    (hnot : ¬ IsDisconnect e.text)
    (hunput : put = false → c.clientId = clientId → w.told i ≠ .connected →
      ∀ text, w.last b clientId = some text → ¬ IsDisconnect text) :
    Honest b clientId
      ((w.publishClientEvent b c.clientId e put).setTold i .connected) where
  toStanding := h.toStanding.set hc hstands
  here := by
    intro j c' hc' hid hlive hconnected text hlast
    rw [setTold, publishClientEvent_kick] at hc'
    rw [setTold, publishClientEvent_told] at hconnected
    dsimp only at hc' hconnected
    replace hlast := (last_publishClientEvent w c.clientId e put).symm.trans hlast
    split at hlast
    · cases hlast
      exact hnot
    · next hother =>
      by_cases hji : j = i
      · subst hji
        rw [hc] at hc'
        cases hc'
        have hput : put = false := by
          cases put with
          | false => rfl
          | true => exact absurd ⟨rfl, hid⟩ hother
        by_cases htold : w.told j = .connected
        · exact h.here j c hc hid hlive htold text hlast
        · exact hunput hput hid htold text hlast
      · rw [Function.update_of_ne hji] at hconnected
        exact h.here j c' hc' hid hlive hconnected text hlast
  owed := by
    intro text hlast hnot'
    replace hlast := (last_publishClientEvent w c.clientId e put).symm.trans hlast
    rw [setTold, publishClientEvent_kick, publishClientEvent_told]
    split at hlast
    · next hid => exact ⟨i, c, hc, hid.2, Function.update_self _ _ _⟩
    · obtain ⟨j, c', hc', hid, hconnected⟩ := h.owed text hlast hnot'
      refine ⟨j, c', hc', hid, ?_⟩
      dsimp only
      by_cases hji : j = i
      · rw [hji, Function.update_self]
      · rw [Function.update_of_ne hji, hconnected]

theorem Honest.speak (h : Honest b clientId w) {i : Nat} {c : Conn} {e : ClientEvent}
    {put : Bool} (hc : w.kick.conns[i]? = some c) (hphase : c.phase = .handling)
    (hnot : ∀ reason, e ≠ .disconnect reason) :
    Honest b clientId (w.publishClientEvent b c.clientId e put) := by
  have hstands := h.stands i c hc
  rw [hphase] at hstands
  have hconnected : w.told i = .connected := hstands
  have hsame : (w.publishClientEvent b c.clientId e put).setTold i .connected =
      w.publishClientEvent b c.clientId e put := by
    rw [setTold, publishClientEvent_told, ← hconnected, Function.update_eq_self,
      ← @publishClientEvent_told b w c.clientId e put]
  rw [← hsame]
  refine h.tellHere hc ?_ ?_ fun _ _ hnot => absurd hconnected hnot
  · rw [hphase]
    rfl
  · rintro hdisc
    obtain ⟨reason, heq⟩ := isDisconnect_text.mp hdisc
    exact hnot reason heq

theorem Honest.tellGone (h : Honest b clientId w) {i : Nat} {c : Conn} {put : Bool}
    (hc : w.kick.conns[i]? = some c) (hgone : c.phase = .gone)
    (hin : InOrder b clientId w (.disconnected i put)) (htold : w.told i = .connected) :
    Honest b clientId
      ((w.publishClientEvent b c.clientId (.disconnect c.reason) put).setTold i .done) where
  toStanding := h.toStanding.set hc (by rw [hgone]; exact fun heq => (by cases heq))
  here := by
    intro j c' hc' hid hlive hconnected text hlast
    rw [setTold, publishClientEvent_kick] at hc'
    rw [setTold, publishClientEvent_told] at hconnected
    dsimp only at hc' hconnected
    replace hlast := (last_publishClientEvent w c.clientId _ put).symm.trans hlast
    by_cases hji : j = i
    · rw [hji, Function.update_self] at hconnected
      cases hconnected
    · rw [Function.update_of_ne hji] at hconnected
      split at hlast
      · next hput =>
        obtain ⟨rfl, hidc⟩ := hput
        exact absurd hconnected (hin c hc hidc j c' hc' hid hlive)
      · exact h.here j c' hc' hid hlive hconnected text hlast
  owed := by
    intro text hlast hnot
    replace hlast := (last_publishClientEvent w c.clientId _ put).symm.trans hlast
    rw [setTold, publishClientEvent_kick, publishClientEvent_told]
    split at hlast
    · cases hlast
      exact absurd (isDisconnect_text.mpr ⟨_, rfl⟩) hnot
    · next hother =>
      -- somebody else owes an event
      have howed : ∃ (j : Nat) (c' : Conn), j ≠ i ∧ w.kick.conns[j]? = some c' ∧
          c'.clientId = clientId ∧ w.told j = .connected := by
        obtain ⟨j, c', hc', hid, hconnected⟩ := h.owed text hlast hnot
        by_cases hji : j = i
        · subst hji
          rw [hc] at hc'
          cases hc'
          cases put with
          | true => exact absurd ⟨rfl, hid⟩ hother
          | false =>
              rcases hin c hc hid hconnected with hsaid | hsome
              · exact absurd hnot (hsaid.last hlast)
              · exact hsome
        · exact ⟨j, c', hji, hc', hid, hconnected⟩
      obtain ⟨j, c', hji, hc', hid, hconnected⟩ := howed
      refine ⟨j, c', hc', hid, ?_⟩
      dsimp only
      rw [Function.update_of_ne hji, hconnected]

theorem Honest.step [HashOrder] {act : EventAction} (h : Honest b clientId w)
    (hin : InOrder b clientId w act) (hstep : w.step b act = some w') :
    Honest b clientId w' := by
  cases act with
  | kick a =>
      obtain ⟨told, htold, hstep⟩ := Option.bind_eq_some_iff.mp hstep
      obtain ⟨k, hk, rfl⟩ := Option.map_eq_some_iff.mp hstep
      exact h.kick hin htold hk
  | connected i peer put =>
      obtain ⟨c, hc, hstep⟩ := Option.bind_eq_some_iff.mp hstep
      split at hstep
      · next hphase =>
        cases hstep
        refine h.tellHere hc ?_ ?_ ?_
        · rw [hphase.1]
          exact fun heq => (by cases heq)
        · rintro hdisc
          obtain ⟨_, heq⟩ := isDisconnect_text.mp hdisc
          cases heq
        · rintro rfl hid _ text hlast
          exact (hin c hc hid).last hlast
      · cases hstep
  | subscribed i filter granted put =>
      obtain ⟨c, hc, hstep⟩ := Option.bind_eq_some_iff.mp hstep
      split at hstep
      · next hphase =>
        cases hstep
        exact h.speak hc hphase fun _ heq => (by cases heq)
      · cases hstep
  | unsubscribed i filter put =>
      obtain ⟨c, hc, hstep⟩ := Option.bind_eq_some_iff.mp hstep
      split at hstep
      · next hphase =>
        cases hstep
        exact h.speak hc hphase fun _ heq => (by cases heq)
      · cases hstep
  | disconnected i put =>
      obtain ⟨c, hc, hstep⟩ := Option.bind_eq_some_iff.mp hstep
      split at hstep
      · next hphase =>
        cases hstep
        exact h.tellGone hc hphase.1 hin hphase.2
      · cases hstep

/-- In a quiescent state the events on the key of a client tell the truth. -/
theorem Honest.truthful (h : Honest b clientId w) (hquiet : w.Quiescent) {text : Str}
    (hlast : w.last b clientId = some text) : IsDisconnect text ↔ ¬ w.Live clientId := by
  constructor
  · rintro hdisc ⟨i, c, hc, hid, hlive⟩
    have hconnected : w.told i = .connected := by
      have hstands := h.stands i c hc
      have hstarted := (hquiet i c hc).1
      obtain ⟨hrunning, _⟩ := hlive
      cases hp : c.phase with
      | starting =>
          rw [hp] at hstands
          have hsilent := hstarted hp
          cases ht : w.told i with
          | silent => exact absurd ht hsilent
          | connected => rfl
          | done => exact absurd ht hstands
      | selecting | handling =>
          rw [hp] at hstands
          exact hstands
      | picked | left | removing | gone =>
          rw [hp] at hrunning
          exact hrunning.elim
    exact h.here i c hc hid hlive hconnected text hlast hdisc
  · intro hnone
    by_contra hnot
    obtain ⟨i, c, hc, hid, hconnected⟩ := h.owed text hlast hnot
    have hstays : ¬ c.Leaving := by
      intro hleaving
      rw [(hquiet i c hc).2 hleaving] at hconnected
      cases hconnected
    refine hnone ⟨i, c, hc, hid, ?_, ?_⟩
    · have hstands := h.stands i c hc
      cases hp : c.phase with
      | picked =>
          rw [hp, hconnected] at hstands
          cases hstands
      | starting | selecting | handling => trivial
      | left => exact absurd (.inr (.inl hp)) hstays
      | removing => exact absurd (.inr (.inr (.inl hp))) hstays
      | gone => exact absurd (.inr (.inr (.inr hp))) hstays
    · cases hk : c.kicked with
      | false => rfl
      | true => exact absurd (.inl hk) hstays

/-! ## Runs -/

/-- **The events of a client told in order are truthful**: after any run, of any
connections of any clients, whose steps keep those of one client in order, in a
quiescent state the last event on its key is a disconnect iff it has no live
connection. -/
theorem last_event_truthful [HashOrder] (b : Broker) (clientId : Str) (maxQueue : Nat)
    (slowGrace : Option Duration) (queueDir : Bool) (disk : Disk) (acts : List EventAction)
    (w : EventWorld)
    (hmeets : Run.Meets (step b) (InOrder b clientId)
      (init maxQueue slowGrace queueDir disk) acts)
    (hrun : Run.exec (step b) (init maxQueue slowGrace queueDir disk) acts = some w)
    (hquiet : w.Quiescent) :
    ∀ text, w.last b clientId = some text → (IsDisconnect text ↔ ¬ w.Live clientId) := by
  have hend : Honest b clientId w :=
    Run.exec_invariant_of_meets (fun _ _ _ h hin hs => Honest.step h hin hs) acts .init hmeets hrun
  exact fun _ hlast => hend.truthful hquiet hlast

/-- A node that allows everything. -/
def n1 : Broker := ⟨"n1".toList, [], ⟨[], true⟩, 0, fun _ => 0⟩

/-- A client connects, and connects again. -/
def connectedTwice : List EventAction :=
  [.kick (.lookup "dev".toList [] false), .kick (.conn 0 .attach), .connected 0 [] true,
    .kick (.conn 0 .enter), .kick (.lookup "dev".toList [] false), .kick (.conn 1 .attach)]

/-- The old connection leaves and tells so before the new one tells of its connect. -/
def orderlyTakeover : List EventAction :=
  connectedTwice ++ [.kick (.conn 0 .kicked), .kick (.conn 0 (.detach 5)), .disconnected 0 true,
    .connected 1 [] true, .kick (.conn 1 .enter)]

/-- The old connection leaves behind it. -/
def hastyTakeover : List EventAction :=
  connectedTwice ++ [.connected 1 [] true, .kick (.conn 1 .enter), .kick (.conn 0 .kicked),
    .kick (.conn 0 (.detach 5)), .disconnected 0 true]

theorem orderly_takeover_is_truthful :
    ∃ w, Run.exec (@step n1 .asStored) (init 10 none false ∅) orderlyTakeover = some w ∧
      ∀ text, w.last n1 "dev".toList = some text →
        (IsDisconnect text ↔ ¬ w.Live "dev".toList) := by
  refine ⟨_, rfl, @last_event_truthful .asStored n1 "dev".toList 10 none false ∅
    orderlyTakeover _ ?_ rfl ?_⟩
  · refine .cons rfl trivial (.cons rfl trivial (.cons rfl trivial (.cons rfl trivial
      (.cons rfl trivial (.cons rfl trivial (.cons rfl trivial (.cons rfl trivial
        (.cons rfl ?_ (.cons rfl trivial (.cons rfl trivial trivial))))))))))
    -- the new connection is live, and has not told of itself
    intro c hc hid j c' hc' hid' hlive
    rcases j with _ | _ | j
    · cases hc'
      exact hlive.1.elim
    · exact fun heq => (by cases heq)
    · cases hc'
  · intro i c hc
    rcases i with _ | _ | i
    · cases hc
      exact ⟨fun heq => (by cases heq), fun _ => rfl⟩
    · cases hc
      refine ⟨fun heq => (by cases heq), ?_⟩
      rintro (heq | heq | heq | heq) <;> cases heq
    · cases hc

/-- The last event says that the client is gone, and it is there. -/
theorem hasty_takeover_says_gone :
    ¬ ∀ (_ : HashOrder) (b : Broker) (clientId : Str) (maxQueue : Nat) (slowGrace : Option Duration)
      (queueDir : Bool) (disk : Disk) (acts : List EventAction) (w : EventWorld),
      Run.exec (step b) (init maxQueue slowGrace queueDir disk) acts = some w → w.Quiescent →
        ∀ text, w.last b clientId = some text → (IsDisconnect text ↔ ¬ w.Live clientId) := by
  intro h
  have htruth := h .asStored n1 "dev".toList 10 none false ∅ hastyTakeover _ rfl ?_
    (ClientEvent.disconnect "abnormal".toList).text rfl
  · exact htruth.mp (isDisconnect_text.mpr ⟨_, rfl⟩) ⟨1, _, rfl, rfl, trivial, rfl⟩
  · intro i c hc
    rcases i with _ | _ | i
    · cases hc
      exact ⟨fun heq => (by cases heq), fun _ => rfl⟩
    · cases hc
      refine ⟨fun heq => (by cases heq), ?_⟩
      rintro (heq | heq | heq | heq) <;> cases heq
    · cases hc

end EventWorld

end Entmoot
