/-
# `Entmoot.Confine` — who receives what a subscription collects

A SUBSCRIBE is checked against the identity of its own connection, once.  The
forwarding task it starts and the messages it queues belong to the session, and
a later connection of the same client id inherits both, whatever its identity:
`attach_conn` writes the new identity into the session and looks at no grant.

`ConfineWorld` runs any number of connections, client ids and forwarding tasks.
Every message carries the filter that collected it, from the task through the
queue and the backlog to the channel it is put into, so that `Confined` (the
receiving identity may subscribe to that filter) is a statement about the log.
It holds in every run in which a session only passes to identities that are
granted what it still collects and holds (`Granted`, `confined_exec`), and fails as
soon as an identity without grants takes a session over (`takeover_leaks`).
-/
import Entmoot.Reconnect
import Entmoot.Lib.Run
import Entmoot.Lib.Cells

namespace Entmoot

/-! ## The system -/

/-- Where a connection stands. -/
inductive ConnPhase where
  /-- has its session, about to run `attach_conn` -/
  | picked
  /-- sending its backlog, then in the packet loop -/
  | attached (epoch : Nat)
  | gone
  deriving DecidableEq, Repr

/-- A connection; its number is the number of its channel. -/
structure ConfineConn where
  clientId : Str
  /-- the identity authenticated on the connection -/
  identity : Str
  clean : Bool
  session : Addr
  phase : ConnPhase
  /-- the backlog still to send, each message with the filter that collected it -/
  backlog : List (Msg × Str)
  /-- the filters granted on this connection -/
  granted : List Str

/-- A forwarding task: it waits for a sample, or is in a `deliver` call. -/
structure Forwarder where
  session : Addr
  filter : Str
  qos : QoS
  running : Bool
  call : Option SessionState.DeliverCall

/-- A PUBLISH put into a channel, and the filter that collected it. -/
structure Sent where
  chan : Nat
  publish : Publish
  filter : Str

structure ConfineWorld where
  reg : SessionRegistry
  conns : List ConfineConn
  forwarders : List Forwarder
  /-- the filters that collected the queue of each session -/
  origins : Addr → List Str
  log : List Sent

inductive ConfineAction where
  /-- a CONNECT: `attach` up to the release of the registry lock -/
  | pick (clientId identity : Str) (clean : Bool)
  /-- `attach_conn` of connection `i` -/
  | attach (i : Nat)
  /-- connection `i` sends the next message of its backlog -/
  | drain (i : Nat)
  | subscribe (i : Nat) (filter : Str) (qos : QoS)
  | unsubscribe (i : Nat) (filter : Str)
  /-- connection `i` sends a retained message under a filter granted to it -/
  | retained (i : Nat) (filter : Str) (p : Publish)
  /-- forwarding task `t` takes a sample -/
  | collect (t : Nat) (m : Msg)
  | deliver (t : Nat) (r : SessionState.SendResult) (now : Instant)
  /-- forwarding task `t` ends at an await -/
  | stop (t : Nat)
  | detach (i : Nat) (now : Instant)

namespace ConfineWorld

def init (maxQueue : Nat) (slowGrace : Option Duration) (queueDir : Bool) : ConfineWorld :=
  ⟨.new maxQueue slowGrace queueDir ∅, [], [], fun _ => [], []⟩

/-- Where the message a `deliver` call queued came from. -/
def queuedOrigins (s : SessionState) (origins : List Str) (filter : Str) : List Str :=
  (if s.inner.queue.length ≥ s.maxQueue then origins.tail else origins) ++ [filter]

/-- At most QoS 1 is granted. -/
def grantedQoS : QoS → QoS
  | .atMostOnce => .atMostOnce
  | _ => .atLeastOnce

section
variable [HashOrder] (acl : Acl) (scope : Str) (declare : Str → Bool)

/-- `Client::subscribe` on connection `i`. -/
def subscribe (w : ConfineWorld) (i : Nat) (c : ConfineConn) (filter : Str) (req : QoS) :
    ConfineWorld :=
  match filterToKeyexpr filter scope with
  | .error _ => w
  | .ok _ =>
      if acl.maySubscribe c.identity filter then
        match w.reg.activateSubscription declare scope c.session filter (grantedQoS req) with
        | .error _ => w
        | .ok reg =>
            { w with
              reg := reg
              conns := w.conns.set i { c with granted := c.granted ++ [filter] }
              forwarders := w.forwarders ++ [⟨c.session, filter, grantedQoS req, true, none⟩] }
      else w

/-- `attach_conn` of connection `i`: it takes the queue as its backlog. -/
def attachConn (w : ConfineWorld) (i : Nat) (c : ConfineConn) : ConfineWorld :=
  let a := w.reg.attachConnAt c.session c.identity ⟨i⟩ ⟨i⟩
  { w with
    reg := a.1
    conns := w.conns.set i
      { c with phase := .attached a.2.1, backlog := a.2.2.1.zip (w.origins c.session) }
    origins := Function.update w.origins c.session [] }

/-- One message of the backlog of connection `i`. -/
def drain (w : ConfineWorld) (i : Nat) (c : ConfineConn) : Option ConfineWorld :=
  match c.backlog, w.reg.heap[c.session]? with
  | (m, filter) :: rest, some s =>
      some { w with
        reg := w.reg.setSession c.session s.nextPkid.1
        conns := w.conns.set i { c with backlog := rest }
        log := w.log ++ [⟨i, backlogPublish m s.nextPkid.2, filter⟩] }
  | _, _ => none

/-- One section of the `deliver` call of forwarding task `t`. -/
def deliver (w : ConfineWorld) (t : Nat) (f : Forwarder) (call : SessionState.DeliverCall)
    (r : SessionState.SendResult) (now : Instant) : Option ConfineWorld :=
  match w.reg.heap[f.session]? with
  | none => none
  | some s =>
      (s.deliverStep w.reg.disk call r now).map fun o =>
        { w with
          reg := { w.reg.setSession f.session o.session with disk := o.disk }
          forwarders := w.forwarders.set t
            { f with call := match o.call.pc with | .done _ => none | _ => some o.call }
          origins :=
            if o.call.pc = .done .queued then
              Function.update w.origins f.session (queuedOrigins s (w.origins f.session) f.filter)
            else w.origins
          log := w.log ++ (o.pushed.map fun q => ⟨q.1.chan, q.2, f.filter⟩).toList }

def step (w : ConfineWorld) : ConfineAction → Option ConfineWorld
  | .pick clientId identity clean =>
      let l := w.reg.attachLookup clientId clean
      some { w with
        reg := l.registry
        conns := w.conns ++ [⟨clientId, identity, clean, l.session, .picked, [], []⟩] }
  | .attach i =>
      match w.conns[i]? with
      | some c => if c.phase = .picked then some (w.attachConn i c) else none
      | none => none
  | .drain i =>
      match w.conns[i]? with
      | some c => w.drain i c
      | none => none
  | .subscribe i filter qos =>
      match w.conns[i]? with
      | some ⟨clientId, identity, clean, session, .attached epoch, [], granted⟩ =>
          some (w.subscribe acl scope declare i
            ⟨clientId, identity, clean, session, .attached epoch, [], granted⟩ filter qos)
      | _ => none
  | .unsubscribe i filter =>
      match w.conns[i]? with
      | some ⟨_, _, _, session, .attached _, [], _⟩ =>
          some { w with reg := w.reg.removeSub session filter }
      | _ => none
  | .retained i filter p =>
      match w.conns[i]? with
      | some c =>
          if filter ∈ c.granted then some { w with log := w.log ++ [⟨i, p, filter⟩] } else none
      | none => none
  | .collect t m =>
      match w.forwarders[t]? with
      | some ⟨session, filter, qos, true, none⟩ =>
          some { w with
            forwarders :=
              w.forwarders.set t ⟨session, filter, qos, true, some ⟨m, qos, .readSink⟩⟩ }
      | _ => none
  | .deliver t r now =>
      match w.forwarders[t]? with
      | some ⟨session, filter, qos, true, some call⟩ =>
          w.deliver t ⟨session, filter, qos, true, some call⟩ call r now
      | _ => none
  | .stop t =>
      match w.forwarders[t]? with
      | some ⟨session, filter, qos, true, none⟩
      | some ⟨session, filter, qos, true, some ⟨_, _, .sending _ _⟩⟩ =>
          some { w with forwarders := w.forwarders.set t ⟨session, filter, qos, false, none⟩ }
      | _ => none
  | .detach i now =>
      match w.conns[i]? with
      | some c =>
          match c.phase with
          | .attached epoch =>
              some { w with
                reg := w.reg.detach c.session epoch c.clean now
                conns := w.conns.set i { c with phase := .gone } }
          | _ => none
      | none => none

end

/-! ## Confinement -/

/-- Every PUBLISH in a channel was collected by a filter that the identity of its
connection may subscribe to. -/
def Confined (acl : Acl) (w : ConfineWorld) : Prop :=
  ∀ e ∈ w.log, ∃ c, w.conns[e.chan]? = some c ∧ acl.maySubscribe c.identity e.filter

/-- A step that passes a session on only with what the receiving identity is
granted: an attach takes over the filters of tasks still running and of queued
messages, a subscription is made for the identity that owns the session, and a
new session finds no queue file. -/
def Granted (acl : Acl) (w : ConfineWorld) : ConfineAction → Prop
  | .pick clientId _ clean =>
      w.reg.sessions.lookup clientId = none → clean = false →
        SessionState.initialQueue w.reg.disk w.reg.maxQueue (w.reg.queuePath clientId) = []
  | .attach i => ∀ c, w.conns[i]? = some c →
      (∀ t ∈ w.forwarders, t.running → t.session = c.session →
        acl.maySubscribe c.identity t.filter) ∧
      ∀ f ∈ w.origins c.session, acl.maySubscribe c.identity f
  | .subscribe i filter _ => ∀ c s, w.conns[i]? = some c → w.reg.heap[c.session]? = some s →
      acl.maySubscribe c.identity filter → acl.maySubscribe s.inner.identity filter
  | _ => True

/-! ## What a step leaves of a session -/

/-- The same owner and queue, and no other sink. -/
structure Kept (s s' : SessionState) : Prop where
  identity : s'.inner.identity = s.inner.identity
  queue : s'.inner.queue = s.inner.queue
  sink : s'.inner.sink = s.inner.sink ∨ s'.inner.sink = none

theorem Kept.refl (s : SessionState) : Kept s s := ⟨rfl, rfl, .inl rfl⟩

theorem Kept.trans {s s' s'' : SessionState} (h : Kept s s') (h' : Kept s' s'') : Kept s s'' where
  identity := h'.identity.trans h.identity
  queue := h'.queue.trans h.queue
  sink := by
    rcases h'.sink with hs | hs
    · rw [hs]
      exact h.sink
    · exact .inr hs

theorem Kept.of_inner {s s' : SessionState} (h : s'.inner = s.inner) : Kept s s' :=
  ⟨by rw [h], by rw [h], .inl (by rw [h])⟩

theorem Kept.kickCurrent (s : SessionState) : Kept s s.kickCurrent.1.abortSubs.1 := by
  simp only [SessionState.kickCurrent]
  split <;> exact ⟨rfl, rfl, .inl rfl⟩

theorem Kept.of_noted {s s' : SessionState} (h : s.Noted s') : Kept s s' := by
  cases h with
  | pkid n => exact ⟨rfl, rfl, .inl rfl⟩
  | offline kick reason now => exact ⟨rfl, rfl, .inr rfl⟩

/-- Every session kept, none added. -/
structure HeapKept (h h' : List SessionState) : Prop where
  length : h'.length = h.length
  cells : ∀ (a : Addr) (s' : SessionState), h'[a]? = some s' → ∃ s, h[a]? = some s ∧ Kept s s'

theorem HeapKept.refl (h : List SessionState) : HeapKept h h :=
  ⟨rfl, fun _ s hs => ⟨s, hs, .refl s⟩⟩

theorem HeapKept.set {h : List SessionState} {a : Addr} {s s' : SessionState} (hs : h[a]? = some s)
    (hk : Kept s s') : HeapKept h (h.set a s') where
  length := List.length_set
  cells := by
    intro b t ht
    rcases Cells.set_cases ht with ⟨_, hb⟩ | ⟨rfl, rfl⟩
    · exact ⟨t, hb, .refl t⟩
    · exact ⟨s, hs, hk⟩

theorem HeapKept.trans {h h' h'' : List SessionState} (h₁ : HeapKept h h') (h₂ : HeapKept h' h'') :
    HeapKept h h'' where
  length := h₂.length.trans h₁.length
  cells := by
    intro a s'' hs''
    obtain ⟨s', hs', hk'⟩ := h₂.cells a s'' hs''
    obtain ⟨s, hs, hk⟩ := h₁.cells a s' hs'
    exact ⟨s, hs, hk.trans hk'⟩

/-- `detach` keeps every session, and maps no client id to another one. -/
theorem detach_kept (r : SessionRegistry) (a : Addr) (epoch : Nat) (clean : Bool) (now : Instant) :
    HeapKept r.heap (r.detach a epoch clean now).heap ∧
      ∀ c b, (r.detach a epoch clean now).sessions.lookup c = some b →
        r.sessions.lookup c = some b := by
  cases hs : r.heap[a]? with
  | none =>
      simp only [SessionRegistry.detach, hs]
      exact ⟨.refl _, fun _ _ h => h⟩
  | some s =>
      have hset := HeapKept.set hs (.of_noted (s.noted_detachConn epoch now))
      simp only [SessionRegistry.detach, hs]
      split
      · have hs₁ : (r.heap.set a (s.detachConn epoch now).1)[a]? =
            some (s.detachConn epoch now).1 :=
          Cells.set_self hs
        have habort : Kept (s.detachConn epoch now).1 (s.detachConn epoch now).1.abortSubs.1 :=
          ⟨rfl, rfl, .inl rfl⟩
        have hset₂ := HeapKept.set hs₁ habort
        have hs₂ := Cells.set_self (a := (s.detachConn epoch now).1.abortSubs.1) hs₁
        simp only [SessionRegistry.discardAt, SessionRegistry.setSession, hs₁,
          SessionRegistry.removeOwn, hs₂]
        split
        · refine ⟨hset.trans hset₂, fun c b hb => ?_⟩
          dsimp only at hb
          rw [Keyed.lookup_erase] at hb
          split at hb
          · cases hb
          · exact hb
        · exact ⟨hset.trans hset₂, fun _ _ h => h⟩
      · exact ⟨hset, fun _ _ h => h⟩

section
variable [HashOrder]

theorem removeSub_kept (r : SessionRegistry) (a : Addr) (filter : Str) :
    HeapKept r.heap (r.removeSub a filter).heap ∧ (r.removeSub a filter).sessions = r.sessions := by
  cases hs : r.heap[a]? with
  | none =>
      simp only [SessionRegistry.removeSub, hs]
      exact ⟨.refl _, trivial⟩
  | some s =>
      simp only [SessionRegistry.removeSub, hs]
      exact ⟨.set hs ⟨rfl, rfl, .inl rfl⟩, rfl⟩

theorem activate_kept {r r' : SessionRegistry} {declare : Str → Bool} {scope : Str} {a : Addr}
    {filter : Str} {q : QoS} (h : r.activateSubscription declare scope a filter q = .ok r') :
    HeapKept r.heap r'.heap ∧ r'.sessions = r.sessions := by
  rw [SessionRegistry.activateSubscription] at h
  split at h
  · cases h
  · split at h
    · cases hs : r.heap[a]? with
      | none =>
          simp only [hs] at h
          cases h
          exact ⟨.refl _, rfl⟩
      | some s =>
          simp only [hs] at h
          cases h
          exact ⟨.set hs ⟨rfl, rfl, .inl rfl⟩, rfl⟩
    · cases h

end

/-- The part of `attach` under the registry lock: every session is kept, and one
that is new has no sink and the queue of its file. -/
theorem attachLookup_kept (r : SessionRegistry) (clientId : Str) (clean : Bool)
    (hmapped : ∀ c (a : Nat), r.sessions.lookup c = some a → a < r.heap.length)
    (hqueue : r.sessions.lookup clientId = none → clean = false →
      SessionState.initialQueue r.disk r.maxQueue (r.queuePath clientId) = []) :
    let l := r.attachLookup clientId clean
    (∀ a s', l.registry.heap[a]? = some s' → (∃ s, r.heap[a]? = some s ∧ Kept s s') ∨
      a = r.heap.length ∧ s'.inner.sink = none ∧ s'.inner.queue = []) ∧
    r.heap.length ≤ l.registry.heap.length ∧ l.session < l.registry.heap.length ∧
    ∀ c (a : Nat), l.registry.sessions.lookup c = some a → a < l.registry.heap.length := by
  have hold : ∀ (h : List SessionState) (n : SessionState), HeapKept r.heap h →
      n.inner.sink = none → n.inner.queue = [] → ∀ (a : Addr) (s' : SessionState),
      (h ++ [n])[a]? = some s' → (∃ s, r.heap[a]? = some s ∧ Kept s s') ∨
        a = r.heap.length ∧ s'.inner.sink = none ∧ s'.inner.queue = [] := by
    intro h n hk hsink hq a s' hs'
    rcases Cells.concat_cases hs' with hs' | ⟨rfl, rfl⟩
    · exact .inl (hk.cells a s' hs')
    · exact .inr ⟨hk.length, hsink, hq⟩
  have hinsert : ∀ (m : Nat) (c : Str) (b : Nat),
      (r.sessions.insert clientId r.heap.length).lookup c = some b →
        m = r.heap.length + 1 → b < m := by
    intro m c b hb hm
    rw [Keyed.lookup_insert] at hb
    split at hb
    · cases hb
      omega
    · have hlt := hmapped c b hb
      omega
  cases ha : r.sessions.lookup clientId with
  | none =>
      cases clean with
      | false =>
          simp only [SessionRegistry.attachLookup, ha, SessionRegistry.addSession]
          refine ⟨hold _ _ (.refl _) rfl (hqueue ha rfl), ?_, ?_, ?_⟩
          · simp
          · simp
          · exact fun c b hb => hinsert _ c b hb (by simp)
      | true =>
          simp only [SessionRegistry.attachLookup, ha, SessionRegistry.addSession]
          refine ⟨hold _ _ (.refl _) rfl rfl, ?_, ?_, ?_⟩
          · simp [SessionRegistry.removeState]
          · simp [SessionRegistry.removeState]
          · exact fun c b hb => hinsert _ c b hb (by simp [SessionRegistry.removeState])
  | some a =>
      have hlt := hmapped clientId a ha
      cases clean with
      | false =>
          simp only [SessionRegistry.attachLookup, ha]
          refine ⟨fun b s' hs' => .inl ⟨s', hs', .refl s'⟩, Nat.le_refl _, hlt, fun c b hb => ?_⟩
          rw [Keyed.lookup_insert] at hb
          split at hb
          · cases hb
            exact hlt
          · exact hmapped c b hb
      | true =>
          have hs : r.heap[a]? = some r.heap[a] := List.getElem?_eq_getElem hlt
          have hset := HeapKept.set hs (.kickCurrent r.heap[a])
          simp only [SessionRegistry.attachLookup, ha, hs, SessionRegistry.addSession,
            SessionRegistry.removeState, SessionRegistry.setSession]
          refine ⟨hold _ _ hset rfl rfl, ?_, ?_, ?_⟩
          · simp
          · simp
          · intro c b hb
            rw [List.length_set] at hb
            exact hinsert _ c b hb (by simp)

/-! ## The invariant -/

/-- Channel `i` belongs to a connection of identity `u`. -/
def IsOf (conns : List ConfineConn) (i : Nat) (u : Str) : Prop :=
  ∃ c, conns[i]? = some c ∧ c.identity = u

/-- The identity of channel `i` may subscribe to `filter`. -/
def MayReceive (acl : Acl) (conns : List ConfineConn) (i : Nat) (filter : Str) : Prop :=
  ∃ c, conns[i]? = some c ∧ acl.maySubscribe c.identity filter

/-- Connections keep their identities. -/
def SameIdentities (conns conns' : List ConfineConn) : Prop :=
  ∀ i c, conns[i]? = some c → IsOf conns' i c.identity

theorem SameIdentities.set {conns : List ConfineConn} {i : Nat} {c c' : ConfineConn}
    (hc : conns[i]? = some c) (hid : c'.identity = c.identity) :
    SameIdentities conns (conns.set i c') := by
  intro j d hd
  by_cases hij : i = j
  · subst hij
    rw [hc] at hd
    cases hd
    exact ⟨c', Cells.set_self hc, hid⟩
  · exact ⟨d, by rw [List.getElem?_set_ne hij, hd], rfl⟩

theorem SameIdentities.append (conns more : List ConfineConn) :
    SameIdentities conns (conns ++ more) :=
  fun _ c hc => ⟨c, Cells.append_of_some hc, rfl⟩

theorem IsOf.mono {conns conns' : List ConfineConn} {i : Nat} {u : Str} (h : IsOf conns i u)
    (hs : SameIdentities conns conns') : IsOf conns' i u := by
  obtain ⟨c, hc, rfl⟩ := h
  exact hs i c hc

theorem MayReceive.mono {acl : Acl} {conns conns' : List ConfineConn} {i : Nat} {filter : Str}
    (h : MayReceive acl conns i filter) (hs : SameIdentities conns conns') :
    MayReceive acl conns' i filter := by
  obtain ⟨c, hc, hmay⟩ := h
  obtain ⟨c', hc', hid⟩ := hs i c hc
  exact ⟨c', hc', by rw [hid]; exact hmay⟩

theorem IsOf.mayReceive {acl : Acl} {conns : List ConfineConn} {i : Nat} {u filter : Str}
    (h : IsOf conns i u) (hmay : acl.maySubscribe u filter) : MayReceive acl conns i filter := by
  obtain ⟨c, hc, rfl⟩ := h
  exact ⟨c, hc, hmay⟩

/-- The owner of a session may receive all it holds and all its tasks collect, and
its sink is a channel of the owner. -/
structure Cell (acl : Acl) (conns : List ConfineConn) (forwarders : List Forwarder)
    (origins : List Str) (a : Addr) (s : SessionState) : Prop where
  queue : s.inner.queue.length = origins.length
  origins : ∀ f ∈ origins, acl.maySubscribe s.inner.identity f
  tasks : ∀ t ∈ forwarders, t.running → t.session = a → acl.maySubscribe s.inner.identity t.filter
  sink : ∀ tx, s.inner.sink = some tx → IsOf conns tx.chan s.inner.identity

theorem Cell.kept {acl : Acl} {conns : List ConfineConn} {forwarders : List Forwarder}
    {origins : List Str} {a : Addr} {s s' : SessionState}
    (h : Cell acl conns forwarders origins a s) (hk : Kept s s') :
    Cell acl conns forwarders origins a s' where
  queue := by
    rw [hk.queue]
    exact h.queue
  origins := by
    rw [hk.identity]
    exact h.origins
  tasks := by
    rw [hk.identity]
    exact h.tasks
  sink := by
    intro tx htx
    rw [hk.identity]
    rcases hk.sink with hs | hs
    · exact h.sink tx (hs.symm.trans htx)
    · rw [hs] at htx
      cases htx

/-- What is pending on a connection, and the call of a task. -/
structure ConnOk (acl : Acl) (heap : List SessionState) (c : ConfineConn) : Prop where
  session : c.session < heap.length
  backlog : ∀ e ∈ c.backlog, acl.maySubscribe c.identity e.2
  granted : ∀ f ∈ c.granted, acl.maySubscribe c.identity f

structure TaskOk (acl : Acl) (conns : List ConfineConn) (heap : List SessionState)
    (t : Forwarder) : Prop where
  session : t.session < heap.length
  call : ∀ call tx p, t.call = some call → call.pc = .sending tx p →
    MayReceive acl conns tx.chan t.filter

structure Inv (acl : Acl) (w : ConfineWorld) : Prop where
  cells : ∀ (a : Addr) (s : SessionState), w.reg.heap[a]? = some s →
    Cell acl w.conns w.forwarders (w.origins a) a s
  fresh : ∀ a, w.reg.heap.length ≤ a → w.origins a = []
  mapped : ∀ c (a : Nat), w.reg.sessions.lookup c = some a → a < w.reg.heap.length
  tasks : ∀ t ∈ w.forwarders, TaskOk acl w.conns w.reg.heap t
  conns : ∀ c ∈ w.conns, ConnOk acl w.reg.heap c
  log : Confined acl w

theorem Inv.init (acl : Acl) (maxQueue : Nat) (slowGrace : Option Duration) (queueDir : Bool) :
    Inv acl (init maxQueue slowGrace queueDir) where
  cells := by
    intro a s hs
    simp [ConfineWorld.init, SessionRegistry.new] at hs
  fresh := fun _ _ => rfl
  mapped := by
    intro c a ha
    simp [ConfineWorld.init, SessionRegistry.new] at ha
  tasks := fun t ht => absurd ht List.not_mem_nil
  conns := fun c hc => absurd hc List.not_mem_nil
  log := fun e he => absurd he List.not_mem_nil

section
variable {acl : Acl} {w w' : ConfineWorld}

/-- Sessions kept, client ids mapped to no others. -/
theorem Inv.heap (h : Inv acl w) {r : SessionRegistry} (hk : HeapKept w.reg.heap r.heap)
    (hmap : ∀ c a, r.sessions.lookup c = some a → w.reg.sessions.lookup c = some a) :
    Inv acl { w with reg := r } where
  cells := by
    intro a s' hs'
    obtain ⟨s, hs, hkept⟩ := hk.cells a s' hs'
    exact (h.cells a s hs).kept hkept
  fresh := by
    rw [hk.length]
    exact h.fresh
  mapped := by
    intro c a ha
    rw [hk.length]
    exact h.mapped c a (hmap c a ha)
  tasks := fun t ht => ⟨hk.length ▸ (h.tasks t ht).session, (h.tasks t ht).call⟩
  conns := fun c hc => ⟨hk.length ▸ (h.conns c hc).session, (h.conns c hc).backlog,
    (h.conns c hc).granted⟩
  log := h.log

theorem Inv.withConns (h : Inv acl w) {conns : List ConfineConn}
    (hids : SameIdentities w.conns conns)
    (hok : ∀ c ∈ conns, c ∈ w.conns ∨ ConnOk acl w.reg.heap c) :
    Inv acl { w with conns := conns } where
  cells := fun a s hs =>
    let hc := h.cells a s hs
    { hc with sink := fun tx htx => (hc.sink tx htx).mono hids }
  fresh := h.fresh
  mapped := h.mapped
  tasks := fun t ht => ⟨(h.tasks t ht).session,
    fun call tx p hcall hpc => ((h.tasks t ht).call call tx p hcall hpc).mono hids⟩
  conns := by
    intro c hc
    rcases hok c hc with hc | hc
    · exact h.conns c hc
    · exact hc
  log := fun e he => (show MayReceive acl w.conns e.chan e.filter from h.log e he).mono hids

/-- One connection moved on, under its own identity. -/
theorem Inv.setConn (h : Inv acl w) {i : Nat} {c : ConfineConn} (c' : ConfineConn)
    (hc : w.conns[i]? = some c) (hid : c'.identity = c.identity) (hok : ConnOk acl w.reg.heap c') :
    Inv acl { w with conns := w.conns.set i c' } := by
  refine h.withConns (.set hc hid) fun d hd => ?_
  rcases List.mem_or_eq_of_mem_set hd with hd | rfl
  · exact .inl hd
  · exact .inr hok

/-- Tasks changed or added: what runs after is what ran before, or permitted. -/
theorem Inv.withForwarders (h : Inv acl w) {forwarders : List Forwarder}
    (hold : ∀ t ∈ forwarders, TaskOk acl w.conns w.reg.heap t ∧
      (t.running → (∃ t₀ ∈ w.forwarders, t₀.running ∧ t₀.session = t.session ∧
        t₀.filter = t.filter) ∨
        ∀ s, w.reg.heap[t.session]? = some s → acl.maySubscribe s.inner.identity t.filter)) :
    Inv acl { w with forwarders := forwarders } where
  cells := by
    intro a s hs
    have hc := h.cells a s hs
    refine { hc with tasks := ?_ }
    intro t ht hrun ha
    rcases (hold t ht).2 hrun with ⟨t₀, ht₀, hrun₀, hses, hfil⟩ | hmay
    · rw [← hfil]
      exact hc.tasks t₀ ht₀ hrun₀ (hses.trans ha)
    · subst ha
      exact hmay s hs
  fresh := h.fresh
  mapped := h.mapped
  tasks := fun t ht => (hold t ht).1
  conns := h.conns
  log := h.log

theorem Inv.setForwarder (h : Inv acl w) {i : Nat} {t : Forwarder} (t' : Forwarder)
    (ht : w.forwarders[i]? = some t) (hses : t'.session = t.session) (hfil : t'.filter = t.filter)
    (hrun : t'.running → t.running) (hcall : ∀ call tx p, t'.call = some call →
      call.pc = .sending tx p → MayReceive acl w.conns tx.chan t'.filter) :
    Inv acl { w with forwarders := w.forwarders.set i t' } := by
  have hmem := List.mem_of_getElem? ht
  refine h.withForwarders fun u hu => ?_
  rcases List.mem_or_eq_of_mem_set hu with hu | rfl
  · exact ⟨h.tasks u hu, fun hr => .inl ⟨u, hu, hr, rfl, rfl⟩⟩
  · refine ⟨⟨?_, hcall⟩, fun hr => .inl ⟨t, hmem, hrun hr, hses.symm, hfil.symm⟩⟩
    rw [hses]
    exact (h.tasks t hmem).session

/-- A PUBLISH put into a channel that may receive it. -/
theorem Inv.send (h : Inv acl w) {chan : Nat} {p : Publish} {filter : Str}
    (hmay : MayReceive acl w.conns chan filter) :
    Inv acl { w with log := w.log ++ [⟨chan, p, filter⟩] } := by
  refine { h with log := ?_ }
  intro e he
  rcases List.mem_append.mp he with he | he
  · exact h.log e he
  · rw [List.mem_singleton.mp he]
    exact hmay

/-! ## The steps -/

theorem Inv.pick (h : Inv acl w) (clientId identity : Str) (clean : Bool)
    (hgranted : w.Granted acl (.pick clientId identity clean)) :
    Inv acl { w with
      reg := (w.reg.attachLookup clientId clean).registry
      conns := w.conns ++
        [⟨clientId, identity, clean, (w.reg.attachLookup clientId clean).session, .picked,
          [], []⟩] } := by
  obtain ⟨hcells, hle, hlt, hmap⟩ := attachLookup_kept w.reg clientId clean h.mapped hgranted
  have hnew : Inv acl { w with reg := (w.reg.attachLookup clientId clean).registry } := {
    cells := by
      intro a s' hs'
      rcases hcells a s' hs' with ⟨s, hs, hk⟩ | ⟨ha, hsink, hq⟩
      · exact (h.cells a s hs).kept hk
      · have horigins : w.origins a = [] := h.fresh a (by rw [ha])
        exact {
          queue := by
            show s'.inner.queue.length = (w.origins a).length
            rw [hq, horigins]
            rfl
          origins := by
            show ∀ f ∈ w.origins a, _
            rw [horigins]
            exact fun f hf => absurd hf List.not_mem_nil
          tasks := by
            intro t ht _ hta
            have hlt := (h.tasks t ht).session
            rw [hta, ha] at hlt
            exact absurd hlt (Nat.lt_irrefl _)
          sink := by
            intro tx htx
            rw [hsink] at htx
            cases htx }
    fresh := fun a ha => h.fresh a (Nat.le_trans hle ha)
    mapped := hmap
    tasks := fun t ht => ⟨Nat.lt_of_lt_of_le (h.tasks t ht).session hle, (h.tasks t ht).call⟩
    conns := fun c hc => ⟨Nat.lt_of_lt_of_le (h.conns c hc).session hle, (h.conns c hc).backlog,
      (h.conns c hc).granted⟩
    log := h.log }
  refine hnew.withConns (.append _ _) fun c hc => ?_
  rcases List.mem_append.mp hc with hc | hc
  · exact .inl hc
  · rw [List.mem_singleton.mp hc]
    exact .inr ⟨hlt, fun e he => absurd he List.not_mem_nil, fun f hf => absurd hf List.not_mem_nil⟩

theorem Inv.drain (h : Inv acl w) {i : Nat} {c : ConfineConn} (hc : w.conns[i]? = some c)
    (hstep : w.drain i c = some w') : Inv acl w' := by
  simp only [ConfineWorld.drain] at hstep
  split at hstep
  · next m filter rest s hb hs =>
    cases hstep
    have hok := h.conns c (List.mem_of_getElem? hc)
    have hmay : acl.maySubscribe c.identity filter :=
      hok.backlog (m, filter) (by rw [hb]; exact List.mem_cons_self)
    have hkept := h.heap (r := w.reg.setSession c.session s.nextPkid.1)
      (.set hs (.of_inner (nextPkid_inner s))) fun _ _ ha => ha
    have hsent := hkept.send (p := backlogPublish m s.nextPkid.2) (.intro c ⟨hc, hmay⟩)
    have hlt : c.session < (w.reg.setSession c.session s.nextPkid.1).heap.length := by
      show _ < (w.reg.heap.set _ _).length
      rw [List.length_set]
      exact hok.session
    have hok' :
        ConnOk acl (w.reg.setSession c.session s.nextPkid.1).heap { c with backlog := rest } :=
      ⟨hlt, fun e he => hok.backlog e (by rw [hb]; exact List.mem_cons_of_mem _ he), hok.granted⟩
    exact hsent.setConn { c with backlog := rest } hc rfl hok'
  · cases hstep

section
variable [HashOrder]

theorem Inv.attach (h : Inv acl w) {i : Nat} {c : ConfineConn} (hc : w.conns[i]? = some c)
    (hgranted : w.Granted acl (.attach i)) : Inv acl (w.attachConn i c) := by
  have hok := h.conns c (List.mem_of_getElem? hc)
  obtain ⟨htasks, horigins⟩ := hgranted c hc
  obtain ⟨s, hs⟩ : ∃ s, w.reg.heap[c.session]? = some s :=
    ⟨_, List.getElem?_eq_getElem hok.session⟩
  have hids : SameIdentities w.conns (w.attachConn i c).conns := .set hc rfl
  have hreg : (w.attachConn i c).reg.heap =
      w.reg.heap.set c.session (s.attachConn w.reg.disk c.identity ⟨i⟩ ⟨i⟩).session := by
    simp only [ConfineWorld.attachConn, SessionRegistry.attachConnAt, hs]
    rfl
  have hmap : (w.attachConn i c).reg.sessions = w.reg.sessions := by
    simp only [ConfineWorld.attachConn, SessionRegistry.attachConnAt, hs]
    rfl
  have hlen : (w.attachConn i c).reg.heap.length = w.reg.heap.length := by
    rw [hreg, List.length_set]
  exact {
    cells := by
      intro a s' hs'
      rw [hreg] at hs'
      rcases Cells.set_cases hs' with ⟨hne, hold⟩ | ⟨rfl, rfl⟩
      · have hcell := h.cells a s' hold
        have horig : (w.attachConn i c).origins a = w.origins a := Function.update_of_ne hne _ _
        rw [horig]
        exact { hcell with sink := fun tx htx => (hcell.sink tx htx).mono hids }
      · have horig : (w.attachConn i c).origins c.session = [] := Function.update_self _ _ _
        rw [horig]
        exact {
          queue := rfl
          origins := fun f hf => absurd hf List.not_mem_nil
          tasks := by
            rw [SessionState.attachConn_inner]
            exact htasks
          sink := by
            rw [SessionState.attachConn_inner]
            intro tx htx
            cases htx
            exact ⟨_, Cells.set_self hc, rfl⟩ }
    fresh := by
      intro a ha
      rw [hlen] at ha
      have hne : a ≠ c.session := fun heq => absurd hok.session (Nat.not_lt.mpr (heq ▸ ha))
      exact (Function.update_of_ne hne _ _).trans (h.fresh a ha)
    mapped := by
      rw [hmap, hlen]
      exact h.mapped
    tasks := by
      intro t ht
      exact ⟨hlen ▸ (h.tasks t ht).session,
        fun call tx p hcall hpc => ((h.tasks t ht).call call tx p hcall hpc).mono hids⟩
    conns := by
      intro d hd
      rcases List.mem_or_eq_of_mem_set hd with hd | rfl
      · have hold := h.conns d hd
        exact ⟨hlen ▸ hold.session, hold.backlog, hold.granted⟩
      · refine ⟨hlen ▸ hok.session, fun e he => ?_, hok.granted⟩
        exact horigins e.2 (List.of_mem_zip (show (e.1, e.2) ∈ _ from he)).2
    log := fun e he => (show MayReceive acl w.conns e.chan e.filter from h.log e he).mono hids }

theorem Inv.subscribe (h : Inv acl w) (scope : Str) (declare : Str → Bool) {i : Nat}
    {c : ConfineConn} (hc : w.conns[i]? = some c) (filter : Str) (req : QoS)
    (hgranted : w.Granted acl (.subscribe i filter req)) :
    Inv acl (w.subscribe acl scope declare i c filter req) := by
  have hok := h.conns c (List.mem_of_getElem? hc)
  rw [ConfineWorld.subscribe]
  split
  · exact h
  · split
    · next hmay =>
      split
      · exact h
      · next reg hreg =>
        obtain ⟨hkept, hsess⟩ := activate_kept hreg
        have hheap := h.heap hkept fun c a ha => by rw [hsess] at ha; exact ha
        have hlt : c.session < reg.heap.length := hkept.length ▸ hok.session
        have hok' : ConnOk acl reg.heap { c with granted := c.granted ++ [filter] } := by
          refine ⟨hlt, hok.backlog, fun f hf => ?_⟩
          rcases List.mem_append.mp hf with hf | hf
          · exact hok.granted f hf
          · rw [List.mem_singleton.mp hf]
            exact hmay
        have hconn := hheap.setConn { c with granted := c.granted ++ [filter] } hc rfl hok'
        refine hconn.withForwarders fun t ht => ?_
        rcases List.mem_append.mp ht with ht | ht
        · exact ⟨hconn.tasks t ht, fun hr => .inl ⟨t, ht, hr, rfl, rfl⟩⟩
        · rw [List.mem_singleton.mp ht]
          refine ⟨⟨hlt, fun call tx p hcall => nomatch hcall⟩, fun _ => .inr fun s' hs' => ?_⟩
          obtain ⟨s, hs, hk⟩ := hkept.cells c.session s' hs'
          rw [hk.identity]
          exact hgranted c s hc hs hmay
    · exact h

omit [HashOrder] in
/-- What one section of a `deliver` call does to the session: it reads the sink,
pushes into the channel it read, queues on a session without a sink, or keeps all. -/
theorem deliverStep_cases {s : SessionState} {d : Disk} {c : SessionState.DeliverCall}
    {r : SessionState.SendResult} {now : Instant} {o : SessionState.DeliverStep}
    (h : s.deliverStep d c r now = some o) :
    (Kept s o.session ∧ o.pushed = none ∧ o.call.pc ≠ .done .queued ∧
      ∀ tx p, o.call.pc = .sending tx p → s.inner.sink = some tx) ∨
    (∃ tx p, c.pc = .sending tx p ∧ o.session = s ∧ o.pushed = some (tx, p) ∧
      o.call.pc = .done .sent) ∨
    (o.session = s.pushQueue c.msg ∧ s.inner.sink = none ∧ o.pushed = none ∧
      o.call.pc = .done .queued) := by
  cases SessionState.deliverStep_section h with
  | live hpc hsink =>
      refine .inl ⟨.of_noted (s.noted_publishFor c.msg c.qos), rfl, by simp, ?_⟩
      intro tx' p hp
      cases hp
      exact hsink
  | sent hpc => exact .inr (.inl ⟨_, _, hpc, rfl, rfl, rfl⟩)
  | evict hpc => exact .inl ⟨.of_noted (s.noted_evictSlow _ now), rfl, by simp, by simp⟩
  | clear hpc => exact .inl ⟨.of_noted (s.noted_clearSink _ now), rfl, by simp, by simp⟩
  | queue hpc hsink => exact .inr (.inr ⟨rfl, hsink, rfl, rfl⟩)
  | drop hpc _ _ | offline hpc _ _ | timeout hpc _ | closed hpc | retry hpc _ =>
      exact .inl ⟨.refl s, rfl, by simp, by simp⟩

omit [HashOrder] in
/-- A message queued on a session, with the filter that collected it. -/
theorem Inv.queue (h : Inv acl w) {a : Addr} {s : SessionState} (hs : w.reg.heap[a]? = some s)
    (m : Msg) (d : Disk) {filter : Str} (hmay : acl.maySubscribe s.inner.identity filter) :
    Inv acl { w with
      reg := { w.reg.setSession a (s.pushQueue m) with disk := d }
      origins := Function.update w.origins a (queuedOrigins s (w.origins a) filter) } := by
  obtain ⟨hlt, _⟩ := List.getElem?_eq_some_iff.mp hs
  have hlen : (w.reg.heap.set a (s.pushQueue m)).length = w.reg.heap.length := List.length_set
  have hcell := h.cells a s hs
  exact {
    cells := by
      intro b t ht
      rcases Cells.set_cases (l := w.reg.heap) ht with ⟨hne, hold⟩ | ⟨rfl, rfl⟩
      · have horig : (Function.update w.origins a
            (queuedOrigins s (w.origins a) filter) : Addr → List Str) b = w.origins b :=
          Function.update_of_ne hne _ _
        dsimp only
        rw [horig]
        exact h.cells b t hold
      · have horig : (Function.update w.origins b
            (queuedOrigins s (w.origins b) filter) :
              Addr → List Str) b = queuedOrigins s (w.origins b) filter :=
          Function.update_self _ _ _
        dsimp only
        rw [horig]
        exact {
          queue := by
            have hq := hcell.queue
            simp only [SessionState.pushQueue, queuedOrigins]
            split
            · rw [List.length_append, List.length_append, List.length_tail, List.length_tail, hq]
              rfl
            · rw [List.length_append, List.length_append, hq]
              rfl
          origins := by
            intro f hf
            rcases List.mem_append.mp hf with hf | hf
            · split at hf
              · exact hcell.origins f (List.mem_of_mem_tail hf)
              · exact hcell.origins f hf
            · rw [List.mem_singleton.mp hf]
              exact hmay
          tasks := hcell.tasks
          sink := hcell.sink }
    fresh := by
      intro b hb
      have hb' : w.reg.heap.length ≤ b := hlen ▸ hb
      have hne : b ≠ a := fun heq => absurd hlt (Nat.not_lt.mpr (heq ▸ hb'))
      exact (Function.update_of_ne hne _ _).trans (h.fresh b hb')
    mapped := fun c b hb => hlen.symm ▸ h.mapped c b hb
    tasks := fun t ht => ⟨hlen.symm ▸ (h.tasks t ht).session, (h.tasks t ht).call⟩
    conns := fun c hc => ⟨hlen.symm ▸ (h.conns c hc).session, (h.conns c hc).backlog,
      (h.conns c hc).granted⟩
    log := h.log }

omit [HashOrder] in
theorem Inv.deliver (h : Inv acl w) {i : Nat} {t : Forwarder} {call : SessionState.DeliverCall}
    (ht : w.forwarders[i]? = some t) (hrun : t.running) (hcall : t.call = some call)
    {r : SessionState.SendResult} {now : Instant} (hstep : w.deliver i t call r now = some w') :
    Inv acl w' := by
  simp only [ConfineWorld.deliver] at hstep
  split at hstep
  · cases hstep
  · next s hs =>
    obtain ⟨o, ho, rfl⟩ := Option.map_eq_some_iff.mp hstep
    have hmem := List.mem_of_getElem? ht
    have hcell := h.cells t.session s hs
    have hmay : acl.maySubscribe s.inner.identity t.filter := hcell.tasks t hmem hrun rfl
    have hdone : ∀ {c : SessionState.DeliverCall} {dl : Delivery}, c.pc = .done dl →
        (match c.pc with | .done _ => none | _ => some c : Option SessionState.DeliverCall) =
          none := by
      intro c dl hpc
      rw [hpc]
    rcases deliverStep_cases ho with ⟨hkept, hpush, hnot, hsink⟩ | ⟨tx, p, hpc, hsame,
      hpush, hsent⟩ |
      ⟨hsame, hnosink, hpush, hqueued⟩
    · have hheap := h.heap (r := { w.reg.setSession t.session o.session with disk := o.disk })
        (.set hs hkept) fun _ _ ha => ha
      have hnext := hheap.setForwarder
        { t with call := match o.call.pc with | .done _ => none | _ => some o.call }
          ht rfl rfl id ?_
      · simp only [hpush, Option.map_none, Option.toList_none, List.append_nil, if_neg hnot]
        exact hnext
      · intro call' tx p hc hp
        dsimp only at hc
        split at hc
        · cases hc
        · cases hc
          exact (hcell.sink tx (hsink tx p hp)).mayReceive hmay
    · have hheap := h.heap (r := { w.reg.setSession t.session s with disk := o.disk })
        (.set hs (.refl s)) fun _ _ ha => ha
      have hreceive : MayReceive acl w.conns tx.chan t.filter :=
        (h.tasks t hmem).call call tx p hcall hpc
      have hlog := hheap.send (p := p) hreceive
      have hnext := hlog.setForwarder { t with call := none } ht rfl rfl id
        fun _ _ _ hc => nomatch hc
      rw [hdone hsent, hsame, hpush, hsent]
      exact hnext
    · have hqueue := h.queue hs call.msg o.disk hmay
      have hnext := hqueue.setForwarder { t with call := none } ht rfl rfl id
        fun _ _ _ hc => nomatch hc
      rw [hdone hqueued, hsame, hpush, if_pos hqueued]
      simp only [Option.map_none, Option.toList_none, List.append_nil]
      exact hnext

theorem Inv.step {scope : Str} {declare : Str → Bool} {act : ConfineAction} (h : Inv acl w)
    (hgranted : w.Granted acl act) (hstep : w.step acl scope declare act = some w') :
    Inv acl w' := by
  cases act with
  | pick clientId identity clean =>
      cases hstep
      exact h.pick clientId identity clean hgranted
  | attach i =>
      simp only [ConfineWorld.step] at hstep
      split at hstep
      · next c hc =>
        split at hstep <;> cases hstep
        exact h.attach hc hgranted
      · cases hstep
  | drain i =>
      simp only [ConfineWorld.step] at hstep
      split at hstep
      · next c hc => exact h.drain hc hstep
      · cases hstep
  | subscribe i filter qos =>
      simp only [ConfineWorld.step] at hstep
      split at hstep
      · next hc =>
        cases hstep
        exact h.subscribe scope declare hc filter qos hgranted
      · cases hstep
  | unsubscribe i filter =>
      simp only [ConfineWorld.step] at hstep
      split at hstep
      · cases hstep
        obtain ⟨hkept, hsess⟩ := removeSub_kept w.reg _ filter
        exact h.heap hkept fun c a ha => by rw [hsess] at ha; exact ha
      · cases hstep
  | retained i filter p =>
      simp only [ConfineWorld.step] at hstep
      split at hstep
      · next c hc =>
        split at hstep
        · next hf =>
          cases hstep
          exact h.send ⟨c, hc, (h.conns c (List.mem_of_getElem? hc)).granted filter hf⟩
        · cases hstep
      · cases hstep
  | collect t m =>
      simp only [ConfineWorld.step] at hstep
      split at hstep
      · next ht =>
        cases hstep
        refine h.setForwarder _ ht rfl rfl id fun call tx p hc hp => ?_
        cases hc
        cases hp
      · cases hstep
  | deliver t r now =>
      simp only [ConfineWorld.step] at hstep
      split at hstep
      · next ht => exact h.deliver ht rfl rfl hstep
      · cases hstep
  | stop t =>
      simp only [ConfineWorld.step] at hstep
      split at hstep
      · next ht =>
        cases hstep
        exact h.setForwarder _ ht rfl rfl (fun hr => nomatch hr) fun _ _ _ hc => nomatch hc
      · next ht =>
        cases hstep
        exact h.setForwarder _ ht rfl rfl (fun hr => nomatch hr) fun _ _ _ hc => nomatch hc
      · cases hstep
  | detach i now =>
      simp only [ConfineWorld.step] at hstep
      split at hstep
      · next c hc =>
        split at hstep
        · next epoch _ =>
          cases hstep
          obtain ⟨hkept, hmap⟩ := detach_kept w.reg c.session epoch c.clean now
          have hheap := h.heap hkept hmap
          have hok := hheap.conns c (List.mem_of_getElem? hc)
          have hok' : ConnOk acl (w.reg.detach c.session epoch c.clean now).heap
              { c with phase := .gone } :=
            ⟨hok.session, hok.backlog, hok.granted⟩
          exact hheap.setConn { c with phase := .gone } hc rfl hok'
        · cases hstep
      · cases hstep

/-- **In every run in which sessions only pass on what is granted, every PUBLISH was
collected by a filter its receiver may subscribe to.** -/
theorem confined_exec {scope : Str} {declare : Str → Bool} {maxQueue : Nat}
    {slowGrace : Option Duration} {queueDir : Bool} {acts : List ConfineAction}
    (hgranted : Run.Meets (step acl scope declare) (Granted acl) (init maxQueue slowGrace queueDir)
      acts)
    (hrun : Run.exec (step acl scope declare) (init maxQueue slowGrace queueDir) acts = some w) :
    w.Confined acl := by
  have hinv : Inv acl w := Run.exec_invariant_of_meets (P := Granted acl) (I := Inv acl)
    (fun _ _ _ h hg hstep => h.step hg hstep) acts
      (.init acl maxQueue slowGrace queueDir) hgranted hrun
  exact hinv.log

end

end

/-! ## The two outcomes -/

/-- Only `alice` may subscribe, to everything under `kiln`. -/
def kilnAcl : Acl := .new [{ user := "alice".toList, subscribe := ["kiln/#".toList] }] .deny

/-- `alice` subscribes and leaves; a message is queued for her, and she returns. -/
def returnActs : List ConfineAction :=
  [.pick "dev".toList "alice".toList false, .attach 0, .subscribe 0 "kiln/#".toList .atLeastOnce,
    .detach 0 3, .collect 0 ("kiln/t".toList, [57]), .deliver 0 .ok 4, .deliver 0 .ok 4,
    .pick "dev".toList "alice".toList false, .attach 1, .drain 1]

/-- The message reaches her, and it is one she may receive. -/
theorem owner_is_confined :
    ∃ w, Run.exec (@step .asStored kilnAcl [] fun _ => true) (init 10 none false) returnActs =
        some w ∧
      w.log = [⟨1, backlogPublish ("kiln/t".toList, [57]) 1, "kiln/#".toList⟩] ∧
      w.Confined kilnAcl := by
  refine ⟨_, rfl, rfl, ?_⟩
  refine @confined_exec kilnAcl _ .asStored [] (fun _ => true) 10 none false returnActs ?_ rfl
  refine .cons rfl (fun _ _ => rfl) <| .cons rfl ?_ <| .cons rfl ?_ <| .cons rfl trivial ?_
  · intro c hc
    cases hc
    exact ⟨fun t ht => absurd ht List.not_mem_nil, fun f hf => absurd hf List.not_mem_nil⟩
  · intro c s hc hs _
    cases hc
    cases hs
    decide
  refine .cons rfl trivial <| .cons rfl trivial <| .cons rfl trivial <|
    .cons rfl (fun _ _ => rfl) ?_
  refine .cons rfl ?_ <| .cons rfl trivial trivial
  intro c hc
  cases hc
  refine ⟨fun t ht _ _ => ?_, fun f hf => ?_⟩
  · rw [List.mem_singleton.mp ht]
    decide
  · rw [List.mem_singleton.mp hf]
    decide

/-- `alice` subscribes; `bob`, who may subscribe to nothing, connects under her
client id, and her subscription's next message goes to him. -/
theorem takeover_leaks :
    ¬ ∀ (_ : HashOrder) (rules : List AclRule) (scope : Str) (declare : Str → Bool) (maxQueue : Nat)
      (slowGrace : Option Duration) (queueDir : Bool) (acts : List ConfineAction)
        (w : ConfineWorld),
      Run.exec (step (Acl.new rules .deny) scope declare) (init maxQueue slowGrace queueDir) acts =
        some w → w.Confined (Acl.new rules .deny) := by
  intro h
  have hconfined := h .asStored [{ user := "alice".toList, subscribe := ["kiln/#".toList] }] []
    (fun _ => true) 10 none false
    [.pick "dev".toList "alice".toList false, .attach 0, .subscribe 0 "kiln/#".toList .atLeastOnce,
      .pick "dev".toList "bob".toList false, .attach 1, .collect 0 ("kiln/t".toList, [57]),
      .deliver 0 .ok 4, .deliver 0 .ok 4] _ rfl
  obtain ⟨c, hc, hmay⟩ := hconfined _ (List.mem_singleton.mpr rfl)
  cases hc
  exact absurd hmay (by decide)

end ConfineWorld

end Entmoot
