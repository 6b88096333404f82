/-
# `Entmoot.Kick` — whether a kicked connection hears of it

`Client::run` waits in a `select!` on its next packet and on `kicked.notified()`,
a future it makes anew on every turn.  `notify_waiters` wakes the futures that
exist and stores nothing, so a kick that falls while the connection handles a
packet, or while `serve` is still sending the backlog, is lost; so is one that
falls in the same `select!` as a packet, when the packet's branch is taken.

Connections run here against one registry: the two halves of `attach`, the
kicks of `kick_current`, `attach_conn` and `evict_slow`, the loop, and the two
halves of `detach`.  When every kick finds its connection in the `select!`, a
kicked connection takes no further packet, one connection of a client id runs
unkicked at most, and none runs unkicked without a sink (`kicks_are_heard`).
-/
import Entmoot.Registry
import Entmoot.Lib.Run
import Entmoot.Lib.Cells

namespace Entmoot

/-- Where a connection stands. -/
inductive Phase where
  /-- has its session from `attach`, about to run `attach_conn` -/
  | picked
  /-- sending the CONNACK and the backlog -/
  | starting
  /-- in the `select!`; whether its `notified()` was woken -/
  | selecting (woken : Bool)
  | handling
  /-- out of the loop, about to detach -/
  | left
  /-- detached from a clean session, about to drop the map entry -/
  | removing
  | gone
  deriving DecidableEq, Repr

def Phase.Running : Phase → Prop
  | .starting => True
  | .selecting _ => True
  | .handling => True
  | _ => False

structure Conn where
  clientId : Str
  identity : Str
  clean : Bool
  addr : Addr
  epoch : Nat
  phase : Phase
  /-- whether its `Notify` was notified while it ran -/
  kicked : Bool
  /-- how many packets it took after that -/
  taken : Nat
  /-- whether it left its loop with `Ok` -/
  ok : Bool
  deriving DecidableEq, Repr

/-- `notify_waiters` on a connection's `Notify`. -/
def Conn.wake (c : Conn) : Conn :=
  match c.phase with
  | .starting => { c with kicked := true }
  | .handling => { c with kicked := true }
  | .selecting _ => { c with kicked := true, phase := .selecting true }
  | _ => c

def notifyWaiters (conns : List Conn) (kick : Option Notify) : List Conn :=
  match kick with
  | some k => conns.modify k.conn Conn.wake
  | none => conns

structure KickWorld where
  reg : SessionRegistry
  conns : List Conn

/-- What a connection does next. -/
inductive Move where
  | attach
  | startFails
  | enter
  | packet
  | finish
  | disconnect
  | fail
  | kicked
  | detach (now : Instant)
  | unregister
  deriving DecidableEq, Repr

inductive KickAction where
  | lookup (clientId identity : Str) (clean : Bool)
  | evict (a : Addr) (tx : Sender) (now : Instant)
  | conn (i : Nat) (m : Move)
  deriving DecidableEq, Repr

namespace KickWorld

def start (maxQueue : Nat) (slowGrace : Option Duration) (queueDir : Bool) (disk : Disk) :
    KickWorld :=
  ⟨.new maxQueue slowGrace queueDir disk, []⟩

def setConn (w : KickWorld) (i : Nat) (c : Conn) : KickWorld := { w with conns := w.conns.set i c }

/-- The next step of connection `i`, which stands at `c`. -/
def move [HashOrder] (w : KickWorld) (i : Nat) (c : Conn) : Move → Option KickWorld
  | .attach =>
      match c.phase with
      | .picked =>
          let t := w.reg.attachConnAt c.addr c.identity ⟨i⟩ ⟨i⟩
          some
            { reg := t.1
              conns := (notifyWaiters w.conns t.2.2.2).set i
                { c with epoch := t.2.1, phase := .starting } }
      | _ => none
  | .startFails =>
      match c.phase with
      | .starting => some (w.setConn i { c with phase := .gone })
      | _ => none
  | .enter =>
      match c.phase with
      | .starting => some (w.setConn i { c with phase := .selecting false })
      | _ => none
  | .packet =>
      match c.phase with
      | .selecting _ =>
          some (w.setConn i { c with
            phase := .handling, taken := if c.kicked then c.taken + 1 else c.taken })
      | _ => none
  | .finish =>
      match c.phase with
      | .handling => some (w.setConn i { c with phase := .selecting false })
      | _ => none
  | .disconnect =>
      match c.phase with
      | .handling => some (w.setConn i { c with phase := .left, ok := true })
      | _ => none
  | .fail =>
      match c.phase with
      | .selecting _ => some (w.setConn i { c with phase := .left })
      | .handling => some (w.setConn i { c with phase := .left })
      | _ => none
  | .kicked =>
      match c.phase, w.reg.heap[c.addr]? with
      | .selecting true, some s =>
          some { w.setConn i { c with phase := .left } with
            reg := w.reg.setSession c.addr s.takeKickReason.1 }
      | _, _ => none
  | .detach now =>
      match c.phase, w.reg.heap[c.addr]? with
      | .left, some s =>
          let d := s.detachConn c.epoch now
          let reg := w.reg.setSession c.addr d.1
          if d.2 && c.clean then
            some { w.setConn i { c with phase := .removing } with reg := reg.discardAt c.addr }
          else some { w.setConn i { c with phase := .gone } with reg := reg }
      | _, _ => none
  | .unregister =>
      match c.phase with
      | .removing =>
          some { w.setConn i { c with phase := .gone } with reg := w.reg.removeOwn c.addr }
      | _ => none

def step [HashOrder] (w : KickWorld) : KickAction → Option KickWorld
  | .lookup clientId identity clean =>
      let l := w.reg.attachLookup clientId clean
      some
        { reg := l.registry
          conns := notifyWaiters w.conns l.notified ++
            [⟨clientId, identity, clean, l.session, 0, .picked, false, 0, false⟩] }
  | .evict a tx now =>
      match w.reg.heap[a]? with
      | some s =>
          let e := s.evictSlow tx now
          some { reg := w.reg.setSession a e.1, conns := notifyWaiters w.conns e.2 }
      | none => none
  | .conn i m =>
      match w.conns[i]? with
      | some c => w.move i c m
      | none => none

/-! ## What is asked of a run -/

/-- Whoever a kick on the session at `a` would notify is in its `select!` or out
of its loop. -/
def CanHear (w : KickWorld) (a : Addr) : Prop :=
  ∀ s k c, w.reg.heap[a]? = some s → s.inner.kick = some k → w.conns[k.conn]? = some c →
    c.phase ≠ .starting ∧ c.phase ≠ .handling

/-- No connection has the session at `a` from `attach` and not attached to it yet. -/
def NonePicked (w : KickWorld) (a : Addr) : Prop :=
  ∀ c ∈ w.conns, c.addr = a → c.phase ≠ .picked

/-- No connection runs unkicked on the session at `a`. -/
def NoneRunning (w : KickWorld) (a : Addr) : Prop :=
  ∀ c ∈ w.conns, c.addr = a → c.phase.Running → c.kicked = true

/-- The condition on a step: a kick finds its connection in the `select!`, the
packet's branch is not taken by a connection already woken, and a session leaves
the map only when no connection is on its way to it. -/
def Heard (w : KickWorld) : KickAction → Prop
  | .lookup clientId _ clean => clean = true → ∀ a, w.reg.sessions.lookup clientId = some a →
      w.CanHear a ∧ w.NonePicked a
  | .evict a tx _ => ∀ s, w.reg.heap[a]? = some s → s.inner.sink = some tx → w.CanHear a
  | .conn i .attach => ∀ c, w.conns[i]? = some c → w.CanHear c.addr
  | .conn i .packet => ∀ c, w.conns[i]? = some c → c.phase ≠ .selecting true
  | .conn i .unregister => ∀ c, w.conns[i]? = some c →
      w.reg.sessions.lookup c.clientId = some c.addr → w.NonePicked c.addr ∧ w.NoneRunning c.addr
  | _ => True

/-! ## The invariant -/

/-- What a session knows of its connections. -/
structure Link where
  clientId : Str
  epoch : Nat
  sink : Option Sender
  kick : Option Notify

def link (s : SessionState) : Link := ⟨s.clientId, s.inner.epoch, s.inner.sink, s.inner.kick⟩

/-- The links of a heap. -/
def links (heap : List SessionState) : List Link := heap.map link

structure Inv (sessions : Str → Option Addr) (links : List Link) (conns : List Conn) : Prop where
  /-- no connection has taken a packet after its kick -/
  taken : ∀ (i : Nat) (c : Conn), conns[i]? = some c → c.taken = 0
  /-- a kicked connection waits for the kick or has left, with an error -/
  heard : ∀ (i : Nat) (c : Conn), conns[i]? = some c → c.kicked = true →
    c.ok = false ∧ c.phase ≠ .picked ∧ (c.phase.Running → c.phase = .selecting true)
  running : ∀ (i : Nat) (c : Conn), conns[i]? = some c → c.phase = .picked ∨ c.phase.Running →
    c.ok = false
  /-- a connection that runs unkicked is its session's present one -/
  owns : ∀ (i : Nat) (c : Conn), conns[i]? = some c → c.phase.Running → c.kicked = false →
    ∃ l, links[c.addr]? = some l ∧ l.sink = some ⟨i⟩ ∧ l.kick = some ⟨i⟩ ∧ l.epoch = c.epoch
  /-- and its session, or the one it is on its way to, is in the map -/
  mapped : ∀ (i : Nat) (c : Conn), conns[i]? = some c →
    c.phase = .picked ∨ c.phase.Running ∧ c.kicked = false → sessions c.clientId = some c.addr
  home : ∀ (i : Nat) (c : Conn), conns[i]? = some c →
    ∃ l, links[c.addr]? = some l ∧ l.clientId = c.clientId
  named : ∀ (id : Str) (a : Addr), sessions id = some a →
    ∃ l, links[a]? = some l ∧ l.clientId = id
  sink_kick : ∀ (a : Addr) (l : Link) (tx : Sender), links[a]? = some l → l.sink = some tx →
    l.kick = some ⟨tx.chan⟩
  kick_conn : ∀ (a : Addr) (l : Link) (k : Notify), links[a]? = some l → l.kick = some k →
    ∃ c, conns[k.conn]? = some c ∧ c.addr = a ∧ c.phase ≠ .picked
  epoch_le : ∀ (i : Nat) (c : Conn) (l : Link), conns[i]? = some c → c.phase ≠ .picked →
    links[c.addr]? = some l →
      c.epoch ≤ l.epoch ∧ (c.epoch = l.epoch → l.kick = some ⟨i⟩ ∨ l.kick = none)

theorem Inv.empty : Inv (fun _ => none) [] [] := by
  constructor <;> simp

/-! ### Notifications -/

theorem wake_same (c : Conn) :
    c.wake.clientId = c.clientId ∧ c.wake.addr = c.addr ∧ c.wake.epoch = c.epoch ∧
      c.wake.taken = c.taken ∧ c.wake.ok = c.ok := by
  cases hp : c.phase <;> simp [Conn.wake, hp]

theorem wake_phase (c : Conn) :
    (c.wake.phase.Running ↔ c.phase.Running) ∧ (c.wake.phase = .picked ↔ c.phase = .picked) := by
  cases hp : c.phase <;> simp [Conn.wake, hp, Phase.Running]

theorem wake_running {c : Conn} (h : c.phase.Running) : c.wake.kicked = true := by
  cases hp : c.phase <;> simp_all [Conn.wake, Phase.Running]

theorem wake_selecting {c : Conn} (h : c.phase.Running) (hs : c.phase ≠ .starting)
    (hh : c.phase ≠ .handling) : c.wake.phase = .selecting true := by
  cases hp : c.phase <;> simp_all [Conn.wake, Phase.Running]

theorem wake_not_running {c : Conn} (h : ¬ c.phase.Running) : c.wake = c := by
  cases hp : c.phase <;> simp_all [Conn.wake, Phase.Running]

theorem getElem?_notifyWaiters (conns : List Conn) (kick : Option Notify) (i : Nat) :
    (notifyWaiters conns kick)[i]? =
      conns[i]?.map fun c => if kick = some ⟨i⟩ then c.wake else c := by
  cases kick with
  | none => simp [notifyWaiters]
  | some k =>
      rw [notifyWaiters, List.getElem?_modify]
      by_cases hk : k.conn = i
      · have : k = ⟨i⟩ := by rw [← hk]
        simp [this]
      · have : k ≠ ⟨i⟩ := by
          rintro rfl
          exact hk rfl
        simp [hk, this]

theorem notified_cases {conns : List Conn} {kick : Option Notify} {i : Nat} {c' : Conn}
    (h : (notifyWaiters conns kick)[i]? = some c') :
    conns[i]? = some c' ∨
      ∃ c, conns[i]? = some c ∧ kick = some ⟨i⟩ ∧ c.phase.Running ∧ c' = c.wake := by
  rw [getElem?_notifyWaiters] at h
  obtain ⟨c, hc, rfl⟩ := Option.map_eq_some_iff.mp h
  by_cases hk : kick = some ⟨i⟩
  · rw [if_pos hk]
    cases hp : c.phase with
    | starting | selecting _ | handling => exact .inr ⟨c, hc, hk, by rw [hp]; trivial, rfl⟩
    | picked | left | removing | gone =>
        rw [wake_not_running (by rw [hp]; exact id)]
        exact .inl hc
  · rw [if_neg hk]
    exact .inl hc

variable {sessions : Str → Option Addr} {ls : List Link} {cs : List Conn}

theorem Inv.notify (h : Inv sessions ls cs) (kick : Option Notify)
    (hear : ∀ k c, kick = some k → cs[k.conn]? = some c →
      c.phase ≠ .starting ∧ c.phase ≠ .handling) :
    Inv sessions ls (notifyWaiters cs kick) where
  taken := by
    intro i c' hc'
    rcases notified_cases hc' with hc | ⟨c, hc, _, _, rfl⟩
    · exact h.taken i c' hc
    · rw [(wake_same c).2.2.2.1]
      exact h.taken i c hc
  heard := by
    intro i c' hc' hk
    rcases notified_cases hc' with hc | ⟨c, hc, hkick, hr, rfl⟩
    · exact h.heard i c' hc hk
    · obtain ⟨hs, hh⟩ := hear _ c hkick hc
      rw [(wake_same c).2.2.2.2, wake_selecting hr hs hh]
      exact ⟨h.running i c hc (.inr hr), by simp, fun _ => rfl⟩
  running := by
    intro i c' hc' hr
    rcases notified_cases hc' with hc | ⟨c, hc, _, hr', rfl⟩
    · exact h.running i c' hc hr
    · rw [(wake_same c).2.2.2.2]
      exact h.running i c hc (.inr hr')
  owns := by
    intro i c' hc' hr hk
    rcases notified_cases hc' with hc | ⟨c, hc, _, hr', rfl⟩
    · exact h.owns i c' hc hr hk
    · rw [wake_running hr'] at hk
      cases hk
  mapped := by
    intro i c' hc' hm
    rcases notified_cases hc' with hc | ⟨c, hc, _, hr, rfl⟩
    · exact h.mapped i c' hc hm
    · rcases hm with hm | ⟨_, hk⟩
      · rw [(wake_phase c).2] at hm
        rw [hm] at hr
        exact absurd hr id
      · rw [wake_running hr] at hk
        cases hk
  home := by
    intro i c' hc'
    rcases notified_cases hc' with hc | ⟨c, hc, _, _, rfl⟩
    · exact h.home i c' hc
    · rw [(wake_same c).1, (wake_same c).2.1]
      exact h.home i c hc
  named := h.named
  sink_kick := h.sink_kick
  kick_conn := by
    intro a l k hl hk
    obtain ⟨c, hc, ha, hp⟩ := h.kick_conn a l k hl hk
    rw [getElem?_notifyWaiters, hc]
    by_cases hkick : kick = some k
    · refine ⟨c.wake, by simp [hkick], (wake_same c).2.1.trans ha, ?_⟩
      rw [Ne, (wake_phase c).2]
      exact hp
    · exact ⟨c, by simp [hkick], ha, hp⟩
  epoch_le := by
    intro i c' l hc' hp hl
    rcases notified_cases hc' with hc | ⟨c, hc, _, _, rfl⟩
    · exact h.epoch_le i c' l hc hp hl
    · rw [Ne, (wake_phase c).2] at hp
      rw [(wake_same c).2.1] at hl
      rw [(wake_same c).2.2.1]
      exact h.epoch_le i c l hc hp hl

/-- Once its present connection is notified, nobody runs unkicked on a session. -/
theorem Inv.none_running (h : Inv sessions ls cs) {a : Addr} {l : Link} (hl : ls[a]? = some l)
    {i : Nat} {c : Conn} (hc : (notifyWaiters cs l.kick)[i]? = some c) (ha : c.addr = a)
    (hr : c.phase.Running) : c.kicked = true := by
  rw [getElem?_notifyWaiters] at hc
  obtain ⟨c₀, hc₀, rfl⟩ := Option.map_eq_some_iff.mp hc
  by_cases hkick : l.kick = some ⟨i⟩
  · rw [if_pos hkick] at hr ⊢
    exact wake_running ((wake_phase c₀).1.mp hr)
  · rw [if_neg hkick] at ha hr ⊢
    by_contra hk
    obtain ⟨l', hl', _, hown, _⟩ := h.owns i c₀ hc₀ hr (by simpa using hk)
    rw [ha, hl] at hl'
    cases hl'
    exact hkick hown

/-! ### Sessions entering and leaving the map -/

/-- A new session under `id`, when nobody is on the way to another one of that name. -/
theorem Inv.create (h : Inv sessions ls cs) {id : Str}
    (hfree : ∀ (i : Nat) (c : Conn), cs[i]? = some c → c.clientId = id →
      ¬ (c.phase = .picked ∨ c.phase.Running ∧ c.kicked = false)) :
    Inv (fun id' => if id' = id then some ls.length else sessions id')
      (ls ++ [⟨id, 0, none, none⟩]) cs := by
  exact {
    taken := h.taken
    heard := h.heard
    running := h.running
    owns := by
      intro i c hc hr hk
      obtain ⟨l, hl, hrest⟩ := h.owns i c hc hr hk
      exact ⟨l, Cells.append_of_some hl, hrest⟩
    mapped := by
      intro i c hc hm
      have hne : c.clientId ≠ id := fun heq => hfree i c hc heq hm
      rw [if_neg hne]
      exact h.mapped i c hc hm
    home := by
      intro i c hc
      obtain ⟨l, hl, hid⟩ := h.home i c hc
      exact ⟨l, Cells.append_of_some hl, hid⟩
    named := by
      intro id' a ha
      split at ha
      · next heq =>
        cases ha
        exact ⟨_, List.getElem?_concat_length, heq.symm⟩
      · obtain ⟨l, hl, hid⟩ := h.named id' a ha
        exact ⟨l, Cells.append_of_some hl, hid⟩
    sink_kick := by
      intro a l tx hl hs
      rcases Cells.concat_cases hl with hl | ⟨_, rfl⟩
      · exact h.sink_kick a l tx hl hs
      · cases hs
    kick_conn := by
      intro a l k hl hk
      rcases Cells.concat_cases hl with hl | ⟨_, rfl⟩
      · exact h.kick_conn a l k hl hk
      · cases hk
    epoch_le := by
      intro i c l hc hp hl
      obtain ⟨l', hl', _⟩ := h.home i c hc
      rw [Cells.append_of_some hl'] at hl
      cases hl
      exact h.epoch_le i c l hc hp hl' }

theorem Inv.erase (h : Inv sessions ls cs) {id : Str}
    (hfree : ∀ (i : Nat) (c : Conn), cs[i]? = some c → c.clientId = id →
      ¬ (c.phase = .picked ∨ c.phase.Running ∧ c.kicked = false)) :
    Inv (fun id' => if id' = id then none else sessions id') ls cs :=
  { h with
    mapped := by
      intro i c hc hm
      have hne : c.clientId ≠ id := fun heq => hfree i c hc heq hm
      rw [if_neg hne]
      exact h.mapped i c hc hm
    named := by
      intro id' a ha
      split at ha
      · cases ha
      · exact h.named id' a ha }

theorem Inv.pick (h : Inv sessions ls cs) {id identity : Str} {clean : Bool} {a : Addr}
    (ha : sessions id = some a) :
    Inv sessions ls (cs ++ [⟨id, identity, clean, a, 0, .picked, false, 0, false⟩]) := by
  exact {
    taken := by
      intro i c hc
      rcases Cells.concat_cases hc with hc | ⟨_, rfl⟩
      · exact h.taken i c hc
      · rfl
    heard := by
      intro i c hc hk
      rcases Cells.concat_cases hc with hc | ⟨_, rfl⟩
      · exact h.heard i c hc hk
      · cases hk
    running := by
      intro i c hc hr
      rcases Cells.concat_cases hc with hc | ⟨_, rfl⟩
      · exact h.running i c hc hr
      · rfl
    owns := by
      intro i c hc hr hk
      rcases Cells.concat_cases hc with hc | ⟨_, rfl⟩
      · exact h.owns i c hc hr hk
      · exact hr.elim
    mapped := by
      intro i c hc hm
      rcases Cells.concat_cases hc with hc | ⟨_, rfl⟩
      · exact h.mapped i c hc hm
      · exact ha
    home := by
      intro i c hc
      rcases Cells.concat_cases hc with hc | ⟨_, rfl⟩
      · exact h.home i c hc
      · exact h.named id a ha
    named := h.named
    sink_kick := h.sink_kick
    kick_conn := by
      intro a' l k hl hk
      obtain ⟨c, hc, hrest⟩ := h.kick_conn a' l k hl hk
      exact ⟨c, Cells.append_of_some hc, hrest⟩
    epoch_le := by
      intro i c l hc hp hl
      rcases Cells.concat_cases hc with hc | ⟨_, rfl⟩
      · exact h.epoch_le i c l hc hp hl
      · exact absurd rfl hp }

/-! ### A connection moving on -/

/-- Connection `i` goes on in its loop or leaves it, nothing else changing. -/
theorem Inv.moved (h : Inv sessions ls cs) {i : Nat} {c : Conn} (hc : cs[i]? = some c)
    {p : Phase} {ok : Bool} (hpicked : c.phase ≠ .picked) (hp : p ≠ .picked)
    (hrun : p.Running → c.phase.Running ∧ c.kicked = false ∧ ok = false)
    (hok : c.kicked = true → ok = false) :
    Inv sessions ls (cs.set i { c with phase := p, ok := ok }) := by
  exact {
    taken := by
      intro j c' hj
      rcases Cells.set_cases hj with ⟨_, hj⟩ | ⟨rfl, rfl⟩
      · exact h.taken j c' hj
      · exact h.taken j c hc
    heard := by
      intro j c' hj hk
      rcases Cells.set_cases hj with ⟨_, hj⟩ | ⟨rfl, rfl⟩
      · exact h.heard j c' hj hk
      · refine ⟨hok hk, hp, fun hr => ?_⟩
        exact absurd ((hrun hr).2.1.symm.trans hk) (by simp)
    running := by
      intro j c' hj hr
      rcases Cells.set_cases hj with ⟨_, hj⟩ | ⟨rfl, rfl⟩
      · exact h.running j c' hj hr
      · rcases hr with hr | hr
        · exact absurd hr hp
        · exact (hrun hr).2.2
    owns := by
      intro j c' hj hr hk
      rcases Cells.set_cases hj with ⟨_, hj⟩ | ⟨rfl, rfl⟩
      · exact h.owns j c' hj hr hk
      · exact h.owns j c hc (hrun hr).1 hk
    mapped := by
      intro j c' hj hm
      rcases Cells.set_cases hj with ⟨_, hj⟩ | ⟨rfl, rfl⟩
      · exact h.mapped j c' hj hm
      · rcases hm with hm | ⟨hr, hk⟩
        · exact absurd hm hp
        · exact h.mapped j c hc (.inr ⟨(hrun hr).1, hk⟩)
    home := by
      intro j c' hj
      rcases Cells.set_cases hj with ⟨_, hj⟩ | ⟨rfl, rfl⟩
      · exact h.home j c' hj
      · exact h.home j c hc
    named := h.named
    sink_kick := h.sink_kick
    kick_conn := by
      intro a l k hl hk
      obtain ⟨c', hc', ha, hp'⟩ := h.kick_conn a l k hl hk
      by_cases hik : i = k.conn
      · rw [← hik, hc] at hc'
        cases hc'
        refine ⟨{ c with phase := p, ok := ok }, ?_, ha, hp⟩
        rw [← hik, Cells.set_self hc]
      · exact ⟨c', by rw [List.getElem?_set_ne hik, hc'], ha, hp'⟩
    epoch_le := by
      intro j c' l hj hp' hl
      rcases Cells.set_cases hj with ⟨_, hj⟩ | ⟨rfl, rfl⟩
      · exact h.epoch_le j c' l hj hp' hl
      · exact h.epoch_le j c l hc hpicked hl }

omit sessions cs in
theorem named_set {a b : Addr} {l l' : Link} {id : Str} (hl : ls[a]? = some l)
    (hid : l'.clientId = l.clientId) (h : ∃ m, ls[b]? = some m ∧ m.clientId = id) :
    ∃ m, (ls.set a l')[b]? = some m ∧ m.clientId = id := by
  obtain ⟨m, hm, hmid⟩ := h
  by_cases hab : a = b
  · subst hab
    rw [hl] at hm
    cases hm
    exact ⟨l', Cells.set_self hl, hid.trans hmid⟩
  · exact ⟨m, by rw [List.getElem?_set_ne hab, hm], hmid⟩

/-- A session changed by `evict_slow` or `detach_conn`, when nobody runs unkicked on it. -/
theorem Inv.unlink (h : Inv sessions ls cs) {a : Addr} {l l' : Link} (hl : ls[a]? = some l)
    (hid : l'.clientId = l.clientId) (hepoch : l'.epoch = l.epoch) (hsink : l'.sink = none)
    (hkick : l'.kick = l.kick ∨ l'.kick = none)
    (hnone : ∀ (i : Nat) (c : Conn), cs[i]? = some c → c.addr = a → c.phase.Running →
      c.kicked = true) :
    Inv sessions (ls.set a l') cs := by
  exact {
    taken := h.taken
    heard := h.heard
    running := h.running
    owns := by
      intro i c hc hr hk
      obtain ⟨m, hm, hrest⟩ := h.owns i c hc hr hk
      have hab : a ≠ c.addr := by
        intro heq
        exact absurd ((hnone i c hc heq.symm hr).symm.trans hk) (by simp)
      exact ⟨m, by rw [List.getElem?_set_ne hab, hm], hrest⟩
    mapped := h.mapped
    home := fun i c hc => named_set hl hid (h.home i c hc)
    named := fun id b hb => named_set hl hid (h.named id b hb)
    sink_kick := by
      intro b m tx hm hs
      rcases Cells.set_cases hm with ⟨_, hm⟩ | ⟨rfl, rfl⟩
      · exact h.sink_kick b m tx hm hs
      · rw [hsink] at hs
        cases hs
    kick_conn := by
      intro b m k hm hk
      rcases Cells.set_cases hm with ⟨_, hm⟩ | ⟨rfl, rfl⟩
      · exact h.kick_conn b m k hm hk
      · rcases hkick with heq | hnone
        · exact h.kick_conn b l k hl (heq ▸ hk)
        · rw [hnone] at hk
          cases hk
    epoch_le := by
      intro i c m hc hp hm
      rcases Cells.set_cases hm with ⟨_, hm⟩ | ⟨rfl, rfl⟩
      · exact h.epoch_le i c m hc hp hm
      · rw [hepoch]
        refine ⟨(h.epoch_le i c l hc hp hl).1, fun heq => ?_⟩
        rcases hkick with hsame | hnone
        · rw [hsame]
          exact (h.epoch_le i c l hc hp hl).2 heq
        · exact .inr hnone }

/-- `attach_conn`: the connection takes the session, when nobody runs unkicked on it. -/
theorem Inv.attached (h : Inv sessions ls cs) {i : Nat} {c : Conn} (hc : cs[i]? = some c)
    (hpicked : c.phase = .picked) {l : Link} (hl : ls[c.addr]? = some l)
    (hnone : ∀ (j : Nat) (c' : Conn), cs[j]? = some c' → c'.addr = c.addr → c'.phase.Running →
      c'.kicked = true) :
    Inv sessions
      (ls.set c.addr ⟨l.clientId, l.epoch + 1, some ⟨i⟩, some ⟨i⟩⟩)
      (cs.set i { c with epoch := l.epoch + 1, phase := .starting }) := by
  have hkicked : c.kicked = false := by
    by_contra hk
    exact (h.heard i c hc (by simpa using hk)).2.1 hpicked
  exact {
    taken := by
      intro j c' hj
      rcases Cells.set_cases hj with ⟨_, hj⟩ | ⟨rfl, rfl⟩
      · exact h.taken j c' hj
      · exact h.taken j c hc
    heard := by
      intro j c' hj hk
      rcases Cells.set_cases hj with ⟨_, hj⟩ | ⟨rfl, rfl⟩
      · exact h.heard j c' hj hk
      · exact absurd (hkicked.symm.trans hk) (by simp)
    running := by
      intro j c' hj hr
      rcases Cells.set_cases hj with ⟨_, hj⟩ | ⟨rfl, rfl⟩
      · exact h.running j c' hj hr
      · exact h.running j c hc (.inl hpicked)
    owns := by
      intro j c' hj hr hk
      rcases Cells.set_cases hj with ⟨_, hj⟩ | ⟨rfl, rfl⟩
      · obtain ⟨m, hm, hrest⟩ := h.owns j c' hj hr hk
        have hne : c.addr ≠ c'.addr := by
          intro heq
          exact absurd ((hnone j c' hj heq.symm hr).symm.trans hk) (by simp)
        exact ⟨m, by rw [List.getElem?_set_ne hne, hm], hrest⟩
      · exact ⟨_, Cells.set_self hl, rfl, rfl, rfl⟩
    mapped := by
      intro j c' hj hm
      rcases Cells.set_cases hj with ⟨_, hj⟩ | ⟨rfl, rfl⟩
      · exact h.mapped j c' hj hm
      · exact h.mapped j c hc (.inl hpicked)
    home := by
      intro j c' hj
      rcases Cells.set_cases hj with ⟨_, hj⟩ | ⟨rfl, rfl⟩
      · exact named_set hl rfl (h.home j c' hj)
      · exact named_set hl rfl (h.home j c hc)
    named := fun id b hb => named_set hl rfl (h.named id b hb)
    sink_kick := by
      intro b m tx hm hs
      rcases Cells.set_cases hm with ⟨_, hm⟩ | ⟨rfl, rfl⟩
      · exact h.sink_kick b m tx hm hs
      · cases hs
        rfl
    kick_conn := by
      intro b m k hm hk
      rcases Cells.set_cases hm with ⟨_, hm⟩ | ⟨rfl, rfl⟩
      · obtain ⟨c', hc', ha, hp⟩ := h.kick_conn b m k hm hk
        have hik : i ≠ k.conn := by
          intro heq
          rw [← heq, hc] at hc'
          cases hc'
          exact hp hpicked
        exact ⟨c', by rw [List.getElem?_set_ne hik, hc'], ha, hp⟩
      · cases hk
        exact ⟨_, Cells.set_self hc, rfl, by simp⟩
    epoch_le := by
      intro j c' m hj hp hm
      rcases Cells.set_cases hj with ⟨_, hj⟩ | ⟨rfl, rfl⟩
      · rcases Cells.set_cases hm with ⟨_, hm⟩ | ⟨heq, rfl⟩
        · exact h.epoch_le j c' m hj hp hm
        · -- an older connection of this session
          rw [← heq] at hl
          have hle := (h.epoch_le j c' l hj hp hl).1
          exact ⟨Nat.le_succ_of_le hle, fun he => absurd he (Nat.ne_of_lt (Nat.lt_succ_of_le hle))⟩
      · rw [Cells.set_self hl] at hm
        cases hm
        exact ⟨Nat.le_refl _, fun _ => .inl rfl⟩ }

/-! ### The registry's steps, by what they do to links -/

theorem links_get {heap : List SessionState} {a : Addr} {s : SessionState} (h : heap[a]? = some s) :
    (links heap)[a]? = some (link s) := by
  rw [links, List.getElem?_map, h]
  rfl

theorem links_set (heap : List SessionState) (a : Addr) (s : SessionState) :
    links (heap.set a s) = (links heap).set a (link s) := List.map_set

theorem links_set_same {heap : List SessionState} {a : Addr} {s s' : SessionState}
    (h : heap[a]? = some s) (hs : link s' = link s) : links (heap.set a s') = links heap := by
  rw [links_set, hs]
  obtain ⟨hlt, heq⟩ := List.getElem?_eq_some_iff.mp (links_get h)
  rw [← heq]
  exact List.set_getElem_self hlt

theorem link_kickCurrent (s : SessionState) :
    link s.kickCurrent.1.abortSubs.1 = link s ∧ s.kickCurrent.2 = s.inner.kick := by
  cases hk : s.inner.kick <;> simp [SessionState.kickCurrent, SessionState.abortSubs, link, hk]

/-- What `attach` does under the registry lock: the session found, or a new one. -/
theorem attachLookup_cases (r : SessionRegistry) (id : Str) (clean : Bool) :
    (r.sessions.lookup id = some (r.attachLookup id clean).session ∧
      (r.attachLookup id clean).notified = none ∧
      (r.attachLookup id clean).registry.heap = r.heap ∧
      (r.attachLookup id clean).registry.sessions.lookup = r.sessions.lookup) ∨
    ((r.attachLookup id clean).session = r.heap.length ∧
      links (r.attachLookup id clean).registry.heap = links r.heap ++ [⟨id, 0, none, none⟩] ∧
      (∀ id', (r.attachLookup id clean).registry.sessions.lookup id' =
        if id' = id then some r.heap.length else r.sessions.lookup id') ∧
      (r.sessions.lookup id = none ∧ (r.attachLookup id clean).notified = none ∨
        ∃ a s, r.sessions.lookup id = some a ∧ clean = true ∧ r.heap[a]? = some s ∧
          (r.attachLookup id clean).notified = s.inner.kick)) ∨
    ∃ a, r.sessions.lookup id = some a ∧ r.heap[a]? = none := by
  cases hid : r.sessions.lookup id with
  | none =>
      refine .inr (.inl ?_)
      cases clean with
      | false =>
          simp only [SessionRegistry.attachLookup, hid]
          refine ⟨rfl, List.map_append, fun id' => Keyed.lookup_insert _ _ _ _,
            .inl ⟨trivial, trivial⟩⟩
      | true =>
          simp only [SessionRegistry.attachLookup, hid]
          refine ⟨rfl, List.map_append, fun id' => Keyed.lookup_insert _ _ _ _,
            .inl ⟨trivial, trivial⟩⟩
  | some a =>
      cases clean with
      | false =>
          refine .inl ?_
          simp only [SessionRegistry.attachLookup, hid]
          refine ⟨trivial, trivial, trivial, ?_⟩
          funext id'
          rw [Keyed.lookup_insert]
          split
          · next heq => rw [heq, hid]
          · rfl
      | true =>
          cases hs : r.heap[a]? with
          | none => exact .inr (.inr ⟨a, rfl, hs⟩)
          | some s =>
              refine .inr (.inl ?_)
              obtain ⟨hlink, hkick⟩ := link_kickCurrent s
              have hlen : (r.heap.set a s.kickCurrent.1.abortSubs.1).length = r.heap.length :=
                List.length_set
              simp only [SessionRegistry.attachLookup, hid, hs]
              refine ⟨hlen, ?_, fun id' => ?_, .inr ⟨a, s, rfl, trivial, hs, hkick⟩⟩
              · show links (r.heap.set a s.kickCurrent.1.abortSubs.1 ++ [_]) = _
                rw [links, List.map_append]
                exact congrArg (· ++ _) (links_set_same hs hlink)
              · rw [← hlen]
                exact Keyed.lookup_insert _ _ _ _

/-! ### Every step keeps the invariant -/

/-- The invariant of a world. -/
def Sound (w : KickWorld) : Prop := Inv w.reg.sessions.lookup (links w.reg.heap) w.conns

variable {w w' : KickWorld}

theorem Sound.heap (h : w.Sound) {i : Nat} {c : Conn} (hc : w.conns[i]? = some c) :
    ∃ s, w.reg.heap[c.addr]? = some s ∧ s.clientId = c.clientId := by
  obtain ⟨l, hl, hid⟩ := h.home i c hc
  rw [links, List.getElem?_map] at hl
  obtain ⟨s, hs, rfl⟩ := Option.map_eq_some_iff.mp hl
  exact ⟨s, hs, hid⟩

section
variable [HashOrder]

theorem Sound.lookup (h : w.Sound) {id identity : Str} {clean : Bool}
    (hheard : w.Heard (.lookup id identity clean))
    (hw : w.step (.lookup id identity clean) = some w') : w'.Sound := by
  cases hw
  rcases attachLookup_cases w.reg id clean with
    ⟨hid, hnot, hheap, hsess⟩ | ⟨hsess, hlinks, hlook, hcase⟩ | ⟨a, hid, hnone⟩
  · -- the registered session is resumed
    show Inv _ _ (notifyWaiters w.conns _ ++ _)
    rw [hnot, hheap, hsess]
    exact Inv.pick h hid
  · show Inv _ _ (notifyWaiters w.conns _ ++ _)
    have hmap : (w.reg.attachLookup id clean).registry.sessions.lookup =
        fun id' => if id' = id then some w.reg.heap.length else w.reg.sessions.lookup id' :=
      funext hlook
    have hlen : w.reg.heap.length = (links w.reg.heap).length :=
      List.length_map link |>.symm
    rw [hlinks, hmap, hsess, hlen]
    rcases hcase with ⟨hid, hnot⟩ | ⟨a, s, hid, hclean, hs, hnot⟩
    · -- a client id that was not in the map
      rw [hnot]
      refine Inv.pick (Inv.create h ?_) (if_pos rfl)
      intro i c hc hcid hm
      have hmapped := h.mapped i c hc hm
      rw [hcid, hid] at hmapped
      cases hmapped
    · -- the session at `a` is replaced, and its connection kicked
      obtain ⟨hear, hpicked⟩ := hheard hclean a hid
      rw [hnot]
      have hn := Inv.notify h s.inner.kick fun k c hk hc => hear s k c hs hk hc
      refine Inv.pick (Inv.create hn ?_) (if_pos rfl)
      intro i c hc hcid hm
      have hmapped := hn.mapped i c hc hm
      rw [hcid, hid] at hmapped
      have haddr : c.addr = a := (Option.some.inj hmapped).symm
      rcases hm with hm | ⟨hr, hk⟩
      · rcases notified_cases hc with hc | ⟨c₀, hc₀, _, hr, rfl⟩
        · exact hpicked c (List.mem_of_getElem? hc) haddr hm
        · rw [(wake_phase c₀).2] at hm
          rw [hm] at hr
          exact hr
      · have hkicked := Inv.none_running h (links_get hs) hc haddr hr
        exact absurd (hkicked.symm.trans hk) (by simp)
  · obtain ⟨l, hl, _⟩ := h.named id a hid
    rw [links, List.getElem?_map, hnone] at hl
    cases hl

theorem Sound.evict (h : w.Sound) {a : Addr} {tx : Sender} {now : Instant}
    (hheard : w.Heard (.evict a tx now)) (hw : w.step (.evict a tx now) = some w') : w'.Sound := by
  simp only [step] at hw
  cases hs : w.reg.heap[a]? with
  | none => simp [hs] at hw
  | some s =>
      simp only [hs] at hw
      cases hw
      by_cases hsink : s.inner.sink = some tx
      · -- the slow connection is kicked and the session has no sink
        have he : s.evictSlow tx now =
            ({ s with inner := { s.inner with
                kickReason := some kickSlow, sink := none, offlineSince := some now } },
              s.inner.kick) := if_neg (not_not_intro hsink)
        show Inv _ (links (w.reg.heap.set a _)) (notifyWaiters w.conns _)
        rw [he, links_set]
        have hear := hheard s hs hsink
        have hn := Inv.notify h s.inner.kick fun k c hk hc => hear s k c hs hk hc
        exact hn.unlink (links_get hs) rfl rfl rfl (.inl rfl) fun i c hc haddr hr =>
          Inv.none_running h (links_get hs) hc haddr hr
      · have he : s.evictSlow tx now = (s, none) := if_pos hsink
        show Inv _ (links (w.reg.heap.set a _)) (notifyWaiters w.conns _)
        rw [he, links_set_same hs rfl]
        exact h

/-- `attach_conn` kicks the present connection and installs the new one. -/
theorem Sound.attach (h : w.Sound) {i : Nat} {c : Conn} (hc : w.conns[i]? = some c)
    (hear : w.CanHear c.addr) (hw : w.move i c .attach = some w') : w'.Sound := by
  simp only [move] at hw
  split at hw
  · next hpicked =>
    cases hw
    obtain ⟨s, hs, _⟩ := h.heap hc
    have hn := Inv.notify h s.inner.kick fun k c hk hc => hear s k c hs hk hc
    -- the new connection is not the one that was kicked
    have hc' : (notifyWaiters w.conns s.inner.kick)[i]? = some c := by
      rw [getElem?_notifyWaiters, hc]
      have hwake : c.wake = c := wake_not_running (by rw [hpicked]; exact not_false)
      simp [hwake]
    have ha := hn.attached hc' hpicked (links_get hs) fun j c' hj haddr hr =>
      Inv.none_running h (links_get hs) hj haddr hr
    have hlink : ∀ d, link (s.attachConn d c.identity ⟨i⟩ ⟨i⟩).session =
        ⟨s.clientId, s.inner.epoch + 1, some ⟨i⟩, some ⟨i⟩⟩ := by
      intro d
      simp only [SessionState.attachConn, SessionState.attachConnLocked, SessionState.setIdentity]
      split <;> rfl
    have hepoch : ∀ d, (s.attachConn d c.identity ⟨i⟩ ⟨i⟩).epoch = s.inner.epoch + 1 := by
      intro d
      simp only [SessionState.attachConn, SessionState.attachConnLocked, SessionState.setIdentity]
      split <;> rfl
    simp only [Sound, SessionRegistry.attachConnAt, hs, SessionRegistry.setSession, links_set,
      hlink, hepoch]
    exact ha
  · cases hw

omit [HashOrder] in
theorem discardAt_links (r : SessionRegistry) (a : Addr) :
    links (r.discardAt a).heap = links r.heap ∧ (r.discardAt a).sessions = r.sessions := by
  simp only [SessionRegistry.discardAt]
  cases hs : r.heap[a]? with
  | none => exact ⟨rfl, rfl⟩
  | some s => exact ⟨links_set_same hs rfl, rfl⟩

theorem Sound.detach (h : w.Sound) {i : Nat} {c : Conn} {now : Instant} (hc : w.conns[i]? = some c)
    (hw : w.move i c (.detach now) = some w') : w'.Sound := by
  simp only [move] at hw
  split at hw
  · next s hleft hs =>
    have hnot : ¬ c.phase.Running := by rw [hleft]; exact not_false
    have hgone : ∀ {ls : List Link} {p : Phase}, p = .gone ∨ p = .removing →
        Inv w.reg.sessions.lookup ls w.conns →
        Inv w.reg.sessions.lookup ls (w.conns.set i { c with phase := p }) := by
      intro ls p hp hi
      refine hi.moved hc (by rw [hleft]; simp) ?_ ?_ fun hk => (hi.heard i c hc hk).1
      · rcases hp with rfl | rfl <;> simp
      · intro hr
        rcases hp with rfl | rfl <;> exact hr.elim
    by_cases hepoch : s.inner.epoch = c.epoch
    · -- the session's present connection: its sink and kick are cleared
      have hd : s.detachConn c.epoch now =
          ({ s with inner := { s.inner with
              sink := none, kick := none, offlineSince := some now } }, true) :=
        if_neg (not_not_intro hepoch)
      have hunlink : Inv w.reg.sessions.lookup
          (links (w.reg.setSession c.addr (s.detachConn c.epoch now).1).heap) w.conns := by
        rw [hd]
        show Inv _ (links (w.reg.heap.set c.addr _)) w.conns
        rw [links_set]
        refine Inv.unlink h (links_get hs) rfl rfl rfl (.inr rfl) fun j c' hj haddr hr => ?_
        by_contra hk
        obtain ⟨l, hl, _, hkick, _⟩ := h.owns j c' hj hr (by simpa using hk)
        rw [haddr] at hl
        have hl' := links_get hs
        rw [hl] at hl'
        cases hl'
        have hown := (h.epoch_le i c _ hc (by rw [hleft]; simp) hl).2 hepoch.symm
        rw [hkick] at hown
        rcases hown with hown | hown
        · cases hown
          rw [hc] at hj
          cases hj
          exact hnot hr
        · cases hown
      split at hw
      · cases hw
        obtain ⟨hlinks, hsess⟩ :=
          discardAt_links (w.reg.setSession c.addr (s.detachConn c.epoch now).1) c.addr
        show Inv (_ : SessionRegistry).sessions.lookup (links (_ : SessionRegistry).heap) _
        rw [hlinks, hsess]
        exact hgone (.inr rfl) hunlink
      · cases hw
        exact hgone (.inl rfl) hunlink
    · -- superseded: nothing changes
      have hd : s.detachConn c.epoch now = (s, false) := if_pos hepoch
      rw [hd] at hw
      cases hw
      show Inv _ (links (w.reg.heap.set c.addr s)) _
      rw [links_set_same hs rfl]
      exact hgone (.inl rfl) h
  · cases hw

theorem Sound.unregister (h : w.Sound) {i : Nat} {c : Conn} (hc : w.conns[i]? = some c)
    (hheard : w.Heard (.conn i .unregister)) (hw : w.move i c .unregister = some w') :
      w'.Sound := by
  simp only [move] at hw
  split at hw
  · next hremoving =>
    cases hw
    obtain ⟨s, hs, hid⟩ := h.heap hc
    have hgone : ∀ {sessions : Str → Option Addr}, Inv sessions (links w.reg.heap) w.conns →
        Inv sessions (links w.reg.heap) (w.conns.set i { c with phase := .gone }) := by
      intro sessions hi
      exact hi.moved hc (by rw [hremoving]; simp) (by simp) (fun hr => hr.elim)
        fun hk => (hi.heard i c hc hk).1
    simp only [Sound, SessionRegistry.removeOwn, hs, hid]
    split
    · next hown =>
      rw [hid] at hown
      obtain ⟨hpicked, hrunning⟩ := hheard c hc hown
      have hmap : (w.reg.sessions.erase c.clientId).lookup =
          fun id' => if id' = c.clientId then none else w.reg.sessions.lookup id' :=
        funext fun id' => Keyed.lookup_erase _ _ _
      show Inv (w.reg.sessions.erase c.clientId).lookup _ _
      rw [hmap]
      refine hgone (Inv.erase h fun j c' hj hcid hm => ?_)
      have hmapped := h.mapped j c' hj hm
      rw [hcid, hown] at hmapped
      have haddr : c'.addr = c.addr := (Option.some.inj hmapped).symm
      rcases hm with hm | ⟨hr, hk⟩
      · exact hpicked c' (List.mem_of_getElem? hj) haddr hm
      · have hkicked := hrunning c' (List.mem_of_getElem? hj) haddr hr
        exact absurd (hkicked.symm.trans hk) (by simp)
    · exact hgone h
  · cases hw

theorem Sound.move (h : w.Sound) {i : Nat} {c : Conn} (m : Move) (hc : w.conns[i]? = some c)
    (hheard : w.Heard (.conn i m)) (hw : w.move i c m = some w') : w'.Sound := by
  have hheard' := h.heard i c hc
  cases m with
  | attach => exact h.attach hc (hheard c hc) hw
  | startFails =>
      simp only [KickWorld.move] at hw
      split at hw
      · next hp =>
        cases hw
        exact Inv.moved h hc (by rw [hp]; simp) (by simp) (fun hr => hr.elim)
          fun hk => (hheard' hk).1
      · cases hw
  | enter =>
      simp only [KickWorld.move] at hw
      split at hw
      · next hp =>
        cases hw
        have hr : c.phase.Running := by rw [hp]; trivial
        refine Inv.moved h hc (by rw [hp]; simp) (by simp) (fun _ => ⟨hr, ?_, ?_⟩)
          fun hk => (hheard' hk).1
        · by_contra hk
          have := (hheard' (by simpa using hk)).2.2 hr
          simp [hp] at this
        · exact h.running i c hc (.inr hr)
      · cases hw
  | packet =>
      simp only [KickWorld.move] at hw
      split at hw
      · next woken hp =>
        cases hw
        have hr : c.phase.Running := by rw [hp]; trivial
        have hk : c.kicked = false := by
          by_contra hk
          exact hheard c hc ((hheard' (by simpa using hk)).2.2 hr)
        have hm : Inv w.reg.sessions.lookup (links w.reg.heap)
            (w.conns.set i { c with phase := .handling, ok := c.ok }) :=
          Inv.moved h hc (by rw [hp]; simp) (by simp)
            (fun _ => ⟨hr, hk, h.running i c hc (.inr hr)⟩) fun hk => (hheard' hk).1
        simpa only [Sound, setConn, hk, Bool.false_eq_true, if_false] using hm
      · cases hw
  | finish =>
      simp only [KickWorld.move] at hw
      split at hw
      · next hp =>
        cases hw
        have hr : c.phase.Running := by rw [hp]; trivial
        refine Inv.moved h hc (by rw [hp]; simp) (by simp) (fun _ => ⟨hr, ?_, ?_⟩)
          fun hk => (hheard' hk).1
        · by_contra hk
          have := (hheard' (by simpa using hk)).2.2 hr
          simp [hp] at this
        · exact h.running i c hc (.inr hr)
      · cases hw
  | disconnect =>
      simp only [KickWorld.move] at hw
      split at hw
      · next hp =>
        cases hw
        have hr : c.phase.Running := by rw [hp]; trivial
        refine Inv.moved h hc (by rw [hp]; simp) (by simp) (fun hr => hr.elim) fun hk => ?_
        have := (hheard' hk).2.2 hr
        simp [hp] at this
      · cases hw
  | fail =>
      simp only [KickWorld.move] at hw
      split at hw
      · next hp =>
        cases hw
        exact Inv.moved h hc (by rw [hp]; simp) (by simp) (fun hr => hr.elim)
          fun hk => (hheard' hk).1
      · next hp =>
        cases hw
        exact Inv.moved h hc (by rw [hp]; simp) (by simp) (fun hr => hr.elim)
          fun hk => (hheard' hk).1
      · cases hw
  | kicked =>
      simp only [KickWorld.move] at hw
      split at hw
      · next s hp hs =>
        cases hw
        have hsame : links (w.reg.heap.set c.addr s.takeKickReason.1) = links w.reg.heap :=
          links_set_same hs rfl
        show Inv _ (links (w.reg.heap.set c.addr s.takeKickReason.1)) _
        rw [hsame]
        exact Inv.moved h hc (by rw [hp]; simp) (by simp) (fun hr => hr.elim)
          fun hk => (hheard' hk).1
      · cases hw
  | detach now => exact h.detach hc hw
  | unregister => exact h.unregister hc hheard hw

theorem Sound.step (h : w.Sound) (a : KickAction) (hheard : w.Heard a) (hw : w.step a = some w') :
    w'.Sound := by
  cases a with
  | lookup id identity clean => exact h.lookup hheard hw
  | evict a tx now => exact h.evict hheard hw
  | conn i m =>
      simp only [KickWorld.step] at hw
      cases hc : w.conns[i]? with
      | none => simp [hc] at hw
      | some c => exact h.move m hc hheard (by simpa [hc] using hw)

/-! ## Runs -/

/-- **Kicks that find their connection waiting are heard.**  Then a kicked
connection takes no further packet and does not go on with its loop or leave it
with `Ok`; two connections of one client id do not both run unkicked; and none
runs unkicked on a session without a sink. -/
theorem kicks_are_heard (maxQueue : Nat) (slowGrace : Option Duration) (queueDir : Bool)
    (disk : Disk) (acts : List KickAction) (w : KickWorld)
    (hheard : Run.Meets KickWorld.step Heard (start maxQueue slowGrace queueDir disk) acts)
    (hw : Run.exec KickWorld.step (start maxQueue slowGrace queueDir disk) acts = some w) :
    (∀ (i : Nat) (c : Conn), w.conns[i]? = some c → c.kicked = true →
      c.taken = 0 ∧ c.ok = false ∧ c.phase ≠ .selecting false) ∧
    (∀ (i j : Nat) (c c' : Conn), w.conns[i]? = some c → w.conns[j]? = some c' → i ≠ j →
      c.clientId = c'.clientId → c.phase.Running → c'.phase.Running →
      c.kicked = true ∨ c'.kicked = true) ∧
    ∀ (i : Nat) (c : Conn) (s : SessionState), w.conns[i]? = some c → c.phase.Running →
      w.reg.heap[c.addr]? = some s → s.inner.sink = none → c.kicked = true := by
  have hstart : (start maxQueue slowGrace queueDir disk).Sound := Inv.empty
  have h : w.Sound := Run.exec_invariant_of_meets (I := Sound)
    (fun _ a _ h hheard hs => h.step a hheard hs) acts hstart hheard hw
  refine ⟨?_, ?_, ?_⟩
  · intro i c hc hk
    obtain ⟨hok, _, hrun⟩ := h.heard i c hc hk
    refine ⟨h.taken i c hc, hok, fun hp => ?_⟩
    have := hrun (by rw [hp]; trivial)
    simp [hp] at this
  · intro i j c c' hc hc' hij hid hr hr'
    by_contra hn
    simp only [not_or, Bool.not_eq_true] at hn
    -- both would be the present connection of one session
    have hm := h.mapped i c hc (.inr ⟨hr, hn.1⟩)
    have hm' := h.mapped j c' hc' (.inr ⟨hr', hn.2⟩)
    rw [hid, hm'] at hm
    obtain ⟨l, hl, hsink, _⟩ := h.owns i c hc hr hn.1
    obtain ⟨l', hl', hsink', _⟩ := h.owns j c' hc' hr' hn.2
    rw [Option.some.inj hm, hl] at hl'
    cases hl'
    rw [hsink] at hsink'
    cases hsink'
    exact hij rfl
  · intro i c s hc hr hs hsink
    by_contra hk
    obtain ⟨l, hl, hown, _⟩ := h.owns i c hc hr (by simpa using hk)
    rw [links_get hs] at hl
    cases hl
    exact absurd (hsink.symm.trans hown) (by simp)

end

/-- A takeover while the old connection waits for a packet. -/
def heardTakeover : List KickAction :=
  [.lookup "dev".toList [] false, .conn 0 .attach, .conn 0 .enter,
    .lookup "dev".toList [] false, .conn 1 .attach, .conn 0 .kicked, .conn 1 .enter,
      .conn 1 .packet]

/-- The old connection leaves, the new one reads on. -/
theorem takeover_is_heard :
    ∃ w, Run.exec (@step .asStored) (start 10 none false ∅) heardTakeover = some w ∧
      w.conns.map Conn.phase = [.left, .handling] ∧
      ∀ (i : Nat) (c : Conn), w.conns[i]? = some c → c.kicked = true →
        c.taken = 0 ∧ c.ok = false ∧ c.phase ≠ .selecting false := by
  refine ⟨_, rfl, rfl, (@kicks_are_heard .asStored 10 none false ∅ heardTakeover _ ?_ rfl).1⟩
  refine .cons rfl (fun h => nomatch h) (.cons rfl ?_ (.cons rfl trivial
    (.cons rfl (fun h => nomatch h) (.cons rfl ?_ (.cons rfl trivial (.cons rfl trivial
      (.cons rfl ?_ trivial)))))))
  · -- nobody to kick
    rintro _ ⟨⟩ s k c hs hk _
    cases hs
    cases hk
  · rintro _ ⟨⟩ s k c hs hk hc
    cases hs
    cases hk
    cases hc
    exact ⟨by simp, by simp⟩
  · rintro _ ⟨⟩
    simp

/-- A takeover while the old connection handles a packet: it goes on to take the
next one. -/
theorem kick_while_handling_is_lost :
    ¬ ∀ (_ : HashOrder) (maxQueue : Nat) (slowGrace : Option Duration) (queueDir : Bool)
      (disk : Disk) (acts : List KickAction) (w : KickWorld),
      Run.exec step (start maxQueue slowGrace queueDir disk) acts = some w →
      ∀ (i : Nat) (c : Conn), w.conns[i]? = some c → c.kicked = true →
        c.taken = 0 ∧ c.ok = false ∧ c.phase ≠ .selecting false := by
  intro h
  have htaken := h .asStored 10 none false ∅
    [.lookup "dev".toList [] false, .conn 0 .attach, .conn 0 .enter, .conn 0 .packet,
      .lookup "dev".toList [] false, .conn 1 .attach, .conn 0 .finish, .conn 0 .packet] _ rfl 0
    ⟨"dev".toList, [], false, 0, 1, .handling, true, 1, false⟩ rfl rfl
  exact absurd htaken.1 (by decide)

end KickWorld

end Entmoot
