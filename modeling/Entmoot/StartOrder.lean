/-
# `Entmoot.StartOrder` — what a new connection's channel carries first

`serve` attaches, then sends the CONNACK, publishes a client event, sends the
backlog and only then enters its packet loop.  `attach_conn` has made the sink
visible before the first of these sends, so every `deliver` call on the session
may push to the new channel in between.

`StartWorld` runs one `serve` against any number of `deliver` calls.  The
channel's log tags who pushed what, so that `InOrder` (CONNACK, then the whole
backlog, then live messages) is a statement about it.  It holds at the end of a
run exactly when no live push went through while `serve` had something left to
send first (`start_order_iff`).
-/
import Entmoot.Reconnect
import Entmoot.Lib.Run

namespace Entmoot

/-- A packet in the new connection's channel, with its origin. -/
inductive Pushed where
  | connAck (present : Bool)
  | backlog (p : Publish)
  | live (p : Publish)
  deriving DecidableEq, Repr

/-- Where `serve` stands. -/
inductive ServePc where
  /-- about to run `attach_conn` -/
  | attaching
  | connAck
  | event
  | draining (rest : List Msg)
  /-- in the packet loop -/
  | running
  /-- returned on a failed send; whether the CONNACK was sent, what was not -/
  | failed (acked : Bool) (rest : List Msg)
  deriving DecidableEq, Repr

structure StartWorld where
  session : SessionState
  disk : Disk
  identity : Str
  present : Bool
  chan : Sender
  kick : Notify
  serve : ServePc
  /-- what `attach_conn` returned -/
  backlog : List Msg
  /-- whether the channel's writer is gone -/
  closed : Bool
  calls : List SessionState.DeliverCall
  /-- what was pushed into the channel, oldest first -/
  log : List Pushed

inductive StartAction where
  | serve
  | close
  | call (m : Msg) (qos : QoS)
  | deliver (i : Nat) (r : SessionState.SendResult) (now : Instant)
  deriving DecidableEq, Repr

namespace StartWorld

/-- A session about to be attached to, with `deliver` calls at any point. -/
def init (session : SessionState) (disk : Disk) (identity : Str) (present : Bool) (chan : Sender)
    (kick : Notify) (calls : List SessionState.DeliverCall) : StartWorld :=
  ⟨session, disk, identity, present, chan, kick, .attaching, [], false, calls, []⟩

/-- How a send can end: on the new channel it fails exactly when that is closed. -/
def canEnd (w : StartWorld) (c : SessionState.DeliverCall) (r : SessionState.SendResult) : Bool :=
  match c.pc with
  | .sending tx _ => tx ≠ w.chan || (decide (r = .closed) == w.closed)
  | _ => true

/-- What a push adds to the new channel's log. -/
def logged (w : StartWorld) (pushed : Option (Sender × Publish)) : List Pushed :=
  match pushed with
  | some (tx, p) => if tx = w.chan then [.live p] else []
  | none => []

/-- The next thing `serve` does. -/
def serveStep [HashOrder] (w : StartWorld) : Option StartWorld :=
  match w.serve with
  | .attaching =>
      let a := w.session.attachConn w.disk w.identity w.chan w.kick
      some { w with session := a.session, disk := a.disk, backlog := a.backlog, serve := .connAck }
  | .connAck =>
      if w.closed then some { w with serve := .failed false w.backlog }
      else some { w with log := w.log ++ [.connAck w.present], serve := .event }
  | .event => some { w with serve := .draining w.backlog }
  | .draining [] => some { w with serve := .running }
  | .draining (m :: rest) =>
      let n := w.session.nextPkid
      if w.closed then some { w with session := n.1, serve := .failed true (m :: rest) }
      else
        some { w with
          session := n.1
          log := w.log ++ [.backlog (backlogPublish m n.2)]
          serve := .draining rest }
  | .running => none
  | .failed _ _ => none

def step [HashOrder] (w : StartWorld) : StartAction → Option StartWorld
  | .serve => w.serveStep
  | .close => some { w with closed := true }
  | .call m qos => some { w with calls := w.calls ++ [⟨m, qos, .readSink⟩] }
  | .deliver i r now =>
      match w.calls[i]? with
      | none => none
      | some c =>
          if w.canEnd c r then
            (w.session.deliverStep w.disk c r now).map fun o =>
              { w with
                session := o.session
                disk := o.disk
                calls := w.calls.set i o.call
                log := w.log ++ w.logged o.pushed }
          else none

/-! ## The order of the log -/

/-- The log is, so far, the CONNACK, the backlog in order, then live messages. -/
def InOrder (w : StartWorld) : Prop :=
  ∃ (later : List Pushed) (ps ls : List Publish),
    w.log ++ later = .connAck w.present :: (ps.map .backlog ++ ls.map .live) ∧
    ps.map (fun p => (p.topic, p.payload)) = w.backlog

/-- Whether `serve` has pushed the CONNACK. -/
def acked (w : StartWorld) : Bool :=
  match w.serve with
  | .attaching => false
  | .connAck => false
  | .event => true
  | .draining _ => true
  | .running => true
  | .failed acked _ => acked

/-- The part of the backlog `serve` has not pushed. -/
def left (w : StartWorld) : List Msg :=
  match w.serve with
  | .draining rest => rest
  | .running => []
  | .failed _ rest => rest
  | _ => w.backlog

/-- The condition on a step: a live push on the new channel comes after `serve`
has pushed what it pushes first. -/
def Quiet (w : StartWorld) : StartAction → Prop
  | .deliver i .ok _ => ∀ c p, w.calls[i]? = some c → c.pc = .sending w.chan p →
      w.acked = true ∧ w.left = []
  | _ => True

/-- What the log of a quiet run looks like. -/
structure Shape (w : StartWorld) : Prop where
  before : w.acked = false → w.log = []
  after : w.acked = true → ∃ ps ls : List Publish,
    w.log = .connAck w.present :: (ps.map .backlog ++ ls.map .live) ∧
    ps.map (fun p => (p.topic, p.payload)) ++ w.left = w.backlog ∧ (ls ≠ [] → w.left = [])

theorem Shape.inOrder {w : StartWorld} (h : Shape w) : w.InOrder := by
  -- a backlog packet for every message that is still to be pushed
  let owed : List Msg → List Publish := List.map fun m => Publish.new m.1 .atLeastOnce m.2
  have howed : ∀ q : List Msg, (owed q).map (fun p => (p.topic, p.payload)) = q := by
    intro q
    rw [List.map_map]
    exact List.map_id q
  cases hacked : w.acked with
  | false =>
      refine ⟨.connAck w.present :: ((owed w.backlog).map .backlog), owed w.backlog,
        [], ?_, howed _⟩
      rw [h.before hacked, List.map_nil, List.append_nil]
      rfl
  | true =>
      obtain ⟨ps, ls, hlog, hps, hls⟩ := h.after hacked
      refine ⟨(owed w.left).map .backlog, ps ++ owed w.left, ls, ?_, ?_⟩
      · rw [hlog]
        by_cases hl : ls = []
        · simp [hl]
        · simp [hls hl, owed]
      · rw [List.map_append, howed, hps]

/-- A backlog packet that is still to come cannot follow a live one. -/
theorem backlog_before_live (p : Publish) (more : List Pushed) : ∀ qs ps ls : List Publish,
    qs.map Pushed.backlog ++ .live p :: more = ps.map Pushed.backlog ++ ls.map Pushed.live →
      ps.length ≤ qs.length := by
  intro qs
  induction qs with
  | nil =>
      intro ps ls h
      cases ps with
      | nil => exact Nat.le_refl 0
      | cons q ps => cases h
  | cons q qs ih =>
      intro ps ls h
      cases ps with
      | nil => exact Nat.zero_le _
      | cons q' ps =>
          simp only [List.map_cons, List.cons_append, List.cons.injEq] at h
          exact Nat.succ_le_succ (ih ps ls h.2)

/-! ## Steps -/

section
variable [HashOrder]

theorem deliver_inv {w w' : StartWorld} {i : Nat} {r : SessionState.SendResult} {now : Instant}
    (h : w.step (.deliver i r now) = some w') :
    ∃ c o, w.calls[i]? = some c ∧ w.session.deliverStep w.disk c r now = some o ∧
      w' = { w with
        session := o.session
        disk := o.disk
        calls := w.calls.set i o.call
        log := w.log ++ w.logged o.pushed } := by
  simp only [step] at h
  cases hc : w.calls[i]? with
  | none => simp [hc] at h
  | some c =>
      simp only [hc] at h
      split at h
      · obtain ⟨o, ho, rfl⟩ := Option.map_eq_some_iff.mp h
        exact ⟨c, o, rfl, ho, rfl⟩
      · cases h

theorem step_log {w w' : StartWorld} {a : StartAction} (h : w.step a = some w') :
    (∃ more, w'.log = w.log ++ more) ∧ w'.present = w.present ∧
      (w.serve ≠ .attaching → w'.backlog = w.backlog ∧ w'.serve ≠ .attaching) := by
  cases a with
  | serve =>
      simp only [step, serveStep] at h
      split at h
      case h_1 hpc =>
        cases h
        exact ⟨⟨[], by simp⟩, rfl, fun hne => absurd hpc hne⟩
      case h_2 =>
        split at h <;> cases h
        · exact ⟨⟨[], by simp⟩, rfl, fun _ => ⟨rfl, by simp⟩⟩
        · exact ⟨⟨_, rfl⟩, rfl, fun _ => ⟨rfl, by simp⟩⟩
      case h_3 =>
        cases h
        exact ⟨⟨[], by simp⟩, rfl, fun _ => ⟨rfl, by simp⟩⟩
      case h_4 =>
        cases h
        exact ⟨⟨[], by simp⟩, rfl, fun _ => ⟨rfl, by simp⟩⟩
      case h_5 =>
        split at h <;> cases h
        · exact ⟨⟨[], by simp⟩, rfl, fun _ => ⟨rfl, by simp⟩⟩
        · exact ⟨⟨_, rfl⟩, rfl, fun _ => ⟨rfl, by simp⟩⟩
      all_goals cases h
  | close =>
      cases h
      exact ⟨⟨[], by simp⟩, rfl, fun hne => ⟨rfl, hne⟩⟩
  | call m qos =>
      cases h
      exact ⟨⟨[], by simp⟩, rfl, fun hne => ⟨rfl, hne⟩⟩
  | deliver i r now =>
      obtain ⟨c, o, _, _, rfl⟩ := deliver_inv h
      exact ⟨⟨_, rfl⟩, rfl, fun hne => ⟨rfl, hne⟩⟩

theorem exec_log {w : StartWorld} : ∀ (acts : List StartAction) {w' : StartWorld},
    Run.exec step w acts = some w' →
      (∃ more, w'.log = w.log ++ more) ∧ w'.present = w.present ∧
        (w.serve ≠ .attaching → w'.backlog = w.backlog) := by
  intro acts
  induction acts generalizing w with
  | nil =>
      intro w' h
      cases h
      exact ⟨⟨[], (List.append_nil _).symm⟩, rfl, fun _ => rfl⟩
  | cons a acts ih =>
      intro w' h
      obtain ⟨t, ht, hrest⟩ := Run.exec_cons.mp h
      obtain ⟨⟨m₁, hm₁⟩, hp, hb⟩ := step_log ht
      obtain ⟨⟨m₂, hm₂⟩, hp', hb'⟩ := ih hrest
      refine ⟨⟨m₁ ++ m₂, ?_⟩, hp'.trans hp, fun hne => (hb' (hb hne).2).trans (hb hne).1⟩
      rw [hm₂, hm₁, List.append_assoc]

omit [HashOrder] in
theorem logged_cases (w : StartWorld) (pushed : Option (Sender × Publish)) :
    w.logged pushed = [] ∨ ∃ p, pushed = some (w.chan, p) ∧ w.logged pushed = [.live p] := by
  cases pushed with
  | none => exact .inl rfl
  | some q =>
      by_cases htx : q.1 = w.chan
      · exact .inr ⟨q.2, by rw [← htx], if_pos htx⟩
      · exact .inl (if_neg htx)

theorem Shape.serve {w w' : StartWorld} (h : Shape w) (hs : w.serveStep = some w') : Shape w' := by
  simp only [serveStep] at hs
  split at hs
  case h_1 hpc =>
    cases hs
    exact ⟨fun _ => h.before (by simp [acked, hpc]), fun hack => absurd hack (by simp [acked])⟩
  case h_2 hpc =>
    have hlog : w.log = [] := h.before (by simp [acked, hpc])
    split at hs <;> cases hs
    · exact ⟨fun _ => hlog, fun hack => absurd hack (by simp [acked])⟩
    · refine ⟨fun hack => absurd hack (by simp [acked]), fun _ => ⟨[], [], ?_, rfl, by simp⟩⟩
      show w.log ++ [_] = _
      rw [hlog]
      rfl
  case h_3 hpc =>
    obtain ⟨ps, ls, hlog, hps, hls⟩ := h.after (by simp [acked, hpc])
    simp only [left, hpc] at hps hls
    cases hs
    exact ⟨fun hack => absurd hack (by simp [acked]), fun _ => ⟨ps, ls, hlog, hps, hls⟩⟩
  case h_4 hpc =>
    obtain ⟨ps, ls, hlog, hps, _⟩ := h.after (by simp [acked, hpc])
    simp only [left, hpc] at hps
    cases hs
    exact ⟨fun hack => absurd hack (by simp [acked]), fun _ => ⟨ps, ls, hlog, hps, fun _ => rfl⟩⟩
  case h_5 m rest hpc =>
    obtain ⟨ps, ls, hlog, hps, hls⟩ := h.after (by simp [acked, hpc])
    simp only [left, hpc] at hps hls
    split at hs <;> cases hs
    · exact ⟨fun hack => absurd hack (by simp [acked]), fun _ => ⟨ps, ls, hlog, hps, hls⟩⟩
    · -- a message was left, so no live one was pushed yet
      have hnil : ls = [] := by
        by_contra hne
        exact absurd (hls hne) (List.cons_ne_nil m rest)
      subst hnil
      refine ⟨fun hack => absurd hack (by simp [acked]), fun _ => ?_⟩
      refine ⟨ps ++ [backlogPublish m w.session.nextPkid.2], [], ?_, ?_, by simp⟩
      · show w.log ++ [_] = _
        rw [hlog, List.map_append, List.map_nil, List.append_nil, List.append_nil]
        rfl
      · rw [List.map_append, List.append_assoc]
        exact hps
  all_goals cases hs

theorem Shape.deliver {w w' : StartWorld} {i : Nat} {r : SessionState.SendResult} {now : Instant}
    (h : Shape w) (hq : w.Quiet (.deliver i r now)) (hs : w.step (.deliver i r now) = some w') :
    Shape w' := by
  obtain ⟨c, o, hc, ho, rfl⟩ := deliver_inv hs
  rcases w.logged_cases o.pushed with hnil | ⟨p, hpushed, hlive⟩
  · refine ⟨fun hack => ?_, fun hack => ?_⟩
    · show w.log ++ _ = _
      rw [hnil, List.append_nil]
      exact h.before hack
    · obtain ⟨ps, ls, hlog, hrest⟩ := h.after hack
      refine ⟨ps, ls, ?_, hrest⟩
      show w.log ++ _ = _
      rw [hnil, List.append_nil]
      exact hlog
  · obtain ⟨hpc, rfl⟩ := (SessionState.deliverStep_pushed ho w.chan p).mp hpushed
    obtain ⟨hack, hleft⟩ := hq c p hc hpc
    obtain ⟨ps, ls, hlog, hps, _⟩ := h.after hack
    refine ⟨fun hn => absurd (hack.symm.trans hn) (by simp), fun _ => ?_⟩
    refine ⟨ps, ls ++ [p], ?_, hps, fun _ => hleft⟩
    show w.log ++ _ = _
    rw [hlive, hlog, List.map_append]
    simp

theorem Shape.step {w w' : StartWorld} {a : StartAction} (h : Shape w) (hq : w.Quiet a)
    (hs : w.step a = some w') : Shape w' := by
  cases a with
  | serve => exact h.serve hs
  | close =>
      cases hs
      exact ⟨h.before, h.after⟩
  | call m qos =>
      cases hs
      exact ⟨h.before, h.after⟩
  | deliver i r now => exact h.deliver hq hs

/-- A live push with something left breaks the order for good. -/
theorem Shape.quiet {w t w' : StartWorld} {a : StartAction} {acts : List StartAction} (h : Shape w)
    (ht : w.step a = some t) (hrest : Run.exec StartWorld.step t acts = some w')
    (hord : w'.InOrder) : w.Quiet a := by
  cases a with
  | serve => trivial
  | close => trivial
  | call m qos => trivial
  | deliver i r now =>
      cases r with
      | timeout => trivial
      | closed => trivial
      | ok =>
          intro c p hc hpc
          obtain ⟨c', o, hc', ho, rfl⟩ := deliver_inv ht
          rw [hc] at hc'
          cases hc'
          have hpushed := (SessionState.deliverStep_pushed ho w.chan p).mpr ⟨hpc, rfl⟩
          have hlive : w.logged o.pushed = [.live p] := by
            rw [hpushed]
            exact if_pos rfl
          obtain ⟨⟨more, hmore⟩, hpres, hkeep⟩ := exec_log acts hrest
          obtain ⟨later, ps, ls, hlog, hback⟩ := hord
          have hmore : w'.log = w.log ++ .live p :: more := by
            rw [hmore]
            show (w.log ++ _) ++ more = _
            rw [hlive, List.append_assoc]
            rfl
          rw [hmore] at hlog
          cases hack : w.acked with
          | false =>
              -- the live message comes before the CONNACK
              rw [h.before hack] at hlog
              cases hlog
          | true =>
              refine ⟨rfl, ?_⟩
              obtain ⟨qs, ks, hlog', hqs, hks⟩ := h.after hack
              by_contra hleft
              have hnil : ks = [] := by
                by_contra hne
                exact hleft (hks hne)
              have hatt : w.serve ≠ .attaching := by
                intro hpc
                simp [acked, hpc] at hack
              rw [hlog', hnil, List.map_nil, List.append_nil, List.cons_append, List.cons_append,
                List.append_assoc, List.cons_append, List.cons.injEq] at hlog
              -- fewer backlog packets are before it than there are messages
              have hle := backlog_before_live p (more ++ later) qs ps ls hlog.2
              have hlen : ps.length = qs.length + w.left.length := by
                have hps := congrArg List.length (hback.trans ((hkeep hatt).trans hqs.symm))
                simpa using hps
              exact hleft (List.eq_nil_of_length_eq_zero (by omega))

theorem Shape.meets {w w' : StartWorld} : ∀ (acts : List StartAction), Shape w →
    Run.exec StartWorld.step w acts = some w' → w'.InOrder →
      Run.Meets StartWorld.step Quiet w acts := by
  intro acts
  induction acts generalizing w with
  | nil => exact fun _ _ _ => trivial
  | cons a acts ih =>
      intro h hw hord
      obtain ⟨t, ht, hrest⟩ := Run.exec_cons.mp hw
      have hq : w.Quiet a := h.quiet ht hrest hord
      exact .cons ht hq (ih (h.step hq ht) hrest hord)

/-- **A log is in order iff the run was quiet.** -/
theorem start_order_iff (session : SessionState) (disk : Disk) (identity : Str) (present : Bool)
    (chan : Sender) (kick : Notify) (calls : List SessionState.DeliverCall)
    (acts : List StartAction) (w : StartWorld)
    (hw : Run.exec step (init session disk identity present chan kick calls) acts = some w) :
    w.InOrder ↔ Run.Meets step Quiet (init session disk identity present chan kick calls) acts := by
  have hinit : Shape (init session disk identity present chan kick calls) :=
    ⟨fun _ => rfl, fun hack => absurd hack (by simp [acked, init])⟩
  constructor
  · exact hinit.meets acts hw
  · intro hq
    have h : Shape w := Run.exec_invariant_of_meets (I := Shape)
      (fun _ _ _ h hq hs => h.step hq hs) acts hinit hq hw
    exact h.inOrder

end

/-- An offline session with one message queued, about to be resumed. -/
def offlineDev : SessionState :=
  (SessionState.new ∅ "dev".toList 10 none none none).pushQueue ("kiln".toList, [57])

/-- A delivery that begins when the backlog has been sent. -/
def quietRun : List StartAction :=
  [.serve, .serve, .serve, .serve, .call ("kiln".toList, [58]) .atMostOnce, .deliver 0 .ok 0,
    .deliver 0 .ok 0]

/-- The CONNACK, the queued message, the live one. -/
theorem quiet_run_is_in_order :
    ∃ w, Run.exec (@step .asStored) (init offlineDev ∅ [] true ⟨1⟩ ⟨1⟩ []) quietRun = some w ∧
      w.log.length = 3 ∧ w.InOrder := by
  refine ⟨_, rfl, rfl,
    (@start_order_iff .asStored offlineDev ∅ [] true ⟨1⟩ ⟨1⟩ [] quietRun _ rfl).mpr ?_⟩
  refine .cons rfl trivial (.cons rfl trivial (.cons rfl trivial (.cons rfl trivial
    (.cons rfl trivial (.cons rfl ?_ (.cons rfl ?_ trivial))))))
  · exact fun _ _ _ _ => ⟨rfl, rfl⟩
  · exact fun _ _ _ _ => ⟨rfl, rfl⟩

/-- A delivery that begins right after `attach_conn`: its message is pushed before
the CONNACK. -/
theorem live_message_before_connack :
    ¬ ∀ (_ : HashOrder) (session : SessionState) (disk : Disk) (identity : Str) (present : Bool)
      (chan : Sender) (kick : Notify) (calls : List SessionState.DeliverCall)
      (acts : List StartAction) (w : StartWorld),
      Run.exec step (init session disk identity present chan kick calls) acts = some w →
        w.InOrder := by
  intro h
  obtain ⟨later, ps, ls, hlog, _⟩ := h .asStored offlineDev ∅ [] true ⟨1⟩ ⟨1⟩ []
    [.serve, .call ("kiln".toList, [58]) .atMostOnce, .deliver 0 .ok 0, .deliver 0 .ok 0] _ rfl
  cases hlog

end StartWorld

end Entmoot
