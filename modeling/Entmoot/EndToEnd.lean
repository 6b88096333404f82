/-
# `Entmoot.EndToEnd` — from the put on one node to the session on another

The mesh hands messages to forwarding tasks, and each task hands what it takes to
`deliver` on its session (`activate_subscription` of `crates/entmoot-node/src/session.rs`).
Here the two run together: the nodes on their bus, and any number of sessions, each with
its connections, evictions and the sections of all its calls in any order.  A task waits
for its call before it takes the next sample, and nothing else orders the calls.

`Linked` says how a task stands to its session: its calls carry the messages it took, all
but the last are done, and what they have put into channels or the queue stands in the log
in that order.  On a bus that keeps the order of each connection it follows that a
subscription passes on every message of a connection once and in the order it was put
(`delivered_in_order`).
-/
import Entmoot.MeshOrder
import Entmoot.Conservation

namespace Entmoot

open PubSub (keys taken putsOf fromNode)
open SessionState (DeliverCall DeliverPc DeliverStep SendResult DeliverSection deliverStep_section)
open SessionWorld (CallOk Carries Effect effectsOf ConsInv eventsOf)

/-! ## A session from step to step -/

def SessionState.DeliverPc.isDone : DeliverPc → Bool
  | .done _ => true
  | _ => false

/-- The call and the message of what went into a channel or the queue. -/
def SessionEvent.entry : SessionEvent → Option (Nat × Msg)
  | .accepted i _ p => some (i, (p.topic, p.payload))
  | .queued i m => some (i, m)
  | _ => none

/-- What a session has passed on, call by call. -/
def SessionWorld.entries (x : SessionWorld) : List (Nat × Msg) := x.log.filterMap SessionEvent.entry

/-- A step of a session: its calls go on, and at most one of those not done puts its
message somewhere. -/
structure Proceeds (x x' : SessionWorld) : Prop where
  call : ∀ (c : Nat) (call : DeliverCall), x.calls[c]? = some call →
    ∃ call', x'.calls[c]? = some call' ∧ call'.msg = call.msg ∧ call'.qos = call.qos ∧
      (call.pc.isDone = true → call' = call)
  entries : x'.entries = x.entries ∨ ∃ (c : Nat) (call : DeliverCall), x.calls[c]? = some call ∧
    call.pc.isDone = false ∧ x'.entries = x.entries ++ [(c, call.msg)]

namespace Proceeds

variable {x x' : SessionWorld}

theorem same (hcalls : x'.calls = x.calls) {evs : List SessionEvent} (hlog : x'.log = x.log ++ evs)
    (hevs : evs.filterMap SessionEvent.entry = []) : Proceeds x x' where
  call c call hc := ⟨call, hcalls ▸ hc, rfl, rfl, fun _ => rfl⟩
  entries := by
    rw [SessionWorld.entries, SessionWorld.entries, hlog, List.filterMap_append, hevs,
      List.append_nil]
    exact .inl rfl

theorem evictionOf_entry (s : SessionState) (tx : Sender) :
    (SessionWorld.evictionOf s tx).filterMap SessionEvent.entry = [] := by
  rw [SessionWorld.evictionOf]
  split <;> rfl

/-- What a section of a call puts somewhere is its message. -/
theorem eventsOf_entry {s : SessionState} {d : Disk} {log : List SessionEvent} {i : Nat}
    {c : DeliverCall} {r : SendResult} {now : Instant} {o : DeliverStep} (hok : CallOk log i c)
    (ho : s.deliverStep d c r now = some o) :
    o.call.msg = c.msg ∧ o.call.qos = c.qos ∧ c.pc.isDone = false ∧
      ((eventsOf s i c o).filterMap SessionEvent.entry = [] ∨
        (eventsOf s i c o).filterMap SessionEvent.entry = [(i, c.msg)]) := by
  rw [CallOk] at hok
  cases deliverStep_section ho with
  | @sent tx p hpc =>
      simp only [hpc] at hok
      refine ⟨rfl, rfl, by rw [hpc]; rfl, .inr ?_⟩
      rw [← Prod.mk.eta (p := c.msg), ← hok.2.topic, ← hok.2.payload]
      rfl
  | queue hpc hsink =>
      refine ⟨rfl, rfl, by rw [hpc]; rfl, .inr ?_⟩
      simp only [eventsOf, hpc, hsink, if_true]
      rfl
  | evict hpc =>
      refine ⟨rfl, rfl, by rw [hpc]; rfl, .inl ?_⟩
      simp only [eventsOf, hpc]
      exact evictionOf_entry s _
  | retry hpc hsink =>
      refine ⟨rfl, rfl, by rw [hpc]; rfl, .inl ?_⟩
      simp only [eventsOf, hpc, hsink, reduceCtorEq, if_false]
      rfl
  | live hpc _ | drop hpc _ _ | offline hpc _ _ | timeout hpc _ | closed hpc | clear hpc =>
      refine ⟨rfl, rfl, by rw [hpc]; rfl, .inl ?_⟩
      simp only [eventsOf, hpc]
      rfl

theorem step [HashOrder] {act : SessionAction} (hno : ∀ m q, act ≠ .call m q)
    (hok : ∀ (c : Nat) call, x.calls[c]? = some call → CallOk x.log c call)
    (hs : x.step act = some x') :
    Proceeds x x' := by
  cases act with
  | attach identity sink kick =>
      rw [SessionWorld.step] at hs
      split at hs
      · cases hs
      · cases hs
        exact same rfl rfl rfl
  | detach epoch now =>
      cases hs
      exact same rfl (List.append_nil _).symm rfl
  | evict tx now =>
      cases hs
      exact same rfl rfl (evictionOf_entry x.session tx)
  | call m q => exact absurd rfl (hno m q)
  | run i r now =>
      obtain ⟨c, hc, hs⟩ := Option.bind_eq_some_iff.mp hs
      obtain ⟨o, ho, rfl⟩ := Option.map_eq_some_iff.mp hs
      obtain ⟨hmsg, hqos, hdone, hentry⟩ := eventsOf_entry (hok i c hc) ho
      refine ⟨fun j call hj => ?_, ?_⟩
      · by_cases hij : i = j
        · subst hij
          rw [hc] at hj
          cases hj
          refine ⟨o.call, Cells.set_self hc, hmsg, hqos, fun h => ?_⟩
          rw [hdone] at h
          cases h
        · exact ⟨call, (List.getElem?_set_ne hij).trans hj, rfl, rfl, fun _ => rfl⟩
      · simp only [SessionWorld.entries, List.filterMap_append]
        rcases hentry with hnone | hone
        · rw [hnone, List.append_nil]
          exact .inl rfl
        · rw [hone]
          exact .inr ⟨i, c, hc, hdone, rfl⟩

end Proceeds

/-! ## The system -/

/-- A call that a forwarding task made: the connection its message came from, and its place
among the calls of the session. -/
structure Made where
  source : Nat
  call : Nat
  msg : Msg

/-- Whether the call was made for a message of the connection. -/
def ofSource (made : List Made) (j : Nat) (y : Nat × Msg) : Bool :=
  made.any fun e => e.source == j && e.call == y.1

structure DeliveryWorld where
  mesh : Mesh
  sessions : Nat → SessionWorld
  /-- the calls of each forwarding task, oldest first -/
  made : Nat → List Made

inductive DeliveryAction where
  /-- the mesh, but for the forwarding tasks -/
  | mesh (act : MeshAction)
  /-- session `j`, but for new calls -/
  | session (j : Nat) (act : SessionAction)
  /-- forwarding task `i` is handed what connection `j` put as its `p`-th, and hands it to
  its session -/
  | hand (i j p : Nat) (x : Sample)

/-- The QoS a forwarding task delivers with. -/
def Watch.granted : Watch → Option QoS
  | .forward _ _ _ q => some q
  | .replica _ => none

def Mesh.granted (m : Mesh) (i : Nat) : Option QoS := ((keys m.history)[i]?).bind Watch.granted

def SessionAction.isCall : SessionAction → Bool
  | .call _ _ => true
  | _ => false

namespace DeliveryWorld

def init (files : Nat → Option Bytes) (s : Nat → SessionState) (d : Nat → Disk) : DeliveryWorld :=
  ⟨.init files, fun j => .init (s j) (d j), fun _ => []⟩

section
variable (bus : MeshBus) (nodes : Nat → Broker) (scope : Str) (owner : Nat → Nat)

/-- Task `i` does not wait for a call. -/
def idle (w : DeliveryWorld) (i : Nat) : Bool :=
  (w.made i).getLast?.all fun e => ((w.sessions (owner i)).calls[e.call]?).all fun c => c.pc.isDone

/-- Task `i` calls `deliver`. -/
def calling (w : DeliveryWorld) (i n : Nat) (msg : Msg) (q : QoS) : DeliveryWorld :=
  let x := w.sessions (owner i)
  { w with
    sessions := Function.update w.sessions (owner i)
      { x with calls := x.calls ++ [⟨msg, q, .readSink⟩] }
    made := Function.update w.made i (w.made i ++ [⟨n, x.calls.length, msg⟩]) }

/-- `owner i` is the session of forwarding task `i`. -/
def step [HashOrder] (w : DeliveryWorld) : DeliveryAction → Option DeliveryWorld
  | .mesh act =>
      if (act.taker.bind w.mesh.granted).isSome then none
      else (w.mesh.step bus nodes scope act).map fun m => { w with mesh := m }
  | .session j act =>
      if act.isCall then none
      else ((w.sessions j).step act).map fun x =>
        { w with sessions := Function.update w.sessions j x }
  | .hand i j p x =>
      (w.mesh.granted i).bind fun q =>
        if w.idle owner i then
          (w.mesh.step bus nodes scope (.hand i j p x)).map fun m =>
            -- a key that is no topic is passed over
            match x.call scope with
            | none => { w with mesh := m }
            | some msg => { w with mesh := m }.calling owner i j msg q
        else none

end

/-- What task `i` has passed on of the messages of connection `j`, in the order it did. -/
def passedOn (owner : Nat → Nat) (w : DeliveryWorld) (i j : Nat) : List Msg :=
  ((w.sessions (owner i)).entries.filter (ofSource (w.made i) j)).map Prod.snd

end DeliveryWorld

/-! ## A task and its session -/

/-- How the calls of a forwarding task stand in its session. -/
structure Linked (scope : Str) (m : Mesh) (x : SessionWorld) (i : Nat) (made : List Made) :
    Prop where
  /-- nothing is handed out before the declaration -/
  fresh : (keys m.history)[i]? = none → taken i m.history = []
  handed : (m.granted i).isSome → calls scope i m.history = made.map fun e => (e.source, e.msg)
  carried : ∀ e ∈ made, ∃ c, x.calls[e.call]? = some c ∧ c.msg = e.msg ∧ m.granted i = some c.qos
  nodup : (made.map Made.call).Nodup
  /-- it waits for one call at most -/
  done : ∀ e ∈ made.dropLast, ∃ c, x.calls[e.call]? = some c ∧ c.pc.isDone = true
  entered :
    (x.entries.filter fun y => y.1 ∈ made.map Made.call).Sublist (made.map fun e => (e.call, e.msg))

namespace Linked

variable {scope : Str} {m m' : Mesh} {x x' : SessionWorld} {i : Nat} {made : List Made}

theorem nil (scope : Str) (m : Mesh) (x : SessionWorld) (i : Nat) (hnone : taken i m.history = []) :
    Linked scope m x i [] where
  fresh _ := hnone
  handed _ := by
    rw [calls, hnone]
    rfl
  carried _ he := absurd he List.not_mem_nil
  nodup := .nil
  done _ he := absurd he List.not_mem_nil
  entered := by
    have hempty : (x.entries.filter fun y => y.1 ∈ ([] : List Made).map Made.call) = [] :=
      List.filter_eq_nil_iff.mpr fun y _ hy => absurd (of_decide_eq_true hy) List.not_mem_nil
    rw [hempty]
    exact .slnil

theorem onward {act : MeshAction} (h : Linked scope m x i made) (hm : Onward act m m')
    (hno : act.taker = some i → m.granted i = none) : Linked scope m' x i made := by
  have hgranted : ∀ q, m.granted i = some q → m'.granted i = some q := by
    intro q hq
    obtain ⟨w, hw, hq⟩ := Option.bind_eq_some_iff.mp hq
    exact Option.bind_eq_some_iff.mpr ⟨w, hm.keys_get hw, hq⟩
  refine { h with fresh := fun hnone => ?_, handed := fun hq => ?_, carried := fun e he => ?_ }
  · have hbefore : (keys m.history)[i]? = none := by
      refine Option.eq_none_iff_forall_ne_some.mpr fun w hw => ?_
      rw [hm.keys_get hw] at hnone
      cases hnone
    rw [hm.took i (.inr hbefore)]
    exact h.fresh hbefore
  · cases hw : (keys m.history)[i]? with
    | none =>
        have hmade : made = [] := by
          refine List.eq_nil_iff_forall_not_mem.mpr fun e he => ?_
          obtain ⟨c, -, -, hgrant⟩ := h.carried e he
          rw [Mesh.granted, hw] at hgrant
          cases hgrant
        rw [hmade, calls, hm.took i (.inr hw), h.fresh hw]
        rfl
    | some w =>
        have hold : m.granted i = m'.granted i := by
          rw [Mesh.granted, Mesh.granted, hw, hm.keys_get hw]
        have htaker : act.taker ≠ some i := by
          intro htake
          rw [← hold, hno htake] at hq
          cases hq
        rw [calls, hm.took i (.inl htaker)]
        exact h.handed (hold ▸ hq)
  · obtain ⟨c, hc, hmsg, hgrant⟩ := h.carried e he
    exact ⟨c, hc, hmsg, hgranted _ hgrant⟩

theorem mem_last {e : Made} (he : e ∈ made) (hlast : e ∉ made.dropLast) : ∃ l, made = l ++ [e] := by
  obtain ⟨l, e', rfl⟩ := List.eq_nil_or_concat made |>.resolve_left (List.ne_nil_of_mem he)
  rw [List.concat_eq_append] at he hlast ⊢
  rw [List.dropLast_concat] at hlast
  rcases List.mem_append.mp he with he | he
  · exact absurd he hlast
  · exact ⟨l, by rw [List.mem_singleton.mp he]⟩

theorem sublist_of_concat {α : Type*} {l l' : List α} {a : α} (h : l.Sublist (l' ++ [a]))
    (ha : a ∉ l) :
    l.Sublist l' := by
  obtain ⟨l₁, l₂, rfl, h₁, h₂⟩ := List.sublist_append_iff.mp h
  cases l₂ with
  | nil => rwa [List.append_nil]
  | cons b l₂ =>
      cases List.mem_singleton.mp (h₂.subset (.head l₂))
      exact absurd (List.mem_append_right l₁ (.head l₂)) ha

theorem mem_entries {c : Nat} {msg : Msg} :
    (c, msg) ∈ x.entries ↔ ∃ ev ∈ effectsOf x.log c, ev.entry = some (c, msg) := by
  rw [SessionWorld.entries, List.mem_filterMap]
  constructor
  · rintro ⟨ev, hev, hentry⟩
    refine ⟨ev, List.mem_filter.mpr ⟨hev, decide_eq_true ?_⟩, hentry⟩
    cases ev with
    | accepted j tx p =>
        cases hentry
        rfl
    | queued j m =>
        cases hentry
        rfl
    | backlog _ | evicted _ => cases hentry
  · rintro ⟨ev, hev, hentry⟩
    exact ⟨ev, List.mem_of_mem_filter hev, hentry⟩

theorem no_entry {c : Nat} {msg : Msg} (hnone : effectsOf x.log c = []) : (c, msg) ∉ x.entries := by
  rw [mem_entries, hnone]
  rintro ⟨ev, hev, -⟩
  cases hev

theorem effectsOf_open {c : Nat} {call : DeliverCall} (hok : CallOk x.log c call)
    (hpc : call.pc.isDone = false) : effectsOf x.log c = [] := by
  rw [CallOk] at hok
  cases hdl : call.pc with
  | done r =>
      rw [hdl] at hpc
      cases hpc
  | sending _ _ | queueing =>
      simp only [hdl] at hok
      exact hok.1
  | readSink | evicting _ | clearing _ =>
      simp only [hdl] at hok
      exact hok

theorem proceeds (h : Linked scope m x i made) (hx : Proceeds x x')
    (hok : ∀ (c : Nat) call, x.calls[c]? = some call → CallOk x.log c call) :
      Linked scope m x' i made := by
  have hdone : ∀ e : Nat, (∃ c : DeliverCall, x.calls[e]? = some c ∧ c.pc.isDone = true) →
      ∃ c : DeliverCall, x'.calls[e]? = some c ∧ c.pc.isDone = true := by
    rintro e ⟨c, hc, hpc⟩
    obtain ⟨c', hc', -, -, hsame⟩ := hx.call e c hc
    exact ⟨c', hc', hsame hpc ▸ hpc⟩
  refine { h with carried := fun e he => ?_, done := fun e he => hdone _ (h.done e he)
                  entered := ?_ }
  · obtain ⟨c, hc, hmsg, hgrant⟩ := h.carried e he
    obtain ⟨c', hc', hmsg', hqos', -⟩ := hx.call _ c hc
    exact ⟨c', hc', hmsg'.trans hmsg, hqos' ▸ hgrant⟩
  · rcases hx.entries with hsame | ⟨c, call, hc, hpc, hone⟩
    · rw [hsame]
      exact h.entered
    rw [hone, List.filter_append]
    by_cases hmem : c ∈ made.map Made.call
    · -- the call is the last of the task, and nothing of it was passed on before
      obtain ⟨e, he, rfl⟩ := List.mem_map.mp hmem
      have hlast : e ∉ made.dropLast := by
        intro hin
        obtain ⟨c', hc', hpc'⟩ := h.done e hin
        rw [hc] at hc'
        cases hc'
        rw [hpc] at hpc'
        cases hpc'
      obtain ⟨l, rfl⟩ := mem_last he hlast
      obtain ⟨c', hc', hmsg, -⟩ := h.carried e he
      rw [hc] at hc'
      cases hc'
      have hnew : (e.call, e.msg) ∉ x.entries.filter fun y => y.1 ∈ (l ++ [e]).map Made.call :=
        fun hin => no_entry (effectsOf_open (hok _ _ hc) hpc) (List.mem_of_mem_filter hin)
      have hmap : (l ++ [e]).map (fun e => (e.call, e.msg)) = l.map (fun e => (e.call, e.msg)) ++
          [(e.call, e.msg)] :=
        List.map_append ..
      have hold := h.entered
      rw [hmap] at hold ⊢
      refine (sublist_of_concat hold hnew).append ?_
      rw [List.filter_cons, hmsg, List.filter_nil]
      split
      · exact List.Sublist.refl _
      · exact List.nil_sublist _
    · have hother : [(c, call.msg)].filter (fun y => y.1 ∈ made.map Made.call) = [] :=
        List.filter_eq_nil_iff.mpr fun y hy hin => hmem (by
          cases List.mem_singleton.mp hy
          exact of_decide_eq_true hin)
      rw [hother, List.append_nil]
      exact h.entered

theorem called (h : Linked scope m x i made) (c : DeliverCall) :
    Linked scope m { x with calls := x.calls ++ [c] } i made :=
  { h with
    carried := fun e he => by
      obtain ⟨c', hc', hmsg, hgrant⟩ := h.carried e he
      exact ⟨c', Cells.append_of_some hc', hmsg, hgrant⟩
    done := fun e he => by
      obtain ⟨c', hc', hpc⟩ := h.done e he
      exact ⟨c', Cells.append_of_some hc', hpc⟩ }

theorem all_done (h : Linked scope m x i made)
    (hidle : (made.getLast?.all fun e => (x.calls[e.call]?).all fun c => c.pc.isDone) = true) :
    ∀ e ∈ made, ∃ c, x.calls[e.call]? = some c ∧ c.pc.isDone = true := by
  intro e he
  by_cases hlast : e ∈ made.dropLast
  · exact h.done e hlast
  · obtain ⟨l, rfl⟩ := mem_last he hlast
    obtain ⟨c, hc, -⟩ := h.carried e he
    rw [List.getLast?_concat, Option.all_some, hc, Option.all_some] at hidle
    exact ⟨c, hc, hidle⟩

section
variable {bus : MeshBus} {nodes : Nat → Broker} [HashOrder] {q : QoS} {j p : Nat} {y : Sample}
  (h : Linked scope m x i made) (hq : m.granted i = some q)
  (hs : m.step bus nodes scope (.hand i j p y) = some m')
include h hq hs

omit h in
/-- The subscription is granted as before, and the sample is the last it took. -/
theorem handed_on : m'.granted i = some q ∧ (keys m'.history)[i]?.isSome ∧
    calls scope i m'.history =
      calls scope i m.history ++ ((y.call scope).map fun msg => (j, msg)).toList := by
  obtain ⟨w, hw, hqw⟩ := Option.bind_eq_some_iff.mp hq
  have hkey := (Onward.step hs).keys_get hw
  refine ⟨Option.bind_eq_some_iff.mpr ⟨w, hkey, hqw⟩, by rw [hkey]; rfl, ?_⟩
  cases Mesh.stepped hs with
  | still _ hact parties stopped => cases hact
  | noted _ hact e parties hmay he => cases hact
  | hand _ _ _ _ w' hw' hmay =>
      rw [calls, calls]
      show (taken i (m.history ++ [.hand i j p y])).filterMap _ = _
      rw [PubSub.taken_append, List.filterMap_append, PubSub.taken_hand, if_pos rfl,
        List.filterMap_cons]
      cases y.call scope <;> rfl

theorem takePast (hcall : y.call scope = none) : Linked scope m' x i made := by
  obtain ⟨hq', hkey, hcalls⟩ := handed_on hq hs
  rw [hcall] at hcalls
  refine { h with fresh := fun hnone => ?_, handed := fun _ => ?_, carried := fun e he => ?_ }
  · rw [hnone] at hkey
    cases hkey
  · rw [hcalls, h.handed (by rw [hq]; rfl)]
    exact List.append_nil _
  · obtain ⟨c, hc, hmsg, hgrant⟩ := h.carried e he
    exact ⟨c, hc, hmsg, hq'.trans (hq.symm.trans hgrant)⟩

/-- The task takes a message and calls `deliver`. -/
theorem takeCalling {msg : Msg} (hcall : y.call scope = some msg)
    (hdone : ∀ e ∈ made, ∃ c, x.calls[e.call]? = some c ∧ c.pc.isDone = true)
    (hfresh : ∀ c, x.calls.length ≤ c → effectsOf x.log c = []) :
    Linked scope m' { x with calls := x.calls ++ [⟨msg, q, .readSink⟩] } i
      (made ++ [⟨j, x.calls.length, msg⟩]) := by
  obtain ⟨hq', hkey, hcalls⟩ := handed_on hq hs
  rw [hcall] at hcalls
  have hnew : x.calls.length ∉ made.map Made.call := by
    intro hin
    obtain ⟨e, he, heq⟩ := List.mem_map.mp hin
    obtain ⟨c, hc, -⟩ := h.carried e he
    rw [heq, List.getElem?_eq_none (Nat.le_refl _)] at hc
    cases hc
  refine ⟨fun hnone => ?_, fun _ => ?_, fun e he => ?_, ?_, fun e he => ?_, ?_⟩
  · rw [hnone] at hkey
    cases hkey
  · rw [hcalls, h.handed (by rw [hq]; rfl), List.map_append]
    rfl
  · rcases List.mem_append.mp he with he | he
    · obtain ⟨c, hc, hmsg, hgrant⟩ := h.carried e he
      exact ⟨c, Cells.append_of_some hc, hmsg, hq'.trans (hq.symm.trans hgrant)⟩
    · cases List.mem_singleton.mp he
      exact ⟨⟨msg, q, .readSink⟩, List.getElem?_concat_length, rfl, hq'⟩
  · rw [List.map_append]
    exact List.nodup_append.mpr ⟨h.nodup, List.pairwise_singleton _ _, fun a ha b hb => by
      rw [List.mem_singleton.mp hb]
      rintro rfl
      exact hnew ha⟩
  · rw [List.dropLast_concat] at he
    obtain ⟨c, hc, hpc⟩ := hdone e he
    exact ⟨c, Cells.append_of_some hc, hpc⟩
  · -- nothing was passed on for the call that is new
    have hsame :
        (x.entries.filter fun z => z.1 ∈ (made ++ [Made.mk j x.calls.length msg]).map Made.call) =
        x.entries.filter fun z => z.1 ∈ made.map Made.call := by
      refine List.filter_congr fun z hz => decide_eq_decide.mpr ?_
      rw [List.map_append, List.mem_append]
      refine or_iff_left fun hin => ?_
      obtain ⟨c, msg'⟩ := z
      cases List.mem_singleton.mp hin
      exact no_entry (hfresh _ (Nat.le_refl _)) hz
    show (x.entries.filter _).Sublist _
    rw [hsame, List.map_append]
    exact h.entered.trans (List.sublist_append_left _ _)

end

/-! ## What a task has passed on -/

theorem entries_ofSource (made : List Made) (n : Nat) (es : List (Nat × Msg)) :
    (es.filter fun y => y.1 ∈ made.map Made.call).filter (ofSource made n) =
      es.filter (ofSource made n) := by
  rw [List.filter_filter]
  refine List.filter_congr fun y _ => ?_
  cases hany : ofSource made n y with
  | false => rfl
  | true =>
      obtain ⟨e, he, heq⟩ := List.any_eq_true.mp hany
      obtain ⟨-, hcall⟩ := Bool.and_eq_true_iff.mp heq
      exact decide_eq_true (List.mem_map.mpr ⟨e, he, eq_of_beq hcall⟩)

theorem made_ofSource (hnodup : (made.map Made.call).Nodup) (n : Nat) :
    (made.map fun e => (e.call, e.msg)).filter (ofSource made n) =
      (made.filter fun e => e.source == n).map fun e => (e.call, e.msg) := by
  rw [List.filter_map]
  refine congrArg _ (List.filter_congr fun e he => ?_)
  rw [Bool.eq_iff_iff, Function.comp, ofSource, List.any_eq_true]
  constructor
  · rintro ⟨e', he', heq⟩
    obtain ⟨hnode, hcall⟩ := Bool.and_eq_true_iff.mp heq
    rwa [← List.inj_on_of_nodup_map hnodup he' he (eq_of_beq hcall)]
  · exact fun hnode => ⟨e, he, Bool.and_eq_true_iff.mpr ⟨hnode, beq_self_eq_true _⟩⟩

/-- What was passed on of a node's messages is a part of what was handed out, in order. -/
theorem passedOn_part (h : Linked scope m x i made) (n : Nat) :
    ((x.entries.filter (ofSource made n)).map Prod.snd).Sublist
      ((made.filter fun e => e.source == n).map Made.msg) := by
  have hpart := (h.entered.filter (ofSource made n)).map Prod.snd
  rw [entries_ofSource, made_ofSource h.nodup, List.map_map] at hpart
  exact hpart

/-- The message of a finished call was passed on, with QoS 1. -/
theorem entry_of_done {c : Nat} {call : DeliverCall} (hok : CallOk x.log c call)
    (hpc : call.pc.isDone = true) (hqos : call.qos ≠ .atMostOnce) : (c, call.msg) ∈ x.entries := by
  rw [mem_entries]
  cases hdl : call.pc with
  | done r =>
      simp only [CallOk, hdl] at hok
      cases r with
      | sent =>
          obtain ⟨tx, p, heffect, hp⟩ := hok
          refine ⟨_, heffect ▸ List.mem_singleton.mpr rfl, ?_⟩
          rw [SessionEvent.entry, hp.topic, hp.payload]
      | queued => exact ⟨_, hok ▸ List.mem_singleton.mpr rfl, rfl⟩
      | dropped => exact absurd hok.2 hqos
  | sending _ _ | queueing | readSink | evicting _ | clearing _ =>
      rw [hdl] at hpc
      cases hpc

/-- With QoS 1 a task that does not wait has passed on everything. -/
theorem passedOn_all (h : Linked scope m x i made)
    (hok : ∀ (c : Nat) call, x.calls[c]? = some call → CallOk x.log c call)
    (hdone : ∀ e ∈ made, ∃ c, x.calls[e.call]? = some c ∧ c.pc.isDone = true)
    (hq : m.granted i ≠ some .atMostOnce) (n : Nat) :
    (x.entries.filter (ofSource made n)).map Prod.snd =
      (made.filter fun e => e.source == n).map Made.msg := by
  have hnodup : (made.map fun e => (e.call, e.msg)).Nodup := by
    refine List.Nodup.of_map Prod.fst ?_
    rw [List.map_map]
    exact h.nodup
  have hmem : (made.map fun e => (e.call, e.msg)) ⊆ x.entries.filter fun y =>
      y.1 ∈ made.map Made.call := by
    intro y hy
    obtain ⟨e, he, rfl⟩ := List.mem_map.mp hy
    obtain ⟨c, hc, hmsg, hgrant⟩ := h.carried e he
    obtain ⟨c', hc', hpc⟩ := hdone e he
    rw [hc] at hc'
    cases hc'
    have hqos : c.qos ≠ .atMostOnce := fun heq => hq (hgrant.trans (congrArg some heq))
    have hentry := entry_of_done (hok _ _ hc) hpc hqos
    rw [hmsg] at hentry
    exact List.mem_filter.mpr ⟨hentry, decide_eq_true (List.mem_map_of_mem he)⟩
  have hall := h.entered.eq_of_length_le (List.subperm_of_subset hnodup hmem).length_le
  rw [← entries_ofSource, hall, made_ofSource h.nodup, List.map_map]
  rfl

end Linked

/-! ## Runs -/

namespace DeliveryWorld

variable {bus : MeshBus} {nodes : Nat → Broker} {scope : Str} {owner : Nat → Nat}
  {w w' : DeliveryWorld}
  {s : Nat → SessionState}

/-- What every step keeps. -/
structure Inv (bus : MeshBus) (nodes : Nat → Broker) (scope : Str) (owner : Nat → Nat)
    (s : Nat → SessionState) (w : DeliveryWorld) : Prop where
  mesh : Authentic bus nodes w.mesh
  sessions : ∀ j, ConsInv (s j) (w.sessions j)
  linked : ∀ i, Linked scope w.mesh (w.sessions (owner i)) i (w.made i)

theorem Inv.init (bus : MeshBus) (nodes : Nat → Broker) (scope : Str) (owner : Nat → Nat)
    (files : Nat → Option Bytes) (d : Nat → Disk)
    (hroom : ∀ j, (s j).inner.queue.length ≤ (s j).maxQueue) :
    Inv bus nodes scope owner s (init files s d) where
  mesh := Authentic.init bus nodes files
  sessions j := {
    balanced := ⟨rfl, hroom j, (List.append_nil _).symm, rfl, rfl, rfl⟩
    calls := fun i c hc => (by cases hc)
    fresh := fun i _ => rfl }
  linked i := .nil scope _ _ i rfl

/-- A session goes on, with whatever that leaves of its tasks. -/
theorem Inv.setSession (h : Inv bus nodes scope owner s w) {j : Nat} {x : SessionWorld}
    (hx : ConsInv (s j) x) (hlinked : ∀ i, owner i = j → Linked scope w.mesh x i (w.made i)) :
    Inv bus nodes scope owner s { w with sessions := Function.update w.sessions j x } := by
  refine ⟨h.mesh, fun k => ?_, fun i => ?_⟩
  · show ConsInv (s k) (Function.update w.sessions j x k)
    by_cases hk : k = j
    · subst hk
      rwa [Function.update_self]
    · rw [Function.update_of_ne hk]
      exact h.sessions k
  · show Linked scope w.mesh (Function.update w.sessions j x (owner i)) i (w.made i)
    by_cases hi : owner i = j
    · rw [hi, Function.update_self]
      exact hlinked i hi
    · rw [Function.update_of_ne hi]
      exact h.linked i

/-- A task takes a sample, and calls `deliver` if it is a message. -/
theorem Inv.hand [HashOrder] (hmax : ∀ j, 1 ≤ (s j).maxQueue) {i j p : Nat} {y : Sample}
    (h : Inv bus nodes scope owner s w)
    (hs : w.step bus nodes scope owner (.hand i j p y) = some w') :
    Inv bus nodes scope owner s w' := by
  obtain ⟨q, hq, hs⟩ := Option.bind_eq_some_iff.mp hs
  split at hs
  · next hidle =>
    obtain ⟨m, hm, hs⟩ := Option.map_eq_some_iff.mp hs
    have hmesh := h.mesh.step hm
    have hothers : ∀ k, k ≠ i → Linked scope m (w.sessions (owner k)) k (w.made k) :=
      fun k hk => (h.linked k).onward (.step hm) fun heq => absurd (Option.some.inj heq).symm hk
    cases hcall : y.call scope with
    | none =>
        rw [hcall] at hs
        subst hs
        refine ⟨hmesh, h.sessions, fun k => ?_⟩
        by_cases hk : k = i
        · subst hk
          exact (h.linked k).takePast hq hm hcall
        · exact hothers k hk
    | some msg =>
        rw [hcall] at hs
        subst hs
        have hown := h.linked i
        have hcons := h.sessions (owner i)
        refine ⟨hmesh, fun k => ?_, fun k => ?_⟩
        · show ConsInv (s k) (Function.update w.sessions (owner i) _ k)
          by_cases hk : k = owner i
          · subst hk
            rw [Function.update_self]
            have hcalled : (w.sessions (owner i)).step (.call msg q) = some _ := rfl
            exact hcons.step (hmax _) hcalled
          · rw [Function.update_of_ne hk]
            exact h.sessions k
        · show Linked scope m (Function.update w.sessions (owner i) _ (owner k)) k
            (Function.update w.made i _ k)
          by_cases hk : k = i
          · subst hk
            rw [Function.update_self, Function.update_self]
            exact hown.takeCalling hq hm hcall (hown.all_done hidle) hcons.fresh
          · rw [Function.update_of_ne hk]
            by_cases hsame : owner k = owner i
            · rw [hsame, Function.update_self, ← hsame]
              exact (hothers k hk).called _
            · rw [Function.update_of_ne hsame]
              exact hothers k hk
  · cases hs

theorem Inv.step [HashOrder] (hmax : ∀ j, 1 ≤ (s j).maxQueue) {act : DeliveryAction}
    (h : Inv bus nodes scope owner s w) (hs : w.step bus nodes scope owner act = some w') :
    Inv bus nodes scope owner s w' := by
  cases act with
  | mesh act =>
      rw [DeliveryWorld.step] at hs
      split at hs
      · cases hs
      · next hno =>
        obtain ⟨m, hm, rfl⟩ := Option.map_eq_some_iff.mp hs
        refine ⟨h.mesh.step hm, h.sessions, fun i => (h.linked i).onward (.step hm)
          fun htaker => ?_⟩
        rw [htaker] at hno
        exact Option.not_isSome_iff_eq_none.mp hno
  | session j act =>
      rw [DeliveryWorld.step] at hs
      split at hs
      · cases hs
      · next hno =>
        obtain ⟨x, hx, rfl⟩ := Option.map_eq_some_iff.mp hs
        have hcons := h.sessions j
        have hproceeds : Proceeds (w.sessions j) x := by
          refine .step (fun msg q heq => hno ?_) hcons.calls hx
          rw [heq]
          rfl
        refine h.setSession (hcons.step (hmax j) hx) fun i hi => ?_
        subst hi
        exact (h.linked i).proceeds hproceeds hcons.calls
  | hand i j p y => exact h.hand hmax hs

/-! ## From put to session -/

theorem fromNode_made (made : List Made) (j : Nat) :
    fromNode j (made.map fun e => (e.source, e.msg)) =
      (made.filter fun e => e.source == j).map Made.msg := by
  rw [fromNode, List.filterMap_map]
  induction made with
  | nil => rfl
  | cons e made ih =>
      rw [List.filterMap_cons, ih, List.filter_cons]
      by_cases hj : e.source = j
      · simp [hj]
      · simp [hj]

/-- **From the put to the session, once and in order.**  On a bus that hands out nothing but
what was put, and keeps the order of each connection, in every run of nodes and of
sessions with room for a message, whatever connects, detaches or is evicted meanwhile:
what a subscription has passed on of a connection's messages, into channels or the offline
queue, is a part of the messages that connection put whose topic the filter matches, each
once and in the order they were put.  With QoS 1, whenever the task does not wait for a
call, it ends with all of those put from any moment on of which the bus lost none. -/
theorem delivered_in_order [HashOrder] (hgenuine : bus.Genuine (Watch.accepts scope))
    (hordered : bus.Ordered) (hscope : ScopeOk scope) (hnodes : ∀ n, (nodes n).scope = scope)
    {files : Nat → Option Bytes} {d : Nat → Disk} (hmax : ∀ j, 1 ≤ (s j).maxQueue)
    (hroom : ∀ j, (s j).inner.queue.length ≤ (s j).maxQueue) {acts : List DeliveryAction}
    (hrun : Run.exec (step bus nodes scope owner) (init files s d) acts = some w) {i k : Nat}
    {user filter : Str} {q : QoS}
    (hkey : (keys w.mesh.history)[i]? = some (.forward k user filter q)) (j : Nat) :
    ((w.passedOn owner i j).filter fun msg => isTopic scope msg.1).Sublist
        ((messages scope (putsOf j w.mesh.history)).filter fun msg => topicMatches filter msg.1) ∧
      ∀ h later, w.mesh.history = h ++ later →
        PubSub.Bus.Lossless (Watch.accepts scope) (.forward k user filter q) i j h later →
        q ≠ .atMostOnce → w.idle owner i = true →
          ((messages scope (putsOf j later)).filter fun msg => topicMatches filter msg.1) <:+
            (w.passedOn owner i j).filter fun msg => isTopic scope msg.1 := by
  have hinv : Inv bus nodes scope owner s w :=
    Run.exec_invariant (fun _ _ _ hI hs => hI.step hmax hs) acts
      (Inv.init bus nodes scope owner files d hroom) hrun
  have hlinked := hinv.linked i
  have hgranted : w.mesh.granted i = some q := Option.bind_eq_some_iff.mpr ⟨_, hkey, rfl⟩
  have hcalls : fromNode j (calls scope i w.mesh.history) =
      ((w.made i).filter fun e => e.source == j).map Made.msg := by
    rw [hlinked.handed (by rw [hgranted]; rfl), fromNode_made]
  refine ⟨?_, fun h later hsplit hall hq hidle => ?_⟩
  · have hpart := hinv.mesh.inOrder hgenuine hordered hscope hnodes hkey j
    rw [hcalls] at hpart
    exact ((hlinked.passedOn_part j).filter _).trans hpart
  · have hend := hinv.mesh.toTheEnd hgenuine hordered hscope hnodes hkey hsplit hall
    have heq := hlinked.passedOn_all (hinv.sessions _).calls (hlinked.all_done hidle)
      (fun hnone => hq (Option.some.inj (hgranted.symm.trans hnone))) j
    rw [hcalls] at hend
    rw [passedOn, heq]
    exact hend

/-- The plant's message, for a session of `hmi` that is offline. -/
def plantDeliveries : List DeliveryAction :=
  (plantActs.take 16).map .mesh ++ [.hand 1 1 1 plantSample, .session 0 (.run 0 .ok 5),
    .session 0 (.run 0 .ok 5)]

theorem plant_delivered_in_order :
    ∃ w, Run.exec (@step plantBus plantNode [] (fun _ => 0) .asStored)
        (init (fun _ => none) (fun _ => .new ∅ "hmi".toList 10 (some 5) none none) fun _ => ∅)
        plantDeliveries = some w ∧
      w.passedOn (fun _ => 0) 1 1 = [("kiln".toList, [57])] ∧
      (messages [] (putsOf 1 w.mesh.history)).filter
          (fun msg => topicMatches "kiln/#".toList msg.1) <:+
        (w.passedOn (fun _ => 0) 1 1).filter fun msg => isTopic [] msg.1 := by
  obtain ⟨w, hrun, hkey, hpassed, hall, hidle⟩ : ∃ w,
      Run.exec (@step plantBus plantNode [] (fun _ => 0) .asStored)
        (init (fun _ => none) (fun _ => .new ∅ "hmi".toList 10 (some 5) none none) fun _ => ∅)
        plantDeliveries = some w ∧
      (keys w.mesh.history)[1]? = some (.forward 2 "hmi".toList "kiln/#".toList .atLeastOnce) ∧
      w.passedOn (fun _ => 0) 1 1 = [("kiln".toList, [57])] ∧
      PubSub.Bus.Lossless (Watch.accepts [])
        (.forward 2 "hmi".toList "kiln/#".toList .atLeastOnce) 1 1 []
        w.mesh.history ∧
      w.idle (fun _ => 0) 1 = true := ⟨_, rfl, rfl, rfl, of_decide_eq_true rfl, rfl⟩
  exact ⟨w, hrun, hpassed, (@delivered_in_order plantBus plantNode [] (fun _ => 0) w
    (fun _ => .new ∅ "hmi".toList 10 (some 5) none none) .asStored (PubSub.Bus.lawful_genuine _)
    (PubSub.Bus.lawful_ordered _) (fun _ hc => absurd hc List.not_mem_nil) (fun _ => rfl)
    (fun _ => none) (fun _ => ∅) (fun _ => by decide)
    (fun _ => by decide) plantDeliveries hrun 1 2 _ _ _ hkey 1).2 []
    w.mesh.history rfl hall (by decide) hidle⟩

end DeliveryWorld

end Entmoot
