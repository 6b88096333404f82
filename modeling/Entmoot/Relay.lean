/-
# `Entmoot.Relay` — what becomes of a publisher's QoS

A PUBLISH goes onto the bus as its payload alone, and as an envelope of payload and
time if it is retained; the QoS of its sender ends with its acknowledgement.  A
subscriber gets it live or from its offline backlog, through the forwarding task of a
subscription, or as a retained message behind the SUBACK, and each of these routes
sends with a QoS of its own: the one granted, or 1.

`RelayWorld` is one subscriber's session with its forwarding tasks, the retained
store of its node, and what any clients put on the bus; samples arrive in any order,
any number of times.  What is on its way is marked with its `Origin`, the PUBLISH and
the subscription.  On every route the packet carries the QoS of the subscription, and
only a subscription of QoS 1 holds anything (`delivered_at_granted`).
-/
import Entmoot.Will
import Entmoot.Cleanup
import Entmoot.Names
import Entmoot.Replica
import Entmoot.Mirror

namespace Entmoot

open Traced
open Wire (stripPrefix)
open SessionState (DeliverCall DeliverStep SendResult DeliverSection deliverStep_section)

/-! ## The system -/

/-- The lower of two. -/
def minQos (p g : QoS) : QoS := if p.toByte ≤ g.toByte then p else g

def BusOp.key : BusOp → Str
  | .put ke _ => ke
  | .delete ke => ke

/-- The payload of the sample; a delete has none. -/
def BusOp.payload : BusOp → Bytes
  | .put _ payload => payload
  | .delete _ => []

/-- The PUBLISH a message comes from, and the subscription it goes through. -/
structure Origin where
  publish : Publish
  filter : Str
  granted : QoS

def Origin.msg (o : Origin) : Msg := (o.publish.topic, o.publish.payload)

/-- The subscription matches the topic, in the store or on the bus. -/
def Origin.Matches (scope : Str) (o : Origin) : Prop :=
  topicMatches o.filter o.publish.topic = true ∨
    ∃ fk tk, filterToKeyexpr o.filter scope = .ok fk ∧
      topicToKeyexpr o.publish.topic scope = .ok tk ∧
      busMatches fk tk = true

/-- The PUBLISH packets put into the outbound channel. -/
def sentPublishes (w : List ServeEffect) : List Publish :=
  w.filterMap fun | .send (.publish p) => some p | _ => none

structure RelayWorld where
  published : List Publish
  /-- what they did on the bus -/
  ops : List (Publish × BusOp)
  retained : RetainedStore
  /-- the PUBLISH whose value the store holds of a topic -/
  slots : Str → Publish
  /-- the answers to the filters asked for so far; a cached one is an earlier one -/
  scans : List (Str × List (Publish × RetainedEntry))
  session : SessionState
  disk : Disk
  /-- the forwarding tasks: filter and granted QoS -/
  tasks : List (Str × QoS)
  calls : List (Origin × DeliverCall)
  /-- where the messages in the queue come from -/
  queued : List Origin
  /-- the backlogs that attaches took, as far as they are not sent -/
  backlogs : List (List (Origin × Msg))
  /-- the PUBLISH packets sent to the subscriber -/
  out : List (Origin × Publish)

inductive RelayAction where
  /-- some client handles a PUBLISH -/
  | publish (c : Client) (t : Turn) (p : Publish) (s : ServeState)
  /-- the subscriber asks for a filter, the `i`-th of its SUBSCRIBE -/
  | subscribe (c : Client) (t : Turn) (i : Nat) (filter : Str) (reqQos : QoS) (s : ServeState)
  /-- forwarding task `i` takes sample `k` -/
  | take (i k : Nat)
  /-- the next section of `deliver` call `j` -/
  | run (j : Nat) (r : SendResult) (now : Instant)
  /-- the replica gets sample `k`, live or as a reply to its query -/
  | store (k : Nat) (feed : Feed)
  | scan (filter : Str)
  /-- the retained messages of subscription `i`, the `g`-th granted of its SUBSCRIBE, as
  answer `k` has them -/
  | sendRetained (c : Client) (t : Turn) (g i k : Nat) (s : ServeState)
  | attach (identity : Str) (sink : Sender) (kick : Notify)
  | sendBacklog (i : Nat) (nextPkid : Nat → UInt16) (s : ServeState)
  | detach (epoch : Nat) (now : Instant)
  | evict (tx : Sender) (now : Instant)

namespace RelayWorld

/-- A session that may hold messages from before, out of its queue file. -/
def init (s : SessionState) (d : Disk) (past : List Origin) : RelayWorld where
  published := past.map Origin.publish
  ops := []
  retained := .empty
  slots := fun _ => .new [] .atMostOnce []
  scans := []
  session := s
  disk := d
  tasks := past.map fun o => (o.filter, o.granted)
  calls := []
  queued := past
  backlogs := []
  out := []

/-- What a forwarding task makes of a sample: nothing if its subscriber does not get it
or its key is no topic. -/
def sampleFor (scope filter : Str) (op : BusOp) : Option Msg :=
  match filterToKeyexpr filter scope with
  | .error _ => none
  | .ok fk =>
      if busMatches fk op.key then (keyexprToTopic op.key scope).map fun t =>
        (t, op.payload) else none

/-- The replica after a sample. -/
def stored (scope : Str) (s : RetainedStore) : Feed → BusOp → RetainedStore
  | .live, .put ke raw => s.applySample scope ke .put raw
  | .live, .delete ke => s.applySample scope ke .delete []
  | .reply, .put ke raw => s.applyReply scope ke raw
  | .reply, .delete _ => s

def slotsAfter (scope : Str) (slots : Str → Publish) (p : Publish) : BusOp → Str → Publish
  | .put ke _ =>
      match retainedKeyexprToTopic ke scope with
      | some t => Function.update slots t p
      | none => slots
  | .delete _ => slots

/-- Where the queue comes from after a section of a call. -/
def queuedAfter (w : RelayWorld) (o : Origin) (c : DeliverCall) : List Origin :=
  if c.pc = .done .queued then
    (if w.session.inner.queue.length ≥ w.session.maxQueue then w.queued.tail else w.queued) ++ [o]
  else w.queued

/-- A forwarding task, if the subscription is granted. -/
def subscribed [HashOrder] (w : RelayWorld) (filter : Str) :
    Except ServeError SubscribeReasonCode → RelayWorld
  | .ok (.success granted) =>
      let i := w.session.insertSub w.disk filter granted w.tasks.length
      { w with session := i.1, disk := i.2.1, tasks := w.tasks ++ [(filter, granted)] }
  | _ => w

def step [HashOrder] (scope : Str) (w : RelayWorld) : RelayAction → Option RelayWorld
  | .publish c t p s =>
      if c.broker.scope = scope then
        (c.handlePublish t p s).map fun e =>
          { w with
            published := w.published ++ [p]
            ops := w.ops ++ (busOps e.2.1).map fun op => (p, op) }
      else none
  | .subscribe c t i filter reqQos s =>
      if c.broker.scope = scope then
        (c.subscribe t i filter reqQos s).map fun e => w.subscribed filter e.1
      else none
  | .take i k =>
      (w.tasks[i]?).bind fun f => (w.ops[k]?).bind fun x => (sampleFor scope f.1 x.2).map fun m =>
        { w with calls := w.calls ++ [(⟨x.1, f.1, f.2⟩, ⟨m, f.2, .readSink⟩)] }
  | .run j r now =>
      (w.calls[j]?).bind fun x => (w.session.deliverStep w.disk x.2 r now).map fun o =>
        { w with
          session := o.session
          disk := o.disk
          calls := w.calls.set j (x.1, o.call)
          queued := w.queuedAfter x.1 o.call
          out := w.out ++ o.pushed.toList.map fun q => (x.1, q.2) }
  | .store k feed =>
      (w.ops[k]?).map fun x =>
        { w with
          retained := stored scope w.retained feed x.2, slots := slotsAfter scope w.slots x.1 x.2 }
  | .scan filter =>
      let es := (RetainedStore.matching w.retained.map filter).map fun e => (w.slots e.1, e)
      some { w with scans := w.scans ++ [(filter, es)] }
  | .sendRetained c t g i k s =>
      (w.tasks[i]?).bind fun f => (w.scans[k]?).bind fun x =>
        if x.1 = f.1 then
          let t := { t with matching := fun _ _ => x.2.map Prod.snd }
          (c.deliverRetained t g f.1 f.2 s).map fun e =>
            { w with
              out := w.out ++ (x.2.zip (sentPublishes e.2.1)).map fun y =>
                (⟨y.1.1, f.1, f.2⟩, y.2) }
        else none
  | .attach identity sink kick =>
      let a := w.session.attachConn w.disk identity sink kick
      some { w with
        session := a.session, disk := a.disk, queued := []
        backlogs := w.backlogs ++ [w.queued.zip a.backlog] }
  | .sendBacklog i nextPkid s =>
      (w.backlogs[i]?).bind fun b => (sendBacklog nextPkid (b.map Prod.snd) s).map fun e =>
        { w with
          backlogs := w.backlogs.set i []
          out := w.out ++ (b.zip (sentPublishes e.2.1)).map fun y => (y.1.1, y.2) }
  | .detach epoch now => some { w with session := (w.session.detachConn epoch now).1 }
  | .evict tx now => some { w with session := (w.session.evictSlow tx now).1 }

end RelayWorld

/-! ## What the programs put on the bus and into the channel -/

/-- A bus operation of a PUBLISH: its payload live, and what a retained one does to its
slot. -/
def FromPublish (scope : Str) (p : Publish) (op : BusOp) : Prop :=
  (∃ ke, topicToKeyexpr p.topic scope = .ok ke) ∧
    (op = .put (inScope scope p.topic) p.payload ∨
      op = .delete (retainedKeyexpr p.topic scope) ∨
        ∃ now, op = .put (retainedKeyexpr p.topic scope) (encodeEnvelope p.payload now))

/-- Every bus operation on the way has the property. -/
def onBus (P : BusOp → Prop) : Frame ServeState ServeEffect where
  rel _ w _ := ∀ op ∈ busOps w, P op
  nil _ := fun _ h => absurd h List.not_mem_nil
  append := by
    intro s t u w w' hw hw' op hop
    rw [busOps_append] at hop
    rcases List.mem_append.mp hop with hop | hop
    · exact hw op hop
    · exact hw' op hop

section Bus
variable {P : BusOp → Prop}

theorem onBus_ofWill : OfWill (onBus P) := fun _ _ _ _ h => absurd h List.not_mem_nil

theorem onBus_allows {op : BusOp} (h : P op) : Allows (onBus P) (.bus op) :=
  fun _ _ hop => List.mem_singleton.mp hop ▸ h

end Bus

theorem handlePublish_onBus (c : Client) (t : Turn) (p : Publish) :
    Within (onBus (FromPublish c.broker.scope p)) (c.handlePublish t p) := by
  refine .bind (within_require _ _) fun _ => ?_
  split
  · exact .fail _
  · next ke hke =>
    obtain ⟨_, rfl⟩ := topicToKeyexpr_iff.mp hke
    refine .bind (within_onlyIf _ (.bind (.emit (onBus_allows ⟨⟨_, hke⟩, .inl rfl⟩)) fun _ =>
      .bind (within_require _ _) fun _ => within_onlyIf _
        (.bind (.emit (onBus_allows ⟨⟨_, hke⟩, .inr ?_⟩)) fun _ => within_require _ _))) fun _ =>
          Client.within_acknowledge onBus_ofWill (fun _ _ _ h => absurd h List.not_mem_nil) p
    split
    · exact .inl rfl
    · exact .inr ⟨t.now, rfl⟩

/-- A granted QoS is the one asked for, or 1. -/
theorem subscribe_granted (c : Client) (t : Turn) (i : Nat) (filter : Str) (reqQos : QoS) :
    Returns (fun r => ∀ g, r = .ok (.success g) → g = Client.granted reqQos)
      (c.subscribe t i filter reqQos) := by
  have herr : ∀ (e : ServeError) (g : QoS), (.error e : Except ServeError SubscribeReasonCode) =
      .ok (.success g) → g = Client.granted reqQos := fun _ _ h => (by cases h)
  have hfail : ∀ g : QoS, (.ok .failure : Except ServeError SubscribeReasonCode) =
      .ok (.success g) →
      g = Client.granted reqQos := fun _ h => (by cases h)
  rw [Client.subscribe]
  split
  · exact .pure hfail
  · split
    · refine .bind herr fun _ => .bind herr fun _ => .pure fun g hg => ?_
      cases hg
      rfl
    · exact .pure hfail

/-- Packets for a list of messages, one by one from the front, as far as they went. -/
inductive Sends {α : Type} (R : α → Publish → Prop) : List α → List Publish → Prop where
  | none (as : List α) : Sends R as []
  | one {a : α} {q : Publish} {as : List α} {qs : List Publish} (h : R a q)
      (hrest : Sends R as qs) :
      Sends R (a :: as) (q :: qs)

theorem Sends.zip {α β : Type} {R : β → Publish → Prop} {f : α → β} :
    ∀ {as : List α} {qs : List Publish},
    Sends R (as.map f) qs → ∀ x ∈ as.zip qs, R (f x.1) x.2 := by
  intro as
  induction as with
  | nil => exact fun _ _ hx => absurd hx List.not_mem_nil
  | cons a as ih =>
      intro qs h x hx
      cases h with
      | none => exact absurd hx List.not_mem_nil
      | one h hrest =>
          rcases List.mem_cons.mp hx with rfl | hx
          · exact h
          · exact ih hrest x hx

theorem sentPublishes_append (w w' : List ServeEffect) :
    sentPublishes (w ++ w') = sentPublishes w ++ sentPublishes w' := List.filterMap_append ..

/-- Nothing sent on the way. -/
def sendsNothing : Frame ServeState ServeEffect where
  rel _ w _ := sentPublishes w = []
  nil _ := rfl
  append := by
    intro s t u w w' hw hw'
    rw [sentPublishes_append, hw, hw']
    rfl

theorem sendsNothing_ofWill : OfWill sendsNothing := fun _ _ _ => rfl

theorem sends_cons {α : Type} {R : α → Publish → Prop} {a : α} {as : List α} {x : ServeM UInt16}
    {p : UInt16 → Publish} {y : ServeM Unit} {s s' : ServeState} {r : Except ServeError Unit}
    {w : List ServeEffect} (hx : Within sendsNothing x) (hp : ∀ n, R a (p n))
    (hy : ∀ {s r w s'}, Ends y s r w s' → Sends R as (sentPublishes w))
    (h : Ends (x >>= fun n => send (.publish (p n)) >>= fun _ => y) s r w s') :
    Sends R (a :: as) (sentPublishes w) := by
  rcases ends_bind.mp h with ⟨e, he, _⟩ | ⟨n, w₁, u, w₂, htake, hsends, rfl⟩
  · rw [hx _ _ _ _ he]
    exact .none _
  · rw [sentPublishes_append, hx _ _ _ _ htake, List.nil_append]
    rcases ends_bind.mp hsends with ⟨e, he, rfl⟩ | ⟨_, w₃, v, w₄, hsend, hrest, rfl⟩
    · rcases send_ends he with ⟨_, _, rfl, _⟩ | ⟨_, _, hok, _⟩
      · exact .none _
      · cases hok
    · rcases send_ends hsend with ⟨_, hr, _⟩ | ⟨_, _, _, rfl, _⟩
      · cases hr
      · rw [sentPublishes_append]
        exact .one (hp n) (hy hrest)

theorem sendBacklog_sends {nextPkid : Nat → UInt16} : ∀ {ms : List Msg} {s s' : ServeState}
    {w : List ServeEffect} {r : Except ServeError Unit}, Ends (sendBacklog nextPkid ms) s r w s' →
    Sends (fun m q => (q.topic, q.payload) = m ∧ q.qos = .atLeastOnce) ms (sentPublishes w) := by
  intro ms
  induction ms with
  | nil =>
      intro s s' w r h
      obtain ⟨_, rfl, _⟩ := ends_pure.mp h
      exact .none _
  | cons m ms ih =>
      intro s s' w r h
      exact sends_cons (within_takePkid sendsNothing_ofWill nextPkid) (fun _ => ⟨rfl, rfl⟩) ih h

/-- Retained messages are sent at the granted QoS. -/
theorem sendRetained_sends {c : Client} {t : Turn} {g : QoS} {k : Nat} : ∀ {es : List RetainedEntry}
    {j : Nat} {s s' : ServeState} {w : List ServeEffect} {r : Except ServeError Unit},
    Ends (c.sendRetained t g k j es) s r w s' →
    Sends (fun e q => (q.topic, q.payload) = (e.1, e.2.1) ∧ q.qos = g) es (sentPublishes w) := by
  intro es
  induction es with
  | nil =>
      intro j s s' w r h
      obtain ⟨_, rfl, _⟩ := ends_pure.mp h
      exact .none _
  | cons e es ih =>
      intro j s s' w r h
      have hstale : Within sendsNothing (c.flagIfStale (t.nowAfter k j) e.1 e.2.2) :=
        c.within_flagIfStale (fun _ _ => rfl) _ e.1 e.2.2
      refine sends_cons (c.within_pkidFor sendsNothing_ofWill g) (fun _ => ⟨rfl, rfl⟩) ?_ h
      intro s r w s' hends
      rcases ends_bind.mp hends with ⟨e, he, _⟩ | ⟨_, w₁, u, w₂, hflag, hrest, rfl⟩
      · rw [hstale _ _ _ _ he]
        exact .none _
      · rw [sentPublishes_append, hstale _ _ _ _ hflag, List.nil_append]
        exact ih hrest

/-! ## The invariant -/

/-- A PUBLISH that was handled, and a subscription of the subscriber that matches it. -/
structure Known (scope : Str) (published : List Publish) (tasks : List (Str × QoS)) (o : Origin) :
    Prop where
  publish : o.publish ∈ published
  task : (o.filter, o.granted) ∈ tasks
  fits : o.Matches scope

/-- A message held for a subscription of QoS 1. -/
structure Held (scope : Str) (published : List Publish) (tasks : List (Str × QoS)) (o : Origin)
    (m : Msg) : Prop where
  known : Known scope published tasks o
  msg : m = o.msg
  granted : o.granted = .atLeastOnce

/-- A packet with the QoS of its subscription. -/
structure AtGranted (o : Origin) (q : Publish) : Prop where
  msg : (q.topic, q.payload) = o.msg
  qos : q.qos = o.granted

/-- A `deliver` call on its way for a subscription. -/
structure CallOf (o : Origin) (c : DeliverCall) : Prop where
  msg : c.msg = o.msg
  qos : c.qos = o.granted
  sending : ∀ tx q, c.pc = .sending tx q → AtGranted o q
  queueing : c.pc = .queueing → o.granted ≠ .atMostOnce

structure Sourced (scope : Str) (w : RelayWorld) : Prop where
  ops : ∀ x ∈ w.ops, x.1 ∈ w.published ∧ FromPublish scope x.1 x.2
  tasks : ∀ f ∈ w.tasks, ∃ reqQos, f.2 = Client.granted reqQos
  slots : ∀ (t : Str) (v : Bytes × SystemTime), w.retained.map.lookup t = some v →
    w.slots t ∈ w.published ∧ ((w.slots t).topic, (w.slots t).payload) = (t, v.1)
  scans : ∀ x ∈ w.scans, ∀ y ∈ x.2, y.1 ∈ w.published ∧
    (y.1.topic, y.1.payload) = (y.2.1, y.2.2.1) ∧ topicMatches x.1 y.2.1 = true
  calls : ∀ x ∈ w.calls, Known scope w.published w.tasks x.1 ∧ CallOf x.1 x.2
  queue : List.Forall₂ (Held scope w.published w.tasks) w.queued w.session.inner.queue
  backlogs : ∀ b ∈ w.backlogs, ∀ x ∈ b, Held scope w.published w.tasks x.1 x.2
  out : ∀ x ∈ w.out, Known scope w.published w.tasks x.1 ∧ AtGranted x.1 x.2

section Steps
variable {scope : Str} {w w' : RelayWorld}

theorem Known.grow {ps ps' : List Publish} {fs fs' : List (Str × QoS)} {o : Origin}
    (h : Known scope ps fs o) (hp : ps ⊆ ps') (hf : fs ⊆ fs') : Known scope ps' fs' o :=
  ⟨hp h.publish, hf h.task, h.fits⟩

theorem Sourced.grow (h : Sourced scope w) {ps : List Publish} {fs : List (Str × QoS)}
    (hp : w.published ⊆ ps) (hf : w.tasks ⊆ fs)
    (hfs : ∀ f ∈ fs, ∃ reqQos, f.2 = Client.granted reqQos) :
    Sourced scope { w with published := ps, tasks := fs } where
  ops := fun x hx => ⟨hp (h.ops x hx).1, (h.ops x hx).2⟩
  tasks := hfs
  slots := fun t v hv => ⟨hp (h.slots t v hv).1, (h.slots t v hv).2⟩
  scans := fun x hx y hy => ⟨hp (h.scans x hx y hy).1, (h.scans x hx y hy).2⟩
  calls := fun x hx => ⟨(h.calls x hx).1.grow hp hf, (h.calls x hx).2⟩
  queue := h.queue.imp fun _ _ hm => ⟨hm.known.grow hp hf, hm.msg, hm.granted⟩
  backlogs := by
    intro b hb x hx
    have hm := h.backlogs b hb x hx
    exact ⟨hm.known.grow hp hf, hm.msg, hm.granted⟩
  out := fun x hx => ⟨(h.out x hx).1.grow hp hf, (h.out x hx).2⟩

theorem Sourced.publish (h : Sourced scope w) (p : Publish) {ops : List BusOp}
    (hops : ∀ op ∈ ops, FromPublish scope p op) :
    Sourced scope { w with
      published := w.published ++ [p], ops := w.ops ++ ops.map fun op => (p, op) } := by
  have hgrown : Sourced scope { w with published := w.published ++ [p] } :=
    h.grow (List.subset_append_left _ _) (List.Subset.refl _) h.tasks
  refine { hgrown with ops := fun x hx => ?_ }
  rcases List.mem_append.mp hx with hx | hx
  · exact hgrown.ops x hx
  · obtain ⟨op, hop, rfl⟩ := List.mem_map.mp hx
    exact ⟨List.mem_append_right _ (.head _), hops op hop⟩

theorem Sourced.subscribe [HashOrder] (h : Sourced scope w) {filter : Str} {reqQos : QoS}
    {r : Except ServeError SubscribeReasonCode}
    (hr : ∀ g, r = .ok (.success g) → g = Client.granted reqQos) :
    Sourced scope (w.subscribed filter r) := by
  simp only [RelayWorld.subscribed]
  split
  · next g =>
    have htasks : ∀ f ∈ w.tasks ++ [(filter, g)], ∃ reqQos, f.2 = Client.granted reqQos := by
      intro f hf
      rcases List.mem_append.mp hf with hf | hf
      · exact h.tasks f hf
      · rw [List.mem_singleton.mp hf]
        exact ⟨reqQos, hr g rfl⟩
    have hgrown : Sourced scope { w with tasks := w.tasks ++ [(filter, g)] } :=
      h.grow (List.Subset.refl _) (List.subset_append_left _ _) htasks
    exact { hgrown with queue := hgrown.queue }
  · exact h

/-- What a forwarding task makes of a sample is the message of the PUBLISH behind it. -/
theorem sampleFor_fromPublish {p : Publish} {op : BusOp} {filter : Str} {m : Msg}
    (h : FromPublish scope p op) (hm : RelayWorld.sampleFor scope filter op = some m) (g : QoS) :
    m = (Origin.mk p filter g).msg ∧ (Origin.mk p filter g).Matches scope := by
  obtain ⟨⟨ke, hke⟩, hop⟩ := h
  obtain ⟨hlevels, rfl⟩ := topicToKeyexpr_iff.mp hke
  -- a retained key is no topic
  have hretained : keyexprToTopic (retainedKeyexpr p.topic scope) scope = none :=
    keyexprToTopic_retained ('/' :: p.topic) scope
  rw [RelayWorld.sampleFor] at hm
  split at hm
  · cases hm
  · next fk hfk =>
    split at hm
    · next hmatch =>
      obtain ⟨t, ht, rfl⟩ := Option.map_eq_some_iff.mp hm
      rcases hop with rfl | rfl | ⟨now, rfl⟩
      · rw [BusOp.key, keyexprToTopic_of_head scope (topic_head hlevels)] at ht
        cases ht
        exact ⟨rfl, .inr ⟨fk, _, hfk, hke, hmatch⟩⟩
      · rw [BusOp.key, hretained] at ht
        cases ht
      · rw [BusOp.key, hretained] at ht
        cases ht
    · cases hm

theorem Sourced.take (h : Sourced scope w) {f : Str × QoS} {x : Publish × BusOp} {m : Msg}
    (hf : f ∈ w.tasks) (hx : x ∈ w.ops) (hm : RelayWorld.sampleFor scope f.1 x.2 = some m) :
    Sourced scope { w with calls := w.calls ++ [(⟨x.1, f.1, f.2⟩, ⟨m, f.2, .readSink⟩)] } := by
  obtain ⟨hpublished, hfrom⟩ := h.ops x hx
  obtain ⟨hmsg, hmatches⟩ := sampleFor_fromPublish hfrom hm f.2
  refine { h with calls := fun y hy => ?_ }
  rcases List.mem_append.mp hy with hy | hy
  · exact h.calls y hy
  · rw [List.mem_singleton.mp hy]
    exact ⟨⟨hpublished, hf, hmatches⟩, hmsg, rfl, fun _ _ hpc => (by cases hpc), fun hpc =>
      (by cases hpc)⟩

theorem CallOf.section {o : Origin} {c : DeliverCall} {s : SessionState} {d : Disk} {now : Instant}
    {r : SendResult} {st : DeliverStep} (h : CallOf o c) (hst : DeliverSection s d c now r st) :
    CallOf o st.call := by
  cases hst with
  | @live tx _ hpc hsink =>
      refine ⟨h.msg, h.qos, fun tx' q hq => ?_, fun hpc => (by cases hpc)⟩
      cases hq
      obtain ⟨hmsg, hqos⟩ := SessionState.publishFor_publish s c.msg c.qos
      exact ⟨hmsg.trans h.msg, hqos.trans h.qos⟩
  | offline hpc hsink hno =>
      refine ⟨h.msg, h.qos, fun _ _ hq => (by cases hq), fun _ hzero => hno (.inl ?_)⟩
      rw [h.qos, hzero]
  | drop | sent | timeout | closed | evict | clear | retry | queue =>
      exact ⟨h.msg, h.qos, fun _ _ hq => (by cases hq), fun hpc => (by cases hpc)⟩

/-- The queue after a section: with the message, or as before. -/
theorem queue_of_section {c : DeliverCall} {s : SessionState} {d : Disk} {now : Instant}
    {r : SendResult} {st : DeliverStep} (hst : DeliverSection s d c now r st) :
    c.pc = .queueing ∧ st.call.pc = .done .queued ∧
        st.session.inner.queue = (s.pushQueue c.msg).inner.queue ∨
      st.call.pc ≠ .done .queued ∧ st.session.inner.queue = s.inner.queue := by
  cases hst with
  | queue hpc hsink => exact .inl ⟨hpc, rfl, rfl⟩
  | live hpc hsink => exact .inr ⟨fun h => (by cases h),
      (MirrorWorld.SameQueue.of_noted (SessionState.noted_publishFor _ _ _)).queue⟩
  | evict hpc => exact .inr ⟨fun h => (by cases h),
      (MirrorWorld.SameQueue.of_noted (SessionState.noted_evictSlow _ _ _)).queue⟩
  | clear hpc => exact .inr ⟨fun h => (by cases h),
      (MirrorWorld.SameQueue.of_noted (SessionState.noted_clearSink _ _ _)).queue⟩
  | drop | offline | sent | timeout | closed | retry => exact .inr ⟨fun h => (by cases h), rfl⟩

theorem forall₂_tail {α β : Type} {R : α → β → Prop} {as : List α} {bs : List β}
    (h : List.Forall₂ R as bs) : List.Forall₂ R as.tail bs.tail := by
  cases h with
  | nil => exact .nil
  | cons _ h => exact h

theorem Sourced.run (h : Sourced scope w) {j : Nat} {x : Origin × DeliverCall} {r : SendResult}
    {now : Instant} {st : DeliverStep} (hx : x ∈ w.calls)
    (hst : w.session.deliverStep w.disk x.2 r now = some st) :
    Sourced scope { w with
      session := st.session, disk := st.disk, calls := w.calls.set j (x.1, st.call)
      queued := w.queuedAfter x.1 st.call
      out := w.out ++ st.pushed.toList.map fun q => (x.1, q.2) } := by
  obtain ⟨hknown, hcall⟩ := h.calls x hx
  have hsection := deliverStep_section hst
  refine { h with calls := fun y hy => ?_, queue := ?_, out := fun y hy => ?_ }
  · rcases List.mem_or_eq_of_mem_set hy with hy | rfl
    · exact h.calls y hy
    · exact ⟨hknown, hcall.section hsection⟩
  · dsimp only [RelayWorld.queuedAfter]
    rcases queue_of_section hsection with ⟨hpc, hdone, hqueue⟩ | ⟨hnot, hqueue⟩
    · have hheld : Held scope w.published w.tasks x.1 x.2.msg := by
        refine ⟨hknown, hcall.msg, ?_⟩
        obtain ⟨reqQos, hgranted⟩ := h.tasks _ hknown.task
        have hne := hcall.queueing hpc
        dsimp only at hgranted
        rw [hgranted] at hne ⊢
        cases reqQos with
        | atMostOnce => exact absurd rfl hne
        | atLeastOnce | exactlyOnce => rfl
      rw [if_pos hdone, hqueue]
      refine List.rel_append ?_ (.cons hheld .nil)
      split
      · exact forall₂_tail h.queue
      · exact h.queue
    · rw [if_neg hnot, hqueue]
      exact h.queue
  · rcases List.mem_append.mp hy with hy | hy
    · exact h.out y hy
    · obtain ⟨⟨tx, q⟩, hq, rfl⟩ := List.mem_map.mp hy
      have hpushed := (SessionState.deliverStep_pushed hst tx q).mp (Option.mem_toList.mp hq)
      exact ⟨hknown, hcall.sending tx q hpushed.1⟩

/-- An accepted topic is no key of the retained keyspace. -/
theorem retainedKeyexprToTopic_topic {t : Str} (h : ∀ l ∈ t.splitOn '/', TopicLevel l) :
    retainedKeyexprToTopic (inScope scope t) scope = none := by
  have hchunk : stripPrefix retainedChunk t = none := stripPrefix_of_head (topic_head h)
  rw [retainedKeyexprToTopic, stripScope_inScope]
  show (stripPrefix retainedChunk t).bind _ = none
  rw [hchunk]
  rfl

/-- What a sample leaves in the store: all but one topic as before, and of that one
nothing or the payload of the PUBLISH behind the sample. -/
theorem stored_fromPublish {s : RetainedStore} {slots : Str → Publish} {p : Publish} {op : BusOp}
    {feed : Feed} (h : FromPublish scope p op) {t : Str} {v : Bytes × SystemTime}
    (hv : (RelayWorld.stored scope s feed op).map.lookup t = some v) :
    (s.map.lookup t = some v ∧ RelayWorld.slotsAfter scope slots p op t = slots t) ∨
      (RelayWorld.slotsAfter scope slots p op t = p ∧ (p.topic, p.payload) = (t, v.1)) := by
  obtain ⟨⟨ke, hke⟩, hop⟩ := h
  obtain ⟨hlevels, rfl⟩ := topicToKeyexpr_iff.mp hke
  rcases hop with rfl | rfl | ⟨now, rfl⟩
  · have hnone := @retainedKeyexprToTopic_topic scope _ hlevels
    left
    cases feed with
    | live =>
        simp only [RelayWorld.stored, RetainedStore.applySample, hnone] at hv
        exact ⟨hv, by simp only [RelayWorld.slotsAfter, hnone]⟩
    | reply =>
        simp only [RelayWorld.stored, RetainedStore.applyReply, hnone] at hv
        exact ⟨hv, by simp only [RelayWorld.slotsAfter, hnone]⟩
  · left
    refine ⟨?_, rfl⟩
    cases feed with
    | live =>
        simp only [RelayWorld.stored, RetainedStore.applySample,
          retainedKeyexprToTopic_retainedKeyexpr, RetainedStore.remove, Keyed.lookup_erase] at hv
        split at hv
        · cases hv
        · exact hv
    | reply => exact hv
  · have hstored : (RelayWorld.stored scope s feed
        (.put (retainedKeyexpr p.topic scope) (encodeEnvelope p.payload now))) =
          s.insert p.topic p.payload (truncMillis now) := by
      cases feed with
      | live => exact RetainedStore.applySample_put scope s p.topic p.payload now
      | reply => exact RetainedStore.applyReply_put scope s p.topic p.payload now
    rw [hstored, RetainedStore.insert, Keyed.lookup_insert] at hv
    simp only [RelayWorld.slotsAfter, retainedKeyexprToTopic_retainedKeyexpr]
    split at hv
    · next heq =>
      cases hv
      rw [heq]
      exact .inr ⟨Function.update_self _ _ _, rfl⟩
    · next hne => exact .inl ⟨hv, Function.update_of_ne hne _ _⟩

theorem Sourced.store (h : Sourced scope w) {x : Publish × BusOp} (hx : x ∈ w.ops) (feed : Feed) :
    Sourced scope { w with
      retained := RelayWorld.stored scope w.retained feed x.2
      slots := RelayWorld.slotsAfter scope w.slots x.1 x.2 } := by
  obtain ⟨hpublished, hfrom⟩ := h.ops x hx
  refine { h with slots := fun t v hv => ?_ }
  dsimp only at hv ⊢
  rcases @stored_fromPublish _ _ w.slots _ _ _ hfrom _ _ hv with ⟨hold, hslot⟩ | ⟨hslot, hvalue⟩
  · rw [hslot]
    exact h.slots t v hold
  · rw [hslot]
    exact ⟨hpublished, hvalue⟩

theorem mem_matching [HashOrder] {map : RetainedMap} {filter : Str} {e : RetainedEntry} :
    e ∈ RetainedStore.matching map filter ↔
      map.lookup e.1 = some e.2 ∧ topicMatches filter e.1 = true := by
  rw [RetainedStore.matching, List.mem_filter, (HashOrder.perm _).mem_iff]
  exact and_congr_left fun _ => Keyed.mem_pairs

theorem Sourced.scan [HashOrder] (h : Sourced scope w) (filter : Str) :
    Sourced scope { w with scans := w.scans ++
      [(filter, (RetainedStore.matching w.retained.map filter).map fun e =>
        (w.slots e.1, e))] } := by
  refine { h with scans := fun x hx y hy => ?_ }
  rcases List.mem_append.mp hx with hx | hx
  · exact h.scans x hx y hy
  · rw [List.mem_singleton.mp hx] at hy ⊢
    obtain ⟨e, he, rfl⟩ := List.mem_map.mp hy
    obtain ⟨hlookup, hmatch⟩ := mem_matching.mp he
    obtain ⟨hpublished, hvalue⟩ := h.slots e.1 e.2 hlookup
    exact ⟨hpublished, hvalue, hmatch⟩

theorem Sourced.sendRetained (h : Sourced scope w) {f : Str × QoS}
    {x : Str × List (Publish × RetainedEntry)} {qs : List Publish} (hf : f ∈ w.tasks)
    (hx : x ∈ w.scans) (hfilter : x.1 = f.1)
    (hqs : Sends (fun e q => (q.topic, q.payload) = (e.1, e.2.1) ∧ q.qos = f.2)
      (x.2.map Prod.snd) qs) :
    Sourced scope { w with
      out := w.out ++ (x.2.zip qs).map fun y => (⟨y.1.1, f.1, f.2⟩, y.2) } := by
  refine { h with out := fun z hz => ?_ }
  rcases List.mem_append.mp hz with hz | hz
  · exact h.out z hz
  · obtain ⟨y, hy, rfl⟩ := List.mem_map.mp hz
    obtain ⟨hpublished, hvalue, hmatch⟩ := h.scans x hx y.1 (List.of_mem_zip hy).1
    obtain ⟨hmsg, hqos⟩ := hqs.zip y hy
    refine ⟨⟨hpublished, hf, .inl ?_⟩, hmsg.trans hvalue.symm, hqos⟩
    have htopic : y.1.1.topic = y.1.2.1 := congrArg Prod.fst hvalue
    dsimp only
    rw [htopic, ← hfilter]
    exact hmatch

/-- What an attach takes is what the queue held. -/
theorem Sourced.attach [HashOrder] (h : Sourced scope w) (identity : Str) (sink : Sender)
    (kick : Notify) :
    Sourced scope { w with
      session := (w.session.attachConn w.disk identity sink kick).session
      disk := (w.session.attachConn w.disk identity sink kick).disk
      queued := []
      backlogs := w.backlogs ++
        [w.queued.zip (w.session.attachConn w.disk identity sink kick).backlog] } := by
  refine { h with queue := ?_, backlogs := fun b hb x hx => ?_ }
  · dsimp only
    rw [SessionState.attachConn_queue]
    exact .nil
  · rcases List.mem_append.mp hb with hb | hb
    · exact h.backlogs b hb x hx
    · rw [List.mem_singleton.mp hb, SessionState.attachConn_backlog] at hx
      exact (List.forall₂_iff_zip.mp h.queue).2 hx

theorem Sourced.sendBacklog (h : Sourced scope w) {i : Nat} {b : List (Origin × Msg)}
    {qs : List Publish} (hb : b ∈ w.backlogs)
    (hqs : Sends (fun m q => (q.topic, q.payload) = m ∧ q.qos = .atLeastOnce) (b.map Prod.snd) qs) :
    Sourced scope { w with
      backlogs := w.backlogs.set i []
      out := w.out ++ (b.zip qs).map fun y => (y.1.1, y.2) } := by
  refine { h with backlogs := fun b' hb' x hx => ?_, out := fun z hz => ?_ }
  · rcases List.mem_or_eq_of_mem_set hb' with hb' | rfl
    · exact h.backlogs b' hb' x hx
    · exact absurd hx List.not_mem_nil
  · rcases List.mem_append.mp hz with hz | hz
    · exact h.out z hz
    · obtain ⟨y, hy, rfl⟩ := List.mem_map.mp hz
      have hheld := h.backlogs b hb y.1 (List.of_mem_zip hy).1
      obtain ⟨hmsg, hqos⟩ := hqs.zip y hy
      exact ⟨hheld.known, hmsg.trans hheld.msg, hqos.trans hheld.granted.symm⟩

theorem Sourced.step [HashOrder] {act : RelayAction} (h : Sourced scope w)
    (hstep : w.step scope act = some w') : Sourced scope w' := by
  cases act with
  | publish c t p s =>
      rw [RelayWorld.step] at hstep
      split at hstep
      · next hscope =>
        obtain ⟨e, he, rfl⟩ := Option.map_eq_some_iff.mp hstep
        refine h.publish p ?_
        rw [← hscope]
        exact handlePublish_onBus c t p s e.1 e.2.1 e.2.2 he
      · cases hstep
  | subscribe c t i filter reqQos s =>
      rw [RelayWorld.step] at hstep
      split at hstep
      · obtain ⟨e, he, rfl⟩ := Option.map_eq_some_iff.mp hstep
        exact h.subscribe (subscribe_granted c t i filter reqQos s e.1 e.2.1 e.2.2 he)
      · cases hstep
  | take i k =>
      obtain ⟨f, hf, hstep⟩ := Option.bind_eq_some_iff.mp hstep
      obtain ⟨x, hx, hstep⟩ := Option.bind_eq_some_iff.mp hstep
      obtain ⟨m, hm, rfl⟩ := Option.map_eq_some_iff.mp hstep
      exact h.take (List.mem_of_getElem? hf) (List.mem_of_getElem? hx) hm
  | run j r now =>
      obtain ⟨x, hx, hstep⟩ := Option.bind_eq_some_iff.mp hstep
      obtain ⟨st, hst, rfl⟩ := Option.map_eq_some_iff.mp hstep
      exact h.run (List.mem_of_getElem? hx) hst
  | store k feed =>
      obtain ⟨x, hx, rfl⟩ := Option.map_eq_some_iff.mp hstep
      exact h.store (List.mem_of_getElem? hx) feed
  | scan filter =>
      cases hstep
      exact h.scan filter
  | sendRetained c t g i k s =>
      obtain ⟨f, hf, hstep⟩ := Option.bind_eq_some_iff.mp hstep
      obtain ⟨x, hx, hstep⟩ := Option.bind_eq_some_iff.mp hstep
      split at hstep
      · next hfilter =>
        obtain ⟨e, he, rfl⟩ := Option.map_eq_some_iff.mp hstep
        exact h.sendRetained (List.mem_of_getElem? hf) (List.mem_of_getElem? hx) hfilter
          (sendRetained_sends he)
      · cases hstep
  | attach identity sink kick =>
      cases hstep
      exact h.attach identity sink kick
  | sendBacklog i nextPkid s =>
      obtain ⟨b, hb, hstep⟩ := Option.bind_eq_some_iff.mp hstep
      obtain ⟨e, he, rfl⟩ := Option.map_eq_some_iff.mp hstep
      exact h.sendBacklog (List.mem_of_getElem? hb) (sendBacklog_sends he)
  | detach epoch now =>
      cases hstep
      refine { h with queue := ?_ }
      dsimp only
      rw [(MirrorWorld.SameQueue.of_noted (SessionState.noted_detachConn _ _ _)).queue]
      exact h.queue
  | evict tx now =>
      cases hstep
      refine { h with queue := ?_ }
      dsimp only
      rw [(MirrorWorld.SameQueue.of_noted (SessionState.noted_evictSlow _ _ _)).queue]
      exact h.queue

end Steps

/-! ## Runs -/

theorem forall₂_held {scope : Str} {ps : List Publish} {fs : List (Str × QoS)} :
    ∀ {os : List Origin},
    (∀ o ∈ os, Known scope ps fs o ∧ o.granted = .atLeastOnce) →
      List.Forall₂ (Held scope ps fs) os (os.map Origin.msg) := by
  intro os
  induction os with
  | nil => exact fun _ => .nil
  | cons o os ih =>
      intro hos
      obtain ⟨⟨hknown, hgranted⟩, hrest⟩ := List.forall_mem_cons.mp hos
      exact .cons ⟨hknown, rfl, hgranted⟩ (ih hrest)

theorem Sourced.init {scope : Str} {s : SessionState} {past : List Origin}
    (hqueue : s.inner.queue = past.map Origin.msg)
    (hpast : ∀ o ∈ past, o.Matches scope ∧ o.granted = .atLeastOnce) (d : Disk) :
    Sourced scope (.init s d past) where
  ops := fun _ h => absurd h List.not_mem_nil
  tasks := by
    intro f hf
    obtain ⟨o, ho, rfl⟩ := List.mem_map.mp hf
    exact ⟨.atLeastOnce, (hpast o ho).2⟩
  slots := fun _ _ h => (by cases h)
  scans := fun _ h => absurd h List.not_mem_nil
  calls := fun _ h => absurd h List.not_mem_nil
  queue := by
    show List.Forall₂ _ past s.inner.queue
    rw [hqueue]
    exact forall₂_held fun o ho =>
      ⟨⟨List.mem_map_of_mem ho, List.mem_map.mpr ⟨o, ho, rfl⟩, (hpast o ho).1⟩, (hpast o ho).2⟩
  backlogs := fun _ h => absurd h List.not_mem_nil
  out := fun _ h => absurd h List.not_mem_nil

/-- The granted QoS is the lower one but for a QoS 0 PUBLISH and a subscription of QoS 1. -/
theorem minQos_granted (p reqQos : QoS) : Client.granted reqQos = minQos p (Client.granted reqQos) ↔
    ¬ (p = .atMostOnce ∧ Client.granted reqQos = .atLeastOnce) := by
  cases p <;> cases reqQos <;> decide

theorem held_queue {scope : Str} {ps : List Publish} {fs : List (Str × QoS)} {os : List Origin}
    {ms : List Msg} (h : List.Forall₂ (Held scope ps fs) os ms) :
    ms = os.map Origin.msg ∧ ∀ o ∈ os, Known scope ps fs o ∧ o.granted = .atLeastOnce := by
  induction h with
  | nil => exact ⟨rfl, fun _ h => absurd h List.not_mem_nil⟩
  | cons hheld _ ih =>
      rw [List.map_cons, ← hheld.msg, ← ih.1]
      exact ⟨rfl, List.forall_mem_cons.mpr ⟨⟨hheld.known, hheld.granted⟩, ih.2⟩⟩

/-- **A PUBLISH is delivered at the QoS granted**, live, from the backlog and as a retained
message: after any run, each packet sent to the subscriber has topic and payload of a
PUBLISH that was handled, and the QoS of the matching subscription it went through; that
is the lower of the two unless the PUBLISH had QoS 0 and the subscription has 1; and a
message of whatever QoS is in the queue only for a subscription of QoS 1.  The run may
start with messages of earlier runs in the queue, as its file gives them back. -/
theorem delivered_at_granted [HashOrder] (scope : Str) (s : SessionState) (d : Disk)
    (past : List Origin) (hqueue : s.inner.queue = past.map Origin.msg)
    (hpast : ∀ o ∈ past, o.Matches scope ∧ o.granted = .atLeastOnce) (acts : List RelayAction)
    (w : RelayWorld) (hrun : Run.exec (RelayWorld.step scope) (.init s d past) acts = some w) :
    (∀ o q, (o, q) ∈ w.out →
      o.publish ∈ w.published ∧ (o.filter, o.granted) ∈ w.tasks ∧ o.Matches scope ∧
        q.topic = o.publish.topic ∧ q.payload = o.publish.payload ∧ q.qos = o.granted ∧
        (q.qos = minQos o.publish.qos o.granted ↔
          ¬ (o.publish.qos = .atMostOnce ∧ o.granted = .atLeastOnce))) ∧
      w.session.inner.queue = w.queued.map Origin.msg ∧
      ∀ o ∈ w.queued, o.publish ∈ w.published ∧ o.granted = .atLeastOnce := by
  have h : Sourced scope w :=
    Run.exec_invariant (fun _ _ _ h hs => Sourced.step h hs) acts (.init hqueue hpast d) hrun
  refine ⟨?_, ?_, ?_⟩
  · intro o q hq
    obtain ⟨hknown, hat⟩ := h.out (o, q) hq
    obtain ⟨reqQos, hgranted⟩ := h.tasks _ hknown.task
    refine ⟨hknown.publish, hknown.task, hknown.fits, congrArg Prod.fst hat.msg,
      congrArg Prod.snd hat.msg, hat.qos, ?_⟩
    have hqos : q.qos = o.granted := hat.qos
    dsimp only at hgranted
    rw [hqos, hgranted]
    exact minQos_granted o.publish.qos reqQos
  · exact (held_queue h.queue).1
  · intro o ho
    obtain ⟨hknown, hgranted⟩ := (held_queue h.queue).2 o ho
    exact ⟨hknown.publish, hgranted⟩

/-! ## A QoS 0 publish on a QoS 1 subscription -/

/-- A client that nobody has connected yet. -/
def devSession : SessionState := .new ∅ "dev".toList 10 none none none

def kilnMessage (q : QoS) : Publish := ⟨"kiln".toList, q, [57], 0, false⟩

/-- The client asks for the topic with QoS 1. -/
def kilnSubscribe : RelayAction :=
  .subscribe Client.anyone Client.smoothTurn 0 "kiln".toList .atLeastOnce ⟨1, 0, none, []⟩

/-- A message for a client that is connected. -/
def liveRoute (q : QoS) : List RelayAction :=
  [.attach [] ⟨0⟩ ⟨0⟩, kilnSubscribe, .publish Client.anyone Client.smoothTurn (kilnMessage q)
    ⟨1, 0, none, []⟩,
    .take 0 0, .run 0 .ok 1, .run 0 .ok 2]

/-- A message for a client that connects later. -/
def backlogRoute (q : QoS) : List RelayAction :=
  [kilnSubscribe, .publish Client.anyone Client.smoothTurn (kilnMessage q) ⟨1, 0, none, []⟩,
    .take 0 0,
    .run 0 .ok 1, .run 0 .ok 2, .attach [] ⟨0⟩ ⟨0⟩, .sendBacklog 0 (fun _ => 1) ⟨2, 0, none, []⟩]

/-- A PUBLISH of QoS 0 is delivered with QoS 1. -/
theorem publish_qos_is_lost :
    ¬ ∀ (_ : HashOrder) (scope : Str) (s : SessionState) (d : Disk) (acts : List RelayAction)
      (w : RelayWorld), s.inner.queue = [] →
        Run.exec (RelayWorld.step scope) (.init s d []) acts = some w →
        (∀ o q, (o, q) ∈ w.out → q.qos = minQos o.publish.qos o.granted) ∧
          ∀ o ∈ w.queued, o.publish.qos ≠ .atMostOnce := by
  intro h
  obtain ⟨hlive, _⟩ := h .asStored [] devSession ∅ (liveRoute .atMostOnce) _ rfl rfl
  have hqos := hlive ⟨kilnMessage .atMostOnce, "kiln".toList, .atLeastOnce⟩
    ⟨"kiln".toList, .atLeastOnce, [57], 1, false⟩ (.head _)
  exact absurd hqos (by decide)

/-- A message of the run before, which the queue file gave back. -/
def kilnPast : Origin := ⟨kilnMessage .atMostOnce, "kiln".toList, .atLeastOnce⟩

/-- It and a PUBLISH of QoS 1 out of the backlog. -/
theorem backlog_at_granted :
    ∃ w, Run.exec (@RelayWorld.step .asStored [])
        (.init
          { devSession with inner := { devSession.inner with queue := [("kiln".toList, [57])] } } ∅
          [kilnPast]) (backlogRoute .atLeastOnce) = some w ∧
      w.out.length = 2 ∧ ∀ o q, (o, q) ∈ w.out → q.qos = o.granted := by
  refine ⟨_, rfl, rfl, fun o q hq => ?_⟩
  have hpast : ∀ o ∈ [kilnPast], o.Matches [] ∧ o.granted = .atLeastOnce := by
    intro o ho
    cases List.mem_singleton.mp ho
    exact ⟨.inl rfl, rfl⟩
  obtain ⟨hout, _⟩ := @delivered_at_granted .asStored []
    { devSession with inner := { devSession.inner with queue := [("kiln".toList, [57])] } } ∅
      [kilnPast] rfl
    hpast (backlogRoute .atLeastOnce) _ rfl
  exact (hout o q hq).2.2.2.2.2.1

end Entmoot
