/-
# `Entmoot.Will` — the Last Will against an ordinary publish

`fire_will` and `handle_publish` put a message on the bus by hand, each in its own
way: the one asks the ACL first and the topic second, the other the topic first, and
their retained branches are written apart.  `Does` is the list of bus operations of a
program that always ends, and `publishOps` and `willOps` are these lists for the two.

They are the same list but for one case.  An empty retained publish clears the slot;
an empty retained will leaves it (`will_is_publish_iff`).
-/
import Entmoot.Serve

namespace Entmoot

open Traced

/-! ## The bus operations of a program -/

/-- The operations on the bus. -/
def busOps (w : List ServeEffect) : List BusOp :=
  w.filterMap fun | .bus op => some op | _ => none

theorem busOps_append (w w' : List ServeEffect) : busOps (w ++ w') = busOps w ++ busOps w' :=
  List.filterMap_append ..

/-- From every state the program ends, with these operations on the bus, and with `Ok`
where `ok` says so. -/
def Does (ok : Bool) (x : ServeM Unit) (ops : List BusOp) : Prop :=
  ∀ s, ∃ r w s', Ends x s r w s' ∧ busOps w = ops ∧ (ok = true → r = .ok ())

namespace Does

theorem done (ok : Bool) : Does ok (pure ()) [] :=
  fun s => ⟨_, _, s, ends_pure.mpr ⟨rfl, rfl, rfl⟩, rfl, fun _ => rfl⟩

theorem bus (ok : Bool) (op : BusOp) : Does ok (emit (.bus op)) [op] :=
  fun s => ⟨_, _, s, ends_emit.mpr ⟨rfl, rfl, rfl⟩, rfl, fun _ => rfl⟩

theorem failed (e : ServeError) : Does false (fail e) [] :=
  fun s => ⟨_, _, s, ends_fail.mpr ⟨rfl, rfl, rfl⟩, rfl, fun h => (by cases h)⟩

theorem modify (ok : Bool) (f : ServeState → ServeState) : Does ok (modifyState f) [] :=
  fun s => ⟨_, _, f s, ends_modifyState.mpr ⟨rfl, rfl, rfl⟩, rfl, fun _ => rfl⟩

theorem require {b : Bool} (ok : Bool) (e : ServeError) (h : b = true) :
    Does ok (require b e) [] := by
  rw [Entmoot.require, if_pos h]
  exact done ok

theorem onlyIf {ok : Bool} {x : ServeM Unit} {ops : List BusOp} (b : Bool) (h : Does ok x ops) :
    Does ok (onlyIf b x) (if b then ops else []) := by
  rw [Entmoot.onlyIf]
  split
  · exact h
  · exact done ok

/-- A first part that succeeds is followed by the second. -/
theorem andThen {ok : Bool} {x y : ServeM Unit} {ops ops' : List BusOp} (hx : Does true x ops)
    (hy : Does ok y ops') : Does ok (x >>= fun _ => y) (ops ++ ops') := by
  intro s
  obtain ⟨r, w, t, hend, rfl, hr⟩ := hx s
  rw [hr rfl] at hend
  obtain ⟨r', w', s', hend', rfl, hr'⟩ := hy t
  exact ⟨r', w ++ w', s', ends_bind.mpr (.inr ⟨(), w, t, w', hend, hend', rfl⟩),
    busOps_append w w', hr'⟩

theorem send (p : Packet) : Does false (send p) [] := by
  intro s
  cases hroom : s.room with
  | zero =>
      refine ⟨.error .writerClosed, [], s, ends_getState_bind.mpr ?_, rfl, fun h => (by cases h)⟩
      rw [hroom]
      exact ends_fail.mpr ⟨rfl, rfl, rfl⟩
  | succ n =>
      refine ⟨.ok (), [.send p], { s with room := n }, ends_getState_bind.mpr ?_, rfl, fun _ => rfl⟩
      rw [hroom]
      exact ends_modifyState_bind.mpr (ends_emit.mpr ⟨rfl, rfl, rfl⟩)

end Does

namespace Client

variable (c : Client)

/-! ## A publish -/

/-- What a publish does on the bus: the live put, then the retained put or delete. -/
def publishOps (topicName : Str) (payload : Bytes) (retain : Bool) (now : SystemTime) :
    List BusOp :=
  match topicToKeyexpr topicName c.broker.scope with
  | .error _ => []
  | .ok ke =>
      if c.broker.acl.mayPublish c.identity topicName then
        let rke := retainedKeyexpr topicName c.broker.scope
        .put ke payload ::
          if retain then [if payload = [] then .delete rke
            else .put rke (encodeEnvelope payload now)]
          else []
      else []

theorem acknowledge_does (p : Publish) : Does false (acknowledge p) [] := by
  rw [acknowledge]
  split
  · exact .done _
  · exact .send _
  · exact .andThen (.modify true _) (.send _)

theorem forward_does {t : Turn} (p : Publish) (ke : Str) (hput : t.put = true)
    (hretained : t.retained = true) :
    Does true (c.forward t p ke) (.put ke p.payload ::
      if p.retain then
        [if p.payload = [] then .delete (retainedKeyexpr p.topic c.broker.scope)
          else .put (retainedKeyexpr p.topic c.broker.scope) (encodeEnvelope p.payload t.now)]
      else []) := by
  have hslot := Does.andThen (.bus true (if p.payload = [] then
      .delete (retainedKeyexpr p.topic c.broker.scope)
    else .put (retainedKeyexpr p.topic c.broker.scope) (encodeEnvelope p.payload t.now)))
    (.require true (.retainedWrite (retainedKeyexpr p.topic c.broker.scope)) hretained)
  exact .andThen (.bus true _) (.andThen (.require true _ hput) (.onlyIf p.retain hslot))

/-- Within the rate limit, and with a bus that takes everything. -/
theorem handlePublish_does {t : Turn} {p : Publish} (hallow : t.allow = true) (hput : t.put = true)
    (hretained : t.retained = true) :
    Does false (c.handlePublish t p) (c.publishOps p.topic p.payload p.retain t.now) := by
  have hbody : Does false (match topicToKeyexpr p.topic c.broker.scope with
      | .error e => fail (.invalidTopic p.topic e)
      | .ok ke => do
          onlyIf (c.broker.acl.mayPublish c.identity p.topic) (c.forward t p ke)
          acknowledge p) (c.publishOps p.topic p.payload p.retain t.now) := by
    rw [publishOps]
    cases topicToKeyexpr p.topic c.broker.scope with
    | error e => exact .failed _
    | ok ke =>
        have hack := Does.andThen (.onlyIf (c.broker.acl.mayPublish c.identity p.topic)
          (c.forward_does p ke hput hretained)) (acknowledge_does p)
        rwa [List.append_nil] at hack
  exact .andThen (.require true _ hallow) hbody

/-! ## A will -/

/-- What a will does on the bus: an empty one leaves the retained slot alone. -/
def willOps (w : LastWill) (now : SystemTime) : List BusOp :=
  match topicToKeyexpr w.topic c.broker.scope with
  | .error _ => []
  | .ok ke =>
      if c.broker.acl.mayPublish c.identity w.topic then
        .put ke w.message ::
          if w.retain ∧ w.message ≠ [] then
            [.put (retainedKeyexpr w.topic c.broker.scope) (encodeEnvelope w.message now)]
          else []
      else []

theorem publishWill_does (now : SystemTime) (w : LastWill) :
    Does true (c.publishWill now w) (c.willOps w now) := by
  rw [publishWill, willOps]
  cases topicToKeyexpr w.topic c.broker.scope with
  | error e =>
      dsimp only
      split
      · exact .done _
      · exact .done _
  | ok ke =>
      dsimp only
      by_cases hmay : c.broker.acl.mayPublish c.identity w.topic = true
      · have hslot : ∀ op : BusOp, Does true
            (if w.retain = true ∧ w.message ≠ [] then emit (.bus op) else pure ())
            (if w.retain = true ∧ w.message ≠ [] then [op] else []) := by
          intro op
          by_cases hslot : w.retain = true ∧ w.message ≠ []
          · rw [if_pos hslot, if_pos hslot]
            exact .bus true _
          · rw [if_neg hslot, if_neg hslot]
            exact .done _
        rw [if_pos hmay, if_pos hmay]
        exact .andThen (.bus true _) (hslot _)
      · rw [if_neg hmay, if_neg hmay]
        exact .done _

theorem fireWill_does (now : SystemTime) {w : LastWill} {s : ServeState} (hwill : s.will = some w) :
    ∃ r v s', Ends (c.fireWill now) s r v s' ∧ busOps v = c.willOps w now := by
  obtain ⟨r, v, s', hend, hops, _⟩ := c.publishWill_does now w { s with will := none }
  refine ⟨r, .fireWill s.will :: v, s', ?_, hops⟩
  refine ends_getState_bind.mpr (ends_modifyState_bind.mpr (ends_emit_bind.mpr ⟨v, rfl, ?_⟩))
  rw [hwill]
  exact hend

/-! ## The one against the other -/

/-- The same operation, but for the write time in an envelope. -/
def SameButTime (op op' : BusOp) : Prop :=
  op = op' ∨ ∃ ke payload now now',
    op = .put ke (encodeEnvelope payload now) ∧ op' = .put ke (encodeEnvelope payload now')

/-- The case in which a publish clears a retained slot. -/
def Clears (topicName : Str) (payload : Bytes) (retain : Bool) : Prop :=
  retain = true ∧ payload = [] ∧ c.broker.acl.mayPublish c.identity topicName = true ∧
    ∃ ke, topicToKeyexpr topicName c.broker.scope = .ok ke

theorem willOps_publishOps (w : LastWill) (now now' : SystemTime) :
    ¬ c.Clears w.topic w.message w.retain ∧
        List.Forall₂ SameButTime (c.willOps w now) (c.publishOps w.topic w.message w.retain now') ∧
        (now = now' → c.willOps w now = c.publishOps w.topic w.message w.retain now') ∨
      c.Clears w.topic w.message w.retain ∧
        (c.willOps w now).length ≠ (c.publishOps w.topic w.message w.retain now').length := by
  rw [willOps, publishOps]
  cases hke : topicToKeyexpr w.topic c.broker.scope with
  | error e =>
      refine .inl ⟨fun h => ?_, .nil, fun _ => rfl⟩
      obtain ⟨ke, hok⟩ := h.2.2.2
      rw [hke] at hok
      cases hok
  | ok ke =>
      dsimp only
      by_cases hmay : c.broker.acl.mayPublish c.identity w.topic = true
      · rw [if_pos hmay, if_pos hmay]
        cases hretain : w.retain with
        | false =>
            refine .inl ⟨fun h => (by cases h.1), ?_, fun _ => rfl⟩
            exact .cons (.inl rfl) .nil
        | true =>
            by_cases hempty : w.message = []
            · refine .inr ⟨⟨rfl, hempty, hmay, ke, hke⟩, ?_⟩
              simp [hempty]
            · refine .inl ⟨fun h => hempty h.2.1, ?_, ?_⟩
              · rw [if_pos ⟨rfl, hempty⟩, if_pos rfl, if_neg hempty]
                exact .cons (.inl rfl) (.cons (.inr ⟨_, _, now, now', rfl, rfl⟩) .nil)
              · rintro rfl
                rw [if_pos ⟨rfl, hempty⟩, if_pos rfl, if_neg hempty]
      · rw [if_neg hmay, if_neg hmay]
        exact .inl ⟨fun h => hmay h.2.2.1, .nil, fun _ => rfl⟩

/-- **A Last Will is an ordinary publish iff it clears nothing**: with every bus
operation succeeding, it does on the bus what a publish of its topic, message and retain
flag does within the rate limit, up to the write time, unless that publish would clear a
retained slot. -/
theorem will_is_publish_iff {t : Turn} {p : Publish} {w : LastWill} {s s' : ServeState}
    (now : SystemTime) (hallow : t.allow = true) (hput : t.put = true)
    (hretained : t.retained = true) (htopic : p.topic = w.topic) (hpayload : p.payload = w.message)
    (hretain : p.retain = w.retain) (hwill : s'.will = some w) :
    ∃ r v u r' v' u', Ends (c.handlePublish t p) s r v u ∧ Ends (c.fireWill now) s' r' v' u' ∧
      (List.Forall₂ SameButTime (busOps v') (busOps v) ↔ ¬ c.Clears w.topic w.message w.retain) ∧
      (now = t.now → (busOps v' = busOps v ↔ ¬ c.Clears w.topic w.message w.retain)) := by
  obtain ⟨r, v, u, hpub, hops, _⟩ := c.handlePublish_does (p := p) hallow hput hretained s
  obtain ⟨r', v', u', hfire, hops'⟩ := c.fireWill_does now hwill
  refine ⟨r, v, u, r', v', u', hpub, hfire, ?_⟩
  rw [hops, hops', htopic, hpayload, hretain]
  rcases c.willOps_publishOps w now t.now with ⟨hclears, hsame, heq⟩ | ⟨hclears, hlen⟩
  · exact ⟨⟨fun _ => hclears, fun _ => hsame⟩, fun hnow => ⟨fun _ => hclears, fun _ => heq hnow⟩⟩
  · refine ⟨⟨fun h => absurd h.length_eq hlen, fun h => absurd hclears h⟩, fun _ => ?_⟩
    exact ⟨fun h => absurd (congrArg List.length h) hlen, fun h => absurd hclears h⟩

/-- A client of a node that allows everything. -/
def anyone : Client :=
  ⟨⟨"n1".toList, [], ⟨[], true⟩, 0, fun _ => 0⟩, "press".toList, [], 0, fun _ => 1⟩

/-- A turn in which everything goes through. -/
def smoothTurn :
    Turn := ⟨.failed, true, true, true, fun _ _ => true, fun _ _ => [], 1000000, fun _ _ => 1000000⟩

def kilnWill (message : Bytes) : LastWill := ⟨"kiln".toList, message, .atMostOnce, true⟩

def kilnPublish (message : Bytes) : Publish := ⟨"kiln".toList, .atMostOnce, message, 0, true⟩

/-- An empty retained will: the publish deletes the retained message, the will does
not. -/
theorem empty_will_clears_nothing :
    ¬ ∀ (c : Client) (t : Turn) (p : Publish) (w : LastWill) (s s' : ServeState) (r r' v v' u u'),
      t.allow = true → t.put = true → t.retained = true → p.topic = w.topic →
        p.payload = w.message →
      p.retain = w.retain → s'.will = some w → Ends (c.handlePublish t p) s r v u →
      Ends (c.fireWill t.now) s' r' v' u' → busOps v' = busOps v := by
  intro h
  obtain ⟨r, v, u, hpub, hops, _⟩ := anyone.handlePublish_does (t := smoothTurn)
    (p := kilnPublish []) rfl rfl rfl ⟨1, 0, none, []⟩
  obtain ⟨r', v', u', hfire, hops'⟩ := anyone.fireWill_does smoothTurn.now
    (s := ⟨1, 0, some (kilnWill []), []⟩) rfl
  have hsame := h anyone smoothTurn (kilnPublish [])
    (kilnWill []) _ _ r r' v v' u u' rfl rfl rfl rfl
    rfl rfl rfl hpub hfire
  rw [hops, hops'] at hsame
  exact absurd hsame (by decide)

/-- A retained will with a message, one second after the publish it is compared with. -/
theorem will_with_message_is_publish :
    ∃ r v u r' v' u', Ends (anyone.handlePublish smoothTurn (kilnPublish [57]))
      ⟨1, 0, none, []⟩ r v u ∧
      Ends (anyone.fireWill 1001000000) ⟨1, 0, some (kilnWill [57]), []⟩ r' v' u' ∧
      List.Forall₂ SameButTime (busOps v') (busOps v) := by
  obtain ⟨r, v, u, r', v', u', hpub, hfire, hiff, _⟩ :=
    @will_is_publish_iff anyone smoothTurn (kilnPublish [57]) (kilnWill [57]) ⟨1, 0, none, []⟩
      ⟨1, 0, some (kilnWill [57]), []⟩ 1001000000 rfl rfl rfl rfl rfl rfl rfl
  refine ⟨r, v, u, r', v', u', hpub, hfire, hiff.mpr fun h => ?_⟩
  cases h.2.1

end Client

end Entmoot
