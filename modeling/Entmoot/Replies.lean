/-
# `Entmoot.Replies` — what the loop answers, and when

`crates/entmoot-node/src/connection.rs` 212–359.  Each packet may do several things on
the bus before its reply, any of them may fail, and the outbound channel may be gone at
any push.  `Client.turns` is the loop over finitely many packets, left where it waits
for the next one (`loop_iff`).

`replyTo` says what a packet is answered with.  The replies in the channel are those of
the packets handled, in their order, and at most the one of the packet that ended the
loop; a PUBACK or PUBREC stands right behind the bus operations of its publish, all of
which succeeded (`replies_in_order`).
-/
import Entmoot.Cleanup
import Entmoot.Will

namespace Entmoot

open Traced

/-! ## Replies -/

/-- What is sent, PUBLISH packets apart. -/
def ServeEffect.reply : ServeEffect → Option Packet
  | .send (.publish _) => none
  | .send p => some p
  | _ => none

def replies (w : List ServeEffect) : List Packet := w.filterMap ServeEffect.reply

theorem replies_append (w w' : List ServeEffect) : replies (w ++ w') = replies w ++ replies w' :=
  List.filterMap_append ..

/-- The reply of a publish. -/
def ackOf (p : Publish) : Option Packet :=
  match p.qos with
  | .atMostOnce => none
  | .atLeastOnce => some (.pubAck p.pkid)
  | .exactlyOnce => some (.pubRec p.pkid)

def IsAck : Packet → Prop
  | .pubAck _ | .pubRec _ => True
  | _ => False

namespace Client

variable (c : Client) (t : Turn)

/-- The code for the `i`-th filter of a SUBSCRIBE. -/
def codeFor (i : Nat) (filter : Str) (reqQos : QoS) : SubscribeReasonCode :=
  match filterToKeyexpr filter c.broker.scope with
  | .error _ => .failure
  | .ok ke =>
      if c.broker.acl.maySubscribe c.identity filter && t.declare i ke
        then .success (granted reqQos)
      else .failure

/-- The filters granted of a SUBSCRIBE, from the `i`-th on. -/
def grants (i : Nat) : List (Str × QoS) → List (Str × QoS)
  | [] => []
  | f :: fs =>
      match c.codeFor t i f.1 f.2 with
      | .success qos => (f.1, qos) :: grants (i + 1) fs
      | .failure => grants (i + 1) fs

/-- What the packet of a turn is answered with. -/
def replyTo : Option Packet :=
  match t.read with
  | .packet (.publish p) => ackOf p
  | .packet (.pubRel pkid) => some (.pubComp pkid)
  | .packet (.subscribe pkid filters) =>
      some (.subAck pkid (filters.mapIdx fun i f => c.codeFor t i f.1 f.2))
  | .packet (.unsubscribe pkid _) => some (.unsubAck pkid)
  | .packet .pingReq => some .pingResp
  | _ => none

/-- The loop over these turns; without a result it waits for the next. -/
def turns (c : Client) : List Turn → ServeM (Option (Except ServeError Unit))
  | [] => pure none
  | t :: ts => do
      let result ← c.turn t
      match result with
      | some r => pure (some r)
      | none => c.turns ts

end Client

/-! ## Programs that answer nothing -/

/-- No reply on the way. -/
def silent : Frame ServeState ServeEffect where
  rel _ w _ := replies w = []
  nil _ := rfl
  append := by
    intro s t u w w' hw hw'
    rw [replies_append, hw, hw']
    rfl

theorem silent_handling : Handling silent where
  state _ _ _ := rfl
  publish _ _ := rfl
  bus _ _ := rfl
  activated _ _ _ := rfl
  removeSub _ _ := rfl
  subscribed _ _ _ _ := rfl
  unsubscribed _ _ _ := rfl

namespace Client

variable (c : Client) (t : Turn)

/-! ## How the handlers end -/

theorem subscribe_ends {i : Nat} {filter : Str} {q : QoS} {s s' : ServeState}
    {r : Except ServeError SubscribeReasonCode} {w : List ServeEffect}
    (h : Ends (c.subscribe t i filter q) s r w s') : r = .ok (c.codeFor t i filter q) := by
  cases hke : filterToKeyexpr filter c.broker.scope with
  | error e =>
      simp only [subscribe, hke] at h
      simp only [codeFor, hke]
      exact (ends_pure.mp h).1
  | ok ke =>
      simp only [subscribe, hke] at h
      simp only [codeFor, hke]
      split at h
      · next hmay =>
        obtain ⟨_, _, h⟩ := ends_emit_bind.mp h
        obtain ⟨_, _, h⟩ := ends_emit_bind.mp h
        rw [if_pos hmay]
        exact (ends_pure.mp h).1
      · next hmay =>
        rw [if_neg hmay]
        exact (ends_pure.mp h).1

/-- One code for each filter, in their order, and the filters of those of success. -/
theorem subscribeAll_ends : ∀ {fs : List (Str × QoS)} {i : Nat} {s s' : ServeState}
    {r : Except ServeError (List SubscribeReasonCode × List (Str × QoS))} {w : List ServeEffect},
    Ends (c.subscribeAll t i fs) s r w s' →
      r = .ok (fs.mapIdx fun j f => c.codeFor t (i + j) f.1 f.2, c.grants t i fs) := by
  intro fs
  induction fs with
  | nil => exact fun h => (ends_pure.mp h).1
  | cons f fs ih =>
      intro i s s' r w h
      have hcodes : (f :: fs).mapIdx (fun j f => c.codeFor t (i + j) f.1 f.2) =
          c.codeFor t i f.1 f.2 :: fs.mapIdx fun j f => c.codeFor t (i + 1 + j) f.1 f.2 := by
        rw [List.mapIdx_cons]
        refine congrArg₂ List.cons rfl (congrArg (List.mapIdx · fs) ?_)
        funext j f
        rw [Nat.add_right_comm, Nat.add_assoc]
      rcases ends_bind.mp h with ⟨e, he, _⟩ | ⟨code, _, _, _, hcode, h, _⟩
      · cases c.subscribe_ends t he
      · cases c.subscribe_ends t hcode
        rcases ends_bind.mp h with ⟨e, he, _⟩ | ⟨rest, _, _, _, hrest, h, _⟩
        · cases ih he
        · cases ih hrest
          rw [grants]
          split at h
          · next q hq => rw [(ends_pure.mp h).1, hcodes, hq]
          · next hq => rw [(ends_pure.mp h).1, hcodes, hq]

theorem ends_require {ok : Bool} {e : ServeError} {s s' : ServeState} {r : Except ServeError Unit}
    {w : List ServeEffect} (h : Ends (require ok e) s r w s') :
    w = [] ∧ s' = s ∧ (ok = true ∧ r = .ok () ∨ ok = false ∧ r = .error e) := by
  rw [require] at h
  split at h
  · next hok =>
    obtain ⟨rfl, rfl, rfl⟩ := ends_pure.mp h
    exact ⟨rfl, rfl, .inl ⟨hok, rfl⟩⟩
  · next hok =>
    obtain ⟨rfl, rfl, rfl⟩ := ends_fail.mp h
    exact ⟨rfl, rfl, .inr ⟨Bool.eq_false_iff.mpr hok, rfl⟩⟩

theorem forward_ends {p : Publish} {ke : Str} {s s' : ServeState} {w : List ServeEffect}
    (hke : topicToKeyexpr p.topic c.broker.scope = .ok ke)
    (hmay : c.broker.acl.mayPublish c.identity p.topic = true)
    (h : Ends (c.forward t p ke) s (.ok ()) w s') :
    w = (c.publishOps p.topic p.payload p.retain t.now).map .bus ∧ t.put = true ∧
      (p.retain = true → t.retained = true) := by
  obtain ⟨w₁, rfl, hrest⟩ := ends_emit_bind.mp h
  rcases ends_bind.mp hrest with ⟨e, _, he⟩ | ⟨_, _, _, w₂, hput, hslot, rfl⟩
  · cases he
  obtain ⟨rfl, rfl, ⟨hput, _⟩ | ⟨_, hr⟩⟩ := ends_require hput
  · simp only [publishOps, hke, hmay, if_true]
    rw [onlyIf] at hslot
    split at hslot
    · next hretain =>
      obtain ⟨w₃, rfl, hwrite⟩ := ends_emit_bind.mp hslot
      obtain ⟨rfl, _, ⟨hretained, _⟩ | ⟨_, hr⟩⟩ := ends_require hwrite
      · exact ⟨by simp [hretain], hput, fun _ => hretained⟩
      · cases hr
    · next hretain =>
      obtain ⟨_, rfl, _⟩ := ends_pure.mp hslot
      exact ⟨by simp [hretain], hput, fun h => absurd h hretain⟩
  · cases hr

/-- The acknowledgement is the last thing done for a publish, or it fails. -/
theorem acknowledge_ends {p : Publish} {s s' : ServeState} {r : Except ServeError Unit}
    {w : List ServeEffect} (h : Ends (acknowledge p) s r w s') :
    r = .ok () ∧ w = (ackOf p).toList.map .send ∨ (∃ e, r = .error e) ∧ w = [] := by
  have hsend : ∀ {q : Packet} {s : ServeState}, Ends (send q) s r w s' →
      r = .ok () ∧ w = [.send q] ∨ (∃ e, r = .error e) ∧ w = [] := by
    intro q s h
    rcases send_ends h with ⟨_, hr, hw, _⟩ | ⟨_, _, hr, hw, _⟩
    · exact .inr ⟨⟨_, hr⟩, hw⟩
    · exact .inl ⟨hr, hw⟩
  rw [acknowledge] at h
  rw [ackOf]
  cases hq : p.qos with
  | atMostOnce =>
      rw [hq] at h
      obtain ⟨hr, hw, _⟩ := ends_pure.mp h
      exact .inl ⟨hr, hw⟩
  | atLeastOnce =>
      rw [hq] at h
      exact hsend h
  | exactlyOnce =>
      rw [hq] at h
      exact hsend (ends_modifyState_bind.mp h)

/-- A publish that the ACL denied or that the bus took as a whole, with its operations
and then the acknowledgement as its trace. -/
structure PublishDone (p : Publish) (w : List ServeEffect) : Prop where
  done : c.broker.acl.mayPublish c.identity p.topic = false ∨
    t.put = true ∧ (p.retain = true → t.retained = true)
  trace : w = (c.publishOps p.topic p.payload p.retain t.now).map .bus ++ (ackOf p).toList.map .send

theorem handlePublish_ends {p : Publish} {s s' : ServeState} {r : Except ServeError Unit}
    {w : List ServeEffect} (h : Ends (c.handlePublish t p) s r w s') :
    r = .ok () ∧ c.PublishDone t p w ∨ (∃ e, r = .error e) ∧ replies w = [] := by
  rcases ends_bind.mp h with ⟨e, he, rfl⟩ | ⟨_, w₁, u, w₂, hallow, hrest, rfl⟩
  · exact .inr ⟨⟨e, rfl⟩, within_require (F := silent) _ _ _ _ _ _ he⟩
  obtain ⟨rfl, rfl, _⟩ := ends_require hallow
  rw [List.nil_append]
  cases hke : topicToKeyexpr p.topic c.broker.scope with
  | error e =>
      simp only [hke] at hrest
      obtain ⟨rfl, rfl, _⟩ := ends_fail.mp hrest
      exact .inr ⟨⟨_, rfl⟩, rfl⟩
  | ok ke =>
      simp only [hke] at hrest
      rcases ends_bind.mp hrest with ⟨e, he, rfl⟩ | ⟨_, w₃, v, w₄, hforward, hack, rfl⟩
      · exact .inr ⟨⟨e, rfl⟩, within_onlyIf _
          (c.within_forward t silent_handling.bus p ke) _ _ _ _ he⟩
      · have hsilent :=
          within_onlyIf _ (c.within_forward t silent_handling.bus p ke) _ _ _ _ hforward
        rcases acknowledge_ends hack with ⟨rfl, rfl⟩ | ⟨⟨e, rfl⟩, rfl⟩
        · refine .inl ⟨rfl, ?_⟩
          rw [onlyIf] at hforward
          split at hforward
          · next hmay =>
            obtain ⟨rfl, hdone⟩ := c.forward_ends t hke hmay hforward
            exact ⟨.inr hdone, rfl⟩
          · next hmay =>
            obtain ⟨_, rfl, _⟩ := ends_pure.mp hforward
            exact ⟨.inl (Bool.eq_false_iff.mpr hmay), by simp [publishOps, hke, hmay]⟩
        · exact .inr ⟨⟨e, rfl⟩, by rw [List.append_nil]; exact hsilent⟩

/-! ## One packet -/

theorem send_then_ends {α : Type} {q : Packet} {y : ServeM α} {s s' : ServeState}
    {r : Except ServeError α} {w : List ServeEffect} (hq : (ServeEffect.send q).reply = some q)
    (hy : Within silent y) (h : Ends (send q >>= fun _ => y) s r w s') :
    replies w = [q] ∨ replies w = [] ∧ ∃ e, r = .error e := by
  have hone : replies [.send q] = [q] := by
    simp only [replies, List.filterMap_cons, hq, List.filterMap_nil]
  rcases ends_bind.mp h with ⟨e, he, rfl⟩ | ⟨_, w₁, u, w₂, hsend, hrest, rfl⟩
  · rcases send_ends he with ⟨_, _, rfl, _⟩ | ⟨_, _, hr, _⟩
    · exact .inr ⟨rfl, e, rfl⟩
    · cases hr
  · rcases send_ends hsend with ⟨_, hr, _⟩ | ⟨_, _, _, rfl, _⟩
    · cases hr
    · refine .inl ?_
      rw [replies_append, hone, hy _ _ _ _ hrest, List.append_nil]

/-- What the trace `w` of the turn shows of its reply: at most that, and an
acknowledgement only right behind what it acknowledges. -/
structure Answered (w : List ServeEffect) : Prop where
  reply : replies w = [] ∨ replies w = (c.replyTo t).toList
  effect : ∀ ack ∈ replies w, IsAck ack → ∃ p, t.read = .packet (.publish p) ∧ ackOf p = some ack ∧
    (c.broker.acl.mayPublish c.identity p.topic = false ∨
      t.put = true ∧ (p.retain = true → t.retained = true)) ∧
    w = .received (.publish p) ::
      ((c.publishOps p.topic p.payload p.retain t.now).map .bus ++ [.send ack])

theorem replies_bus (ops : List BusOp) : replies (ops.map .bus) = [] := by
  induction ops with
  | nil => rfl
  | cons op ops ih => exact ih

theorem replies_ack (p : Publish) : replies ((ackOf p).toList.map .send) = (ackOf p).toList := by
  rw [ackOf]
  cases p.qos <;> rfl

theorem answered_of_reply {w : List ServeEffect} {q : Packet}
    (hreply : replies w = [] ∨ replies w = (c.replyTo t).toList)
    (hq : (c.replyTo t) = some q) (hack : ¬ IsAck q) : c.Answered t w := by
  refine ⟨hreply, fun ack hmem his => ?_⟩
  rcases hreply with h | h
  · rw [h] at hmem
    exact absurd hmem List.not_mem_nil
  · rw [h, hq, Option.toList_some, List.mem_singleton] at hmem
    exact absurd (hmem ▸ his) hack

theorem answered_of_silent {w : List ServeEffect} (h : replies w = []) : c.Answered t w :=
  ⟨.inl h, fun _ hmem _ => by rw [h] at hmem; exact absurd hmem List.not_mem_nil⟩

/-- A reply other than an acknowledgement, pushed after something silent. -/
theorem answered_reply {p : ClientPacket} {q : Packet} {w : List ServeEffect}
    {r : Except ServeError (Option (Except ServeError Unit))} (hq : c.replyTo t = some q)
    (hack : ¬ IsAck q) (hw : replies w = [q] ∨ replies w = [] ∧ ∃ e, r = .error e) :
    c.Answered t (.received p :: w) ∧
      (r = .ok none → replies (.received p :: w) = (c.replyTo t).toList) := by
  rcases hw with hw | ⟨hw, e, rfl⟩
  · have hreply : replies (.received p :: w) = (c.replyTo t).toList := by
      rw [hq, Option.toList_some]
      exact hw
    exact ⟨c.answered_of_reply t (.inr hreply) hq hack, fun _ => hreply⟩
  · exact ⟨c.answered_of_silent t hw, fun hr => (by cases hr)⟩

theorem answered_publish {p : Publish} {w : List ServeEffect}
    (hread : t.read = .packet (.publish p)) (h : c.PublishDone t p w) :
    c.Answered t (.received (.publish p) :: w) ∧
      replies (.received (.publish p) :: w) = (c.replyTo t).toList := by
  have hreply : replies (.received (.publish p) :: w) = (c.replyTo t).toList := by
    show replies w = _
    rw [h.trace, replies_append, replies_bus, replies_ack, List.nil_append, replyTo, hread]
  refine ⟨⟨.inr hreply, fun ack hmem _ => ?_⟩, hreply⟩
  rw [hreply, replyTo, hread] at hmem
  have hack : ackOf p = some ack := Option.mem_toList.mp hmem
  exact ⟨p, hread, hack, h.done, by rw [h.trace, hack]; rfl⟩

theorem turn_answered {s s' : ServeState} {r : Except ServeError (Option (Except ServeError Unit))}
    {w : List ServeEffect} (h : Ends (c.turn t) s r w s') :
    c.Answered t w ∧ (r = .ok none → replies w = (c.replyTo t).toList) := by
  rw [turn] at h
  cases hread : t.read with
  | failed | expired | kicked reason =>
      simp only [hread] at h
      obtain ⟨rfl, rfl, _⟩ := ends_pure.mp h
      exact ⟨c.answered_of_silent t rfl, fun hr => (by cases hr)⟩
  | packet p =>
      simp only [hread] at h
      obtain ⟨w', rfl, hhandle⟩ := ends_emit_bind.mp h
      cases p with
      | publish p =>
          obtain ⟨result, w₁, u, w₂, hpublish, hresult, rfl⟩ := ends_attempt_bind.mp hhandle
          rcases c.handlePublish_ends t hpublish with ⟨rfl, hdone⟩ | ⟨⟨e, rfl⟩, hsilent⟩
          · obtain ⟨_, rfl, _⟩ := ends_pure.mp hresult
            rw [List.append_nil]
            obtain ⟨hanswered, hreply⟩ := c.answered_publish t hread hdone
            exact ⟨hanswered, fun _ => hreply⟩
          · obtain ⟨rfl, rfl, _⟩ := ends_pure.mp hresult
            rw [List.append_nil]
            exact ⟨c.answered_of_silent t hsilent, fun hr => (by cases hr)⟩
      | pubRel pkid =>
          have hend := ends_modifyState_bind.mp hhandle
          exact c.answered_reply t (q := .pubComp pkid) (by rw [replyTo, hread]) not_false
            (send_then_ends rfl (.pure none) hend)
      | subscribe pkid filters =>
          rcases ends_bind.mp hhandle with ⟨e, he, rfl⟩ | ⟨out, w₁, u, w₂, hsub, hsend, rfl⟩
          · cases c.subscribeAll_ends t he
          · have hout := c.subscribeAll_ends t hsub
            simp only [Nat.zero_add] at hout
            cases hout
            refine c.answered_reply t (q := .subAck pkid _) (by rw [replyTo, hread]) not_false ?_
            rw [replies_append, c.within_subscribeAll t silent_handling filters 0 _ _ _ _ hsub,
              List.nil_append]
            exact send_then_ends rfl (.bind (c.within_deliverAllRetained t silent_handling _ 0)
              fun _ => .pure none) hsend
      | unsubscribe pkid topics =>
          rcases ends_bind.mp hhandle with ⟨e, he, rfl⟩ | ⟨_, w₁, u, w₂, hunsub, hsend, rfl⟩
          · have hsilent : replies w' = [] :=
              c.within_unsubscribeAll silent_handling topics _ _ _ _ he
            exact ⟨c.answered_of_silent t hsilent, fun hr => (by cases hr)⟩
          · refine c.answered_reply t (q := .unsubAck pkid) (by rw [replyTo, hread]) not_false ?_
            rw [replies_append, c.within_unsubscribeAll silent_handling topics _ _ _ _ hunsub,
              List.nil_append]
            exact send_then_ends rfl (.pure none) hsend
      | pingReq =>
          exact c.answered_reply t (q := .pingResp) (by rw [replyTo, hread]) not_false
            (send_then_ends rfl (.pure none) hhandle)
      | disconnect =>
          have hend := ends_modifyState_bind.mp hhandle
          obtain ⟨rfl, rfl, _⟩ := ends_pure.mp hend
          exact ⟨c.answered_of_silent t rfl, fun hr => (by cases hr)⟩
      | pubAck pkid | pubRec pkid | pubComp pkid | connect con | ofServer p =>
          obtain ⟨rfl, rfl, _⟩ := ends_pure.mp hhandle
          exact ⟨c.answered_of_silent t rfl, fun _ => by rw [replyTo, hread]; rfl⟩

/-! ## The loop -/

/-- A loop that ends is the same turns; one that waits for the next packet has no end. -/
theorem loop_iff : ∀ {ts : List Turn} {s s' : ServeState}
    {r : Except ServeError (Except ServeError Unit)} {w : List ServeEffect},
      Ends (c.loop ts) s r w s' ↔ Ends (c.turns ts) s (r.map some) w s' := by
  intro ts
  induction ts with
  | nil =>
      intro s s' r w
      refine ⟨fun h => absurd h not_ends_wait, fun h => ?_⟩
      have hr := (ends_pure.mp h).1
      cases r with
      | error e => cases hr
      | ok a => cases hr
  | cons t ts ih =>
      intro s s' r w
      rw [loop, turns]
      constructor
      · intro h
        rcases ends_bind.mp h with ⟨e, he, rfl⟩ | ⟨out, w₁, u, w₂, hturn, hrest, rfl⟩
        · exact ends_bind.mpr (.inl ⟨e, he, rfl⟩)
        · refine ends_bind.mpr (.inr ⟨out, w₁, u, w₂, hturn, ?_, rfl⟩)
          cases out with
          | none => exact ih.mp hrest
          | some a =>
              obtain ⟨rfl, rfl, rfl⟩ := ends_pure.mp hrest
              exact ends_pure.mpr ⟨rfl, rfl, rfl⟩
      · intro h
        rcases ends_bind.mp h with ⟨e, he, hr⟩ | ⟨out, w₁, u, w₂, hturn, hrest, rfl⟩
        · cases r with
          | error e' =>
              cases hr
              exact ends_bind.mpr (.inl ⟨e, he, rfl⟩)
          | ok a => cases hr
        · refine ends_bind.mpr (.inr ⟨out, w₁, u, w₂, hturn, ?_, rfl⟩)
          cases out with
          | none => exact ih.mpr hrest
          | some a =>
              obtain ⟨hr, rfl, rfl⟩ := ends_pure.mp hrest
              cases r with
              | error e => cases hr
              | ok b =>
                  cases hr
                  exact ends_pure.mpr ⟨rfl, rfl, rfl⟩

/-- A turn after which the loop went on, with its trace. -/
structure Handled (w : List ServeEffect) : Prop extends c.Answered t w where
  goes_on : ∃ s s', Ends (c.turn t) s (.ok none) w s'
  replied : replies w = (c.replyTo t).toList

/-- A turn that ended the loop with `r`. -/
structure Ended (r : Except ServeError (Option (Except ServeError Unit))) (w : List ServeEffect) :
    Prop
    extends c.Answered t w where
  stops : r ≠ .ok none
  ends : ∃ s s', Ends (c.turn t) s r w s'

/-- The turns of a finished loop: those that went on, and the one that ended it, if one did. -/
theorem turns_handled : ∀ {ts : List Turn} {s s' : ServeState}
    {r : Except ServeError (Option (Except ServeError Unit))} {w : List ServeEffect},
    Ends (c.turns ts) s r w s' →
    ∃ (handled : List (Turn × List ServeEffect)) (last : List ServeEffect),
      w = (handled.map Prod.snd).flatten ++ last ∧
      (∀ d ∈ handled, c.Handled d.1 d.2) ∧
      (r = .ok none ∧ ts = handled.map Prod.fst ∧ last = [] ∨
        ∃ t rest, ts = handled.map Prod.fst ++ t :: rest ∧ c.Ended t r last) := by
  intro ts
  induction ts with
  | nil =>
      intro s s' r w h
      obtain ⟨rfl, rfl, _⟩ := ends_pure.mp h
      exact ⟨[], [], rfl, fun d hd => absurd hd List.not_mem_nil, .inl ⟨rfl, rfl, rfl⟩⟩
  | cons t ts ih =>
      intro s s' r w h
      rcases ends_bind.mp h with ⟨e, he, rfl⟩ | ⟨out, w₁, u, w₂, hturn, hrest, rfl⟩
      · have hlast : c.Ended t (.error e) w :=
          ⟨(c.turn_answered t he).1, fun h => (by cases h), s, s', he⟩
        exact ⟨[], w, rfl, fun d hd => absurd hd List.not_mem_nil, .inr ⟨t, ts, rfl, hlast⟩⟩
      · cases out with
        | some a =>
            obtain ⟨rfl, rfl, rfl⟩ := ends_pure.mp hrest
            rw [List.append_nil]
            have hlast : c.Ended t (.ok (some a)) w₁ :=
              ⟨(c.turn_answered t hturn).1, fun h => (by cases h), s, s', hturn⟩
            exact ⟨[], w₁, rfl, fun d hd => absurd hd List.not_mem_nil, .inr ⟨t, ts, rfl, hlast⟩⟩
        | none =>
            obtain ⟨handled, last, rfl, hhandled, hend⟩ := ih hrest
            obtain ⟨hanswered, hreply⟩ := c.turn_answered t hturn
            have ht : c.Handled t w₁ := ⟨hanswered, ⟨s, u, hturn⟩, hreply rfl⟩
            refine ⟨(t, w₁) :: handled, last, ?_, List.forall_mem_cons.mpr ⟨ht, hhandled⟩, ?_⟩
            · rw [List.map_cons, List.flatten_cons, List.append_assoc]
            · rcases hend with ⟨hr, rfl, hlast⟩ | ⟨t', rest, rfl, hlast⟩
              · exact .inl ⟨hr, rfl, hlast⟩
              · exact .inr ⟨t', rest, rfl, hlast⟩

/-- The replies of turns that went on, one for each that requires one. -/
theorem replies_handled : ∀ {handled : List (Turn × List ServeEffect)},
    (∀ d ∈ handled, c.Handled d.1 d.2) →
      replies (handled.map Prod.snd).flatten = handled.filterMap fun d => c.replyTo d.1 := by
  intro handled
  induction handled with
  | nil => exact fun _ => rfl
  | cons d handled ih =>
      intro h
      obtain ⟨hd, hrest⟩ := List.forall_mem_cons.mp h
      rw [List.map_cons, List.flatten_cons, replies_append, ih hrest, hd.replied,
        List.filterMap_cons]
      cases c.replyTo d.1 <;> rfl

/-- **The replies, in order.**  The trace of the loop is that of the turns handled, one
after another, and of the turn that ended it, if one did; its replies are those to the
turns handled, in their order, and then at most the one to the last.  An acknowledgement
stands right behind the bus operations of its publish. -/
theorem replies_in_order : ∀ {ts : List Turn} {s s' : ServeState}
    {r : Except ServeError (Option (Except ServeError Unit))} {w : List ServeEffect},
    Ends (c.turns ts) s r w s' →
    ∃ (handled : List (Turn × List ServeEffect)) (last : List ServeEffect),
      w = (handled.map Prod.snd).flatten ++ last ∧
      replies w = (handled.filterMap fun d => c.replyTo d.1) ++ replies last ∧
      (∀ d ∈ handled, c.Handled d.1 d.2) ∧
      (r = .ok none ∧ ts = handled.map Prod.fst ∧ last = [] ∨
        ∃ t rest, ts = handled.map Prod.fst ++ t :: rest ∧ c.Ended t r last) := by
  intro ts s s' r w h
  obtain ⟨handled, last, rfl, hhandled, hend⟩ := c.turns_handled h
  refine ⟨handled, last, rfl, ?_, hhandled, hend⟩
  rw [replies_append, c.replies_handled hhandled]

/-- A client of a node that allows everything. -/
def pinger : Client := ⟨⟨"n".toList, [], ⟨[], true⟩, 0, fun _ => 0⟩, "c".toList, [], 30, fun _ => 1⟩

/-- A bus that takes everything. -/
def willing (p : ClientPacket) :
    Turn := ⟨.packet p, true, true, true, fun _ _ => true, fun _ _ => [], 0, fun _ _ => 0⟩

def hello : Publish := ⟨"t".toList, .atLeastOnce, [104, 105], 7, false⟩

def helloAcked : List ServeEffect :=
  [.received (.publish hello), .bus (.put "t".toList [104, 105]), .send (.pubAck 7),
    .received .pingReq, .send .pingResp]

theorem hello_ends :
    Ends (pinger.turns [willing (.publish hello), willing .pingReq]) ⟨9, 0, none, []⟩
    (.ok none) helloAcked ⟨7, 0, none, []⟩ := rfl

theorem hello_in_order :
    ∃ (handled : List (Turn × List ServeEffect)) (last : List ServeEffect),
      helloAcked = (handled.map Prod.snd).flatten ++ last ∧
      replies helloAcked = (handled.filterMap fun d => pinger.replyTo d.1) ++ replies last ∧
      (∀ d ∈ handled, pinger.Handled d.1 d.2) ∧
      ((.ok none : Except ServeError (Option (Except ServeError Unit))) = .ok none ∧
          [willing (.publish hello), willing .pingReq] = handled.map Prod.fst ∧ last = [] ∨
        ∃ t rest, [willing (.publish hello), willing .pingReq] = handled.map Prod.fst ++ t :: rest ∧
          pinger.Ended t (.ok none) last) :=
  pinger.replies_in_order hello_ends

end Client

end Entmoot
