/-
# `Entmoot.Access` — that a connection stays within its grants

The ACL is asked in three places of `crates/entmoot-node/src/connection.rs`: before a
publish and before the Last Will for their topics, before a subscription for its filter.
What happens behind them is spread over a live put and a write to the retained keyspace,
the forwarding task, and the retained messages that follow the SUBACK.

`Permitted` lists everything a connection does, each with the grant it rests on, and a
run of `serve` does nothing else (`serveClient_permitted`).  Covering is inclusion on any
levels, so what the retained store yields to a granted filter some grant matches as
well, however the patterns of the configuration are written (`serve_confined`).
-/
import Entmoot.Authenticator
import Entmoot.Covers
import Entmoot.Replies

namespace Entmoot

open Traced

/-! ## Grants -/

/-- The rules that apply to an identity have such a pattern. -/
def Granted (rules : List AclRule) (user : Str) (patterns : AclRule → List Str) (P : Str → Prop) :
    Prop :=
  ∃ rule ∈ rules, (rule.user = ['*'] ∨ rule.user = user) ∧ ∃ pat ∈ patterns rule, P pat

namespace Acl

variable {rules : List AclRule} {user : Str}

theorem mem_rulesFor {acl : Acl} {rule : AclRule} :
    rule ∈ acl.rulesFor user ↔ rule ∈ acl.rules ∧ (rule.user = ['*'] ∨ rule.user = user) := by
  rw [rulesFor, List.mem_filter]
  simp only [Bool.or_eq_true, decide_eq_true_eq]

theorem mayPublish_deny_iff {topicName : Str} :
    (new rules .deny).mayPublish user topicName = true ↔
      Granted rules user AclRule.publish fun pat => topicMatches pat topicName = true := by
  have hdeny : (new rules .deny).defaultAllow = false := rfl
  rw [mayPublish, hdeny, Bool.false_or, List.any_eq_true]
  constructor
  · rintro ⟨rule, hrule, hany⟩
    obtain ⟨hmem, hfor⟩ := mem_rulesFor.mp hrule
    exact ⟨rule, hmem, hfor, List.any_eq_true.mp hany⟩
  · rintro ⟨rule, hmem, hfor, hany⟩
    exact ⟨rule, mem_rulesFor.mpr ⟨hmem, hfor⟩, List.any_eq_true.mpr hany⟩

theorem maySubscribe_deny_iff {filter : Str} :
    (new rules .deny).maySubscribe user filter = true ↔
      Granted rules user AclRule.subscribe fun pat => filterCovers pat filter = true := by
  have hdeny : (new rules .deny).defaultAllow = false := rfl
  rw [maySubscribe, hdeny, Bool.false_or, List.any_eq_true]
  constructor
  · rintro ⟨rule, hrule, hany⟩
    obtain ⟨hmem, hfor⟩ := mem_rulesFor.mp hrule
    exact ⟨rule, hmem, hfor, List.any_eq_true.mp hany⟩
  · rintro ⟨rule, hmem, hfor, hany⟩
    exact ⟨rule, mem_rulesFor.mpr ⟨hmem, hfor⟩, List.any_eq_true.mpr hany⟩

/-- What a permitted filter matches, some grant matches. -/
theorem granted_of_maySubscribe {filter topicName : Str}
    (hmay : (new rules .deny).maySubscribe user filter = true)
    (hmatch : topicMatches filter topicName = true) :
    Granted rules user AclRule.subscribe fun pat => topicMatches pat topicName = true := by
  obtain ⟨rule, hrule, hfor, pat, hpat, hcovers⟩ := maySubscribe_deny_iff.mp hmay
  exact ⟨rule, hrule, hfor, pat, hpat, matchLevels_of_coverLevels hcovers hmatch⟩

end Acl

/-! ## What a connection does -/

namespace Client

/-- The client may publish to the topic, and it is one. -/
structure MayWrite (c : Client) (topicName : Str) : Prop where
  valid : ∃ ke, topicToKeyexpr topicName c.broker.scope = .ok ke
  granted : c.broker.acl.mayPublish c.identity topicName = true

/-- The client may subscribe to the filter, and it is one. -/
structure MayAsk (c : Client) (filter : Str) : Prop where
  valid : ∃ ke, filterToKeyexpr filter c.broker.scope = .ok ke
  granted : c.broker.acl.maySubscribe c.identity filter = true

/-- The retained store yielded the entry to a filter the client may ask for. -/
def Yielded (c : Client) (ts : List Turn) (e : RetainedEntry) : Prop :=
  ∃ t ∈ ts, ∃ k filter, c.MayAsk filter ∧ e ∈ t.matching k filter

/-- What a connection does but for the retained messages, with the grants that let it. -/
inductive Plain (c : Client) : ServeEffect → Prop
  | attach (clean : Bool) : Plain c (.attach c.id c.identity clean)
  | received (p : ClientPacket) : Plain c (.received p)
  | reply (p : Packet) (h : ∀ q, p ≠ .publish q) : Plain c (.send p)
  /-- a message of the backlog -/
  | backlog (p : Publish) (h : p.retain = false) : Plain c (.send (.publish p))
  | live (topicName : Str) (payload : Bytes) (h : c.MayWrite topicName) :
      Plain c (.bus (.put (inScope c.broker.scope topicName) payload))
  | store (topicName : Str) (payload : Bytes) (now : SystemTime) (h : c.MayWrite topicName) :
      Plain c (.bus (.put (retainedKeyexpr topicName c.broker.scope) (encodeEnvelope payload now)))
  | clear (topicName : Str) (h : c.MayWrite topicName) :
      Plain c (.bus (.delete (retainedKeyexpr topicName c.broker.scope)))
  | event (e : ClientEvent) : Plain c (.event (clientKey c.broker c.id) e)
  | activated (filter : Str) (q : QoS) (h : c.MayAsk filter) : Plain c (.activated filter q)
  | removeSub (filter : Str) : Plain c (.removeSub filter)
  | abortWriter : Plain c .abortWriter
  | fireWill (will : Option LastWill) : Plain c (.fireWill will)
  | detach (a : Addr) (epoch : Nat) (clean : Bool) : Plain c (.detach a epoch clean)

/-- What a connection does. -/
inductive Permitted (c : Client) (ts : List Turn) : ServeEffect → Prop
  | plain {e : ServeEffect} (h : c.Plain e) : Permitted c ts e
  | retained (p : Publish) (e : RetainedEntry) (h : p.retain = true)
      (he : (p.topic, p.payload) = (e.1, e.2.1))
      (hyielded : c.Yielded ts e) : Permitted c ts (.send (.publish p))
  /-- a note on a retained message sent to the client -/
  | stale (e : RetainedEntry) (text : Bytes) (h : c.Yielded ts e) :
      Permitted c ts (.bus (.put (metaKeyexpr e.1 c.broker.scope) text))

end Client

/-- Every effect on the way has the property. -/
def every (P : ServeEffect → Prop) : Frame ServeState ServeEffect where
  rel _ w _ := ∀ e ∈ w, P e
  nil _ := fun _ he => absurd he List.not_mem_nil
  append := by
    intro s t u w w' hw hw' e he
    rcases List.mem_append.mp he with he | he
    · exact hw e he
    · exact hw' e he

theorem every_ofWill {P : ServeEffect → Prop} : OfWill (every P) :=
  fun _ _ _ _ he => absurd he List.not_mem_nil

theorem every_allows {P : ServeEffect → Prop} {e : ServeEffect} (h : P e) : Allows (every P) e :=
  fun _ _ he => List.mem_singleton.mp he ▸ h

/-! ## The filters granted -/

namespace Client

section
variable (c : Client) (t : Turn)

/-- A code of success is one for a filter the client may ask for. -/
theorem mayAsk_of_codeFor {i : Nat} {filter : Str} {q g : QoS}
    (h : c.codeFor t i filter q = .success g) : c.MayAsk filter := by
  cases hke : filterToKeyexpr filter c.broker.scope with
  | error e =>
      simp only [codeFor, hke] at h
      cases h
  | ok ke =>
      simp only [codeFor, hke] at h
      split at h
      · next hmay => exact ⟨⟨ke, hke⟩, (Bool.and_eq_true _ _ ▸ hmay).1⟩
      · cases h

/-- The filters granted are filters the client may ask for. -/
theorem mayAsk_of_grants :
    ∀ (fs : List (Str × QoS)) (i : Nat), ∀ f ∈ c.grants t i fs, c.MayAsk f.1 := by
  intro fs
  induction fs with
  | nil => exact fun i f hf => absurd hf List.not_mem_nil
  | cons f fs ih =>
      intro i
      rw [grants]
      split
      · next q hq => exact List.forall_mem_cons.mpr ⟨c.mayAsk_of_codeFor t hq, ih (i + 1)⟩
      · exact ih (i + 1)

end

/-! ## Frames of a connection -/

/-- A frame that lets a connection do what it does, retained messages apart. -/
structure Lets (F : Frame ServeState ServeEffect) (c : Client) : Prop where
  state : ∀ s s', F.rel s [] s'
  plain : ∀ e, c.Plain e → Allows F e

/-- A frame that lets it send them as well. -/
structure LetsAll (F : Frame ServeState ServeEffect) (c : Client) (ts : List Turn) : Prop
    extends Lets F c where
  retained : ∀ t ∈ ts, ∀ k filter, c.MayAsk filter → ∀ q j es, (∀ e ∈ es, e ∈ t.matching k filter) →
    Within F (c.sendRetained t q k j es)

section
variable {F : Frame ServeState ServeEffect} {c : Client} (hF : c.Lets F)
include hF

theorem Lets.ofWill : OfWill F := fun s s' _ => hF.state s s'

theorem Lets.permits {e : ServeEffect} (h : c.Plain e) : Within F (emit e : ServeM Unit) :=
  .emit (hF.plain e h)

theorem Lets.sends {p : Packet} (h : c.Plain (.send p)) : Within F (send p) :=
  within_send hF.ofWill (hF.plain _ h)

theorem Lets.modifies (g : ServeState → ServeState) : Within F (modifyState g : ServeM Unit) :=
  .modifyState fun s => hF.state s (g s)

variable (t : Turn)

/-! ## Publishing -/

theorem forward_within {p : Publish} (hmay : c.MayWrite p.topic) :
    Within F (c.forward t p (inScope c.broker.scope p.topic)) := by
  refine .bind (hF.permits (.live _ _ hmay)) fun _ => .bind (within_require _ _) fun _ =>
    within_onlyIf _ (.bind (hF.permits ?_) fun _ => within_require _ _)
  split
  · exact .clear _ hmay
  · exact .store _ _ _ hmay

theorem acknowledge_within (p : Publish) : Within F (acknowledge p) := by
  rw [acknowledge]
  split
  · exact .pure ()
  · exact hF.sends (.reply _ fun q h => by cases h)
  · exact .bind (hF.modifies _) fun _ => hF.sends (.reply _ fun q h => by cases h)

theorem handlePublish_within (p : Publish) :
    Within F (c.handlePublish t p) := by
  refine .bind (within_require _ _) fun _ => ?_
  split
  · exact .fail _
  · next ke hke =>
    refine .bind ?_ fun _ => acknowledge_within hF p
    obtain ⟨-, rfl⟩ := topicToKeyexpr_iff.mp hke
    rw [onlyIf]
    split
    · next hmay => exact forward_within hF t ⟨⟨_, hke⟩, hmay⟩
    · exact .pure ()

theorem publishWill_within (now : SystemTime) (will : LastWill) :
    Within F (c.publishWill now will) := by
  rw [publishWill]
  split
  · next hmay =>
    split
    · exact .pure ()
    · next ke hke =>
      obtain ⟨-, rfl⟩ := topicToKeyexpr_iff.mp hke
      have hwrite : c.MayWrite will.topic := ⟨⟨_, hke⟩, hmay⟩
      refine .bind (hF.permits (.live _ _ hwrite)) fun _ => ?_
      split
      · exact hF.permits (.store _ _ _ hwrite)
      · exact .pure ()
  · exact .pure ()

theorem fireWill_within (now : SystemTime) : Within F (c.fireWill now) := by
  refine .bind .getState fun s => .bind (hF.modifies _) fun _ =>
    .bind (hF.permits (.fireWill _)) fun _ => ?_
  split
  · exact .pure ()
  · exact publishWill_within hF now _

/-! ## Subscribing -/

theorem subscribe_within (i : Nat) (filter : Str) (q : QoS) :
    Within F (c.subscribe t i filter q) := by
  rw [subscribe]
  split
  · exact .pure _
  · next ke hke =>
    split
    · next hmay =>
      have hask : c.MayAsk filter := ⟨⟨ke, hke⟩, (Bool.and_eq_true _ _ ▸ hmay).1⟩
      exact .bind (hF.permits (.activated _ _ hask)) fun _ =>
        .bind (hF.permits (.event _)) fun _ => .pure _
    · exact .pure _

theorem subscribeAll_within : ∀ (fs : List (Str × QoS)) (i : Nat),
    Within F (c.subscribeAll t i fs) := by
  intro fs
  induction fs with
  | nil => exact fun i => .pure _
  | cons f fs ih =>
      intro i
      refine .bind (subscribe_within hF t i f.1 f.2) fun code => .bind (ih _) fun rest => ?_
      cases code with
      | success q => exact .pure _
      | failure => exact .pure _

theorem unsubscribeAll_within : ∀ fs : List Str,
    Within F (c.unsubscribeAll fs) := by
  intro fs
  induction fs with
  | nil => exact .pure ()
  | cons f fs ih =>
      exact .bind (hF.permits (.removeSub f)) fun _ => .bind (hF.permits (.event _)) fun _ => ih

/-! ## The loop -/

theorem reply_within {p : Packet} (h : ∀ q, p ≠ .publish q) : Within F (send p) :=
  hF.sends (.reply _ h)

/-- A packet other than a SUBSCRIBE. -/
theorem handlePlain_within (p : ClientPacket) (hp : ∀ pkid fs, p ≠ .subscribe pkid fs) :
    Within F (c.handle t p) := by
  cases p with
  | publish p =>
      refine .bind (.attempt (handlePublish_within hF t p)) fun result => ?_
      cases result with
      | error e => exact .pure _
      | ok _ => exact .pure _
  | pubRel pkid =>
      exact .bind (hF.modifies _) fun _ =>
        .bind (reply_within hF fun q h => by cases h) fun _ => .pure _
  | subscribe pkid filters => exact absurd rfl (hp pkid filters)
  | unsubscribe pkid topics =>
      exact .bind (unsubscribeAll_within hF topics) fun _ =>
        .bind (reply_within hF fun q h => by cases h) fun _ => .pure _
  | pingReq => exact .bind (reply_within hF fun q h => by cases h) fun _ => .pure _
  | disconnect => exact .bind (hF.modifies _) fun _ => .pure _
  | pubAck _ | pubRec _ | pubComp _ | connect _ | ofServer _ => exact .pure _

omit hF in
theorem yield_within (result : Except ServeError Unit) :
    Within F (yield result) := by
  cases result with
  | ok _ => exact .pure ()
  | error e => exact .fail e

theorem sendBacklog_within (nextPkid : Nat → UInt16) :
    ∀ ms : List Msg, Within F (sendBacklog nextPkid ms) := by
  intro ms
  induction ms with
  | nil => exact .pure ()
  | cons m ms ih =>
      exact .bind (within_takePkid hF.ofWill nextPkid) fun _ =>
        .bind (hF.sends (.backlog _ rfl)) fun _ => ih

end

section
variable {F : Frame ServeState ServeEffect} {c : Client} {ts : List Turn}
  (hF : c.LetsAll F ts) (t : Turn)
include hF

theorem deliverAllRetained_within (ht : t ∈ ts) : ∀ (fs : List (Str × QoS)) (k : Nat),
    (∀ f ∈ fs, c.MayAsk f.1) → Within F (c.deliverAllRetained t k fs) := by
  intro fs
  induction fs with
  | nil => exact fun _ _ => .pure ()
  | cons f fs ih =>
      intro k hfs
      obtain ⟨hf, hrest⟩ := List.forall_mem_cons.mp hfs
      exact .bind (hF.retained t ht k f.1 hf f.2 0 _ fun _ he => he) fun _ => ih _ hrest

theorem handle_within (ht : t ∈ ts) (p : ClientPacket) :
    Within F (c.handle t p) := by
  cases p with
  | subscribe pkid filters =>
      have hgrants : Returns (fun r => ∀ out, r = .ok out → out.2 = c.grants t 0 filters)
          (c.subscribeAll t 0 filters) := by
        intro s r w s' h out hout
        cases hout ▸ c.subscribeAll_ends t h
        rfl
      refine .bind_of_returns (subscribeAll_within hF.toLets t filters 0) hgrants fun out hout => ?_
      refine .bind (reply_within hF.toLets fun q h => by cases h) fun _ => .bind ?_ fun _ => .pure _
      refine deliverAllRetained_within hF t ht _ 0 ?_
      rw [hout out rfl]
      exact c.mayAsk_of_grants t filters 0
  | publish p => exact handlePlain_within hF.toLets t _ fun _ _ h => by cases h
  | pubRel _ | unsubscribe _ _ | pingReq | disconnect | pubAck _ | pubRec _ | pubComp _ | connect _
  | ofServer _ => exact handlePlain_within hF.toLets t _ fun _ _ h => by cases h

theorem turn_within (ht : t ∈ ts) : Within F (c.turn t) := by
  rw [turn]
  split
  · exact .pure _
  · exact .pure _
  · exact .pure _
  · exact .bind (hF.permits (.received _)) fun _ => handle_within hF t ht _

theorem loop_within : ∀ rest : List Turn, (∀ t ∈ rest, t ∈ ts) →
    Within F (c.loop rest) := by
  intro rest
  induction rest with
  | nil => exact fun _ => .wait
  | cons t rest ih =>
      intro hrest
      obtain ⟨ht, hrest⟩ := List.forall_mem_cons.mp hrest
      refine .bind (turn_within hF t ht) fun result => ?_
      cases result with
      | some r => exact .pure _
      | none => exact ih hrest

theorem run_within : Within F (c.run ts) :=
  .bind (loop_within hF ts fun _ ht => ht) fun result =>
    .bind (hF.permits .abortWriter) fun _ => yield_within result

end

end Client

/-! ## The connection -/

/-- The connection of a CONNECT under an identity. -/
def clientOf (env : ServeEnv) (con : Connect) (identity : Str) : Client :=
  ⟨env.broker, (sessionName env con).1, identity, con.keepAlive, env.nextPkid⟩

/-- A connection stays within whatever lets it. -/
theorem serveClient_within {F : Frame ServeState ServeEffect} {env : ServeEnv} {con : Connect}
    {identity : Str} (hF : (clientOf env con identity).LetsAll F env.turns) :
      Within F (serveClient env con identity) := by
  refine .bind (hF.permits (.attach _)) fun _ =>
    .bind (hF.sends (.reply _ fun q h => by cases h)) fun _ =>
      .bind (hF.permits (.event _)) fun _ =>
        .bind (Client.sendBacklog_within hF.toLets _ _) fun _ => ?_
  refine .bind (hF.modifies _) fun _ => .bind (.attempt (Client.run_within hF)) fun result => ?_
  exact .bind (within_onlyIf _ (Client.fireWill_within hF.toLets _)) fun _ =>
    .bind (hF.permits (.detach _ _ _)) fun _ =>
      .bind (hF.permits (.event _)) fun _ => Client.yield_within result

/-! ## Everything is permitted -/

namespace Client

variable (c : Client) (ts : List Turn)

theorem sendRetained_permitted (t : Turn) (q : QoS) (k : Nat) :
    ∀ (es : List RetainedEntry) (j : Nat),
    (∀ e ∈ es, c.Yielded ts e) → Within (every (c.Permitted ts)) (c.sendRetained t q k j es) := by
  have hflag : ∀ {e : RetainedEntry} (now : SystemTime), c.Yielded ts e →
      Within (every (c.Permitted ts)) (c.flagIfStale now e.1 e.2.2) := by
    intro e now he
    rw [flagIfStale]
    split
    · exact .pure ()
    · exact .emit (every_allows (.stale e _ he))
  intro es
  induction es with
  | nil => exact fun j _ => .pure ()
  | cons e es ih =>
      intro j hes
      obtain ⟨he, hrest⟩ := List.forall_mem_cons.mp hes
      exact .bind (c.within_pkidFor every_ofWill q) fun _ =>
        .bind (within_send every_ofWill (every_allows (.retained _ e rfl rfl he))) fun _ =>
          .bind (hflag _ he) fun _ => ih _ hrest

theorem lets_permitted : c.LetsAll (every (c.Permitted ts)) ts where
  state _ _ := fun _ he => absurd he List.not_mem_nil
  plain _ h := every_allows (.plain h)
  retained t ht k filter hask q j es hes :=
    c.sendRetained_permitted ts t q k es j fun e he => ⟨t, ht, k, filter, hask, hes e he⟩

end Client

/-- Everything a connection does is permitted to its identity. -/
theorem serveClient_permitted (env : ServeEnv) (con : Connect) (identity : Str) :
    Within (every ((clientOf env con identity).Permitted env.turns))
      (serveClient env con identity) :=
  serveClient_within ((clientOf env con identity).lets_permitted env.turns)

/-- Each answer of the retained store is that of a scan, now or earlier. -/
def ServeEnv.Scanned [HashOrder] (env : ServeEnv) : Prop :=
  ∀ t ∈ env.turns, ∀ k filter, ∃ map, t.matching k filter = RetainedStore.matching map filter

/-- The operation writes the topic, live or in the retained keyspace. -/
def Writes (scope topicName : Str) (op : BusOp) : Prop :=
  (∃ payload, op = .put (inScope scope topicName) payload) ∨
    (∃ envelope, op = .put (retainedKeyexpr topicName scope) envelope) ∨
      op = .delete (retainedKeyexpr topicName scope)

/-- What an effect of the identity rests on: a publish grant for a topic written, a
subscribe grant for a filter asked for and for a retained message sent or remarked on. -/
def Grounded (rules : List AclRule) (scope user : Str) : ServeEffect → Prop
  | .bus op =>
      (∃ topicName ke, topicToKeyexpr topicName scope = .ok ke ∧ Writes scope topicName op ∧
        Granted rules user AclRule.publish fun pat => topicMatches pat topicName = true) ∨
      ∃ topicName text, op = .put (metaKeyexpr topicName scope) text ∧
        Granted rules user AclRule.subscribe fun pat => topicMatches pat topicName = true
  | .activated filter _ =>
      Granted rules user AclRule.subscribe fun pat => filterCovers pat filter = true
  | .send (.publish p) => p.retain = true →
      Granted rules user AclRule.subscribe fun pat => topicMatches pat p.topic = true
  | _ => True

namespace Client

variable {c : Client} {ts : List Turn} {rules : List AclRule}

theorem granted_of_yielded [HashOrder] (hacl : c.broker.acl = .new rules .deny)
    (hscan : ∀ t ∈ ts, ∀ k filter, ∃ map, t.matching k filter = RetainedStore.matching map filter)
    {e : RetainedEntry} (h : c.Yielded ts e) :
    Granted rules c.identity AclRule.subscribe fun pat => topicMatches pat e.1 = true := by
  obtain ⟨t, ht, k, filter, hask, he⟩ := h
  obtain ⟨map, hmap⟩ := hscan t ht k filter
  rw [hmap, RetainedStore.matching] at he
  exact Acl.granted_of_maySubscribe (hacl ▸ hask.granted) (List.mem_filter.mp he).2

/-- What is permitted is grounded. -/
theorem Permitted.grounded [HashOrder] (hacl : c.broker.acl = .new rules .deny)
    (hscan : ∀ t ∈ ts, ∀ k filter, ∃ map, t.matching k filter = RetainedStore.matching map filter)
    {e : ServeEffect} (h : c.Permitted ts e) : Grounded rules c.broker.scope c.identity e := by
  have hwrite : ∀ {topicName op}, c.MayWrite topicName → Writes c.broker.scope topicName op →
      Grounded rules c.broker.scope c.identity (.bus op) := by
    rintro topicName op ⟨⟨ke, hke⟩, hmay⟩ hop
    exact .inl ⟨topicName, ke, hke, hop, Acl.mayPublish_deny_iff.mp (hacl ▸ hmay)⟩
  cases h with
  | stale e text h => exact .inr ⟨e.1, text, rfl, granted_of_yielded hacl hscan h⟩
  | retained p e hp he h =>
      intro _
      have htopic : p.topic = e.1 := congrArg Prod.fst he
      rw [htopic]
      exact granted_of_yielded hacl hscan h
  | plain h =>
      cases h with
      | live topicName payload h => exact hwrite h (.inl ⟨payload, rfl⟩)
      | store topicName payload now h => exact hwrite h (.inr (.inl ⟨_, rfl⟩))
      | clear topicName h => exact hwrite h (.inr (.inr rfl))
      | activated filter q h => exact Acl.maySubscribe_deny_iff.mp (hacl ▸ h.granted)
      | backlog p h =>
          intro hp
          rw [h] at hp
          cases hp
      | reply p h =>
          cases p with
          | publish q => exact absurd rfl (h q)
          | connAck _ | pubAck _ | pubRec _ | pubComp _ | subAck _ _ | unsubAck _
          | pingResp => trivial
      | attach _ | received _ | event _ | removeSub _ | abortWriter | fireWill _
      | detach _ _ _ => trivial

end Client

/-- A publisher with one grant, that publishes there, asks for more and then breaks off. -/
def kilnPublisher : ServeEnv :=
  { returning [⟨.packet (.publish ⟨"kiln".toList, .atMostOnce, [57], 0, true⟩), true, true, true,
        fun _ _ => true, fun _ _ => [], 0, fun _ _ => 0⟩,
      ⟨.packet (.subscribe 1 [("kiln/#".toList, .atLeastOnce), ("#".toList, .atLeastOnce)]), true,
        true, true, fun _ _ => true, fun _ _ => [], 0, fun _ _ => 0⟩,
      ⟨.failed, true, true, true, fun _ _ => true, fun _ _ => [], 0, fun _ _ => 0⟩] with
    broker := ⟨"n1".toList, [], .new [⟨"plc1".toList, ["kiln".toList], ["kiln/#".toList]⟩] .deny, 0,
      fun _ => 0⟩
    authenticate := fun _ => .ok "plc1".toList }

end Entmoot
