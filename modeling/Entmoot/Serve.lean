/-
# `Entmoot.Serve` — one client connection from CONNECT to its end

`crates/entmoot-node/src/connection.rs` 43–397.  `serve` and the handlers under it,
as programs over the state of the connection that leave a trace: the packets read
and pushed into the outbound channel, the operations on the bus, the calls on the
registry and on the session.  `?` is the error of a program, `break Err(e)` of the
loop is a result of it.

Everything the connection is told by others is in `ServeEnv`: what it reads, turn by
turn, with the answers of the rate limiter and the bus in that turn (`Turn`), what
`attach` returns, and the packet ids its session hands out.  The outbound channel
takes `room` more packets before its writer is gone; metrics are left out, and so is
the time a read waits.  A run that has used up its turns waits for the next packet.
-/
import Entmoot.Auth
import Entmoot.Registry
import Entmoot.Retained
import Entmoot.Lib.Traced

namespace Entmoot

open Traced (Frame Within emit fail getState modifyState attempt wait)

/-! ## Packets -/

/-- `mqttbytes::v4::LastWill`. -/
structure LastWill where
  topic : Str
  message : Bytes
  qos : QoS
  retain : Bool
  deriving DecidableEq, Repr

/-- `mqttbytes::v4::Connect`, with the login as user name and password. -/
structure Connect where
  keepAlive : UInt16
  clientId : Str
  cleanSession : Bool
  lastWill : Option LastWill
  login : Option (Str × Str)
  deriving DecidableEq, Repr

/-- The packets a client sends, and those only a server does. -/
inductive ClientPacket where
  | connect (c : Connect)
  | publish (p : Publish)
  | pubAck (pkid : UInt16)
  | pubRec (pkid : UInt16)
  | pubRel (pkid : UInt16)
  | pubComp (pkid : UInt16)
  | subscribe (pkid : UInt16) (filters : List (Str × QoS))
  | unsubscribe (pkid : UInt16) (topics : List Str)
  | pingReq
  | disconnect
  | ofServer (p : Packet)
  deriving DecidableEq, Repr

/-- `ConnectReturnCode`, as far as a CONNECT is refused. -/
inductive ConnectReturnCode where
  | serviceUnavailable
  | badUserNamePassword
  | notAuthorized
  deriving DecidableEq, Repr

inductive ConnectDenied where
  | badCredentials
  | anonymousNotAllowed
  deriving DecidableEq, Repr

/-! ## Environment and trace -/

/-- What the node is configured with. -/
structure Broker where
  id : Str
  scope : Str
  acl : Acl
  maxPublishRate : Nat
  /-- the staleness bound of a topic, 0 for none -/
  boundSecs : Str → Nat

/-- What the `select!` of the loop yields. -/
inductive Read where
  | packet (p : ClientPacket)
  /-- the peer is gone, or sent something malformed -/
  | failed
  | expired
  | kicked (reason : Option Str)
  deriving DecidableEq, Repr

/-- One turn of the loop, and how others answer in it. -/
structure Turn where
  read : Read
  /-- whether the rate limiter lets a publish through -/
  allow : Bool
  /-- whether the bus takes the live put, and the write to the retained keyspace -/
  put : Bool
  retained : Bool
  /-- whether the bus accepts a subscriber, for each filter of a SUBSCRIBE -/
  declare : Nat → Str → Bool
  /-- the retained messages matching a filter, for each filter granted -/
  matching : Nat → Str → List RetainedEntry
  /-- the clock at a retained write -/
  now : SystemTime
  /-- the clock after each retained message of each filter granted -/
  nowAfter : Nat → Nat → SystemTime

inductive FirstRead where
  | packet (p : ClientPacket)
  | failed
  | timedOut
  deriving DecidableEq, Repr

structure ServeEnv where
  broker : Broker
  peer : Str
  certIdentity : Option Str
  first : FirstRead
  /-- whether connect-admission control lets the CONNECT in -/
  admitted : Bool
  authenticate : Option (Str × Str) → Except ConnectDenied Str
  /-- whether a refusal can be written -/
  refusalSent : Bool
  nanos : Nat
  /-- what the registry's `attach` returns for client id, identity and cleanSession -/
  attach : Str → Str → Bool → AttachOutcome
  /-- the packet ids the session hands out to this connection -/
  nextPkid : Nat → UInt16
  turns : List Turn
  /-- when the will is fired -/
  willTime : SystemTime

inductive ServeError where
  | readingConnect
  | connectTimeout
  | firstPacket (p : ClientPacket)
  | socketWrite
  | writerClosed
  | read
  | keepAliveExpired (secs : UInt16)
  | kicked (reason : Str)
  | publishRate (rate : Nat)
  | invalidTopic (topic : Str) (e : TopicError)
  | zenohPut (ke : Str)
  | retainedWrite (rke : Str)
  | duplicateConnect
  | unexpected (p : ClientPacket)
  deriving DecidableEq, Repr

inductive BusOp where
  | put (ke : Str) (payload : Bytes)
  | delete (ke : Str)
  deriving DecidableEq, Repr

/-- What `publish_client_event` reports. -/
inductive ClientEvent where
  | connect (addr : Str) (clean : Bool)
  | subscribe (filter : Str) (granted : QoS)
  | unsubscribe (filter : Str)
  | disconnect (reason : Str)
  deriving DecidableEq, Repr

inductive ServeEffect where
  | refused (code : ConnectReturnCode)
  | attach (clientId identity : Str) (clean : Bool)
  | received (p : ClientPacket)
  | send (p : Packet)
  | bus (op : BusOp)
  /-- a lifecycle event on its `$meta` key; a failure to publish it is only logged -/
  | event (ke : Str) (e : ClientEvent)
  | activated (filter : Str) (granted : QoS)
  | removeSub (filter : Str)
  | abortWriter
  /-- `fire_will`, with the will there is -/
  | fireWill (will : Option LastWill)
  | detach (session : Addr) (epoch : Nat) (clean : Bool)
  deriving DecidableEq, Repr

structure ServeState where
  /-- how many more packets the outbound channel takes -/
  room : Nat
  /-- how many packet ids this connection took -/
  pkids : Nat
  will : Option LastWill
  /-- inbound QoS 2 packet ids awaiting PUBREL -/
  inflightQos2 : List UInt16
  deriving DecidableEq, Repr

abbrev ServeM := Traced ServeState ServeEffect ServeError

/-- `Client`, but for its state. -/
structure Client where
  broker : Broker
  id : Str
  identity : Str
  keepAlive : UInt16
  nextPkid : Nat → UInt16

/-! ## Sending -/

def onlyIf (b : Bool) (x : ServeM Unit) : ServeM Unit := if b then x else pure ()

def require (ok : Bool) (e : ServeError) : ServeM Unit := if ok then pure () else fail e

/-- A packet into the outbound channel; fails once the writer is gone. -/
def send (p : Packet) : ServeM Unit := do
  let s ← getState
  match s.room with
  | 0 => fail .writerClosed
  | room + 1 => do
      modifyState fun s => { s with room := room }
      emit (.send p)

/-- The key of a client's lifecycle events. -/
def clientKey (b : Broker) (clientId : Str) : Str :=
  metaKeyexpr ("clients/".toList ++ b.id ++ '/' :: clientId) b.scope

def publishClientEvent (b : Broker) (clientId : Str) (e : ClientEvent) : ServeM Unit :=
  emit (.event (clientKey b clientId) e)

def takePkid (nextPkid : Nat → UInt16) : ServeM UInt16 := do
  let s ← getState
  modifyState fun s => { s with pkids := s.pkids + 1 }
  pure (nextPkid s.pkids)

/-! ## Handling packets -/

namespace Client

/-- The bus operations of a publish that the ACL permits. -/
def forward (c : Client) (t : Turn) (p : Publish) (ke : Str) : ServeM Unit := do
  emit (.bus (.put ke p.payload))
  require t.put (.zenohPut ke)
  onlyIf p.retain do
    -- MQTT-3.3.1-10/11: an empty retained payload clears the slot
    let rke := retainedKeyexpr p.topic c.broker.scope
    emit (.bus (if p.payload = [] then .delete rke else .put rke (encodeEnvelope p.payload t.now)))
    require t.retained (.retainedWrite rke)

def acknowledge (p : Publish) : ServeM Unit :=
  match p.qos with
  | .atMostOnce => pure ()
  | .atLeastOnce => send (.pubAck p.pkid)
  | .exactlyOnce => do
      modifyState fun s => { s with
        inflightQos2 := if p.pkid ∈ s.inflightQos2 then s.inflightQos2 else p.pkid ::
          s.inflightQos2 }
      send (.pubRec p.pkid)

def handlePublish (c : Client) (t : Turn) (p : Publish) : ServeM Unit := do
  require t.allow (.publishRate c.broker.maxPublishRate)
  match topicToKeyexpr p.topic c.broker.scope with
  | .error e => fail (.invalidTopic p.topic e)
  | .ok ke => do
      -- acked even when the ACL dropped the message
      onlyIf (c.broker.acl.mayPublish c.identity p.topic) (c.forward t p ke)
      acknowledge p

/-- At most QoS 1 is granted. -/
def granted : QoS → QoS
  | .atMostOnce => .atMostOnce
  | _ => .atLeastOnce

def subscribe (c : Client) (t : Turn) (i : Nat) (filter : Str) (reqQos : QoS) :
    ServeM SubscribeReasonCode :=
  match filterToKeyexpr filter c.broker.scope with
  | .error _ => pure .failure
  | .ok ke =>
      if c.broker.acl.maySubscribe c.identity filter && t.declare i ke then do
        emit (.activated filter (granted reqQos))
        publishClientEvent c.broker c.id (.subscribe filter (granted reqQos))
        pure (.success (granted reqQos))
      else pure .failure

/-- The filters of a SUBSCRIBE one by one, from the `i`-th on: their codes, and those
granted. -/
def subscribeAll (c : Client) (t : Turn) (i : Nat) :
    List (Str × QoS) → ServeM (List SubscribeReasonCode × List (Str × QoS))
  | [] => pure ([], [])
  | f :: fs => do
      let code ← c.subscribe t i f.1 f.2
      let rest ← c.subscribeAll t (i + 1) fs
      match code with
      | .success qos => pure (code :: rest.1, (f.1, qos) :: rest.2)
      | .failure => pure (code :: rest.1, rest.2)

/-- `flag_if_stale` at a time: a `$meta` message if the value is past its bound. -/
def flagIfStale (c : Client) (now : SystemTime) (topicName : Str) (writtenAt : SystemTime) :
    ServeM Unit :=
  let bound := c.broker.boundSecs topicName
  let age := (now - writtenAt).toNat
  if bound = 0 ∨ age < bound * 1000000000 then pure ()
  else
    emit (.bus (.put (metaKeyexpr topicName c.broker.scope)
      (asBytes s!"stale=true age_secs={age / 1000000000} bound_secs={bound}".toList)))

/-- Only QoS above 0 takes a packet id. -/
def pkidFor (c : Client) (qos : QoS) : ServeM UInt16 :=
  if qos = .atMostOnce then pure 0 else takePkid c.nextPkid

/-- The retained messages of the `k`-th filter granted, from the `j`-th on. -/
def sendRetained (c : Client) (t : Turn) (qos : QoS) (k j : Nat) : List RetainedEntry → ServeM Unit
  | [] => pure ()
  | e :: es => do
      let pkid ← c.pkidFor qos
      send (.publish { Publish.new e.1 qos e.2.1 with retain := true, pkid := pkid })
      c.flagIfStale (t.nowAfter k j) e.1 e.2.2
      c.sendRetained t qos k (j + 1) es

def deliverRetained (c : Client) (t : Turn) (k : Nat) (filter : Str) (qos : QoS) : ServeM Unit :=
  c.sendRetained t qos k 0 (t.matching k filter)

/-- MQTT-3.3.1-8: the retained messages of the granted filters follow the SUBACK; these are
from the `k`-th on. -/
def deliverAllRetained (c : Client) (t : Turn) (k : Nat) : List (Str × QoS) → ServeM Unit
  | [] => pure ()
  | f :: fs => do
      c.deliverRetained t k f.1 f.2
      c.deliverAllRetained t (k + 1) fs

def unsubscribeAll (c : Client) : List Str → ServeM Unit
  | [] => pure ()
  | f :: fs => do
      emit (.removeSub f)
      publishClientEvent c.broker c.id (.unsubscribe f)
      c.unsubscribeAll fs

/-- One packet in the loop; a result ends the loop with it. -/
def handle (c : Client) (t : Turn) : ClientPacket → ServeM (Option (Except ServeError Unit))
  | .publish p => do
      let result ← attempt (c.handlePublish t p)
      match result with
      | .error e => pure (some (.error e))
      | .ok _ => pure none
  | .pubRel pkid => do
      modifyState fun s => { s with inflightQos2 := s.inflightQos2.erase pkid }
      send (.pubComp pkid)
      pure none
  | .subscribe pkid filters => do
      let out ← c.subscribeAll t 0 filters
      send (.subAck pkid out.1)
      c.deliverAllRetained t 0 out.2
      pure none
  | .unsubscribe pkid topics => do
      c.unsubscribeAll topics
      send (.unsubAck pkid)
      pure none
  | .pingReq => do
      send .pingResp
      pure none
  | .disconnect => do
      -- MQTT-3.14.4-3: the will is discarded
      modifyState fun s => { s with will := none }
      pure (some (.ok ()))
  | .pubAck _ | .pubRec _ | .pubComp _ => pure none
  | .connect _ => pure (some (.error .duplicateConnect))
  | .ofServer p => pure (some (.error (.unexpected (.ofServer p))))

/-- What the `select!` yields, and what the loop makes of it. -/
def turn (c : Client) (t : Turn) : ServeM (Option (Except ServeError Unit)) :=
  match t.read with
  | .failed => pure (some (.error .read))
  | .expired => pure (some (.error (.keepAliveExpired c.keepAlive)))
  | .kicked reason => pure (some (.error (.kicked (reason.getD kickTakeover))))
  | .packet p => do
      emit (.received p)
      c.handle t p

def loop (c : Client) : List Turn → ServeM (Except ServeError Unit)
  | [] => wait
  | t :: ts => do
      let result ← c.turn t
      match result with
      | some r => pure r
      | none => c.loop ts

/-- The result of the loop or of the connection, passed on. -/
def yield (result : Except ServeError Unit) : ServeM Unit :=
  match result with
  | .ok _ => pure ()
  | .error e => fail e

/-- `run`; the writer outlives an error inside a handler, but not the end of the loop. -/
def run (c : Client) (ts : List Turn) : ServeM Unit := do
  let result ← c.loop ts
  emit .abortWriter
  yield result

/-- The will published, if the ACL and its topic allow it. -/
def publishWill (c : Client) (now : SystemTime) (w : LastWill) : ServeM Unit :=
  if c.broker.acl.mayPublish c.identity w.topic then
    match topicToKeyexpr w.topic c.broker.scope with
    | .error _ => pure ()
    | .ok ke => do
        emit (.bus (.put ke w.message))
        if w.retain ∧ w.message ≠ [] then
          emit (.bus (.put (retainedKeyexpr w.topic c.broker.scope) (encodeEnvelope w.message now)))
        else pure ()
  else pure ()

def fireWill (c : Client) (now : SystemTime) : ServeM Unit := do
  let s ← getState
  modifyState fun s => { s with will := none }
  emit (.fireWill s.will)
  match s.will with
  | none => pure ()
  | some w => c.publishWill now w

end Client

/-! ## The connection -/

/-- The offline backlog, all QoS 1. -/
def sendBacklog (nextPkid : Nat → UInt16) : List Msg → ServeM Unit
  | [] => pure ()
  | m :: ms => do
      let pkid ← takePkid nextPkid
      send (.publish { Publish.new m.1 .atLeastOnce m.2 with pkid := pkid })
      sendBacklog nextPkid ms

/-- The client id and flag of the session; an empty id gets a generated one and is
forced clean (MQTT-3.1.3-7). -/
def sessionName (env : ServeEnv) (c : Connect) : Str × Bool :=
  if c.clientId = [] then (s!"entmoot-anon-{env.nanos}".toList, true)
    else (c.clientId, c.cleanSession)

/-- What `serve` does once `run` has ended. -/
def finish (env : ServeEnv) (client : Client) (att : AttachOutcome) (clean : Bool)
    (result : Except ServeError Unit) : ServeM Unit := do
  onlyIf result.toBool.not (client.fireWill env.willTime)
  emit (.detach att.session att.epoch clean)
  publishClientEvent env.broker client.id
    (.disconnect (if result.toBool then "clean".toList else "abnormal".toList))
  Client.yield result

/-- `serve` from `attach` on. -/
def serveClient (env : ServeEnv) (c : Connect) (identity : Str) : ServeM Unit := do
  let name := sessionName env c
  let att := env.attach name.1 identity name.2
  emit (.attach name.1 identity name.2)
  send (.connAck att.sessionPresent)
  publishClientEvent env.broker name.1 (.connect env.peer name.2)
  sendBacklog env.nextPkid att.backlog
  modifyState fun s => { s with will := c.lastWill }
  let client : Client := ⟨env.broker, name.1, identity, c.keepAlive, env.nextPkid⟩
  let result ← attempt (client.run env.turns)
  finish env client att name.2 result

def refuse (env : ServeEnv) (code : ConnectReturnCode) : ServeM Unit := do
  require env.refusalSent .socketWrite
  emit (.refused code)

/-- `cert_identity` overrides any login. -/
def identify (env : ServeEnv) (c : Connect) : Except ConnectDenied Str :=
  match env.certIdentity with
  | some cn => .ok cn
  | none => env.authenticate c.login

def serve (env : ServeEnv) : ServeM Unit :=
  match env.first with
  | .timedOut => fail .connectTimeout
  | .failed => fail .readingConnect
  | .packet (.connect c) =>
      if env.admitted then
        match identify env c with
        | .ok identity => serveClient env c identity
        | .error .badCredentials => refuse env .badUserNamePassword
        | .error .anonymousNotAllowed => refuse env .notAuthorized
      else refuse env .serviceUnavailable
  | .packet p => fail (.firstPacket p)

/-! ## What the handlers stay within -/

section
variable {F : Frame ServeState ServeEffect}

/-- An effect is within the frame. -/
def Allows (F : Frame ServeState ServeEffect) (e : ServeEffect) : Prop := ∀ s, F.rel s [e] s

/-- The frame says nothing of the state but of the will. -/
def OfWill (F : Frame ServeState ServeEffect) : Prop :=
  ∀ s s' : ServeState, s'.will = s.will → F.rel s [] s'

theorem within_onlyIf (b : Bool) {x : ServeM Unit} (hx : Within F x) : Within F (onlyIf b x) := by
  rw [onlyIf]
  split
  · exact hx
  · exact .pure ()

theorem within_require (ok : Bool) (e : ServeError) : Within F (require ok e) := by
  rw [require]
  split
  · exact .pure ()
  · exact .fail e

theorem within_send (hF : OfWill F) {p : Packet} (hp : Allows F (.send p)) : Within F (send p) := by
  refine .bind .getState fun s => ?_
  split
  · exact .fail _
  · exact .bind (.modifyState fun s => hF s _ rfl) fun _ => .emit hp

theorem within_takePkid (hF : OfWill F) (nextPkid : Nat → UInt16) : Within F (takePkid nextPkid) :=
  .bind .getState fun _ => .bind (.modifyState fun s => hF s _ rfl) fun _ => .pure _

theorem within_sendBacklog (hF : OfWill F) (hsend : ∀ p, Allows F (.send (.publish p)))
    (nextPkid : Nat → UInt16) : ∀ ms : List Msg, Within F (sendBacklog nextPkid ms) := by
  intro ms
  induction ms with
  | nil => exact .pure ()
  | cons m ms ih =>
      exact .bind (within_takePkid hF nextPkid) fun _ =>
        .bind (within_send hF (hsend _)) fun _ => ih

/-- A frame the handlers stay within, replies apart: they publish, use the bus and the
session, and report subscriptions. -/
structure Handling (F : Frame ServeState ServeEffect) : Prop where
  state : OfWill F
  publish : ∀ p, Allows F (.send (.publish p))
  bus : ∀ op, Allows F (.bus op)
  activated : ∀ filter q, Allows F (.activated filter q)
  removeSub : ∀ filter, Allows F (.removeSub filter)
  subscribed : ∀ ke filter q, Allows F (.event ke (.subscribe filter q))
  unsubscribed : ∀ ke filter, Allows F (.event ke (.unsubscribe filter))

namespace Client

variable (c : Client) (t : Turn)

theorem within_acknowledge (hF : OfWill F) (hsend : ∀ q, Allows F (.send q)) (p : Publish) :
    Within F (acknowledge p) := by
  rw [acknowledge]
  split
  · exact .pure ()
  · exact within_send hF (hsend _)
  · exact .bind (.modifyState fun s => hF s _ rfl) fun _ => within_send hF (hsend _)

theorem within_forward (hbus : ∀ op, Allows F (.bus op)) (p : Publish) (ke : Str) :
    Within F (c.forward t p ke) := by
  refine .bind (.emit (hbus _)) fun _ => .bind (within_require _ _) fun _ => within_onlyIf _ ?_
  exact .bind (.emit (hbus _)) fun _ => within_require _ _

theorem within_flagIfStale (hbus : ∀ op, Allows F (.bus op)) (now : SystemTime) (topicName : Str)
    (writtenAt : SystemTime) : Within F (c.flagIfStale now topicName writtenAt) := by
  rw [flagIfStale]
  split
  · exact .pure ()
  · exact .emit (hbus _)

theorem within_pkidFor (hF : OfWill F) (q : QoS) : Within F (c.pkidFor q) := by
  rw [pkidFor]
  split
  · exact .pure 0
  · exact within_takePkid hF _

variable (hF : Handling F)
include hF

theorem within_subscribe (i : Nat) (filter : Str) (q : QoS) :
    Within F (c.subscribe t i filter q) := by
  rw [subscribe]
  split
  · exact .pure _
  · split
    · exact .bind (.emit (hF.activated _ _)) fun _ => .bind (.emit (hF.subscribed _ _ _))
        fun _ => .pure _
    · exact .pure _

theorem within_subscribeAll : ∀ (fs : List (Str × QoS)) (i : Nat),
    Within F (c.subscribeAll t i fs) := by
  intro fs
  induction fs with
  | nil => exact fun i => .pure _
  | cons f fs ih =>
      intro i
      refine .bind (c.within_subscribe t hF i f.1 f.2) fun code => .bind (ih _) fun rest => ?_
      cases code with
      | success q => exact .pure _
      | failure => exact .pure _

theorem within_sendRetained (q : QoS) (k : Nat) : ∀ (es : List RetainedEntry) (j : Nat),
    Within F (c.sendRetained t q k j es) := by
  intro es
  induction es with
  | nil => exact fun j => .pure ()
  | cons e es ih =>
      intro j
      exact .bind (c.within_pkidFor hF.state q) fun _ =>
        .bind (within_send hF.state (hF.publish _)) fun _ =>
          .bind (c.within_flagIfStale hF.bus _ _ _) fun _ => ih _

theorem within_deliverAllRetained : ∀ (fs : List (Str × QoS)) (k : Nat),
    Within F (c.deliverAllRetained t k fs) := by
  intro fs
  induction fs with
  | nil => exact fun k => .pure ()
  | cons f fs ih => exact fun k => .bind (c.within_sendRetained t hF f.2 k _ 0) fun _ => ih _

theorem within_unsubscribeAll : ∀ fs : List Str, Within F (c.unsubscribeAll fs) := by
  intro fs
  induction fs with
  | nil => exact .pure ()
  | cons f fs ih =>
      exact .bind (.emit (hF.removeSub f)) fun _ => .bind (.emit (hF.unsubscribed _ f)) fun _ => ih

end Client

end

end Entmoot
