/-
# `Entmoot.Mesh` — the nodes on one bus

Nodes of one scope share the bus, of which nothing is known but that it hands out what was
put, and to whom it fits (`PubSub.Bus.Genuine`).  A connection is a run of `serve` on its
node: its effects happen in their order, and between two of them anything else may happen.
A subscription, live or rehydrated, is one on the bus with a forwarding task, which hands
what it takes to `deliver`; a node's replica is a subscription on the retained keyspace,
starts with what its snapshot restores, and catches up through the replies to a query.

Every sample is one that its node let its author put there (`Authentic`).  Hence a client
is only handed what was published under a grant to one of its own grants
(`handed_under_grants`), however the connections interleave and whatever the bus loses,
doubles or reorders.
-/
import Entmoot.Lib.PubSub
import Entmoot.Access
import Entmoot.ClientEvents
import Entmoot.Relay
import Entmoot.Snapshots

namespace Entmoot

open Traced
open PubSub (Bus BusEvent keys taken)

/-! ## Samples and subscriptions -/

/-- A sample, with the node and the user of the connection that put it; the statistics have
no user. -/
structure Sample where
  node : Nat
  user : Option Str
  op : BusOp
  deriving DecidableEq

/-- What a subscription on the bus is for. -/
inductive Watch where
  /-- the forwarding task of a subscription that a node granted a user -/
  | forward (node : Nat) (user filter : Str) (granted : QoS)
  /-- the replica of a node -/
  | replica (node : Nat)

def Watch.accepts (scope : Str) : Watch → Sample → Bool
  | .forward _ _ filter _, x =>
      match filterToKeyexpr filter scope with
      | .error _ => false
      | .ok fk => busMatches fk x.op.key
  | .replica _, x => busMatches (retainedFilter scope) x.op.key

/-- The bus of the mesh: its sources are the connections, its answers the retained values. -/
abbrev MeshBus := Bus Nat Watch Sample (Str × Bytes)

abbrev MeshEvent := BusEvent Nat Watch Sample

/-- What a forwarding task hands to `deliver`; a key that is no topic is passed over. -/
def Sample.call (scope : Str) (x : Sample) : Option Msg :=
  (keyexprToTopic x.op.key scope).map fun t => (t, x.op.payload)

/-- The calls of a forwarding task, with the connections the samples came from. -/
def calls (scope : Str) (i : Nat) (h : List MeshEvent) : List (Nat × Msg) :=
  (taken i h).filterMap fun e => (e.2.call scope).map fun m => (e.1, m)

/-! ## Statistics -/

/-- What `sys_publish` reads. -/
structure SysStats where
  connections : Nat
  received : Nat
  sent : Nat
  retained : Nat
  sessions : Nat
  offline : Nat
  uptime : Nat
  version : Str

def SysStats.values (v : SysStats) : List (Str × Str) :=
  [("clients/connected".toList, (toString v.connections).toList),
    ("messages/received".toList, (toString v.received).toList),
    ("messages/sent".toList, (toString v.sent).toList),
    ("retained/count".toList, (toString v.retained).toList),
    ("sessions/count".toList, (toString v.sessions).toList),
    ("sessions/offline".toList, (toString v.offline).toList),
    ("uptime/seconds".toList, (toString v.uptime).toList),
    ("version".toList, v.version)]

/-- `sys_publish`, one tick. -/
def Broker.sysPublish (b : Broker) (v : SysStats) : List BusOp :=
  v.values.map fun e =>
    .put (sysKeyexpr ("broker/".toList ++ b.id ++ '/' :: e.1) b.scope) (asBytes e.2)

/-! ## The mesh -/

/-- A connection or a tick of the statistics, with what it has still to do. -/
structure Party where
  node : Nat
  user : Option Str
  todo : List ServeEffect

structure Mesh where
  history : List MeshEvent
  parties : List Party
  /-- the retained store of a replica, by its subscription -/
  stores : Nat → RetainedStore
  /-- the retained snapshot in the directory of a node -/
  files : Nat → Option Bytes
  /-- the answers to the queries so far -/
  replies : List (Str × Bytes)
  /-- the subscriptions whose tasks were aborted -/
  stopped : List Nat

inductive MeshAction where
  /-- a connection to a node -/
  | connect (n : Nat) (env : ServeEnv) (s : ServeState)
  | sysPublish (n : Nat) (v : SysStats)
  /-- party `j` does the next thing -/
  | act (j : Nat)
  /-- the next thing party `j` puts on the bus reaches nobody -/
  | fail (j : Nat)
  /-- `rehydrate` activates a subscription it found on disk -/
  | rehydrate (n : Nat) (identity filter : Str) (qos : QoS)
  | wire (n : Nat)
  /-- the task of subscription `i` is handed what party `j` put as its `p`-th -/
  | hand (i j p : Nat) (x : Sample)
  /-- it is aborted -/
  | stop (i : Nat)
  /-- replica `i` saves its snapshot -/
  | save (i : Nat)
  /-- replica `i` answers a query -/
  | query (i : Nat)
  /-- replica `i` gets an answer -/
  | reply (i : Nat) (r : Str × Bytes)

/-- What an effect puts on the bus. -/
def ServeEffect.busOp : ServeEffect → Option BusOp
  | .bus op => some op
  | .event ke e => some (.put ke (asBytes e.text))
  | _ => none

namespace Mesh

/-- Nodes that start in directories with these snapshots. -/
def init (files : Nat → Option Bytes) : Mesh := ⟨[], [], fun _ => .empty, files, [], []⟩

/-- Something happens on the bus, if it lets it. -/
def note (bus : MeshBus) (m : Mesh) (e : MeshEvent) : Option Mesh :=
  if bus.may m.history e then some { m with history := m.history ++ [e] } else none

/-- One effect of party `j`. -/
def perform (bus : MeshBus) (m : Mesh) (j : Nat) (p : Party) (e : ServeEffect) : Option Mesh :=
  match e.busOp with
  | some op => m.note bus (.put j ⟨p.node, p.user, op⟩)
  | none =>
      match e, p.user with
      | .activated filter granted, some user =>
          m.note bus (.declare (.forward p.node user filter granted))
      | _, _ => some m

/-- What a sample handed out does to the store of a replica. -/
def storeAfter (scope : Str) (w : Watch) (x : Sample) (s : RetainedStore) : RetainedStore :=
  match w with
  | .replica _ => RelayWorld.stored scope s .live x.op
  | .forward _ _ _ _ => s

def setStore (m : Mesh) (i : Nat) (s : RetainedStore) : Mesh :=
  { m with stores := Function.update m.stores i s }

/-- The next thing party `j` has to do is done, or given up. -/
def advance (m : Mesh) (j : Nat) (p : Party) : Mesh :=
  { m with parties := m.parties.set j { p with todo := p.todo.tail } }

def step [HashOrder] (bus : MeshBus) (nodes : Nat → Broker) (scope : Str) (m : Mesh) :
    MeshAction → Option Mesh
  | .connect n env s =>
      (serve { env with broker := nodes n } s).bind fun out =>
        (attaches out.2.1).head?.map fun a =>
          { m with parties := m.parties ++ [⟨n, some a.2.1, out.2.1⟩] }
  | .sysPublish n v =>
      some { m with parties := m.parties ++ [⟨n, none, ((nodes n).sysPublish v).map .bus⟩] }
  | .act j =>
      (m.parties[j]?).bind fun p => p.todo.head?.bind fun e => (m.advance j p).perform bus j p e
  | .fail j =>
      (m.parties[j]?).bind fun p => p.todo.head?.bind fun e =>
        if e.busOp.isSome then some (m.advance j p) else none
  | .rehydrate n identity filter qos =>
      -- a filter that is no longer permitted is dropped
      if (nodes n).acl.maySubscribe identity filter then
        match filterToKeyexpr filter (nodes n).scope with
        | .ok _ => m.note bus (.declare (.forward n identity filter qos))
        | .error _ => none
      else none
  | .wire n =>
      -- what was loaded from a bad snapshot before the error stays
      (m.note bus (.declare (.replica n))).map fun m' =>
        m'.setStore (keys m.history).length (SnapshotWorld.restored (m.files n)).1
  | .hand i j p x =>
      if i ∈ m.stopped then none
      else ((keys m.history)[i]?).bind fun w => (m.note bus (.hand i j p x)).map fun m' =>
        m'.setStore i (storeAfter scope w x (m.stores i))
  | .stop i => some { m with stopped := i :: m.stopped }
  | .save i =>
      match (keys m.history)[i]? with
      | some (.replica n) =>
          some { m with files := Function.update m.files n (some (m.stores i).snapshotBytes) }
      | _ => none
  | .query i => some { m with replies := m.replies ++ (m.stores i).serveQuery scope }
  | .reply i r =>
      if bus.mayAnswer m.replies r then some (m.setStore i ((m.stores i).applyReply scope r.1 r.2))
      else none

/-- What a source of the mesh put on the bus. -/
def Put (m : Mesh) (x : Sample) : Prop := ∃ j, .put j x ∈ m.history

end Mesh

/-! ## What a node lets its users do -/

/-- The user may subscribe to the filter, and it is one. -/
structure Broker.Grants (b : Broker) (user filter : Str) : Prop where
  valid : ∃ ke, filterToKeyexpr filter b.scope = .ok ke
  granted : b.acl.maySubscribe user filter = true

/-- The user may publish to the topic, and it is one. -/
structure Broker.Takes (b : Broker) (user topicName : Str) : Prop where
  valid : ∃ ke, topicToKeyexpr topicName b.scope = .ok ke
  granted : b.acl.mayPublish user topicName = true

/-- What a node puts on the bus for a user, or for nobody. -/
inductive Rightful (b : Broker) : Option Str → BusOp → Prop
  | live (user topicName : Str) (payload : Bytes) (h : b.Takes user topicName) :
      Rightful b (some user) (.put (inScope b.scope topicName) payload)
  | store (user topicName : Str) (payload : Bytes) (now : SystemTime) (h : b.Takes user topicName) :
      Rightful b (some user) (.put (retainedKeyexpr topicName b.scope) (encodeEnvelope payload now))
  | clear (user topicName : Str) (h : b.Takes user topicName) :
      Rightful b (some user) (.delete (retainedKeyexpr topicName b.scope))
  /-- a lifecycle event or a note of staleness -/
  | remark (user x : Str) (text : Bytes) :
      Rightful b (some user) (.put (metaKeyexpr x b.scope) text)
  | stat (x : Str) (text : Bytes) : Rightful b none (.put (sysKeyexpr x b.scope) text)

/-- An effect that a node lets a party have. -/
structure Lawful (b : Broker) (user : Option Str) (e : ServeEffect) : Prop where
  op : ∀ op, e.busOp = some op → Rightful b user op
  activated : ∀ filter q, e = .activated filter q → ∃ u, user = some u ∧ b.Grants u filter

/-- What is permitted to a connection is lawful. -/
theorem Client.Permitted.lawful {c : Client} {ts : List Turn} {e : ServeEffect}
    (h : c.Permitted ts e) :
    Lawful c.broker (some c.identity) e := by
  have hbus : ∀ {op}, Rightful c.broker (some c.identity) op →
      Lawful c.broker (some c.identity) (.bus op) := by
    intro op hop
    refine ⟨fun op' hop' => ?_, fun _ _ he => by cases he⟩
    cases hop'
    exact hop
  have hquiet : ∀ {e : ServeEffect}, e.busOp = none → (∀ f q, e ≠ .activated f q) →
      Lawful c.broker (some c.identity) e := by
    intro e hnone hact
    refine ⟨fun op hop => ?_, fun f q he => absurd he (hact f q)⟩
    rw [hnone] at hop
    cases hop
  cases h with
  | stale e text h => exact hbus (.remark _ _ _)
  | retained _ _ _ _ _ => exact hquiet rfl fun f q he => by cases he
  | plain h =>
      cases h with
      | live topicName payload h => exact hbus (.live _ _ _ ⟨h.valid, h.granted⟩)
      | store topicName payload now h => exact hbus (.store _ _ _ _ ⟨h.valid, h.granted⟩)
      | clear topicName h => exact hbus (.clear _ _ ⟨h.valid, h.granted⟩)
      | event ev =>
          refine ⟨fun op hop => ?_, fun _ _ he => by cases he⟩
          cases hop
          exact .remark _ _ _
      | activated filter q h =>
          refine ⟨fun op hop => (by cases hop), fun f q he => ?_⟩
          cases he
          exact ⟨_, rfl, h.valid, h.granted⟩
      | attach _ | received _ | reply _ _ | backlog _ _ | removeSub _ | abortWriter | fireWill _
      | detach _ _ _ => exact hquiet rfl fun f q he => by cases he

/-- The effects of a connection are lawful for the user it attached. -/
theorem serve_lawful {env : ServeEnv} {s s' : ServeState} {r : Except ServeError Unit}
    {w : List ServeEffect} (h : Ends (serve env) s r w s') {a : Str × Str × Bool}
    (ha : (attaches w).head? = some a) : ∀ e ∈ w, Lawful env.broker (some a.2.1) e := by
  rcases serve_cases h with ⟨con, user, -, -, -, hserve⟩ | ⟨rfl | ⟨code, rfl⟩, -⟩
  · rw [serveClient_attaches hserve] at ha
    cases ha
    exact fun e he => (serveClient_permitted env con user s r w s' hserve e he).lawful
  · cases ha
  · cases ha

theorem sysPublish_lawful (b : Broker) (v : SysStats) :
    ∀ e ∈ (b.sysPublish v).map ServeEffect.bus, Lawful b none e := by
  intro e he
  obtain ⟨op, hop, rfl⟩ := List.mem_map.mp he
  obtain ⟨x, -, rfl⟩ := List.mem_map.mp hop
  refine ⟨fun op' hop' => ?_, fun _ _ he => by cases he⟩
  cases hop'
  exact .stat _ _

/-! ## What is written to the slot of a topic -/

theorem inScope_injective {scope x y : Str} (h : inScope scope x = inScope scope y) : x = y := by
  have hstrip := congrArg (stripScope · scope) h
  simpa only [stripScope_inScope, Option.some.injEq] using hstrip

theorem retainedKeyexprToTopic_eq_some {ke scope t : Str} :
    retainedKeyexprToTopic ke scope = some t ↔ ke = retainedKeyexpr t scope := by
  constructor
  · intro h
    obtain ⟨rest, hrest, h⟩ := Option.bind_eq_some_iff.mp h
    obtain ⟨tail, htail, h⟩ := Option.bind_eq_some_iff.mp h
    rw [stripScope_eq_some.mp hrest, Wire.stripPrefix_eq_some.mp htail,
      Wire.stripPrefix_eq_some.mp h]
    rfl
  · rintro rfl
    exact retainedKeyexprToTopic_retainedKeyexpr t scope

/-- What a sample writes to the retained slot of a topic, if anything. -/
def slotWrite (scope t : Str) : BusOp → Option (Option (Bytes × SystemTime))
  | .put ke raw => if retainedKeyexprToTopic ke scope = some t
      then (decodeEnvelope raw).map some else none
  | .delete ke => if retainedKeyexprToTopic ke scope = some t then some none else none

theorem stored_lookup (scope t : Str) (s : RetainedStore) (op : BusOp) :
    (RelayWorld.stored scope s .live op).map.lookup t =
      (slotWrite scope t op).getD (s.map.lookup t) := by
  cases op with
  | put ke raw =>
      simp only [RelayWorld.stored, RetainedStore.applySample, slotWrite]
      cases hke : retainedKeyexprToTopic ke scope with
      | none => rfl
      | some t' =>
          cases hraw : decodeEnvelope raw with
          | none =>
              rw [Option.map_none, ite_self]
              rfl
          | some v =>
              simp only [RetainedStore.insert, Keyed.lookup_insert, Option.some.injEq]
              by_cases ht : t' = t
              · rw [if_pos ht, if_pos ht.symm]
                rfl
              · rw [if_neg ht, if_neg (Ne.symm ht)]
                rfl
  | delete ke =>
      simp only [RelayWorld.stored, RetainedStore.applySample, slotWrite]
      cases hke : retainedKeyexprToTopic ke scope with
      | none => rfl
      | some t' =>
          simp only [RetainedStore.remove, Keyed.lookup_erase, Option.some.injEq]
          by_cases ht : t' = t
          · rw [if_pos ht, if_pos ht.symm]
            rfl
          · rw [if_neg ht, if_neg (Ne.symm ht)]
            rfl

theorem slotWrite_key {scope t : Str} {op : BusOp} {v : Option (Bytes × SystemTime)}
    (h : slotWrite scope t op = some v) : op.key = retainedKeyexpr t scope := by
  cases op with
  | put ke raw =>
      rw [slotWrite] at h
      split at h
      · next hke => exact retainedKeyexprToTopic_eq_some.mp hke
      · cases h
  | delete ke =>
      rw [slotWrite] at h
      split at h
      · next hke => exact retainedKeyexprToTopic_eq_some.mp hke
      · cases h

/-- Only a retained put or delete writes to a slot. -/
theorem Rightful.slotWrite_cases {b : Broker} {author : Option Str} {op : BusOp}
    (h : Rightful b author op) {t : Str} {v : Option (Bytes × SystemTime)}
    (hv : slotWrite b.scope t op = some v) :
    ∃ user, author = some user ∧ b.Takes user t ∧
      (v = none ∧ op = .delete (retainedKeyexpr t b.scope) ∨
        ∃ payload now, v = some (payload, truncMillis now) ∧
          op = .put (retainedKeyexpr t b.scope) (encodeEnvelope payload now)) := by
  have hname := slotWrite_key hv
  cases h with
  | live user topicName payload h =>
      obtain ⟨ke, hke⟩ := h.valid
      have hhead := topic_head (topicToKeyexpr_iff.mp hke).1
      rw [inScope_injective hname] at hhead
      exact absurd rfl hhead
  | store user topicName payload now h =>
      cases retainedKeyexpr_injective b.scope hname
      rw [slotWrite, retainedKeyexprToTopic_retainedKeyexpr, decodeEnvelope_encodeEnvelope,
        if_pos rfl] at hv
      cases hv
      exact ⟨user, rfl, h, .inr ⟨payload, now, rfl, rfl⟩⟩
  | clear user topicName h =>
      cases retainedKeyexpr_injective b.scope hname
      rw [slotWrite, retainedKeyexprToTopic_retainedKeyexpr, if_pos rfl] at hv
      cases hv
      exact ⟨user, rfl, h, .inl ⟨rfl, rfl⟩⟩
  | remark user x text =>
      have hletter : some 'm' = some 'r' := congrArg (·[1]?) (inScope_injective hname)
      exact absurd hletter (by decide)
  | stat x text =>
      have hletter : some 's' = some 'r' := congrArg (·[1]?) (inScope_injective hname)
      exact absurd hletter (by decide)

/-! ## Authenticity -/

/-- Everything on the bus and still to be done is rightful, and the subscriptions are granted. -/
structure Authentic (bus : MeshBus) (nodes : Nat → Broker) (m : Mesh) : Prop where
  possible : bus.Possible m.history
  parties : ∀ p ∈ m.parties, ∀ e ∈ p.todo, Lawful (nodes p.node) p.user e
  log : ∀ x, m.Put x → Rightful (nodes x.node) x.user x.op
  granted : ∀ k user filter q, .forward k user filter q ∈ keys m.history →
    (nodes k).Grants user filter

namespace Authentic

variable {bus : MeshBus} {nodes : Nat → Broker} {scope : Str} {m m' : Mesh}

theorem init (bus : MeshBus) (nodes : Nat → Broker) (files : Nat → Option Bytes) :
    Authentic bus nodes (.init files) where
  possible := .nil
  parties _ hp := absurd hp List.not_mem_nil
  log _ hx := absurd hx.choose_spec List.not_mem_nil
  granted _ _ _ _ hw := absurd hw List.not_mem_nil

theorem note_eq {e : MeshEvent} (hs : m.note bus e = some m') :
    bus.may m.history e = true ∧ m' = { m with history := m.history ++ [e] } := by
  rw [Mesh.note] at hs
  split at hs
  · next hmay =>
    cases hs
    exact ⟨hmay, rfl⟩
  · cases hs

theorem note (h : Authentic bus nodes m) {e : MeshEvent}
    (hput : ∀ j x, e = .put j x → Rightful (nodes x.node) x.user x.op)
    (hdeclare : ∀ k user filter q, e = .declare (.forward k user filter q) →
      (nodes k).Grants user filter)
    (hs : m.note bus e = some m') : Authentic bus nodes m' := by
  obtain ⟨hmay, rfl⟩ := note_eq hs
  refine ⟨h.possible.snoc hmay, h.parties, fun y hy => ?_, fun k user filter q hw => ?_⟩
  · obtain ⟨j, hy⟩ := hy
    rcases List.mem_append.mp hy with hy | hy
    · exact h.log y ⟨j, hy⟩
    · exact hput j y (List.mem_singleton.mp hy).symm
  · rw [PubSub.keys_append] at hw
    rcases List.mem_append.mp hw with hw | hw
    · exact h.granted k user filter q hw
    · exact hdeclare k user filter q (PubSub.mem_keys.mp hw |> List.mem_singleton.mp).symm

theorem setStore (h : Authentic bus nodes m) (i : Nat) (s : RetainedStore) :
    Authentic bus nodes (m.setStore i s) := ⟨h.possible, h.parties, h.log, h.granted⟩

theorem advance (h : Authentic bus nodes m) {j : Nat} {p : Party} (hp : p ∈ m.parties) :
    Authentic bus nodes (m.advance j p) := by
  refine ⟨h.possible, fun p' hp' e he => ?_, h.log, h.granted⟩
  rcases List.mem_or_eq_of_mem_set hp' with hp' | rfl
  · exact h.parties p' hp' e he
  · exact h.parties p hp e (List.mem_of_mem_tail he)

theorem addParty (h : Authentic bus nodes m) {p : Party}
    (hp : ∀ e ∈ p.todo, Lawful (nodes p.node) p.user e) :
    Authentic bus nodes { m with parties := m.parties ++ [p] } := by
  refine ⟨h.possible, fun p' hp' e he => ?_, h.log, h.granted⟩
  rcases List.mem_append.mp hp' with hp' | hp'
  · exact h.parties p' hp' e he
  · cases List.mem_singleton.mp hp'
    exact hp e he

theorem perform (h : Authentic bus nodes m) {j : Nat} {p : Party} {e : ServeEffect}
    (he : Lawful (nodes p.node) p.user e) (hs : m.perform bus j p e = some m') :
    Authentic bus nodes m' := by
  rw [Mesh.perform.eq_def] at hs
  cases hop : e.busOp with
  | some op =>
      rw [hop] at hs
      refine h.note (fun j x hx => ?_) (fun _ _ _ _ hw => by cases hw) hs
      cases hx
      exact he.op op hop
  | none =>
      rw [hop] at hs
      dsimp only at hs
      split at hs
      · next filter q user huser =>
        obtain ⟨user', huser', hgrants⟩ := he.activated filter q rfl
        cases huser.symm.trans huser'
        refine h.note (fun _ _ hx => by cases hx) (fun k user'' filter' q' hw => ?_) hs
        cases hw
        exact hgrants
      · cases hs
        exact h

theorem step [HashOrder] {act : MeshAction} (h : Authentic bus nodes m)
    (hs : m.step bus nodes scope act = some m') : Authentic bus nodes m' := by
  cases act with
  | connect n env s =>
      obtain ⟨⟨r, w, s'⟩, hserve, hs⟩ := Option.bind_eq_some_iff.mp hs
      obtain ⟨a, ha, rfl⟩ := Option.map_eq_some_iff.mp hs
      exact h.addParty (serve_lawful hserve ha)
  | sysPublish n v =>
      cases hs
      exact h.addParty (sysPublish_lawful (nodes n) v)
  | act j =>
      obtain ⟨p, hp, hs⟩ := Option.bind_eq_some_iff.mp hs
      obtain ⟨e, he, hs⟩ := Option.bind_eq_some_iff.mp hs
      have hmem := List.mem_of_getElem? hp
      exact (h.advance hmem).perform (h.parties p hmem e (List.mem_of_mem_head? he)) hs
  | fail j =>
      obtain ⟨p, hp, hs⟩ := Option.bind_eq_some_iff.mp hs
      obtain ⟨e, he, hs⟩ := Option.bind_eq_some_iff.mp hs
      split at hs
      · cases hs
        exact h.advance (List.mem_of_getElem? hp)
      · cases hs
  | rehydrate n identity filter q =>
      simp only [Mesh.step] at hs
      split at hs
      · next hmay =>
        split at hs
        · next ke hke =>
          refine h.note (fun _ _ hx => by cases hx) (fun k user filter' q' hw => ?_) hs
          cases hw
          exact ⟨⟨ke, hke⟩, hmay⟩
        · cases hs
      · cases hs
  | wire n =>
      obtain ⟨m₁, hnote, rfl⟩ := Option.map_eq_some_iff.mp hs
      exact (h.note (fun _ _ hx => by cases hx) (fun _ _ _ _ hw => by cases hw) hnote).setStore _ _
  | hand i j p x =>
      rw [Mesh.step] at hs
      split at hs
      · cases hs
      · obtain ⟨w, -, hs⟩ := Option.bind_eq_some_iff.mp hs
        obtain ⟨m₁, hnote, rfl⟩ := Option.map_eq_some_iff.mp hs
        exact (h.note (fun _ _ hx => by cases hx) (fun _ _ _ _ hw => by cases hw) hnote).setStore _
          _
  | stop i | query i =>
      cases hs
      exact ⟨h.possible, h.parties, h.log, h.granted⟩
  | save i =>
      rw [Mesh.step] at hs
      split at hs
      · cases hs
        exact ⟨h.possible, h.parties, h.log, h.granted⟩
      · cases hs
  | reply i r =>
      rw [Mesh.step] at hs
      split at hs
      · cases hs
        exact h.setStore _ _
      · cases hs

theorem run [HashOrder] {files : Nat → Option Bytes} {acts : List MeshAction}
    (hrun : Run.exec (Mesh.step bus nodes scope) (.init files) acts = some m) :
    Authentic bus nodes m :=
  Run.exec_invariant (fun _ _ _ hI hs => hI.step hs) acts (init bus nodes files) hrun

/-- What a subscription was handed was put by somebody, and its key accepts it. -/
theorem put_of_taken (h : Authentic bus nodes m) (hgenuine : bus.Genuine (Watch.accepts scope))
    {i j : Nat} {x : Sample} (hx : (j, x) ∈ taken i m.history) :
    .put j x ∈ m.history ∧ ∃ w, (keys m.history)[i]? = some w ∧ w.accepts scope x = true := by
  obtain ⟨p, hhand⟩ := PubSub.mem_taken.mp hx
  exact ⟨PubSub.mem_putsOf.mp (List.mem_of_getElem? (hgenuine.put_of_hand h.possible hhand)),
    hgenuine.wanted_of_hand h.possible hhand⟩

end Authentic

/-! ## What reaches a client -/

theorem mem_calls {scope : Str} {i j : Nat} {h : List MeshEvent} {msg : Msg} :
    (j, msg) ∈ calls scope i h ↔ ∃ x, (j, x) ∈ taken i h ∧ x.call scope = some msg := by
  rw [calls, List.mem_filterMap]
  constructor
  · rintro ⟨⟨j', x⟩, hmem, hcall⟩
    obtain ⟨msg', hmsg, heq⟩ := Option.map_eq_some_iff.mp hcall
    cases heq
    exact ⟨x, hmem, hmsg⟩
  · rintro ⟨x, hmem, hcall⟩
    exact ⟨(j, x), hmem, Option.map_eq_some_iff.mpr ⟨msg, hcall, rfl⟩⟩

/-- A client's message, a statistic, or a remark of its node: nothing else is handed out. -/
theorem Rightful.call_cases {b : Broker} {n : Nat} {sender : Option Str} {op : BusOp}
    (h : Rightful b sender op) {t : Str} {payload : Bytes}
    (hcall : (Sample.mk n sender op).call b.scope = some (t, payload)) :
    (∃ user, b.Takes user t ∧ sender = some user ∧ op = .put (inScope b.scope t) payload) ∨
      (∃ y, t = sysPrefix ++ '/' :: y ∧ sender = none ∧ op = .put (sysKeyexpr y b.scope) payload) ∨
        ∃ y user, t = metaPrefix ++ '/' :: y ∧ sender = some user ∧
          op = .put (metaKeyexpr y b.scope) payload := by
  obtain ⟨t', ht, heq⟩ := Option.map_eq_some_iff.mp hcall
  cases heq
  have hretained : ∀ y, keyexprToTopic (retainedKeyexpr y b.scope) b.scope = none :=
    fun y => keyexprToTopic_retained ('/' :: y) b.scope
  cases h with
  | live user topicName payload h =>
      obtain ⟨ke, hke⟩ := h.valid
      rw [BusOp.key, keyexprToTopic_of_head _ (topic_head (topicToKeyexpr_iff.mp hke).1)] at ht
      cases ht
      exact .inl ⟨user, h, rfl, rfl⟩
  | store user topicName payload now h =>
      rw [BusOp.key, hretained] at ht
      cases ht
  | clear user topicName h =>
      rw [BusOp.key, hretained] at ht
      cases ht
  | remark user y text =>
      rw [BusOp.key, keyexprToTopic_metaKeyexpr] at ht
      cases ht
      exact .inr (.inr ⟨y, user, rfl, rfl, rfl⟩)
  | stat y text =>
      rw [BusOp.key, keyexprToTopic_sysKeyexpr] at ht
      cases ht
      exact .inr (.inl ⟨y, rfl, rfl, rfl⟩)

theorem accepts_forward {scope user filter : Str} {k : Nat} {q : QoS} {x : Sample}
    (h : (Watch.forward k user filter q).accepts scope x = true) :
    ∃ fk, filterToKeyexpr filter scope = .ok fk ∧ busMatches fk x.op.key = true := by
  rw [Watch.accepts] at h
  cases hfk : filterToKeyexpr filter scope with
  | error e =>
      rw [hfk] at h
      cases h
  | ok fk =>
      rw [hfk] at h
      exact ⟨fk, rfl, h⟩

/-- The bus matches the key of a topic as MQTT matches the topic. -/
theorem busMatches_topic {scope filter t fk : Str} (hscope : ScopeOk scope)
    (hf : filterToKeyexpr filter scope = .ok fk) (ht : ∀ l ∈ t.splitOn '/', TopicLevel l) :
    busMatches fk (inScope scope t) = topicMatches filter t := by
  rw [Bool.eq_iff_iff, busMatches_inScope hscope hf, topicMatches]
  exact (matchLevels_iff (filterToKeyexpr_ok hscope hf).1 fun l hl => (ht l hl).toPlainLevel).symm

/-- **Nobody is handed what no grant lets pass.**  On a bus that hands out nothing but what
was put, in every run of nodes under the policy `deny`: what a forwarding task hands on is
a message that the node it comes from granted its author to publish, that the filter
matches, and that a subscribe grant of the subscriber matches; or it is a statistic or a
remark of a node, and the filter names that keyspace. -/
theorem handed_under_grants [HashOrder] {bus : MeshBus} {nodes : Nat → Broker} {scope : Str}
    {rules : Nat → List AclRule} {files : Nat → Option Bytes} {acts : List MeshAction} {m : Mesh}
    (hgenuine : bus.Genuine (Watch.accepts scope)) (hscope : ScopeOk scope)
    (hnodes : ∀ n, (nodes n).scope = scope) (hacl : ∀ n, (nodes n).acl = .new (rules n) .deny)
    (hrun : Run.exec (Mesh.step bus nodes scope) (.init files) acts = some m) {i j k : Nat}
    {user filter t : Str} {q : QoS} {payload : Bytes}
    (hkey : (keys m.history)[i]? = some (.forward k user filter q))
    (hcall : (j, t, payload) ∈ calls scope i m.history) :
    Granted (rules k) user AclRule.subscribe (fun pat => filterCovers pat filter = true) ∧
      ((∃ n author, .put j ⟨n, some author, .put (inScope scope t) payload⟩ ∈ m.history ∧
          topicMatches filter t = true ∧
          Granted (rules n) author AclRule.publish (fun pat => topicMatches pat t = true) ∧
          Granted (rules k) user AclRule.subscribe fun pat => topicMatches pat t = true) ∨
        (∃ n x, t = sysPrefix ++ '/' :: x ∧ (filter.splitOn '/').head? = some sysPrefix ∧
          .put j ⟨n, none, .put (sysKeyexpr x scope) payload⟩ ∈ m.history) ∨
        ∃ n x author, t = metaPrefix ++ '/' :: x ∧ (filter.splitOn '/').head? = some metaPrefix ∧
          .put j ⟨n, some author, .put (metaKeyexpr x scope) payload⟩ ∈ m.history) := by
  have hauth : Authentic bus nodes m := .run hrun
  obtain ⟨⟨n, sender, op⟩, htaken, hx⟩ := mem_calls.mp hcall
  obtain ⟨hput, w, hw, hacc⟩ := hauth.put_of_taken hgenuine htaken
  cases hkey.symm.trans hw
  have hgrant := (hauth.granted k user filter q (List.mem_of_getElem? hkey)).granted
  rw [hacl k] at hgrant
  obtain ⟨fk, hfk, hmatch⟩ := accepts_forward hacc
  refine ⟨Acl.maySubscribe_deny_iff.mp hgrant, ?_⟩
  rw [← hnodes n] at hx
  have hright : Rightful (nodes n) sender op := hauth.log _ ⟨j, hput⟩
  rcases hright.call_cases hx with ⟨author, htakes, rfl, rfl⟩ | ⟨y, rfl, rfl, rfl⟩ |
    ⟨y, author, rfl, rfl, rfl⟩
  · obtain ⟨ke, hke⟩ := htakes.valid
    rw [hnodes n] at hput hmatch
    rw [BusOp.key, busMatches_topic hscope hfk (topicToKeyexpr_iff.mp hke).1] at hmatch
    have hpublish := htakes.granted
    rw [hacl n] at hpublish
    exact .inl ⟨n, author, hput, hmatch, Acl.mayPublish_deny_iff.mp hpublish,
      Acl.granted_of_maySubscribe hgrant hmatch⟩
  · rw [hnodes n] at hput hmatch
    rcases busMatches_keyspace hscope hfk rfl (sysKeyexpr_inKeyspace y scope) hmatch with
      ⟨-, hhead⟩ | ⟨habs, -⟩
    · exact .inr (.inl ⟨n, y, rfl, hhead, hput⟩)
    · exact absurd habs (by decide)
  · rw [hnodes n] at hput hmatch
    rcases busMatches_keyspace hscope hfk rfl (metaKeyexpr_inKeyspace y scope) hmatch with
      ⟨habs, -⟩ | ⟨-, hhead⟩
    · exact absurd habs (by decide)
    · exact .inr (.inr ⟨n, y, author, rfl, hhead, hput⟩)

/-- A node that lets `plc1` publish and `hmi` subscribe. -/
def plantNode (n : Nat) : Broker :=
  ⟨['n', Nat.digitChar n], [], .new [⟨"plc1".toList, ["kiln".toList], []⟩,
    ⟨"hmi".toList, [], ["kiln/#".toList]⟩] .deny, 0, fun _ => 0⟩

/-- A connection of the user, with these packets, which then breaks off. -/
def visit (user : Str) (packets : List ClientPacket) : ServeEnv :=
  { returning (packets.map (fun p => ⟨.packet p, true, true, true, fun _ _ => true, fun _ _ => [],
        1000000, fun _ _ => 1000000⟩) ++
      [⟨.failed, true, true, true, fun _ _ => true, fun _ _ => [], 0, fun _ _ => 0⟩]) with
    authenticate := fun _ => .ok user }

/-- A bus that keeps the order of every connection. -/
def plantBus : MeshBus := .lawful (Watch.accepts [])

/-- The message of `plc1` and the value it retains. -/
def plantSample : Sample := ⟨1, some "plc1".toList, .put "kiln".toList [57]⟩

def plantValue : Sample :=
  ⟨1, some "plc1".toList, .put (retainedKeyexpr "kiln".toList []) (encodeEnvelope [57] 1000000)⟩

/-- The user `hmi` subscribes on node 2, `plc1` publishes on node 1 a retained message. -/
def plantActs : List MeshAction :=
  [.wire 2, .connect 2 (visit "hmi".toList [.subscribe 1 [("kiln/#".toList, .atLeastOnce)]])
    ⟨9, 0, none, []⟩,
    .connect 1 (visit "plc1".toList [.publish ⟨"kiln".toList, .atMostOnce, [57], 0, true⟩])
      ⟨9, 0, none, []⟩] ++
    List.replicate 6 (.act 0) ++ List.replicate 7 (.act 1) ++
    [.hand 1 1 1 plantSample, .hand 0 1 2 plantValue]

theorem plant_hands_under_grants :
    ∃ m, Run.exec (@Mesh.step .asStored plantBus plantNode [])
      (.init fun _ => none) plantActs = some m ∧
      (keys m.history)[1]? = some (.forward 2 "hmi".toList "kiln/#".toList .atLeastOnce) ∧
      (1, "kiln".toList, [57]) ∈ calls [] 1 m.history ∧
      Granted [⟨"plc1".toList, ["kiln".toList], []⟩, ⟨"hmi".toList, [], ["kiln/#".toList]⟩]
        "hmi".toList
        AclRule.subscribe fun pat => filterCovers pat "kiln/#".toList = true := by
  obtain ⟨m, hrun, hkey, hcalls⟩ : ∃ m,
      Run.exec (@Mesh.step .asStored plantBus plantNode [])
        (.init fun _ => none) plantActs = some m ∧
        (keys m.history)[1]? = some (.forward 2 "hmi".toList "kiln/#".toList .atLeastOnce) ∧
        calls [] 1 m.history = [(1, "kiln".toList, [57])] := ⟨_, rfl, rfl, rfl⟩
  have hcall : (1, "kiln".toList, [57]) ∈ calls [] 1 m.history := hcalls ▸ List.mem_singleton_self _
  exact ⟨m, hrun, hkey, hcall, (@handed_under_grants .asStored plantBus plantNode []
    (fun _ => [⟨"plc1".toList, ["kiln".toList], []⟩, ⟨"hmi".toList, [], ["kiln/#".toList]⟩]) _
      plantActs m
    (PubSub.Bus.lawful_genuine _) (fun _ hc => absurd hc List.not_mem_nil) (fun _ => rfl)
    (fun _ => rfl) hrun
    1 1 2 _ _ _ _ _ hkey hcall).1⟩

end Entmoot
