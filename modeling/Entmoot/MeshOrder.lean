/-
# `Entmoot.MeshOrder` — what a subscription is handed, and in which order

On the bus a message is a key and a payload, and samples of other kinds travel with it.
Read as MQTT messages again, what a forwarding task has handed to `deliver` is, connection
by connection, a part of the messages put there whose topic the filter matches in the
sense of MQTT: each once, and in the order they were put, if the bus keeps the order of
each connection; and it ends with all that were put from some point on, if the bus loses
none of them (`Authentic.inOrder`, `Authentic.toTheEnd`).  `Mesh.Stepped` is all that any one
step of the mesh can do, and `Onward` what it leaves of its subscriptions.
-/
import Entmoot.Mesh

namespace Entmoot

open PubSub (keys taken handed putsOf fromNode)
open SnapshotWorld (restored)

/-! ## Messages on the bus -/

def isTopic (scope t : Str) : Bool := (topicToKeyexpr t scope).toBool

theorem isTopic_iff {scope t : Str} :
    isTopic scope t = true ↔ ∀ l ∈ t.splitOn '/', TopicLevel l := by
  rw [isTopic]
  cases h : topicToKeyexpr t scope with
  | error e =>
      refine ⟨fun hfalse => (by cases hfalse), fun hlevels => ?_⟩
      rw [topicToKeyexpr_iff.mpr ⟨hlevels, rfl⟩] at h
      cases h
  | ok ke => exact ⟨fun _ => (topicToKeyexpr_iff.mp h).1, fun _ => rfl⟩

/-- The message of a sample, if it is the live copy of one. -/
def Sample.message (scope : Str) (x : Sample) : Option Msg :=
  (x.call scope).filter fun msg => isTopic scope msg.1

def messages (scope : Str) (xs : List Sample) : List Msg := xs.filterMap (Sample.message scope)

theorem messages_append (scope : Str) (xs ys : List Sample) :
    messages scope (xs ++ ys) = messages scope xs ++ messages scope ys := List.filterMap_append ..

variable {scope : Str}

theorem key_of_message {x : Sample} {msg : Msg} (h : x.message scope = some msg) :
    (∀ l ∈ msg.1.splitOn '/', TopicLevel l) ∧ x.op.key = inScope scope msg.1 := by
  obtain ⟨hcall, htopic⟩ := Option.filter_eq_some_iff.mp h
  obtain ⟨t, ht, heq⟩ := Option.map_eq_some_iff.mp hcall
  cases heq
  have hlevels := isTopic_iff.mp htopic
  exact ⟨hlevels, inScope_of_keyexprToTopic ht hlevels⟩

/-- A forwarding task gets the messages whose topic its filter matches. -/
theorem accepts_message (hscope : ScopeOk scope) {filter ke : Str}
    (hvalid : filterToKeyexpr filter scope = .ok ke) (k : Nat) (user : Str) (q : QoS)
    {x : Sample} {msg : Msg} (h : x.message scope = some msg) :
    (Watch.forward k user filter q).accepts scope x = topicMatches filter msg.1 := by
  obtain ⟨hlevels, hkey⟩ := key_of_message h
  rw [Watch.accepts, hvalid, hkey]
  exact busMatches_topic hscope hvalid hlevels

theorem messages_filter (hscope : ScopeOk scope) {filter ke : Str}
    (hvalid : filterToKeyexpr filter scope = .ok ke) (k : Nat) (user : Str) (q : QoS)
    (xs : List Sample) :
    messages scope (xs.filter ((Watch.forward k user filter q).accepts scope)) =
      (messages scope xs).filter fun msg => topicMatches filter msg.1 := by
  induction xs with
  | nil => rfl
  | cons x xs ih =>
      have hcons : messages scope (x :: xs) = (x.message scope).toList ++ messages scope xs :=
        messages_append scope [x] xs
      have hone : messages scope ([x].filter ((Watch.forward k user filter q).accepts scope)) =
          (x.message scope).toList.filter fun msg => topicMatches filter msg.1 := by
        cases hmsg : x.message scope with
        | none =>
            rw [List.filter_cons, List.filter_nil]
            split <;> simp [messages, hmsg]
        | some msg =>
            rw [List.filter_cons, List.filter_nil, accepts_message hscope hvalid k user q hmsg,
              Option.toList_some, List.filter_cons, List.filter_nil]
            split
            · rw [messages, List.filterMap_cons, hmsg]
              rfl
            · rfl
      rw [hcons, List.filter_append, ← hone, ← ih, ← messages_append, ← List.filter_append]
      rfl

theorem calls_messages (scope : Str) (i j : Nat) (h : List MeshEvent) :
    (fromNode j (calls scope i h)).filter (fun msg => isTopic scope msg.1) =
      messages scope ((handed i j h).map Prod.snd) := by
  have hcalls : fromNode j (calls scope i h) =
      ((handed i j h).map Prod.snd).filterMap (Sample.call scope) := by
    rw [← PubSub.fromNode_taken, fromNode, fromNode, calls, List.filterMap_filterMap,
      List.filterMap_filterMap]
    refine List.filterMap_congr fun e _ => ?_
    cases hcall : e.2.call scope with
    | none => split <;> simp [hcall]
    | some msg => split <;> simp [*]
  rw [hcalls, List.filter_filterMap]
  rfl

/-! ## The order -/

section Order
variable {bus : MeshBus} {nodes : Nat → Broker} {m : Mesh} (hauth : Authentic bus nodes m)
  (hgenuine : bus.Genuine (Watch.accepts scope)) (hordered : bus.Ordered) (hscope : ScopeOk scope)
  (hnodes : ∀ n, (nodes n).scope = scope)
include hauth hgenuine hordered hscope hnodes

/-- What was handed out of a connection's messages is a part of them. -/
theorem Authentic.inOrder {i k : Nat} {user filter : Str} {q : QoS}
    (hkey : (keys m.history)[i]? = some (.forward k user filter q)) (j : Nat) :
    ((fromNode j (calls scope i m.history)).filter fun msg => isTopic scope msg.1).Sublist
      ((messages scope (putsOf j m.history)).filter fun msg => topicMatches filter msg.1) := by
  obtain ⟨ke, hvalid⟩ := (hauth.granted k user filter q (List.mem_of_getElem? hkey)).valid
  rw [hnodes k] at hvalid
  rw [calls_messages, ← messages_filter hscope hvalid k user q]
  exact (PubSub.Bus.handed_sublist hgenuine hordered hauth.possible hkey j).filterMap _

/-- What was handed out ends with all of those of which the bus lost none. -/
theorem Authentic.toTheEnd {i k : Nat} {user filter : Str} {q : QoS}
    (hkey : (keys m.history)[i]? = some (.forward k user filter q)) {j : Nat}
    {h later : List MeshEvent} (hsplit : m.history = h ++ later)
    (hall : PubSub.Bus.Lossless (Watch.accepts scope) (.forward k user filter q) i j h later) :
    ((messages scope (putsOf j later)).filter fun msg => topicMatches filter msg.1) <:+
      (fromNode j (calls scope i m.history)).filter fun msg => isTopic scope msg.1 := by
  obtain ⟨ke, hvalid⟩ := (hauth.granted k user filter q (List.mem_of_getElem? hkey)).valid
  rw [hnodes k] at hvalid
  have hpossible := hauth.possible
  rw [hsplit] at hkey hpossible ⊢
  obtain ⟨early, hends⟩ := PubSub.Bus.handed_ends hgenuine hordered hpossible hkey hall
  rw [calls_messages, ← messages_filter hscope hvalid k user q, PubSub.handed_append,
    List.map_append, ← hends, messages_append, messages_append, ← List.append_assoc]
  exact List.suffix_append _ _

end Order

/-! ## From step to step -/

/-- The subscription whose task takes a sample. -/
def MeshAction.taker : MeshAction → Option Nat
  | .hand i _ _ _ => some i
  | _ => none

/-- What a step does on the bus, and to stores, snapshots and answers: nothing, something
that is handed to nobody, or what its action says. -/
inductive Mesh.Stepped [HashOrder] (bus : MeshBus) (scope : Str) (m : Mesh) :
    MeshAction → Mesh → Prop
  | still (act : MeshAction) (hact : act.taker = none) (parties : List Party)
      (stopped : List Nat) :
      Stepped bus scope m act { m with parties := parties, stopped := stopped }
  | noted (act : MeshAction) (hact : act.taker = none) (e : MeshEvent) (parties : List Party)
      (hmay : bus.may m.history e = true) (he : ∀ i, taken i [e] = []) :
      Stepped bus scope m act { m with history := m.history ++ [e], parties := parties }
  | wire (n : Nat) (hmay : bus.may m.history (.declare (.replica n)) = true) :
      Stepped bus scope m (.wire n)
        (({ m with history := m.history ++ [.declare (.replica n)] } : Mesh).setStore
          (keys m.history).length (restored (m.files n)).1)
  | hand (i j p : Nat) (x : Sample) (w : Watch) (hw : (keys m.history)[i]? = some w)
      (hmay : bus.may m.history (.hand i j p x) = true) :
      Stepped bus scope m (.hand i j p x)
        (({ m with history := m.history ++ [.hand i j p x] } : Mesh).setStore i
          (storeAfter scope w x (m.stores i)))
  | save (i n : Nat) (hw : (keys m.history)[i]? = some (.replica n)) :
      Stepped bus scope m (.save i)
        { m with files := Function.update m.files n (some (m.stores i).snapshotBytes) }
  | query (i : Nat) :
      Stepped bus scope m (.query i)
        { m with replies := m.replies ++ (m.stores i).serveQuery scope }
  | reply (i : Nat) (r : Str × Bytes) (hmay : bus.mayAnswer m.replies r = true) :
      Stepped bus scope m (.reply i r) (m.setStore i ((m.stores i).applyReply scope r.1 r.2))

theorem Mesh.stepped [HashOrder] {bus : MeshBus} {nodes : Nat → Broker} {scope : Str}
    {m m' : Mesh} {act : MeshAction} (hs : m.step bus nodes scope act = some m') :
    Stepped bus scope m act m' := by
  cases act with
  | connect n env st =>
      obtain ⟨out, -, hs⟩ := Option.bind_eq_some_iff.mp hs
      obtain ⟨a, -, rfl⟩ := Option.map_eq_some_iff.mp hs
      exact .still _ rfl _ _
  | sysPublish _ _ | stop _ =>
      cases hs
      exact .still _ rfl _ _
  | act j =>
      obtain ⟨p, -, hs⟩ := Option.bind_eq_some_iff.mp hs
      obtain ⟨e, -, hs⟩ := Option.bind_eq_some_iff.mp hs
      rw [Mesh.perform.eq_def] at hs
      split at hs
      · obtain ⟨hmay, rfl⟩ := Authentic.note_eq hs
        exact .noted _ rfl _ _ hmay fun _ => rfl
      · split at hs
        · obtain ⟨hmay, rfl⟩ := Authentic.note_eq hs
          exact .noted _ rfl _ _ hmay fun _ => rfl
        · cases hs
          exact .still _ rfl _ _
  | fail j =>
      obtain ⟨p, -, hs⟩ := Option.bind_eq_some_iff.mp hs
      obtain ⟨e, -, hs⟩ := Option.bind_eq_some_iff.mp hs
      split at hs
      · cases hs
        exact .still _ rfl _ _
      · cases hs
  | rehydrate n identity filter q =>
      simp only [Mesh.step] at hs
      split at hs
      · split at hs
        · obtain ⟨hmay, rfl⟩ := Authentic.note_eq hs
          exact .noted _ rfl _ _ hmay fun _ => rfl
        · cases hs
      · cases hs
  | wire n =>
      obtain ⟨m₁, hnote, rfl⟩ := Option.map_eq_some_iff.mp hs
      obtain ⟨hmay, rfl⟩ := Authentic.note_eq hnote
      exact .wire n hmay
  | hand i j p x =>
      rw [Mesh.step] at hs
      split at hs
      · cases hs
      · obtain ⟨w, hw, hs⟩ := Option.bind_eq_some_iff.mp hs
        obtain ⟨m₁, hnote, rfl⟩ := Option.map_eq_some_iff.mp hs
        obtain ⟨hmay, rfl⟩ := Authentic.note_eq hnote
        exact .hand i j p x w hw hmay
  | save i =>
      rw [Mesh.step] at hs
      split at hs
      · next n hw =>
        cases hs
        exact .save i n hw
      · cases hs
  | query i =>
      cases hs
      exact .query i
  | reply i r =>
      rw [Mesh.step] at hs
      split at hs
      · next hmay =>
        cases hs
        exact .reply i r hmay
      · cases hs

/-- What a step leaves as it is: what happened on the bus, and what the subscriptions took
but for the one that takes a sample, which was declared before. -/
structure Onward (act : MeshAction) (m m' : Mesh) : Prop where
  history : m.history <+: m'.history
  took : ∀ i, act.taker ≠ some i ∨ (keys m.history)[i]? = none →
    taken i m'.history = taken i m.history

namespace Onward

variable {act : MeshAction} {bus : MeshBus} {m m' : Mesh}

theorem keys_get (h : Onward act m m') {i : Nat} {w : Watch} (hi : (keys m.history)[i]? = some w) :
    (keys m'.history)[i]? = some w := by
  obtain ⟨later, hlater⟩ := h.history
  rw [← hlater, PubSub.keys_append]
  exact Cells.append_of_some hi

theorem still (hhistory : m'.history = m.history) : Onward act m m' where
  history := hhistory ▸ List.prefix_refl _
  took _ _ := by rw [hhistory]

theorem note {e : MeshEvent}
    (he : ∀ i, act.taker ≠ some i ∨ (keys m.history)[i]? = none → taken i [e] = [])
    (hhistory : m'.history = m.history ++ [e]) : Onward act m m' where
  history := hhistory ▸ List.prefix_append _ _
  took i hi := by rw [hhistory, PubSub.taken_append, he i hi, List.append_nil]

theorem step [HashOrder] {nodes : Nat → Broker} (hs : m.step bus nodes scope act = some m') :
    Onward act m m' := by
  cases Mesh.stepped hs with
  | still _ hact parties stopped => exact still rfl
  | noted _ hact e parties hmay he => exact note (fun i _ => he i) rfl
  | wire n hmay => exact note (fun _ _ => rfl) rfl
  | hand i j p x w hw hmay =>
      refine note (fun i' hi' => ?_) rfl
      have hne : i ≠ i' := by
        rintro rfl
        rcases hi' with hi' | hnone
        · exact hi' rfl
        · rw [hw] at hnone
          cases hnone
      rw [PubSub.taken_hand, if_neg hne]
  | save i n hw => exact still rfl
  | query i => exact still rfl
  | reply i r hmay => exact still rfl

end Onward

end Entmoot
