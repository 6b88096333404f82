/-
# `Entmoot.MetaKeys` — client ids in the `$meta` keyspace

`publish_client_event` (`crates/entmoot-node/src/connection.rs` 162–176) puts the node
id and the client id, as they are, into a key; `flag_if_stale` does the same with a
topic.  Nothing looks at a client id before that.  What its levels do to the key is
said here chunk by chunk: wildcards and empty chunks (`concrete_iff`), verbatim chunks
that no wildcard matches (`seen_iff`), and the key of some topic's staleness flag
(`apart_iff`).  Only that different clients have different keys holds for all of them
(`clientKey_inj`).

The same two functions make topics longer than the ones clients may use, up to more than
a PUBLISH has room for (`topicsFit_iff`).
-/
import Entmoot.Names
import Entmoot.Serve

namespace Entmoot

open Chunks (accepts)

/-! ## The key of a client -/

/-- A chunk a key may have: not empty, and no character that key expressions reserve. -/
structure KeyChunk (chunk : Str) : Prop where
  nonempty : chunk ≠ []
  star : '*' ∉ chunk
  hash : '#' ∉ chunk
  question : '?' ∉ chunk
  dollar : '$' ∉ chunk

/-- A key without wildcards. -/
def ConcreteKey (key : Str) : Prop := ∀ chunk ∈ key.splitOn '/', KeyChunk chunk

/-- A node id that is one plain chunk. -/
structure NodeId (n : Str) : Prop extends KeyChunk n where
  slash : '/' ∉ n
  atSign : n.head? ≠ some '@'

variable {b b' : Broker} {c c' t : Str}

/-- What stands behind `@meta` in the key of a client. -/
def clientName (b : Broker) (c : Str) : Str := "clients/".toList ++ b.id ++ '/' :: c

theorem clientName_chunks (hn : NodeId b.id) :
    (clientName b c).splitOn '/' = "clients".toList :: b.id :: c.splitOn '/' := by
  have hid : b.id.splitOn '/' = [b.id] := List.splitOn_eq_singleton hn.slash
  have hclients : "clients".toList.splitOn '/' = ["clients".toList] := by decide
  have hname : clientName b c = "clients".toList ++ '/' :: (b.id ++ '/' :: c) :=
    List.append_assoc "clients/".toList b.id ('/' :: c)
  rw [hname, List.splitOn_append_cons_self, List.splitOn_append_cons_self, hid, hclients]
  rfl

theorem clientKey_eq (b : Broker) (c : Str) :
    clientKey b c = metaKeyexpr (clientName b c) b.scope := rfl

theorem splitOn_metaChunk : metaChunk.splitOn '/' = [metaChunk] := by decide

theorem metaKeyexpr_chunks (name scope : Str) :
    (metaKeyexpr name scope).splitOn '/' = scopeChunks scope ++ metaChunk :: name.splitOn '/' := by
  rw [metaKeyexpr, inScope_chunks, List.splitOn_append_cons_self, splitOn_metaChunk]
  rfl

theorem clientKey_chunks (hn : NodeId b.id) : (clientKey b c).splitOn '/' =
    scopeChunks b.scope ++ metaChunk :: "clients".toList :: b.id :: c.splitOn '/' := by
  rw [clientKey_eq, metaKeyexpr_chunks, clientName_chunks hn]

theorem concrete_iff (hs : WellFormedScope b.scope) (hn : NodeId b.id) :
    ConcreteKey (clientKey b c) ↔ ∀ l ∈ c.splitOn '/', KeyChunk l := by
  have hscope : ∀ chunk ∈ scopeChunks b.scope, KeyChunk chunk := by
    intro chunk hchunk
    obtain ⟨hne, hstar⟩ := hs.1 chunk hchunk
    obtain ⟨hhash, hquestion, hdollar⟩ := hs.2 chunk hchunk
    exact ⟨hne, hstar, hhash, hquestion, hdollar⟩
  have hmeta : KeyChunk metaChunk := ⟨by decide, by decide, by decide, by decide, by decide⟩
  have hclients : KeyChunk "clients".toList :=
    ⟨by decide, by decide, by decide, by decide, by decide⟩
  rw [ConcreteKey, clientKey_chunks hn]
  simp only [List.forall_mem_append, List.forall_mem_cons]
  exact ⟨fun h => h.2.2.2.2, fun h => ⟨hscope, hmeta, hclients, hn.toKeyChunk, h⟩⟩

/-! ## Who sees it -/

def clientsFilter : Str := "$meta/clients/#".toList

/-- The bus key of `$meta/clients/#`. -/
def clientsFilterKey (scope : Str) : Str := inScope scope "@meta/clients/**".toList

theorem clientsFilter_ok (scope : Str) :
    filterToKeyexpr clientsFilter scope = .ok (clientsFilterKey scope) := by
  have hunscoped : filterToKeyexpr clientsFilter [] = .ok "@meta/clients/**".toList := by decide
  obtain ⟨hlevels, hkey⟩ := filterToKeyexpr_iff.mp hunscoped
  exact filterToKeyexpr_iff.mpr ⟨hlevels, by rw [clientsFilterKey, hkey]; rfl⟩

/-- A subscriber of `$meta/clients/#` gets it unless the client id has a verbatim chunk. -/
theorem seen_iff (hs : WellFormedScope b.scope) (hn : NodeId b.id) :
    busMatches (clientsFilterKey b.scope) (clientKey b c) = true ↔
      ∀ l ∈ c.splitOn '/', l.head? ≠ some '@' := by
  have hpats : filterPats (clientsFilter.splitOn '/') =
      [metaChunk, "clients".toList].map .lit ++ [.many] := by decide
  have hkey : (metaChunk ++ '/' :: clientName b c).splitOn '/' =
      [metaChunk, "clients".toList] ++ b.id :: c.splitOn '/' := by
    rw [List.splitOn_append_cons_self, splitOn_metaChunk, clientName_chunks hn]
    rfl
  have hid : verbatim b.id = false := decide_eq_false hn.atSign
  rw [clientKey_eq, metaKeyexpr, busMatches_inScope hs.1 (clientsFilter_ok b.scope), hpats, hkey,
    Chunks.accepts_lits_iff]
  constructor
  · rintro ⟨rest, hrest, hacc⟩ l hl
    rw [← List.append_cancel_left hrest, Chunks.accepts_many_nil] at hacc
    exact of_decide_eq_false (hacc l (.tail _ hl))
  · intro h
    refine ⟨_, rfl, Chunks.accepts_many_nil.mpr (List.forall_mem_cons.mpr ⟨hid, fun l hl => ?_⟩)⟩
    exact decide_eq_false (h l hl)

/-! ## Which keys are the same -/

theorem metaKeyexpr_inj {x y scope : Str} (h : metaKeyexpr x scope = metaKeyexpr y scope) :
    x = y := by
  have htopic := congrArg (fun k => keyexprToTopic k scope) h
  simp only [keyexprToTopic_metaKeyexpr, Option.some.injEq] at htopic
  exact List.tail_eq_of_cons_eq (List.append_cancel_left htopic)

/-- Different clients, on this node or on another, have different keys. -/
theorem clientKey_inj (hn : NodeId b.id) (hn' : NodeId b'.id) (hscope : b.scope = b'.scope)
    (h : clientKey b c = clientKey b' c') : b.id = b'.id ∧ c = c' := by
  rw [clientKey_eq, clientKey_eq, hscope] at h
  have hchunks := congrArg (fun s : Str => s.splitOn '/') (metaKeyexpr_inj h)
  simp only [clientName_chunks hn, clientName_chunks hn', List.cons.injEq, true_and] at hchunks
  refine ⟨hchunks.1, ?_⟩
  rw [← joinLevels_splitOn c, hchunks.2, joinLevels_splitOn]

/-- The key of a client is that of no topic's flag unless `clients/<node>/<client>` is a
topic. -/
theorem apart_iff (hn : NodeId b.id) :
    (∀ t k, topicToKeyexpr t b.scope = .ok k → clientKey b c ≠ metaKeyexpr t b.scope) ↔
      '+' ∈ b.id ∨ ∃ l ∈ c.splitOn '/', ¬ TopicLevel l := by
  have htopic : (∀ l ∈ (clientName b c).splitOn '/', TopicLevel l) ↔
      '+' ∉ b.id ∧ ∀ l ∈ c.splitOn '/', TopicLevel l := by
    have hclients : TopicLevel "clients".toList :=
      ⟨⟨by decide, by decide, by decide, by decide, by decide, by decide⟩, by decide⟩
    have hid : TopicLevel b.id ↔ '+' ∉ b.id := ⟨fun h => h.plus, fun h =>
      ⟨⟨hn.nonempty, h, hn.hash, hn.star, hn.dollar, hn.atSign⟩, hn.question⟩⟩
    rw [clientName_chunks hn]
    simp only [List.forall_mem_cons, hclients, true_and, hid]
  constructor
  · intro h
    by_contra hcond
    simp only [not_or, not_exists, not_and, not_not] at hcond
    have hok : topicToKeyexpr (clientName b c) b.scope = .ok (inScope b.scope (clientName b c)) :=
      topicToKeyexpr_iff.mpr ⟨htopic.mpr hcond, rfl⟩
    exact h _ _ hok (clientKey_eq b c)
  · intro h t k ht hkey
    rw [clientKey_eq] at hkey
    have hlevels := (topicToKeyexpr_iff.mp ht).1
    rw [← metaKeyexpr_inj hkey] at hlevels
    obtain ⟨hplus, hall⟩ := htopic.mp hlevels
    rcases h with h | ⟨l, hl, hno⟩
    · exact hplus h
    · exact hno (hall l hl)

/-- What the lifecycle events of a client are for: a concrete key that `$meta/clients/#`
sees, of this client alone, and of no topic's flag. -/
structure Attributable (b : Broker) (c : Str) : Prop where
  concrete : ConcreteKey (clientKey b c)
  seen : ∀ k, filterToKeyexpr clientsFilter b.scope = .ok k → busMatches k (clientKey b c) = true
  own : ∀ b' c', b'.scope = b.scope → NodeId b'.id → clientKey b' c' = clientKey b c →
    b'.id = b.id ∧ c' = c
  apart : ∀ t k, topicToKeyexpr t b.scope = .ok k → clientKey b c ≠ metaKeyexpr t b.scope

/-- A client id that stays out of the way: nothing reserved in its levels, and a `+` in it
or in the node id, which no topic can have. -/
def StaysOut (b : Broker) (c : Str) : Prop :=
  (∀ l ∈ c.splitOn '/', KeyChunk l ∧ l.head? ≠ some '@') ∧
    ('+' ∈ b.id ∨ ∃ l ∈ c.splitOn '/', '+' ∈ l)

/-- **Which events are attributable**, for every client id: those of ids that stay out of
the way. -/
theorem attributable_iff (hs : WellFormedScope b.scope) (hn : NodeId b.id) :
    Attributable b c ↔ StaysOut b c := by
  have hok := clientsFilter_ok b.scope
  constructor
  · intro h
    have hchunks := (concrete_iff hs hn).mp h.concrete
    have hvisible := (seen_iff hs hn).mp (h.seen _ hok)
    refine ⟨fun l hl => ⟨hchunks l hl, hvisible l hl⟩, ?_⟩
    rcases (apart_iff hn).mp h.apart with hplus | ⟨l, hl, hno⟩
    · exact .inl hplus
    · -- what a key chunk lacks of a topic level is a `+`
      refine .inr ⟨l, hl, ?_⟩
      by_contra hplus
      have hkey := hchunks l hl
      exact hno ⟨⟨hkey.nonempty, hplus, hkey.hash, hkey.star, hkey.dollar, hvisible l hl⟩,
        hkey.question⟩
  · rintro ⟨hlevels, hplus⟩
    refine ⟨(concrete_iff hs hn).mpr fun l hl => (hlevels l hl).1, ?_, ?_, (apart_iff hn).mpr ?_⟩
    · intro k hk
      rw [hok] at hk
      cases hk
      exact (seen_iff hs hn).mpr fun l hl => (hlevels l hl).2
    · exact fun b' c' hscope hn' h => clientKey_inj hn' hn hscope h
    · rcases hplus with hplus | ⟨l, hl, hplus⟩
      · exact .inl hplus
      · exact .inr ⟨l, hl, fun htopic => htopic.plus hplus⟩

/-- A node of its own, with nothing in the way. -/
def plainNode : Broker := ⟨"n1".toList, "entmoot".toList, ⟨[], true⟩, 0, fun _ => 0⟩

theorem plainNode_scope : WellFormedScope plainNode.scope := by
  rw [WellFormedScope, ScopeOk]
  decide

theorem plainNode_id : NodeId plainNode.id :=
  ⟨⟨by decide, by decide, by decide, by decide, by decide⟩, by decide, by decide⟩

theorem plus_client_attributable :
    Attributable plainNode "a+b".toList ↔ StaysOut plainNode "a+b".toList :=
  attributable_iff plainNode_scope plainNode_id

/-- The events of an ordinary client have the key of a topic's staleness flag. -/
theorem ordinary_client_not_attributable : ¬ ∀ b c, WellFormedScope b.scope → NodeId b.id → c ≠ [] →
    Attributable b c := by
  intro h
  have hok : topicToKeyexpr "clients/n1/dev".toList plainNode.scope =
      .ok "entmoot/clients/n1/dev".toList := by
    decide
  exact (h plainNode "dev".toList plainNode_scope plainNode_id (by decide)).apart _ _
    hok (by decide)

/-! ## How long the topics get -/

/-- The keys the node puts on the bus: that of a topic, that of its staleness flag, that of
a client. -/
def busKeys (b : Broker) (t c : Str) : List Str :=
  [inScope b.scope t, metaKeyexpr t b.scope, clientKey b c]

/-- Every topic such a key is delivered under, in whatever session, fits the 16-bit length
of a PUBLISH. -/
def TopicsFit (b : Broker) (t c : Str) : Prop :=
  ∀ k ∈ busKeys b t c, ∀ topic, keyexprToTopic k b.scope = some topic →
    (asBytes topic).length ≤ 65535 ∧ ∀ (s : SessionState) (payload : Bytes) (qos : QoS),
      (asBytes (s.publishFor (topic, payload) qos).2.topic).length ≤ 65535

theorem busKeys_topics (ht : ∀ l ∈ t.splitOn '/', TopicLevel l) :
    (busKeys b t c).map (fun k => keyexprToTopic k b.scope) =
      [some t, some (metaPrefix ++ '/' :: t), some (metaPrefix ++ '/' :: clientName b c)] := by
  rw [busKeys, List.map_cons, List.map_cons, List.map_cons, List.map_nil,
    keyexprToTopic_of_head b.scope (topic_head ht), keyexprToTopic_metaKeyexpr, clientKey_eq,
    keyexprToTopic_metaKeyexpr]

theorem metaTopic_bytes (x : Str) :
    (asBytes (metaPrefix ++ '/' :: x)).length = 6 + (asBytes x).length :=
  asBytes_append_length "$meta/".toList x

theorem clientName_bytes (b : Broker) (c : Str) :
    (asBytes (clientName b c)).length = 9 + (asBytes b.id).length + (asBytes c).length := by
  have hslash := asBytes_append_length ['/'] c
  have hid := asBytes_append_length b.id ('/' :: c)
  have hname := asBytes_append_length "clients/".toList (b.id ++ '/' :: c)
  have heq : clientName b c = "clients/".toList ++ (b.id ++ '/' :: c) :=
    List.append_assoc "clients/".toList b.id ('/' :: c)
  have height : (asBytes "clients/".toList).length = 8 := by decide
  have hone : (asBytes ['/']).length = 1 := by decide
  change (asBytes ('/' :: c)).length = _ at hslash
  rw [heq, hname, hid, hslash, height, hone]
  omega

theorem publishFor_topic (s : SessionState) (topic : Str) (payload : Bytes) (qos : QoS) :
    (s.publishFor (topic, payload) qos).2.topic = topic :=
  congrArg Prod.fst (s.publishFor_publish (topic, payload) qos).1

/-- **Topics fit up to 65529 bytes**, and node and client id up to 65520 bytes together. -/
theorem topicsFit_iff {k : Str} (ht : topicToKeyexpr t b.scope = .ok k) :
    TopicsFit b t c ↔
      (asBytes t).length ≤ 65529 ∧ (asBytes b.id).length + (asBytes c).length ≤ 65520 := by
  have htopics := busKeys_topics (b := b) (c := c) (topicToKeyexpr_iff.mp ht).1
  have hall : TopicsFit b t c ↔
      ∀ topic, some topic ∈ (busKeys b t c).map (fun k => keyexprToTopic k b.scope) →
      (asBytes topic).length ≤ 65535 := by
    constructor
    · intro h topic hmem
      obtain ⟨key, hkey, htopic⟩ := List.mem_map.mp hmem
      exact (h key hkey topic htopic).1
    · intro h key hkey topic htopic
      have hfit := h topic (List.mem_map.mpr ⟨key, hkey, htopic⟩)
      exact ⟨hfit, fun s payload qos => by rw [publishFor_topic]; exact hfit⟩
  rw [hall, htopics]
  simp only [List.mem_cons, List.not_mem_nil, or_false, Option.some.injEq, forall_eq_or_imp,
    forall_eq, metaTopic_bytes, clientName_bytes]
  omega

theorem short_topics_fit : TopicsFit plainNode "t".toList "dev".toList ↔
    (asBytes "t".toList).length ≤ 65529 ∧
      (asBytes plainNode.id).length + (asBytes "dev".toList).length ≤ 65520 :=
  @topicsFit_iff plainNode "dev".toList "t".toList "entmoot/t".toList (by decide)

/-- A client id that MQTT still carries. -/
def longClient : Str := List.replicate 65519 'a'

theorem longClient_bytes : (asBytes longClient).length = 65519 := by
  have hascii : ∀ ch ∈ longClient, (String.utf8EncodeChar ch).length = 1 := fun ch hch => by
    rw [List.eq_of_mem_replicate hch]
    decide
  rw [asBytes_length_of_ascii hascii, longClient, List.length_replicate]

/-- Its lifecycle events have a topic of 65536 bytes, one more than fit. -/
theorem long_client_does_not_fit : ¬ ∀ b t c k, topicToKeyexpr t b.scope = .ok k →
    (asBytes t).length ≤ 65535 → (asBytes c).length ≤ 65535 → TopicsFit b t c := by
  intro h
  have hlen : (asBytes longClient).length ≤ 65535 := by
    rw [longClient_bytes]
    decide
  have hfit := h plainNode "t".toList longClient "entmoot/t".toList (by decide) (by decide) hlen
  have hmem : clientKey plainNode longClient ∈ busKeys plainNode "t".toList longClient :=
    .tail _ (.tail _ (.head _))
  have htopic := (hfit _ hmem _ (keyexprToTopic_metaKeyexpr _ _)).1
  change (asBytes (metaPrefix ++ '/' :: clientName plainNode longClient)).length ≤ 65535 at htopic
  rw [metaTopic_bytes, clientName_bytes, longClient_bytes] at htopic
  exact absurd htopic (by decide)

end Entmoot
