/-
# `Entmoot.Replica` — what the retained replicas agree on

Two questions about the replica map of `Entmoot.Retained`.

**Arrival order.**  The live subscriber and the catch-up replies hand envelopes
to one `insert`, which compares no times.  After any arrivals a topic therefore
holds its *last* envelope (`receive_lookup`), so it holds the newest write
exactly when the newest write arrives last (`newest_held_iff`): a catch-up reply
from an older replica, the node's own included, undoes a newer live write.

**Catch-up after a restart.**  Replies only insert, so a snapshot merged with a
peer's replies is the peer's map over the snapshot's (`catchUp_lookup`), which
is the peer's map exactly when the snapshot has no topic the peer lacks
(`catchUp_eq_iff`): a topic cleared while the node was down comes back.
-/
import Entmoot.Reading
import Mathlib.Data.List.Induction
import Mathlib.Data.List.Perm.Basic

namespace Entmoot

open RetainedStore

/-! ## Arrival order -/

/-- The feed an envelope arrives on. -/
inductive Feed where
  | live
  | reply
  deriving DecidableEq, Repr

/-- A retained put, as its origin wrote it. -/
structure RetainedWrite where
  payload : Bytes
  writtenAt : SystemTime
  deriving DecidableEq, Repr

/-- What a store holds of a write. -/
def RetainedWrite.stored (w : RetainedWrite) : Bytes × SystemTime :=
  (w.payload, truncMillis w.writtenAt)

/-- One arrival: the feed, the topic and the write its envelope was made from. -/
structure Arrival where
  feed : Feed
  topic : Str
  write : RetainedWrite
  deriving DecidableEq, Repr

/-- An arrival handed to the store by its feed. -/
def Arrival.apply (scope : Str) (s : RetainedStore) (a : Arrival) : RetainedStore :=
  let ke := retainedKeyexpr a.topic scope
  let raw := encodeEnvelope a.write.payload a.write.writtenAt
  match a.feed with
  | .live => s.applySample scope ke .put raw
  | .reply => s.applyReply scope ke raw

/-- A node receiving a sequence of arrivals. -/
def receive (scope : Str) (s : RetainedStore) (as : List Arrival) : RetainedStore :=
  as.foldl (Arrival.apply scope) s

/-- The writes to one topic, in the order they arrive. -/
def arrivedOn (t : Str) (as : List Arrival) : List RetainedWrite :=
  (as.filter fun a => a.topic = t).map Arrival.write

theorem Arrival.apply_eq (scope : Str) (s : RetainedStore) (a : Arrival) :
    a.apply scope s = s.insert a.topic a.write.payload (truncMillis a.write.writtenAt) := by
  cases a with
  | mk feed topic write =>
      cases feed with
      | live => exact applySample_put scope s topic write.payload write.writtenAt
      | reply => exact applyReply_put scope s topic write.payload write.writtenAt

theorem receive_map (scope : Str) : ∀ (as : List Arrival) (s : RetainedStore),
    (receive scope s as).map =
      Keyed.insertAll s.map (as.map fun a => (a.topic, a.write.stored))
  | [], _ => rfl
  | a :: as, s => by
      have ih := receive_map scope as (a.apply scope s)
      rw [Arrival.apply_eq] at ih
      rw [receive, List.foldl_cons, Arrival.apply_eq]
      exact ih

theorem arrivedOn_concat (t : Str) (as : List Arrival) (a : Arrival) :
    arrivedOn t (as ++ [a]) = arrivedOn t as ++ if a.topic = t then [a.write] else [] := by
  by_cases h : a.topic = t <;> simp [arrivedOn, List.filter_append, h]

/-- A topic holds its last arrival. -/
theorem receive_lookup (scope : Str) (s : RetainedStore) (t : Str) (as : List Arrival) :
    (receive scope s as).map.lookup t =
      match (arrivedOn t as).getLast? with
      | some w => some w.stored
      | none => s.map.lookup t := by
  rw [receive_map]
  induction as using List.reverseRecOn with
  | nil => rfl
  | append_singleton as a ih =>
      rw [List.map_append, List.map_singleton, Keyed.lookup_insertAll_concat, arrivedOn_concat]
      by_cases h : a.topic = t
      · simp [h]
      · rw [if_neg (fun e => h e.symm), if_neg h, List.append_nil]
        exact ih

/-- `w` is the newest of the writes. -/
def Newest (ws : List RetainedWrite) (w : RetainedWrite) : Prop :=
  w ∈ ws ∧ ∀ w' ∈ ws, w'.writtenAt ≤ w.writtenAt

instance (ws : List RetainedWrite) (w : RetainedWrite) : Decidable (Newest ws w) :=
  inferInstanceAs (Decidable (_ ∧ _))

/-- What a replica that started empty holds of a topic after some arrivals. -/
def lastHeld (t : Str) (as : List Arrival) : Option (Bytes × SystemTime) :=
  (arrivedOn t as).getLast?.map RetainedWrite.stored

theorem receive_empty_lookup (scope t : Str) (as : List Arrival) :
    (receive scope .empty as).map.lookup t = lastHeld t as := by
  rw [receive_lookup, lastHeld]
  cases (arrivedOn t as).getLast? <;> rfl

/-- **Last arrival wins.**  A replica that received the writes `ws` to a topic
holds the newest of them iff the envelope that arrived last is the newest's, and
two replicas agree on every topic iff their last envelopes do. -/
theorem newest_held_iff (scope : Str) (as bs : List Arrival) :
    (∀ (s : RetainedStore) (t : Str) (ws : List RetainedWrite) (w : RetainedWrite), Newest ws w →
      (∀ x, x ∈ arrivedOn t as ↔ x ∈ ws) →
      ((receive scope s as).map.lookup t = some w.stored ↔ lastHeld t as = some w.stored)) ∧
    ((∀ t, (receive scope .empty as).map.lookup t = (receive scope .empty bs).map.lookup t) ↔
      ∀ t, lastHeld t as = lastHeld t bs) := by
  refine ⟨?_, by simp only [receive_empty_lookup]⟩
  intro s t ws w hw hmem
  have hne : arrivedOn t as ≠ [] := List.ne_nil_of_mem ((hmem w).mpr hw.1)
  rw [receive_lookup, lastHeld, List.getLast?_eq_some_getLast hne]
  rfl

/-- An old and a new write to one topic, the old one arriving last, as the reply
of a replica that has not seen the new one. -/
theorem stale_reply_wins :
    ¬ ∀ (scope : Str) (s : RetainedStore) (t : Str) (ws : List RetainedWrite),
      (ws.Pairwise fun a b => a.writtenAt ≠ b.writtenAt) →
      ∀ w, Newest ws w → ∀ as, (∀ x, x ∈ arrivedOn t as ↔ x ∈ ws) →
        (receive scope s as).map.lookup t = some w.stored := by
  intro h
  let old : RetainedWrite := ⟨[57], 1000000⟩
  let new : RetainedWrite := ⟨[57, 48], 2000000⟩
  have hmem : ∀ x, x ∈ arrivedOn "kiln".toList
      [⟨.live, "kiln".toList, new⟩, ⟨.reply, "kiln".toList, old⟩] ↔ x ∈ [old, new] := by
    intro x
    simp [arrivedOn, or_comm]
  have hheld := h [] .empty "kiln".toList [old, new] (by decide) new (by decide) _ hmem
  rw [receive_empty_lookup] at hheld
  exact absurd hheld (by decide)

/-! ## Catch-up after a restart -/

/-- A store as the feeds build it: times are whole milliseconds, and topics and
payloads fit a chunk. -/
structure Replica where
  store : RetainedStore
  stamped : ∀ t e, store.map.lookup t = some e → ∃ m < 2 ^ 64, e.2 = fromMillis m
  small : ∀ t e, store.map.lookup t = some e → (asBytes t).length < 2 ^ 32 ∧ e.1.length < 2 ^ 32

/-- Arrivals that fit a chunk make a replica of a replica. -/
def Replica.receive (scope : Str) (p : Replica) (as : List Arrival)
    (hsz : ∀ a ∈ as, (asBytes a.topic).length < 2 ^ 32 ∧ a.write.payload.length < 2 ^ 32) :
    Replica where
  store := Entmoot.receive scope p.store as
  stamped := by
    intro t e h
    rw [receive_lookup] at h
    split at h
    · cases h
      exact ⟨_, toMillis_lt _, rfl⟩
    · exact p.stamped t e h
  small := by
    intro t e h
    rw [receive_lookup] at h
    split at h
    · next w hw =>
      cases h
      have hmem := List.mem_of_getLast? hw
      simp only [arrivedOn, List.mem_map, List.mem_filter, decide_eq_true_eq] at hmem
      obtain ⟨a, ⟨ha, rfl⟩, rfl⟩ := hmem
      exact hsz a ha
    · exact p.small t e h

section CatchUp
variable [HashOrder]

theorem mem_snapshot {s : RetainedStore} {e : RetainedEntry} :
    e ∈ s.snapshot ↔ s.map.lookup e.1 = some e.2 := by
  rw [RetainedStore.snapshot, (HashOrder.perm _).mem_iff]
  exact Keyed.mem_pairs

theorem Replica.map_truncEntry (p : Replica) :
    p.store.snapshot.map truncEntry = p.store.snapshot := by
  have h : ∀ e ∈ p.store.snapshot, truncEntry e = id e := by
    intro e he
    obtain ⟨m, hm, hem⟩ := p.stamped _ _ (mem_snapshot.mp he)
    rw [truncEntry, hem, truncMillis_fromMillis hm, ← hem]
    rfl
  rw [List.map_congr_left h, List.map_id]

/-- All the replies to a startup query, in the order they arrive. -/
def catchUp (scope : Str) (s : RetainedStore) (replies : List (Str × Bytes)) : RetainedStore :=
  replies.foldl (fun s r => s.applyReply scope r.1 r.2) s

omit [HashOrder] in
theorem catchUp_replies (scope : Str) : ∀ (es : List RetainedEntry) (s : RetainedStore),
    (catchUp scope s (es.map (replyFor scope))).map = Keyed.insertAll s.map (es.map truncEntry)
  | [], _ => rfl
  | e :: es, s => by
      have ih := catchUp_replies scope es (s.insert e.1 e.2.1 (truncMillis e.2.2))
      rw [List.map_cons, catchUp, List.foldl_cons, replyFor, applyReply_put]
      exact ih

/-- A node back from disk: its snapshot loaded into an empty store, then a peer's
replies. -/
def restarted (scope : Str) (saved : RetainedStore) (replies : List (Str × Bytes)) :
    RetainedStore :=
  catchUp scope (RetainedStore.empty.loadSnapshot saved.snapshotBytes).1 replies

/-- The peer's map over the snapshot's. -/
theorem catchUp_lookup (scope : Str) (saved peer : Replica) {replies : List (Str × Bytes)}
    (hr : replies.Perm (peer.store.serveQuery scope)) (t : Str) :
    (restarted scope saved.store replies).map.lookup t =
      (peer.store.map.lookup t).or (saved.store.map.lookup t) := by
  have hsz : ∀ e ∈ saved.store.snapshot, (asBytes e.1).length < 2 ^ 32 ∧ e.2.1.length < 2 ^ 32 :=
    fun e he => saved.small _ _ (mem_snapshot.mp he)
  -- a rearrangement of the replies is the replies of a rearrangement
  obtain ⟨es, rfl, hperm⟩ :
      Relation.Comp (· = List.map (replyFor scope) ·) List.Perm replies peer.store.snapshot := by
    rw [List.eq_map_comp_perm]
    exact hr
  have htrunc : (es.map truncEntry).Perm (Keyed.pairs peer.store.map) := by
    have h := hperm.map truncEntry
    rw [peer.map_truncEntry] at h
    exact h.trans (HashOrder.perm _)
  have hsnap : saved.store.snapshot.Perm (Keyed.pairs saved.store.map) := HashOrder.perm _
  rw [restarted, catchUp_replies, Keyed.lookup_insertAll_of_perm htrunc,
    loadSnapshot_snapshotBytes _ _ hsz, saved.map_truncEntry]
  show (peer.store.map.lookup t).or
    ((Keyed.insertAll RetainedStore.empty.map saved.store.snapshot).lookup t) = _
  rw [Keyed.lookup_insertAll_of_perm hsnap]
  simp [RetainedStore.empty]

omit [HashOrder] in
theorem retainedKeyexpr_injective (scope : Str) :
    Function.Injective fun t => retainedKeyexpr t scope := by
  intro t t' h
  have hkey := congrArg (retainedKeyexprToTopic · scope) h
  simpa only [retainedKeyexprToTopic_retainedKeyexpr, Option.some.injEq] using hkey

/-- What a node serves: the topics it holds. -/
theorem served_iff (scope t : Str) (s : RetainedStore) :
    (∃ raw, (retainedKeyexpr t scope, raw) ∈ s.serveQuery scope) ↔ (s.map.lookup t).isSome := by
  simp only [serveQuery, List.mem_map, replyFor, Prod.mk.injEq]
  constructor
  · rintro ⟨_, e, he, hkey, _⟩
    have ht : e.1 = t := retainedKeyexpr_injective scope hkey
    rw [← ht, mem_snapshot.mp he]
    rfl
  · intro h
    obtain ⟨v, hv⟩ := Option.isSome_iff_exists.mp h
    exact ⟨_, (t, v), mem_snapshot.mpr hv, rfl, rfl⟩

/-- **Catch-up reaches the peer iff the snapshot has nothing the peer lacks**, and
a topic the peer lacks is served again iff the snapshot has it. -/
theorem catchUp_eq_iff (scope : Str) (saved peer : Replica) (replies : List (Str × Bytes))
    (hr : replies.Perm (peer.store.serveQuery scope)) :
    ((∀ t, (restarted scope saved.store replies).map.lookup t = peer.store.map.lookup t) ↔
      ∀ t, (saved.store.map.lookup t).isSome → (peer.store.map.lookup t).isSome) ∧
    ∀ t, peer.store.map.lookup t = none →
      ((∃ raw, (retainedKeyexpr t scope, raw) ∈
          (restarted scope saved.store replies).serveQuery scope) ↔
        (saved.store.map.lookup t).isSome) := by
  refine ⟨?_, fun t ht => by rw [served_iff, catchUp_lookup scope saved peer hr, ht]; rfl⟩
  simp only [catchUp_lookup scope saved peer hr]
  refine forall_congr' fun t => ?_
  cases peer.store.map.lookup t <;> cases saved.store.map.lookup t <;> simp

end CatchUp

/-- A replica with one topic, and one without any. -/
def heldReplica : Replica where
  store := RetainedStore.empty.insert "kiln".toList [57] 1000000
  stamped := by
    intro t e h
    rw [RetainedStore.insert, Keyed.lookup_insert] at h
    split at h
    · cases h
      exact ⟨1, by decide, rfl⟩
    · simp [RetainedStore.empty] at h
  small := by
    intro t e h
    rw [RetainedStore.insert, Keyed.lookup_insert] at h
    split at h
    · next ht =>
      cases h
      subst ht
      decide
    · simp [RetainedStore.empty] at h

def clearedReplica : Replica where
  store := .empty
  stamped := by simp [RetainedStore.empty]
  small := by simp [RetainedStore.empty]

/-- A topic in the snapshot that was cleared while the node was down: the peer has
no reply for it. -/
theorem cleared_topic_returns :
    ¬ ∀ (_ : HashOrder) (scope : Str) (saved peer : Replica) (replies : List (Str × Bytes)),
      replies.Perm (peer.store.serveQuery scope) →
      ∀ t, (restarted scope saved.store replies).map.lookup t = peer.store.map.lookup t := by
  intro h
  have heq := h .asStored [] heldReplica clearedReplica [] (by decide) "kiln".toList
  rw [@catchUp_lookup .asStored [] heldReplica clearedReplica [] (by decide)] at heq
  exact absurd heq (by decide)

/-- The snapshot caught up with a peer that still holds its topic. -/
theorem catchUp_same_topic :
    (@restarted .asStored [] heldReplica.store
        (@serveQuery .asStored [] heldReplica.store)).map.lookup "kiln".toList =
      heldReplica.store.map.lookup "kiln".toList :=
  (@catchUp_eq_iff .asStored [] heldReplica heldReplica _ (List.Perm.refl _)).1.mpr
    (fun _ h => h) "kiln".toList

end Entmoot
