/-
# `Entmoot.Retained` — the mesh-wide retained-message store

`crates/entmoot-node/src/retained.rs`.  A node's replica is a map from topics to
payload and origin write time, fed from three places: the snapshot on disk
(`loadSnapshot`), the live subscriber on the `@retained` keyspace (`applySample`)
and the replies to the startup query (`applyReply`).  The write time rides in
front of the payload as eight bytes of milliseconds (`encodeEnvelope`).

Every route ends in `insert`, which overwrites whatever the topic held.
-/
import Entmoot.Topic
import Entmoot.Lib.Keyed

namespace Entmoot

open Wire (stripPrefix splitAt? takeChunk putChunk putNat getNat)

/-! ## Origin write times on the wire -/

/-- `duration_since(UNIX_EPOCH).unwrap_or_default().as_millis() as u64`. -/
def toMillis (t : SystemTime) : Nat := (t.toNat / 1000000) % 2 ^ 64

/-- `UNIX_EPOCH + Duration::from_millis(millis)`. -/
def fromMillis (millis : Nat) : SystemTime := millis * 1000000

/-- A time as it reads after one trip through an envelope. -/
def truncMillis (t : SystemTime) : SystemTime := fromMillis (toMillis t)

theorem toMillis_lt (t : SystemTime) : toMillis t < 2 ^ 64 := Nat.mod_lt _ (by decide)

theorem toMillis_fromMillis {m : Nat} (h : m < 2 ^ 64) : toMillis (fromMillis m) = m := by
  have : (fromMillis m).toNat = m * 1000000 := by
    unfold fromMillis
    omega
  rw [toMillis, this, Nat.mul_div_cancel _ (by decide), Nat.mod_eq_of_lt h]

theorem truncMillis_fromMillis {m : Nat} (h : m < 2 ^ 64) :
    truncMillis (fromMillis m) = fromMillis m := by
  rw [truncMillis, toMillis_fromMillis h]

def encodeEnvelope (payload : Bytes) (writtenAt : SystemTime) : Bytes :=
  putNat 8 (toMillis writtenAt) ++ payload

/-- `None` on an envelope shorter than its timestamp. -/
def decodeEnvelope (bytes : Bytes) : Option (Bytes × SystemTime) :=
  (splitAt? 8 bytes).map fun p => (p.2, fromMillis (getNat p.1))

theorem getNat_putMillis (t : SystemTime) : getNat (putNat 8 (toMillis t)) = toMillis t :=
  Wire.getNat_putNat (by simpa using toMillis_lt t)

theorem decodeEnvelope_encodeEnvelope (payload : Bytes) (t : SystemTime) :
    decodeEnvelope (encodeEnvelope payload t) = some (payload, truncMillis t) := by
  rw [decodeEnvelope, encodeEnvelope, Wire.splitAt?_append _ (Wire.putNat_length 8 _)]
  simp [getNat_putMillis, truncMillis]

/-! ## The store -/

/-- (topic, payload, origin write time) — one retained match. -/
abbrev RetainedEntry := Str × Bytes × SystemTime

/-- The replica's map. -/
abbrev RetainedMap := AList fun _ : Str => Bytes × SystemTime

structure RetainedStore where
  map : RetainedMap
  dirty : Bool

namespace RetainedStore

def empty : RetainedStore := ⟨∅, false⟩

def insert (s : RetainedStore) (topicName : Str) (payload : Bytes) (writtenAt : SystemTime) :
    RetainedStore :=
  ⟨s.map.insert topicName (payload, writtenAt), true⟩

def remove (s : RetainedStore) (topicName : Str) : RetainedStore :=
  ⟨s.map.erase topicName, true⟩

def takeDirty (s : RetainedStore) : RetainedStore × Bool := ({ s with dirty := false }, s.dirty)

def snapshot [HashOrder] (s : RetainedStore) : List RetainedEntry :=
  HashOrder.order (Keyed.pairs s.map)

/-- The entries whose topic matches a filter. -/
def matching [HashOrder] (map : RetainedMap) (filter : Str) : List RetainedEntry :=
  (HashOrder.order (Keyed.pairs map)).filter fun e => topicMatches filter e.1

/-! ## The snapshot file -/

def snapshotMagic : Bytes := asBytes "ENTMOOT-RET2\n".toList

def writeEntry (e : RetainedEntry) : Bytes :=
  putChunk (asBytes e.1) ++ (putChunk e.2.1 ++ putNat 8 (toMillis e.2.2))

/-- What `save_snapshot` writes. -/
def snapshotBytes [HashOrder] (s : RetainedStore) : Bytes :=
  snapshotMagic ++ s.snapshot.flatMap writeEntry

def orTruncated {α : Type} : Option α → Except String α
  | some a => .ok a
  | none => .error "truncated snapshot"

def readEntry (rest : Bytes) : Except String (RetainedEntry × Bytes) := do
  let t ← orTruncated (takeChunk rest)
  let p ← orTruncated (takeChunk t.2)
  let ts ← orTruncated (splitAt? 8 p.2)
  let topic ← utf8Or "bad topic in snapshot" t.1
  pure ((topic, p.1, fromMillis (getNat ts.1)), ts.2)

/-- Entries are inserted as they are read: what precedes a bad one stays. -/
def loadSnapshotLoop : Nat → Bytes → RetainedStore → Nat → RetainedStore × Except String Nat
  | 0, _, s, count => (s, .ok count)
  | fuel + 1, rest, s, count =>
      if rest = [] then (s, .ok count)
      else match readEntry rest with
        | .error e => (s, .error e)
        | .ok (e, tail) =>
            loadSnapshotLoop fuel tail { s with map := s.map.insert e.1 e.2 } (count + 1)

def loadSnapshot (s : RetainedStore) (data : Bytes) : RetainedStore × Except String Nat :=
  match stripPrefix snapshotMagic data with
  | none => (s, .error "not an entmoot retained snapshot")
  | some body => loadSnapshotLoop body.length body s 0

/-! ## The feeds -/

inductive SampleKind where
  | put
  | delete
  deriving DecidableEq, Repr

/-- Live replication: one sample on the retained keyspace. -/
def applySample (scope : Str) (s : RetainedStore) (ke : Str) (kind : SampleKind) (raw : Bytes) :
    RetainedStore :=
  match retainedKeyexprToTopic ke scope with
  | none => s
  | some t =>
    match kind with
    | .put =>
        match decodeEnvelope raw with
        | none => s
        | some (payload, writtenAt) => s.insert t payload writtenAt
    | .delete => s.remove t

/-- Catch-up: one reply to the startup query. -/
def applyReply (scope : Str) (s : RetainedStore) (ke : Str) (raw : Bytes) : RetainedStore :=
  match retainedKeyexprToTopic ke scope with
  | none => s
  | some t =>
    match decodeEnvelope raw with
    | none => s
    | some (payload, writtenAt) => s.insert t payload writtenAt

/-- The queryable's reply for one entry: its key and its envelope. -/
def replyFor (scope : Str) (e : RetainedEntry) : Str × Bytes :=
  (retainedKeyexpr e.1 scope, encodeEnvelope e.2.1 e.2.2)

/-- What the queryable answers. -/
def serveQuery [HashOrder] (scope : Str) (s : RetainedStore) : List (Str × Bytes) :=
  s.snapshot.map (replyFor scope)

end RetainedStore

/-! ## The key of a retained topic gives the topic back -/

theorem stripScope_inScope (scope ke : Str) : stripScope (inScope scope ke) scope = some ke :=
  stripScope_eq_some.mpr rfl

theorem retainedKeyexprToTopic_retainedKeyexpr (t scope : Str) :
    retainedKeyexprToTopic (retainedKeyexpr t scope) scope = some t := by
  have hslash : stripPrefix ['/'] ('/' :: t) = some t := Wire.stripPrefix_append ['/'] t
  simp [retainedKeyexprToTopic, retainedKeyexpr, stripScope_inScope, hslash]

namespace RetainedStore

/-- Either feed, given the put of one write, stores that write. -/
theorem applySample_put (scope : Str) (s : RetainedStore) (t : Str) (payload : Bytes)
    (w : SystemTime) :
    s.applySample scope (retainedKeyexpr t scope) .put (encodeEnvelope payload w) =
      s.insert t payload (truncMillis w) := by
  simp [applySample, retainedKeyexprToTopic_retainedKeyexpr, decodeEnvelope_encodeEnvelope]

theorem applyReply_put (scope : Str) (s : RetainedStore) (t : Str) (payload : Bytes)
    (w : SystemTime) :
    s.applyReply scope (retainedKeyexpr t scope) (encodeEnvelope payload w) =
      s.insert t payload (truncMillis w) := by
  simp [applyReply, retainedKeyexprToTopic_retainedKeyexpr, decodeEnvelope_encodeEnvelope]

/-! ## Loading what was saved -/

theorem readEntry_writeEntry {e : RetainedEntry} (rest : Bytes)
    (ht : (asBytes e.1).length < 2 ^ 32) (hp : e.2.1.length < 2 ^ 32) :
    readEntry (writeEntry e ++ rest) = .ok ((e.1, e.2.1, truncMillis e.2.2), rest) := by
  have h1 : takeChunk (writeEntry e ++ rest) =
      some (asBytes e.1, putChunk e.2.1 ++ (putNat 8 (toMillis e.2.2) ++ rest)) := by
    rw [writeEntry, List.append_assoc, List.append_assoc]
    exact Wire.takeChunk_putChunk _ ht
  have h2 := Wire.takeChunk_putChunk (putNat 8 (toMillis e.2.2) ++ rest) hp
  have h3 := Wire.splitAt?_append rest (Wire.putNat_length 8 (toMillis e.2.2))
  simp [readEntry, h1, h2, h3, orTruncated, getNat_putMillis, truncMillis, bind, Except.bind,
    pure, Except.pure]

theorem writeEntry_ne_nil (e : RetainedEntry) (rest : Bytes) : writeEntry e ++ rest ≠ [] := by
  intro h
  have hlen := congrArg List.length h
  simp only [writeEntry, Wire.putChunk_length, List.length_append, List.length_nil] at hlen
  omega

/-- The entries of a file, times cut to milliseconds, as the loader stores them. -/
def truncEntry (e : RetainedEntry) : RetainedEntry := (e.1, e.2.1, truncMillis e.2.2)

end RetainedStore

end Entmoot
