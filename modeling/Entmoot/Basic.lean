/-
# `Entmoot.Basic` — text, bytes, time and the MQTT values the node passes around

Text is a list of characters and a byte string a list of bytes, so that the
string operations of the source (`split`, `strip_prefix`, `join`, `format!`) are
the list operations of Lean; `asBytes` and `fromUtf8` are `str::as_bytes` and
`String::from_utf8`.  Clocks are numbers: an `Instant` counts from an arbitrary
start, a `SystemTime` counts nanoseconds from the Unix epoch and may lie before
it.  A channel end and a `Notify` are known by the number of the connection that
created them, which is all `same_channel` and `notify_waiters` look at.
-/
import Mathlib.Data.List.AList

namespace Entmoot

abbrev Str := List Char
abbrev Bytes := List UInt8

/-- `str::as_bytes`. -/
def asBytes (s : Str) : Bytes := s.flatMap String.utf8EncodeChar

/-- `String::from_utf8`. -/
def fromUtf8 (b : Bytes) : Option Str := b.toByteArray.utf8Decode?.map Array.toList

/-- `String::from_utf8` with the error text the caller gives. -/
def utf8Or (err : String) (b : Bytes) : Except String Str :=
  match fromUtf8 b with
  | some s => .ok s
  | none => .error err

@[simp] theorem fromUtf8_asBytes (s : Str) : fromUtf8 (asBytes s) = some s := by
  have h : (asBytes s).toByteArray = s.utf8Encode := rfl
  rw [fromUtf8, h, List.utf8Decode?_utf8Encode]
  rfl

@[simp] theorem utf8Or_asBytes (err : String) (s : Str) : utf8Or err (asBytes s) = .ok s := by
  simp [utf8Or]

/-- Bytes that decode are those of the text they decode to. -/
theorem asBytes_of_fromUtf8 {b : Bytes} {s : Str} (h : fromUtf8 b = some s) : asBytes s = b := by
  obtain ⟨cs, hcs, rfl⟩ := Option.map_eq_some_iff.mp h
  have hsome : b.toByteArray.utf8Decode?.isSome := by
    rw [hcs]
    rfl
  have hget : b.toByteArray.utf8Decode?.get hsome = cs := Option.get_of_eq_some hsome hcs
  have hencode : (asBytes cs.toList).toByteArray = b.toByteArray := by
    show cs.toList.utf8Encode = b.toByteArray
    rw [← hget]
    exact ByteArray.utf8Encode_get_utf8Decode?
  have hdata := congrArg (fun a => a.data.toList) hencode
  simpa using hdata

theorem asBytes_injective : Function.Injective asBytes := by
  intro s t h
  have : some s = some t := by rw [← fromUtf8_asBytes s, h, fromUtf8_asBytes]
  exact Option.some.inj this

theorem asBytes_append_length (s t : Str) :
    (asBytes (s ++ t)).length = (asBytes s).length + (asBytes t).length := by
  rw [asBytes, List.flatMap_append, List.length_append]
  rfl

theorem asBytes_length_of_ascii : ∀ {s : Str}, (∀ ch ∈ s, (String.utf8EncodeChar ch).length = 1) →
    (asBytes s).length = s.length := by
  intro s
  induction s with
  | nil => exact fun _ => rfl
  | cons ch s ih =>
      intro h
      have hrest := ih fun x hx => h x (List.mem_cons_of_mem _ hx)
      rw [asBytes, List.flatMap_cons, List.length_append, h ch List.mem_cons_self]
      rw [asBytes] at hrest
      rw [hrest, List.length_cons, Nat.add_comm]

/-- A bind that succeeds: its first part did, and the rest with what it gave. -/
theorem bind_eq_ok {ε α β : Type} {x : Except ε α} {f : α → Except ε β} {b : β} :
    (x >>= f) = .ok b ↔ ∃ a, x = .ok a ∧ f a = .ok b := by
  cases x with
  | error e =>
      constructor
      · intro h
        cases h
      · rintro ⟨_, h, _⟩
        cases h
  | ok a =>
      constructor
      · exact fun h => ⟨a, rfl, h⟩
      · rintro ⟨_, ha, h⟩
        cases ha
        exact h

/-! ## Time -/

/-- Nanoseconds on the monotonic clock. -/
abbrev Instant := Nat
/-- A length of time in nanoseconds. -/
abbrev Duration := Nat
/-- Nanoseconds since the Unix epoch; negative before it. -/
abbrev SystemTime := Int

/-- `Instant::elapsed`, read at `now`. -/
def elapsed (now t : Instant) : Duration := now - t

/-! ## Iteration order

A `HashMap` and a directory listing yield their entries in an order the source
leaves open.  Every result below holds for each such order. -/

/-- The order in which entries are yielded: some rearrangement of them. -/
class HashOrder where
  order : {α : Type} → List α → List α
  perm : ∀ {α : Type} (l : List α), (order l).Perm l

/-- Entries in the order they are stored. -/
abbrev HashOrder.asStored : HashOrder := ⟨id, fun l => List.Perm.refl l⟩

/-! ## MQTT values -/

/-- `mqttbytes::QoS`. -/
inductive QoS where
  | atMostOnce
  | atLeastOnce
  | exactlyOnce
  deriving DecidableEq, Repr

/-- `qos as u8`. -/
def QoS.toByte : QoS → UInt8
  | .atMostOnce => 0
  | .atLeastOnce => 1
  | .exactlyOnce => 2

/-- `mqttbytes::qos`. -/
def qos (b : UInt8) : Option QoS :=
  if b = 0 then some .atMostOnce
  else if b = 1 then some .atLeastOnce
  else if b = 2 then some .exactlyOnce
  else none

@[simp] theorem qos_toByte (q : QoS) : qos q.toByte = some q := by cases q <;> rfl

/-- `mqttbytes::v4::Publish`. -/
structure Publish where
  topic : Str
  qos : QoS
  payload : Bytes
  pkid : UInt16
  retain : Bool
  deriving DecidableEq, Repr

/-- `Publish::new`: packet id 0, not retained. -/
def Publish.new (topic : Str) (qos : QoS) (payload : Bytes) : Publish :=
  ⟨topic, qos, payload, 0, false⟩

/-- `SubscribeReasonCode`. -/
inductive SubscribeReasonCode where
  | success (qos : QoS)
  | failure
  deriving DecidableEq, Repr

/-- The packets the node sends after a successful CONNECT. -/
inductive Packet where
  | connAck (sessionPresent : Bool)
  | publish (p : Publish)
  | pubAck (pkid : UInt16)
  | pubRec (pkid : UInt16)
  | pubComp (pkid : UInt16)
  | subAck (pkid : UInt16) (codes : List SubscribeReasonCode)
  | unsubAck (pkid : UInt16)
  | pingResp
  deriving DecidableEq, Repr

/-- A queued message: topic and payload. -/
abbrev Msg := Str × Bytes

/-- One end of an outbound channel, known by the connection that opened it. -/
structure Sender where
  chan : Nat
  deriving DecidableEq, Repr

/-- The `Notify` a connection waits on. -/
structure Notify where
  conn : Nat
  deriving DecidableEq, Repr

end Entmoot
