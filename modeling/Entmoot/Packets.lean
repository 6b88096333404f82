/-
# `Entmoot.Packets` — packets on the socket, both ways

`read_from` (`crates/entmoot-node/src/connection.rs` 519–535) tries `v4::read` on the
buffer and reads more from the socket as long as that asks for it; the buffer is kept
between calls and handed over when the connection is split.  The task that `split` spawns
(491–505) takes packets off the outbound channel, encodes them and writes them.

`v4::read` and the `write` methods of the packets are those of `mqttbytes`.  That more
bytes do not change what was read is assumed of them; then what `serve` does depends on the
bytes a client sent, however the network cut them (`serve_unsegmented`).  Reading does not
undo writing for every packet: the length of a topic is written in 16 bits, and the packet
id of a PUBLISH at QoS 0 not at all.  Where it does for the packets handed to a channel, the
client reads an initial part of them, in order, without those that cannot be encoded
(`peer_reads_in_order`).
-/
import Entmoot.Lib.Framing
import Entmoot.Lib.Run
import Entmoot.Lib.Wire
import Entmoot.Cleanup

namespace Entmoot

open Framing (Decoded Faithful Piece Result Stable readAll)
open Traced (Ends)

/-! ## Reading -/

/-- What comes of `v4::read`, with the text of its error. -/
abbrev V4Read := Decoded UInt8 ClientPacket Str

/-- The reading side of a socket: what is still to come, and whether it then fails or is
closed by the peer. -/
structure Socket where
  pieces : List (Piece UInt8)
  fails : Bool

inductive ReadError where
  | socketRead
  | closedByPeer
  | malformed (e : Str)
  deriving DecidableEq, Repr

section
variable (v4Read : Nat → Bytes → V4Read)

def readFrom (stream : Socket) (buf : Bytes) (maxPacketSize : Nat) :
    Except ReadError ClientPacket × Socket × Bytes :=
  let out := Framing.next (v4Read maxPacketSize) stream.pieces buf
  let stream' := { stream with pieces := out.2.1 }
  match out.1 with
  | .packet p => (.ok p, stream', out.2.2)
  | .bad e => (.error (.malformed e), stream', out.2.2)
  | .ended => (.error (if stream.fails then .socketRead else .closedByPeer), stream', out.2.2)

structure MqttConn where
  stream : Socket
  buf : Bytes
  maxPacketSize : Nat

structure PacketReader where
  stream : Socket
  buf : Bytes
  maxPacketSize : Nat

def MqttConn.new (stream : Socket) (maxPacketSize : Nat) : MqttConn := ⟨stream, [], maxPacketSize⟩

def MqttConn.readPacket (c : MqttConn) : Except ReadError ClientPacket × MqttConn :=
  let out := readFrom v4Read c.stream c.buf c.maxPacketSize
  (out.1, { c with stream := out.2.1, buf := out.2.2 })

/-- The reading half of `split`. -/
def MqttConn.split (c : MqttConn) : PacketReader := ⟨c.stream, c.buf, c.maxPacketSize⟩

def PacketReader.readPacket (r : PacketReader) : Except ReadError ClientPacket × PacketReader :=
  let out := readFrom v4Read r.stream r.buf r.maxPacketSize
  (out.1, { r with stream := out.2.1, buf := out.2.2 })

/-! ## `serve` on a socket -/

/-- What the `select!` makes of a read. -/
def Read.ofSocket : Except ReadError ClientPacket → Read
  | .ok p => .packet p
  | .error _ => .failed

/-- The turns of the loop, each reading a packet off the socket unless it was the
keep-alive that ran out or a kick that came. -/
def readTurns : PacketReader → List Turn → List Turn
  | _, [] => []
  | r, t :: ts =>
      match t.read with
      | .expired | .kicked _ => t :: readTurns r ts
      | .packet _ | .failed =>
          { t with read := Read.ofSocket (r.readPacket v4Read).1 } ::
            readTurns (r.readPacket v4Read).2 ts

/-- `serve` with its packets off a socket; only times and others' answers are left open. -/
def ServeEnv.onSocket (env : ServeEnv) (stream : Socket) (maxPacketSize : Nat) : ServeEnv :=
  let out := (MqttConn.new stream maxPacketSize).readPacket v4Read
  { env with
    first :=
      match env.first, out.1 with
      | .timedOut, _ => .timedOut
      | _, .ok p => .packet p
      | _, .error _ => .failed
    turns := readTurns v4Read out.2.split env.turns }

end

/-! ## How the bytes were cut -/

section
variable {v4Read : Nat → Bytes → V4Read}

/-- Two readers with the same bytes before them. -/
structure SameBytes (r r' : PacketReader) : Prop where
  bytes : r'.buf ++ Framing.bytes r'.stream.pieces = r.buf ++ Framing.bytes r.stream.pieces
  fails : r'.stream.fails = r.stream.fails
  maxPacketSize : r'.maxPacketSize = r.maxPacketSize

theorem SameBytes.readPacket {r r' : PacketReader} (hread : Stable (v4Read r.maxPacketSize))
    (h : SameBytes r r') : (r'.readPacket v4Read).1 = (r.readPacket v4Read).1 ∧
      SameBytes (r.readPacket v4Read).2 (r'.readPacket v4Read).2 := by
  have hnext := Framing.next_eq hread r.stream.pieces r.buf
  have hnext' := Framing.next_eq hread r'.stream.pieces r'.buf
  rw [h.bytes, ← hnext, Prod.mk.injEq] at hnext'
  obtain ⟨hresult, hbytes⟩ := hnext'
  simp only [PacketReader.readPacket, readFrom, h.maxPacketSize, hresult]
  cases hout : (Framing.next (v4Read r.maxPacketSize) r.stream.pieces r.buf).1 with
  | packet p => exact ⟨rfl, hbytes, h.fails, rfl⟩
  | bad e => exact ⟨rfl, hbytes, h.fails, rfl⟩
  | ended => exact ⟨by simp only [h.fails], hbytes, h.fails, rfl⟩

theorem SameBytes.readTurns (ts : List Turn) :
    ∀ {r r' : PacketReader}, Stable (v4Read r.maxPacketSize) →
    SameBytes r r' → Entmoot.readTurns v4Read r' ts = Entmoot.readTurns v4Read r ts := by
  induction ts with
  | nil => exact fun _ _ => rfl
  | cons t ts ih =>
      intro r r' hread h
      obtain ⟨hresult, hrest⟩ := h.readPacket hread
      have hmax : (r.readPacket v4Read).2.maxPacketSize = r.maxPacketSize := rfl
      cases ht : t.read with
      | packet p => simp only [Entmoot.readTurns, ht, hresult, ih (hmax.symm ▸ hread) hrest]
      | failed => simp only [Entmoot.readTurns, ht, hresult, ih (hmax.symm ▸ hread) hrest]
      | expired => simp only [Entmoot.readTurns, ht, ih hread h]
      | kicked reason => simp only [Entmoot.readTurns, ht, ih hread h]

/-- **What `serve` does depends on the bytes alone**: on two sockets that bring the same
bytes in different pieces, and end the same way, it does the same, also when packets
arrive together with the CONNECT and are read after the connection was split. -/
theorem serve_unsegmented {maxPacketSize : Nat} (hread : Stable (v4Read maxPacketSize))
    (env : ServeEnv) {stream stream' : Socket}
    (hbytes : Framing.bytes stream'.pieces = Framing.bytes stream.pieces)
    (hfails : stream'.fails = stream.fails) :
    serve (env.onSocket v4Read stream' maxPacketSize) =
      serve (env.onSocket v4Read stream maxPacketSize) := by
  have hsame : SameBytes (MqttConn.new stream maxPacketSize).split
      (MqttConn.new stream' maxPacketSize).split :=
    ⟨hbytes, hfails, rfl⟩
  obtain ⟨hfirst, hrest⟩ := hsame.readPacket hread
  have hturns := hrest.readTurns env.turns hread
  have henv : env.onSocket v4Read stream' maxPacketSize =
      env.onSocket v4Read stream maxPacketSize := by
    have hfirst' : ((MqttConn.new stream' maxPacketSize).readPacket v4Read).1 =
        ((MqttConn.new stream maxPacketSize).readPacket v4Read).1 := hfirst
    have hturns' : readTurns v4Read ((MqttConn.new stream' maxPacketSize).readPacket v4Read).2.split
        env.turns =
        readTurns v4Read ((MqttConn.new stream maxPacketSize).readPacket v4Read).2.split
          env.turns := hturns
    rw [ServeEnv.onSocket, ServeEnv.onSocket, hfirst', hturns']
  rw [henv]

end

/-! ## Short packets -/

/-- `v4::read` on packets whose remaining length is one byte, by what a packet of a type
makes of its body. -/
def readShort {P : Type*} (body : UInt8 → Bytes → Option P) (maxPacketSize : Nat) :
    Bytes → Decoded UInt8 P Str
  | t :: len :: rest =>
      if 128 ≤ len.toNat then .bad "remaining length of more than one byte".toList
      else if maxPacketSize < len.toNat then .bad "Payload size limit exceeded".toList
      else if rest.length < len.toNat then .more
      else
        match body t (rest.take len.toNat) with
        | some p => .packet p (rest.drop len.toNat)
        | none => .bad "Malformed packet".toList
  | _ => .more

theorem readShort_stable {P : Type*} (body : UInt8 → Bytes → Option P) (maxPacketSize : Nat) :
    Stable (readShort body maxPacketSize) := by
  have hmore : ∀ (t len : UInt8) (rest x : Bytes),
      readShort body maxPacketSize (t :: len :: rest) ≠ .more →
      readShort body maxPacketSize (t :: len :: (rest ++ x)) =
        match readShort body maxPacketSize (t :: len :: rest) with
        | .packet p left => .packet p (left ++ x)
        | d => d := by
    intro t len rest x hne
    simp only [readShort] at hne ⊢
    by_cases hlong : 128 ≤ len.toNat
    · simp only [if_pos hlong]
    · simp only [if_neg hlong] at hne ⊢
      by_cases hbig : maxPacketSize < len.toNat
      · simp only [if_pos hbig]
      · simp only [if_neg hbig] at hne ⊢
        by_cases hshort : rest.length < len.toNat
        · exact absurd (if_pos hshort) hne
        · have hfull : ¬ (rest ++ x).length < len.toNat := by
            rw [List.length_append]
            omega
          have hle : len.toNat ≤ rest.length := Nat.le_of_not_lt hshort
          simp only [if_neg hshort, if_neg hfull, List.take_append_of_le_length hle,
            List.drop_append_of_le_length hle]
          cases body t (rest.take len.toNat) with
          | none => rfl
          | some p => rfl
  constructor
  · intro b x p left hb
    cases b with
    | nil => cases hb
    | cons t b =>
        cases b with
        | nil => cases hb
        | cons len rest =>
            have h := hmore t len rest x (by rw [hb]; exact fun h => by cases h)
            rw [hb] at h
            exact h
  · intro b x e hb
    cases b with
    | nil => cases hb
    | cons t b =>
        cases b with
        | nil => cases hb
        | cons len rest =>
            have h := hmore t len rest x (by rw [hb]; exact fun h => by cases h)
            rw [hb] at h
            exact h

/-- The CONNECT of a client that resumes its session, a PINGREQ and a DISCONNECT. -/
def devBody (t : UInt8) (b : Bytes) : Option ClientPacket :=
  if t = 0x10 ∧ b = [0, 4, 77, 81, 84, 84, 4, 0, 0, 60, 0, 3, 100, 101, 118] then
    some (.connect ⟨60, "dev".toList, false, none, none⟩)
  else if t = 0xC0 ∧ b = [] then some .pingReq
  else if t = 0xE0 ∧ b = [] then some .disconnect
  else none

/-- The client that resumes its session; the loop reads twice. -/
def pinging : ServeEnv :=
  returning [⟨.failed, true, true, true, fun _ _ => true, fun _ _ => [], 0, fun _ _ => 0⟩,
    ⟨.failed, true, true, true, fun _ _ => true, fun _ _ => [], 0, fun _ _ => 0⟩]

/-- Its CONNECT in two pieces, the second with the PINGREQ and the DISCONNECT behind it. -/
def pipelined : Socket where
  pieces := [⟨[0x10, 15, 0, 4, 77], by decide⟩,
    ⟨[81, 84, 84, 4, 0, 0, 60, 0, 3, 100, 101, 118, 0xC0, 0, 0xE0, 0], by decide⟩]
  fails := false

/-- Each packet in a piece of its own. -/
def onePacketEach : Socket where
  pieces := [⟨[0x10, 15, 0, 4, 77, 81, 84, 84, 4, 0, 0, 60, 0, 3, 100, 101, 118], by decide⟩,
    ⟨[0xC0, 0], by decide⟩, ⟨[0xE0, 0], by decide⟩]
  fails := false

/-- `serve` answers the ping that came with the end of the CONNECT. -/
theorem pipelined_client_is_served :
    ∃ w s', Ends (serve (pinging.onSocket (readShort devBody) pipelined 1024)) ⟨3, 0, none, []⟩
      (.ok ()) w s' ∧
      .send .pingResp ∈ w := by
  have hsame : serve (pinging.onSocket (readShort devBody) pipelined 1024) =
      serve (pinging.onSocket (readShort devBody) onePacketEach 1024) :=
    serve_unsegmented (readShort_stable devBody 1024) pinging rfl rfl
  rw [hsame]
  exact ⟨_, _, rfl, by decide⟩

/-! ## Writing -/

def outboundQueue : Nat := 1024

/-- An outbound channel and the task that writes what it takes off it. -/
structure Outbound where
  /-- what `send` handed in so far -/
  accepted : List Packet
  queue : List Packet
  /-- what `write_all` has still to write -/
  out : Bytes
  wire : Bytes
  /-- the task has not ended, and its receiver is there -/
  running : Bool

inductive OutboundAction where
  | send (p : Packet)
  /-- `recv`, and what `encode` makes of the packet -/
  | recv
  /-- the socket takes some bytes -/
  | write (n : Nat)
  /-- a write fails -/
  | fail
  | abort
  deriving DecidableEq, Repr

namespace Outbound

def init : Outbound := ⟨[], [], [], [], true⟩

def step (encode : Packet → Option Bytes) (o : Outbound) : OutboundAction → Option Outbound
  | .send p =>
      if o.running ∧ o.queue.length < outboundQueue then
        some { o with accepted := o.accepted ++ [p], queue := o.queue ++ [p] }
      else none
  | .recv =>
      match o.queue with
      | p :: queue =>
          -- a packet that cannot be encoded is skipped
          if o.running ∧ o.out = [] then some { o with queue := queue, out := (encode p).getD [] }
            else none
      | [] => none
  | .write n =>
      if o.running ∧ 0 < n ∧ n ≤ o.out.length then
        some { o with out := o.out.drop n, wire := o.wire ++ o.out.take n }
      else none
  | .fail => if o.running ∧ o.out ≠ [] then some { o with running := false } else none
  | .abort => some { o with running := false }

variable {encode : Packet → Option Bytes} {o o' : Outbound} {a : OutboundAction}

/-- What was taken off the channel is on the wire, but for what is being written. -/
def Written (encode : Packet → Option Bytes) (o : Outbound) : Prop :=
  ∃ taken, o.accepted = taken ++ o.queue ∧ o.wire ++ o.out = Framing.encodeAll encode taken

theorem Written.step (h : Written encode o) (hstep : step encode o a = some o') :
    Written encode o' := by
  obtain ⟨taken, haccepted, hwire⟩ := h
  cases a with
  | send p =>
      simp only [Outbound.step] at hstep
      split at hstep
      · cases hstep
        refine ⟨taken, ?_, hwire⟩
        show o.accepted ++ [p] = taken ++ (o.queue ++ [p])
        rw [haccepted, List.append_assoc]
      · cases hstep
  | recv =>
      simp only [Outbound.step] at hstep
      split at hstep
      · next p queue hqueue =>
        split at hstep
        · next hidle =>
          cases hstep
          refine ⟨taken ++ [p], ?_, ?_⟩
          · rw [haccepted, hqueue, List.append_assoc]
            rfl
          · rw [hidle.2, List.append_nil] at hwire
            rw [hwire, Framing.encodeAll_append, Framing.encodeAll_one]
        · cases hstep
      · cases hstep
  | write n =>
      simp only [Outbound.step] at hstep
      split at hstep
      · cases hstep
        refine ⟨taken, haccepted, ?_⟩
        show o.wire ++ o.out.take n ++ o.out.drop n = _
        rw [List.append_assoc, List.take_append_drop, hwire]
      · cases hstep
  | fail =>
      simp only [Outbound.step] at hstep
      split at hstep
      · cases hstep
        exact ⟨taken, haccepted, hwire⟩
      · cases hstep
  | abort =>
      cases hstep
      exact ⟨taken, haccepted, hwire⟩

theorem Written.exec {as : List OutboundAction}
    (hrun : Run.exec (Outbound.step encode) init as = some o) :
    Written encode o :=
  Run.exec_invariant (fun _ _ _ h hstep => h.step hstep) as ⟨[], rfl, rfl⟩ hrun

end Outbound

/-- The packets of a channel that can be encoded. -/
def encodable (encode : Packet → Option Bytes) (ps : List Packet) : List Packet :=
  ps.filter fun p => (encode p).isSome

theorem encodeAll_encodable (encode : Packet → Option Bytes) (ps : List Packet) :
    Framing.encodeAll encode (encodable encode ps) = Framing.encodeAll encode ps := by
  rw [Framing.encodeAll, Framing.encodeAll, encodable, List.filterMap_filter]
  refine congrArg List.flatten (List.filterMap_congr fun p _ => ?_)
  cases encode p with
  | none => rfl
  | some out => rfl

/-- **What a client reads is what was sent to it, in order, as far as it got.**  However
senders and the writing task take turns, and wherever the task was stopped, if each packet
handed to the channel is read again as it was written, or cannot be encoded, then the client
reads from the wire, in any pieces, an initial part of those packets, the ones apart that
cannot be encoded; and all of them if nothing is left in the channel or half-written. -/
theorem peer_reads_in_order {E : Type*} {encode : Packet → Option Bytes}
    {peerRead : Bytes → Decoded UInt8 Packet E} (hread : Stable peerRead)
    (hempty : peerRead [] = .more) {as : List OutboundAction} {o : Outbound}
    (hrun : Run.exec (Outbound.step encode) .init as = some o)
    (hdec : ∀ p ∈ o.accepted, Faithful peerRead encode p)
    {pieces : List (Piece UInt8)} (hpieces : Framing.bytes pieces = o.wire) :
    (∃ k, ∀ n, readAll peerRead n pieces [] =
        (((encodable encode o.accepted).take k).map Result.packet ++ [Result.ended]).take n) ∧
      (o.queue = [] → o.out = [] → ∀ n, readAll peerRead n pieces [] =
        ((encodable encode o.accepted).map Result.packet ++ [Result.ended]).take n) := by
  obtain ⟨taken, haccepted, hwire⟩ := Outbound.Written.exec hrun
  have hencodes : ∀ p ∈ encodable encode o.accepted, (encode p).isSome :=
    fun p hp => (List.mem_filter.mp hp).2
  have hfaithful : ∀ p ∈ encodable encode o.accepted, Faithful peerRead encode p :=
    fun p hp => hdec p (List.mem_filter.mp hp).1
  have hall : Framing.encodeAll encode (encodable encode o.accepted) =
      o.wire ++ (o.out ++ Framing.encodeAll encode o.queue) := by
    rw [encodeAll_encodable, haccepted, Framing.encodeAll_append, ← List.append_assoc, hwire]
  have hbytes : ∀ n, readAll peerRead n pieces [] = Framing.parse peerRead n o.wire := by
    intro n
    rw [Framing.readAll_eq hread, hpieces, List.nil_append]
  refine ⟨?_, fun hqueue hout n => ?_⟩
  · obtain ⟨k, hk⟩ :=
      Framing.parse_prefix hread hfaithful hencodes hempty (hall ▸ List.prefix_append o.wire _)
    exact ⟨k, fun n => (hbytes n).trans (hk n)⟩
  · rw [hbytes, ← Framing.parse_all hfaithful hempty hencodes n, hall, hqueue, hout]
    show _ = Framing.parse peerRead n (o.wire ++ [])
    rw [List.append_nil]

/-! ## Short packets of a server -/

def publishByte (q : QoS) (retain : Bool) : UInt8 := 0x30 + 2 * q.toByte + retain.toUInt8

/-- What stands behind the remaining length of a PUBLISH. -/
def publishBody (p : Publish) : Bytes :=
  Wire.putNat 2 (asBytes p.topic).length ++ (asBytes p.topic ++
    ((if p.qos = .atMostOnce then [] else Wire.putNat 2 p.pkid.toNat) ++ p.payload))

/-- `write` on a PUBLISH, a PUBACK or a PINGRESP whose remaining length is one byte. -/
def writeShort : Packet → Option Bytes
  | .publish p =>
      if p.qos ≠ .atMostOnce ∧ p.pkid = 0 ∨ 128 ≤ (publishBody p).length then none
      else
        some (publishByte p.qos p.retain :: UInt8.ofNat (publishBody p).length :: publishBody p)
  | .pubAck pkid => some (0x40 :: 2 :: Wire.putNat 2 pkid.toNat)
  | .pingResp => some [0xD0, 0]
  | _ => none

def readPkid (b : Bytes) : Option (UInt16 × Bytes) :=
  (Wire.splitAt? 2 b).map fun b => (UInt16.ofNat (Wire.getNat b.1), b.2)

def readPublish (q : QoS) (retain : Bool) (b : Bytes) : Option Packet :=
  (Wire.splitAt? 2 b).bind fun b => (Wire.splitAt? (Wire.getNat b.1) b.2).bind fun b =>
    (fromUtf8 b.1).bind fun topic =>
      if q = .atMostOnce then some (.publish ⟨topic, q, b.2, 0, retain⟩)
      else (readPkid b.2).map fun b => .publish ⟨topic, q, b.2, b.1, retain⟩

/-- The same packets, read. -/
def serverBody (t : UInt8) (b : Bytes) : Option Packet :=
  if t = 0xD0 then some .pingResp
  else if t = 0x40 then (readPkid b).map fun b => .pubAck b.1
  else (qos ((t - 0x30) / 2)).bind fun q => readPublish q (t % 2 = 1) b

theorem readPkid_putNat (pkid : UInt16) (rest : Bytes) :
    readPkid (Wire.putNat 2 pkid.toNat ++ rest) = some (pkid, rest) := by
  have hlt : pkid.toNat < 256 ^ 2 := pkid.toNat_lt
  rw [readPkid, Wire.splitAt?_append rest (Wire.putNat_length 2 _), Option.map_some,
    Wire.getNat_putNat hlt, UInt16.ofNat_toNat]

/-- A PUBLISH is read as it was written, but for its packet id at QoS 0. -/
theorem readPublish_publishBody {p : Publish} (hpkid : p.qos = .atMostOnce → p.pkid = 0)
    (hlen : (asBytes p.topic).length < 256 ^ 2) :
    readPublish p.qos p.retain (publishBody p) = some (.publish p) := by
  simp only [readPublish, publishBody, Wire.splitAt?_append _ (Wire.putNat_length 2 _),
    Wire.getNat_putNat hlen, Wire.splitAt?_append _ rfl, Option.bind_some, fromUtf8_asBytes]
  by_cases hq : p.qos = .atMostOnce
  · rw [if_pos hq, if_pos hq, List.nil_append, ← hpkid hq]
  · rw [if_neg hq, if_neg hq, readPkid_putNat, Option.map_some]

theorem readShort_whole {P : Type*} {body : UInt8 → Bytes → Option P} {maxPacketSize : Nat}
    (hmax : 127 ≤ maxPacketSize) {t : UInt8} {b : Bytes} {p : P} (hlen : b.length < 128)
    (hp : body t b = some p) (x : Bytes) :
    readShort body maxPacketSize (t :: UInt8.ofNat b.length :: (b ++ x)) = .packet p x := by
  have hone : (UInt8.ofNat b.length).toNat = b.length :=
    UInt8.toNat_ofNat_of_lt' (Nat.lt_trans hlen (by decide))
  have hbig : ¬ maxPacketSize < b.length := by omega
  have hfull : ¬ (b ++ x).length < b.length := by
    rw [List.length_append]
    omega
  simp only [readShort, hone, if_neg (Nat.not_le.mpr hlen), if_neg hbig, if_neg hfull,
    List.take_left, List.drop_left, hp]

theorem writeShort_faithful {maxPacketSize : Nat} (hmax : 127 ≤ maxPacketSize) {p : Packet}
    (hpkid : ∀ pub, p = .publish pub → pub.qos = .atMostOnce → pub.pkid = 0) :
    Faithful (readShort serverBody maxPacketSize) writeShort p := by
  intro out x hout
  cases p with
  | publish pub =>
      have hout : (if pub.qos ≠ .atMostOnce ∧ pub.pkid = 0 ∨ 128 ≤ (publishBody pub).length
        then none else some _) = some out := hout
      split at hout
      · cases hout
      · next hfits =>
        cases hout
        have hlen : (publishBody pub).length < 128 := by omega
        have htopic : (asBytes pub.topic).length < 256 ^ 2 := by
          have hpart : (asBytes pub.topic).length ≤ (publishBody pub).length := by
            rw [publishBody, List.length_append, List.length_append]
            omega
          omega
        have hbody : serverBody (publishByte pub.qos pub.retain) (publishBody pub) =
            some (.publish pub) := by
          rw [← readPublish_publishBody (hpkid pub rfl) htopic]
          cases pub.qos <;> cases pub.retain <;> rfl
        exact readShort_whole hmax hlen hbody x
  | pubAck pkid =>
      cases hout
      refine readShort_whole (b := Wire.putNat 2 pkid.toNat) hmax
        (by rw [Wire.putNat_length]; decide) ?_ x
      rw [serverBody, if_neg (by decide), if_pos rfl, ← List.append_nil (Wire.putNat 2 pkid.toNat),
        readPkid_putNat, Option.map_some]
  | pingResp =>
      cases hout
      exact readShort_whole (b := []) hmax (by decide) rfl x
  | connAck sessionPresent => cases hout
  | pubRec pkid => cases hout
  | pubComp pkid => cases hout
  | subAck pkid codes => cases hout
  | unsubAck pkid => cases hout

/-- A message at QoS 1, a retained one at QoS 0, a PUBACK and a PINGRESP. -/
def toReader : List Packet :=
  [.publish ⟨"kiln".toList, .atLeastOnce, [57], 1, false⟩,
    .publish ⟨"kiln".toList, .atMostOnce, [56], 0, true⟩, .pubAck 7, .pingResp]

/-- The writing task is aborted in the middle of the PUBACK. -/
def abortedWrites : List OutboundAction :=
  toReader.map .send ++ [.recv, .write 4, .write 7, .recv, .write 9, .recv, .write 3, .abort]

/-- What the reader got. -/
def arrived : List (Piece UInt8) :=
  [⟨[0x32, 9, 0, 4, 107, 105, 108], by decide⟩, ⟨[110, 0, 1, 57, 0x31, 7, 0, 4], by decide⟩,
    ⟨[107, 105, 108, 110, 56, 0x40, 2, 0], by decide⟩]

theorem half_written_ack_is_not_read :
    ∃ o, Run.exec (Outbound.step writeShort) .init abortedWrites = some o ∧
      ∃ k, ∀ n, readAll (readShort serverBody 1024) n arrived [] =
        (((encodable writeShort toReader).take k).map Result.packet ++ [Result.ended]).take n := by
  obtain ⟨o, hrun, haccepted, hwire⟩ : ∃ o, Run.exec (Outbound.step writeShort) .init
      abortedWrites = some o ∧ o.accepted = toReader ∧ Framing.bytes arrived = o.wire :=
    ⟨_, rfl, rfl, rfl⟩
  have hfaithful : ∀ p ∈ o.accepted, Faithful (readShort serverBody 1024) writeShort p := by
    intro p hp
    refine writeShort_faithful (by decide) fun pub hpub hq => ?_
    rw [haccepted, toReader] at hp
    simp only [List.mem_cons, List.not_mem_nil, or_false] at hp
    rcases hp with rfl | rfl | rfl | rfl <;> cases hpub
    · cases hq
    · rfl
  refine ⟨o, hrun, ?_⟩
  rw [← haccepted]
  exact (peer_reads_in_order (readShort_stable serverBody 1024) rfl hrun hfaithful hwire).1

end Entmoot
