/-
# `Lib.Framing` — packets read off a stream that comes in pieces

A decoder looks at the bytes in front of it and takes a packet off them, asks for more, or
gives up.  A reader keeps what was not taken and appends whatever piece of the stream comes
next.  If more bytes do not change what the decoder said (`Stable`), then what is read
depends on the bytes alone and not on how they were cut (`readAll_eq`); and of packets whose
encoding the decoder undoes (`Faithful`), one reads from an initial part of the encoded
stream an initial part of the packets (`parse_prefix`).
-/
import Mathlib.Data.List.Basic

namespace Framing

variable {B P E : Type*}

/-- What a decoder makes of some bytes. -/
inductive Decoded (B P E : Type*) where
  | packet (p : P) (rest : List B)
  | more
  | bad (e : E)
  deriving DecidableEq, Repr

/-- What comes in one go, never nothing. -/
abbrev Piece (B : Type*) := { b : List B // b ≠ [] }

/-- The bytes of some pieces. -/
def bytes (pieces : List (Piece B)) : List B := pieces.flatMap Subtype.val

/-- What comes of one call of the reader. -/
inductive Result (P E : Type*) where
  | packet (p : P)
  | bad (e : E)
  /-- the stream is over -/
  | ended
  deriving DecidableEq, Repr

/-- More bytes do not change what was decoded. -/
structure Stable (decode : List B → Decoded B P E) : Prop where
  packet : ∀ b x p rest, decode b = .packet p rest → decode (b ++ x) = .packet p (rest ++ x)
  bad : ∀ b x e, decode b = .bad e → decode (b ++ x) = .bad e

/-- One packet; what is left of the pieces and of the bytes read. -/
def next (decode : List B → Decoded B P E) :
    List (Piece B) → List B → Result P E × List (Piece B) × List B
  | pieces, buf =>
      match decode buf with
      | .packet p rest => (.packet p, pieces, rest)
      | .bad e => (.bad e, pieces, buf)
      | .more =>
          match pieces with
          | [] => (.ended, [], buf)
          | piece :: pieces => next decode pieces (buf ++ piece.val)

/-- What comes of one call, and the bytes it leaves. -/
def whole (decode : List B → Decoded B P E) (b : List B) : Result P E × List B :=
  match decode b with
  | .packet p rest => (.packet p, rest)
  | .bad e => (.bad e, b)
  | .more => (.ended, b)

/-- Up to `n` packets, until the reader fails. -/
def readAll (decode : List B → Decoded B P E) : Nat → List (Piece B) → List B → List (Result P E)
  | 0, _, _ => []
  | n + 1, pieces, buf =>
      match next decode pieces buf with
      | (.packet p, pieces, buf) => .packet p :: readAll decode n pieces buf
      | (r, _, _) => [r]

/-- Up to `n` packets from bytes that are all there. -/
def parse (decode : List B → Decoded B P E) : Nat → List B → List (Result P E)
  | 0, _ => []
  | n + 1, b =>
      match whole decode b with
      | (.packet p, rest) => .packet p :: parse decode n rest
      | (r, _) => [r]

section
variable {decode : List B → Decoded B P E}

/-- One call, on the bytes as a whole. -/
theorem next_eq (h : Stable decode) (pieces : List (Piece B)) : ∀ buf : List B,
    ((next decode pieces buf).1, (next decode pieces buf).2.2 ++
      bytes (next decode pieces buf).2.1) =
      whole decode (buf ++ bytes pieces) := by
  induction pieces with
  | nil =>
      intro buf
      have hnil : ∀ b : List B, b ++ bytes [] = b := List.append_nil
      cases hd : decode buf with
      | packet p rest => simp only [next, whole, hnil, hd]
      | more => simp only [next, whole, hnil, hd]
      | bad e => simp only [next, whole, hnil, hd]
  | cons piece pieces ih =>
      intro buf
      cases hd : decode buf with
      | packet p rest => simp only [next, whole, hd, h.packet _ _ _ _ hd]
      | more =>
          have hnext :
              next decode (piece :: pieces) buf = next decode pieces (buf ++ piece.val) := by
            simp only [next, hd]
          have hbytes : buf ++ bytes (piece :: pieces) = buf ++ piece.val ++ bytes pieces := by
            rw [List.append_assoc]
            rfl
          rw [hnext, hbytes]
          exact ih (buf ++ piece.val)
      | bad e => simp only [next, whole, hd, h.bad _ _ _ hd]

/-- **What is read does not depend on how the stream was cut.** -/
theorem readAll_eq (h : Stable decode) (n : Nat) : ∀ (pieces : List (Piece B)) (buf : List B),
    readAll decode n pieces buf = parse decode n (buf ++ bytes pieces) := by
  induction n with
  | zero => exact fun _ _ => rfl
  | succ n ih =>
      intro pieces buf
      rw [readAll, parse, ← next_eq h]
      generalize next decode pieces buf = r
      obtain ⟨r, pieces', buf'⟩ := r
      cases r with
      | packet p => exact congrArg _ (ih pieces' buf')
      | bad e => rfl
      | ended => rfl

theorem parse_more {b : List B} (hd : decode b = .more) (n : Nat) :
    parse decode n b = [Result.ended].take n := by
  cases n with
  | zero => rfl
  | succ n => simp only [parse, whole, hd, List.take_succ_cons, List.take_nil]

theorem parse_packet {b rest : List B} {p : P} {rs : List (Result P E)}
    (hd : decode b = .packet p rest) (hrest : ∀ n, parse decode n rest = rs.take n) (n : Nat) :
    parse decode n b = (.packet p :: rs).take n := by
  cases n with
  | zero => rfl
  | succ n => simp only [parse, whole, hd, List.take_succ_cons, hrest n]

/-! ## Streams of encoded packets -/

/-- The packet, if it can be encoded, is what the decoder takes off the front. -/
def Faithful (decode : List B → Decoded B P E) (encode : P → Option (List B)) (p : P) : Prop :=
  ∀ out x, encode p = some out → decode (out ++ x) = .packet p x

variable {encode : P → Option (List B)}

theorem Faithful.part {p : P} (hp : Faithful decode encode p) (h : Stable decode)
    {out w rest : List B} (hout : encode p = some out) (hcut : out = w ++ rest)
    (hne : rest ≠ []) : decode w = .more := by
  have hwhole := hp out [] hout
  rw [List.append_nil, hcut] at hwhole
  cases hd : decode w with
  | more => rfl
  | bad e =>
      rw [h.bad w rest e hd] at hwhole
      cases hwhole
  | packet q left =>
      rw [h.packet w rest q left hd] at hwhole
      injection hwhole with _ hnil
      exact absurd (List.append_eq_nil_iff.mp hnil).2 hne

/-- The bytes of some packets, without those that do not encode. -/
def encodeAll (encode : P → Option (List B)) (ps : List P) : List B := (ps.filterMap encode).flatten

theorem encodeAll_append (encode : P → Option (List B)) (ps qs : List P) :
    encodeAll encode (ps ++ qs) = encodeAll encode ps ++ encodeAll encode qs := by
  rw [encodeAll, List.filterMap_append, List.flatten_append]
  rfl

theorem encodeAll_one (encode : P → Option (List B)) (p : P) :
    encodeAll encode [p] = (encode p).getD [] := by
  rw [encodeAll, List.filterMap_cons]
  cases encode p with
  | none => rfl
  | some out => exact List.append_nil out

/-- **From an initial part of the bytes one reads an initial part of the packets.** -/
theorem parse_prefix (h : Stable decode) {ps : List P} (hdec : ∀ p ∈ ps, Faithful decode encode p)
    (hps : ∀ p ∈ ps, (encode p).isSome) : ∀ {w : List B}, decode [] = .more →
      w <+: encodeAll encode ps →
      ∃ k, ∀ n, parse decode n w = ((ps.take k).map Result.packet ++ [Result.ended]).take n := by
  induction ps with
  | nil =>
      intro w hempty hw
      cases List.prefix_nil.mp hw
      exact ⟨0, parse_more hempty⟩
  | cons p ps ih =>
      intro w hempty hw
      obtain ⟨hp, hdec⟩ := List.forall_mem_cons.mp hdec
      obtain ⟨out, hout⟩ := Option.isSome_iff_exists.mp (hps p List.mem_cons_self)
      have hall : encodeAll encode (p :: ps) = out ++ encodeAll encode ps := by
        rw [encodeAll, List.filterMap_cons_some hout, List.flatten_cons]
        rfl
      rw [hall] at hw
      have hnext : ∀ {w'}, w' <+: encodeAll encode ps → ∃ k, ∀ n, parse decode n (out ++ w') =
          (((p :: ps).take k).map Result.packet ++ [Result.ended]).take n := by
        intro w' hw'
        obtain ⟨k, hk⟩ := ih hdec (fun q hq => hps q (List.mem_cons_of_mem _ hq)) hempty hw'
        exact ⟨k + 1, parse_packet (hp out w' hout) hk⟩
      rcases List.prefix_or_prefix_of_prefix hw (List.prefix_append out _) with ⟨rest,
        hrest⟩ | ⟨w', rfl⟩
      · by_cases hnil : rest = []
        · -- the first packet and nothing else
          have hfirst := hnext List.nil_prefix
          rw [← hrest, hnil, List.append_nil, List.append_nil] at hfirst
          exact hfirst
        · exact ⟨0, parse_more (hp.part h hout hrest.symm hnil)⟩
      · exact hnext ((List.prefix_append_right_inj out).mp hw)

theorem parse_all {ps : List P} (hdec : ∀ p ∈ ps, Faithful decode encode p)
    (hempty : decode [] = .more) (hps : ∀ p ∈ ps, (encode p).isSome) :
    ∀ n, parse decode n (encodeAll encode ps) =
      (ps.map Result.packet ++ [Result.ended]).take n := by
  induction ps with
  | nil => exact parse_more hempty
  | cons p ps ih =>
      obtain ⟨hp, hdec⟩ := List.forall_mem_cons.mp hdec
      obtain ⟨out, hout⟩ := Option.isSome_iff_exists.mp (hps p List.mem_cons_self)
      rw [encodeAll, List.filterMap_cons_some hout, List.flatten_cons]
      exact parse_packet (hp out _ hout) (ih hdec fun q hq => hps q (List.mem_cons_of_mem _ hq))

end

end Framing
