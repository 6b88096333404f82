/-
# `Entmoot.StateFile` — the queue and subscription files

`crates/entmoot-node/src/session.rs` 586–698.  A state file is a magic line
followed by length-prefixed chunks: a queue file repeats (topic, payload), a
subscription file holds client id, owning identity and then (filter, QoS byte)
entries.  A write goes to a temporary name first and is renamed into place.

A `Disk` is the content of the queue directory; every file operation succeeds,
so that a save fails only where the source itself refuses (`writeChunk`).  The
loops of the loaders run on fuel, the number of bytes left, which no input
exhausts: each turn takes at least one chunk header off the front.
-/
import Entmoot.Basic
import Entmoot.Lib.Wire

namespace Entmoot

open Wire (stripPrefix takeChunk putChunk splitAt?)

/-- A file name in the queue directory. -/
abbrev Path := Str

/-- The files of the queue directory. -/
abbrev Disk := AList fun _ : Path => Bytes

namespace Disk

def read (d : Disk) (p : Path) : Except String Bytes :=
  match d.lookup p with
  | some b => .ok b
  | none => .error "No such file or directory (os error 2)"

def exists? (d : Disk) (p : Path) : Bool := (d.lookup p).isSome

def write (d : Disk) (p : Path) (b : Bytes) : Disk := d.insert p b

def rename (d : Disk) (src dst : Path) : Disk :=
  match d.lookup src with
  | some b => (d.erase src).insert dst b
  | none => d

/-- `remove_state_file`: a missing file is no error. -/
def remove (d : Disk) (p : Path) : Disk := d.erase p

end Disk

/-! ## File names -/

/-- `format!("{b:02x}")`. -/
def hexByte (b : UInt8) : Str := [Nat.digitChar (b.toNat / 16), Nat.digitChar (b.toNat % 16)]

def hexName (s : Str) : Str := (asBytes s).flatMap hexByte

def queueFile (clientId : Str) : Path := hexName clientId ++ ".queue".toList

def subsFile (clientId : Str) : Path := hexName clientId ++ ".subs".toList

/-- A name cut at its last dot. -/
def rsplitDot (name : Str) : Option (Str × Str) :=
  if '.' ∈ name then
    let after := (name.reverse.takeWhile (· ≠ '.')).reverse
    some (name.take (name.length - after.length - 1), after)
  else none

/-- `Path::extension`: nothing for a name whose only dot is in front. -/
def extension (name : Path) : Option Str :=
  match rsplitDot name with
  | some (before, after) => if before = [] then none else some after
  | none => none

/-- `Path::with_extension`. -/
def withExtension (name : Path) (ext : Str) : Path :=
  match rsplitDot name with
  | some (before, _) => (if before = [] then name else before) ++ '.' :: ext
  | none => name ++ '.' :: ext

/-! ## Chunks -/

def writeChunk (out chunk : Bytes) : Except String Bytes :=
  if chunk.length > 4294967295 then .error "offline queue chunk too large"
  else .ok (out ++ putChunk chunk)

def readChunk (rest : Bytes) : Except String (Bytes × Bytes) :=
  match takeChunk rest with
  | some p => .ok p
  | none => .error "truncated offline queue"

/-! ## The offline queue -/

def queueMagic : Bytes := asBytes "ENTMOOT-Q1\n".toList

def loadQueueLoop (maxQueue : Nat) : Nat → Bytes → List Msg → Except String (List Msg)
  | 0, _, queue => .ok queue
  | fuel + 1, rest, queue =>
      if rest = [] then .ok queue
      else do
        let t ← readChunk rest
        let topic ← utf8Or "bad topic in offline queue" t.1
        let p ← readChunk t.2
        let queue := if queue.length ≥ maxQueue then queue.tail else queue
        loadQueueLoop maxQueue fuel p.2 (queue ++ [(topic, p.1)])

def loadQueue (d : Disk) (path : Path) (maxQueue : Nat) : Except String (List Msg) :=
  if maxQueue = 0 then .ok []
  else do
    let data ← d.read path
    match stripPrefix queueMagic data with
    | some body => loadQueueLoop maxQueue body.length body []
    | none => .error "not an entmoot offline queue"

def writeQueue : Bytes → List Msg → Except String Bytes
  | out, [] => .ok out
  | out, (topic, payload) :: queue => do
      let out ← writeChunk out (asBytes topic)
      let out ← writeChunk out payload
      writeQueue out queue

def saveQueue (d : Disk) (path : Path) (queue : List Msg) : Except String Disk := do
  let out ← writeQueue queueMagic queue
  let tmp := withExtension path "queue.tmp".toList
  pure ((d.write tmp out).rename tmp path)

/-! ## Subscriptions -/

def subsMagic : Bytes := asBytes "ENTMOOT-S1\n".toList

def writeSubs : Bytes → List (Str × QoS) → Except String Bytes
  | out, [] => .ok out
  | out, (filter, qos) :: entries => do
      let out ← writeChunk out (asBytes filter)
      writeSubs (out ++ [qos.toByte]) entries

def saveSubs (d : Disk) (path : Path) (clientId identity : Str) (entries : List (Str × QoS)) :
    Except String Disk :=
  if entries = [] then .ok (d.remove path)
  else do
    let out ← writeChunk subsMagic (asBytes clientId)
    let out ← writeChunk out (asBytes identity)
    let out ← writeSubs out entries
    let tmp := withExtension path "subs.tmp".toList
    pure ((d.write tmp out).rename tmp path)

def loadSubsLoop : Nat → Bytes → List (Str × QoS) → Except String (List (Str × QoS))
  | 0, _, entries => .ok entries
  | fuel + 1, rest, entries =>
      if rest = [] then .ok entries
      else do
        let f ← readChunk rest
        let filter ← utf8Or "bad filter in subscription file" f.1
        match f.2 with
        | [] => .error "truncated subscription file"
        | b :: tail =>
          match qos b with
          | none => .error s!"bad qos byte {b.toNat}"
          | some q => loadSubsLoop fuel tail (entries ++ [(filter, q)])

/-- (client id, owning identity, subscribed filters with their granted QoS). -/
abbrev LoadedSubs := Str × Str × List (Str × QoS)

def loadSubs (d : Disk) (path : Path) : Except String LoadedSubs := do
  let data ← d.read path
  match stripPrefix subsMagic data with
  | none => .error "not an entmoot subscription file"
  | some rest =>
      let c ← readChunk rest
      let clientId ← utf8Or "bad client id" c.1
      let i ← readChunk c.2
      let identity ← utf8Or "bad identity" i.1
      let entries ← loadSubsLoop i.2.length i.2 []
      pure (clientId, identity, entries)

end Entmoot
