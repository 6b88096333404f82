/-
# `Entmoot.FileCodec` — what a state file holds

The laws of `Entmoot.StateFile` that a restart rests on.  A client id can be read
off its file names (`hexName_injective`), and the extension tells the two kinds
apart; a save leaves every other file alone (`lookup_rename`); a queue or a list
of subscriptions whose texts and payloads fit a chunk is saved as one run of
entries (`saveQueue_of_fits`, `saveSubs_of_fits`).  What the loaders make of such
a run, and of any other bytes, is in `Entmoot.Reading`.
-/
import Entmoot.StateFile
import Entmoot.Lib.Keyed

namespace Entmoot

open Wire (putChunk takeChunk stripPrefix)

/-! ## File names -/

theorem digitChar_lt_16 : ∀ m n : Fin 16, Nat.digitChar m = Nat.digitChar n → m = n := by decide

theorem hexByte_injective : Function.Injective hexByte := by
  intro b b' h
  have hb : b.toNat < 256 := b.toNat_lt
  have hb' : b'.toNat < 256 := b'.toNat_lt
  simp only [hexByte, List.cons.injEq, and_true] at h
  have hhigh := digitChar_lt_16 ⟨b.toNat / 16, by omega⟩ ⟨b'.toNat / 16, by omega⟩ h.1
  have hlow := digitChar_lt_16 ⟨b.toNat % 16, by omega⟩ ⟨b'.toNat % 16, by omega⟩ h.2
  simp only [Fin.mk.injEq] at hhigh hlow
  apply UInt8.toNat_inj.mp
  omega

theorem flatMap_hexByte_injective : ∀ {xs ys : Bytes}, xs.flatMap hexByte = ys.flatMap hexByte →
    xs = ys
  | [], [], _ => rfl
  | [], _ :: _, h => by simp [hexByte] at h
  | _ :: _, [], h => by simp [hexByte] at h
  | x :: xs, y :: ys, h => by
      simp only [List.flatMap_cons] at h
      obtain ⟨hhead, htail⟩ := List.append_inj h rfl
      rw [hexByte_injective hhead, flatMap_hexByte_injective htail]

theorem hexName_injective : Function.Injective hexName :=
  fun _ _ h => asBytes_injective (flatMap_hexByte_injective h)

theorem hexName_ne_nil {c : Str} (h : c ≠ []) : hexName c ≠ [] :=
  fun hnil => h (hexName_injective (hnil.trans rfl))

/-- A name cut at a dot with no dot behind it. -/
theorem rsplitDot_dot (before after : Str) (h : '.' ∉ after) :
    rsplitDot (before ++ '.' :: after) = some (before, after) := by
  have hrev : (before ++ '.' :: after).reverse = after.reverse ++ '.' :: before.reverse := by simp
  have htake : ((before ++ '.' :: after).reverse.takeWhile (· ≠ '.')).reverse = after := by
    rw [hrev, List.takeWhile_append_of_pos]
    · simp
    · intro x hx
      have : x ≠ '.' := by
        rintro rfl
        exact h (List.mem_reverse.mp hx)
      simpa using this
  have hmem : '.' ∈ before ++ '.' :: after := by simp
  have hlen : (before ++ '.' :: after).length - after.length - 1 = before.length := by
    rw [List.length_append, List.length_cons]
    omega
  rw [rsplitDot, if_pos hmem]
  simp only [htake, hlen, List.take_left]

theorem queueFile_eq (c : Str) : queueFile c = hexName c ++ '.' :: "queue".toList := rfl
theorem subsFile_eq (c : Str) : subsFile c = hexName c ++ '.' :: "subs".toList := rfl

/-- The name a queue file is written under before it is renamed. -/
def queueTmp (c : Str) : Path := queueFile c ++ '.' :: "tmp".toList
def subsTmp (c : Str) : Path := subsFile c ++ '.' :: "tmp".toList

theorem withExtension_queueFile {c : Str} (h : c ≠ []) :
    withExtension (queueFile c) "queue.tmp".toList = queueTmp c := by
  rw [withExtension, queueFile_eq, rsplitDot_dot _ _ (by decide)]
  simp only [if_neg (hexName_ne_nil h)]
  rw [queueTmp, queueFile_eq, List.append_assoc]
  rfl

theorem withExtension_subsFile {c : Str} (h : c ≠ []) :
    withExtension (subsFile c) "subs.tmp".toList = subsTmp c := by
  rw [withExtension, subsFile_eq, rsplitDot_dot _ _ (by decide)]
  simp only [if_neg (hexName_ne_nil h)]
  rw [subsTmp, subsFile_eq, List.append_assoc]
  rfl

theorem extension_subsFile {c : Str} (h : c ≠ []) :
    extension (subsFile c) = some "subs".toList := by
  rw [extension, subsFile_eq, rsplitDot_dot _ _ (by decide)]
  exact if_neg (hexName_ne_nil h)

theorem extension_queueFile (c : Str) : extension (queueFile c) ≠ some "subs".toList := by
  rw [extension, queueFile_eq, rsplitDot_dot _ _ (by decide)]
  dsimp only
  split
  · simp
  · decide

theorem queueFile_injective : Function.Injective queueFile :=
  fun _ _ h => hexName_injective (List.append_cancel_right h)

theorem subsFile_injective : Function.Injective subsFile :=
  fun _ _ h => hexName_injective (List.append_cancel_right h)

theorem rsplitDot_tmp (p : Path) : rsplitDot (p ++ '.' :: "tmp".toList) = some (p, "tmp".toList) :=
  rsplitDot_dot _ _ (by decide)

/-- The kinds of file name differ behind the last dot. -/
theorem ne_of_rsplitDot {p q b b' a a' : Str} (hp : rsplitDot p = some (b, a))
    (hq : rsplitDot q = some (b', a')) (h : a ≠ a') : p ≠ q := by
  rintro rfl
  rw [hp] at hq
  simp only [Option.some.injEq, Prod.mk.injEq] at hq
  exact h hq.2

theorem queueFile_ne_subsFile (c c' : Str) : queueFile c ≠ subsFile c' :=
  ne_of_rsplitDot (rsplitDot_dot _ _ (by decide)) (rsplitDot_dot _ _ (by decide)) (by decide)

theorem queueFile_ne_tmp (c : Str) (p : Path) : queueFile c ≠ p ++ '.' :: "tmp".toList :=
  ne_of_rsplitDot (rsplitDot_dot _ _ (by decide)) (rsplitDot_tmp p) (by decide)

theorem subsFile_ne_tmp (c : Str) (p : Path) : subsFile c ≠ p ++ '.' :: "tmp".toList :=
  ne_of_rsplitDot (rsplitDot_dot _ _ (by decide)) (rsplitDot_tmp p) (by decide)

/-- A state file is never its own temporary file. -/
theorem withExtension_ne (p : Path) : withExtension p "subs.tmp".toList ≠ p := by
  have hlonger : ∀ ext : Str, p ++ '.' :: ext ≠ p := by
    intro ext h
    have hlen := congrArg List.length h
    rw [List.length_append, List.length_cons] at hlen
    omega
  rw [withExtension]
  cases hcut : rsplitDot p with
  | none => exact hlonger _
  | some cut =>
      obtain ⟨before, after⟩ := cut
      dsimp only
      split
      · exact hlonger _
      · intro h
        have htwo : before ++ '.' :: "subs.tmp".toList =
            (before ++ ".subs".toList) ++ '.' :: "tmp".toList := by
          rw [List.append_assoc]
          rfl
        rw [← h, htwo, rsplitDot_tmp, Option.some.injEq, Prod.mk.injEq] at hcut
        have hlen := congrArg List.length hcut.1
        rw [List.length_append] at hlen
        change before.length + 5 = before.length at hlen
        omega

/-! ## Writing through a temporary name -/

theorem lookup_rename (d : Disk) (tmp path : Path) (b : Bytes) (p : Path) :
    ((d.write tmp b).rename tmp path).lookup p =
      if p = path then some b else if p = tmp then none else d.lookup p := by
  have hsrc : (d.write tmp b).lookup tmp = some b := AList.lookup_insert _
  rw [Disk.rename, hsrc]
  show (((d.write tmp b).erase tmp).insert path b).lookup p = _
  rw [Keyed.lookup_insert, Keyed.lookup_erase, Disk.write, Keyed.lookup_insert]
  split
  · rfl
  · split <;> rfl

/-! ## Queues -/

/-- A text or payload fits the length field of a chunk. -/
def Fits (b : Bytes) : Prop := b.length < 2 ^ 32

instance (b : Bytes) : Decidable (Fits b) := inferInstanceAs (Decidable (b.length < 2 ^ 32))

def MsgFits (m : Msg) : Prop := Fits (asBytes m.1) ∧ Fits m.2

theorem writeChunk_of_fits {c : Bytes} (out : Bytes) (h : Fits c) :
    writeChunk out c = .ok (out ++ putChunk c) := by
  have h' : c.length < 4294967296 := h
  rw [writeChunk, if_neg (by omega)]

theorem writeChunk_ok {out c out' : Bytes} (h : writeChunk out c = .ok out') :
    Fits c ∧ out' = out ++ putChunk c := by
  rw [writeChunk] at h
  split at h
  · cases h
  · next hle =>
    cases h
    refine ⟨?_, rfl⟩
    show c.length < 4294967296
    omega

theorem readChunk_putChunk {c : Bytes} (rest : Bytes) (h : Fits c) :
    readChunk (putChunk c ++ rest) = .ok (c, rest) := by
  rw [readChunk, Wire.takeChunk_putChunk rest h]

def queueEntry (m : Msg) : Bytes := putChunk (asBytes m.1) ++ putChunk m.2

def queueBytes (q : List Msg) : Bytes := queueMagic ++ q.flatMap queueEntry

theorem writeQueue_of_fits : ∀ {q : List Msg} (out : Bytes), (∀ m ∈ q, MsgFits m) →
    writeQueue out q = .ok (out ++ q.flatMap queueEntry)
  | [], out, _ => by
      rw [writeQueue, List.flatMap_nil, List.append_nil]
  | (t, p) :: q, out, h => by
      obtain ⟨ht, hp⟩ := h (t, p) List.mem_cons_self
      have ih := writeQueue_of_fits (out ++ putChunk (asBytes t) ++ putChunk p)
        fun m hm => h m (List.mem_cons_of_mem _ hm)
      simp only [writeQueue, writeChunk_of_fits _ ht, writeChunk_of_fits _ hp, bind, Except.bind,
        ih]
      simp [queueEntry]

theorem saveQueue_of_fits {c : Str} (hc : c ≠ []) (d : Disk) {q : List Msg}
    (h : ∀ m ∈ q, MsgFits m) :
    saveQueue d (queueFile c) q =
      .ok ((d.write (queueTmp c) (queueBytes q)).rename (queueTmp c) (queueFile c)) := by
  simp only [saveQueue, writeQueue_of_fits _ h, withExtension_queueFile hc, bind, Except.bind, pure,
    Except.pure]
  rfl

theorem queueEntry_ne_nil (m : Msg) (rest : Bytes) : queueEntry m ++ rest ≠ [] := by
  intro h
  have hlen := congrArg List.length h
  simp only [queueEntry, List.length_append, Wire.putChunk_length, List.length_nil] at hlen
  omega

/-! ## Subscriptions -/

def subEntryBytes (e : Str × QoS) : Bytes := putChunk (asBytes e.1) ++ [e.2.toByte]

def subsBytes (clientId identity : Str) (entries : List (Str × QoS)) : Bytes :=
  subsMagic ++ putChunk (asBytes clientId) ++ putChunk (asBytes identity) ++
    entries.flatMap subEntryBytes

/-- What a subscription file may hold. -/
structure SubsFit (clientId identity : Str) (entries : List (Str × QoS)) : Prop where
  clientId : Fits (asBytes clientId)
  identity : Fits (asBytes identity)
  entries : ∀ e ∈ entries, Fits (asBytes e.1)

theorem writeSubs_of_fits : ∀ {es : List (Str × QoS)} (out : Bytes),
    (∀ e ∈ es, Fits (asBytes e.1)) → writeSubs out es = .ok (out ++ es.flatMap subEntryBytes)
  | [], out, _ => by
      rw [writeSubs, List.flatMap_nil, List.append_nil]
  | (f, q) :: es, out, h => by
      have hf := h (f, q) List.mem_cons_self
      have ih := writeSubs_of_fits (out ++ putChunk (asBytes f) ++ [q.toByte])
        fun e he => h e (List.mem_cons_of_mem _ he)
      simp only [writeSubs, writeChunk_of_fits _ hf, bind, Except.bind, ih]
      simp [subEntryBytes]

theorem writeSubs_ok : ∀ {es : List (Str × QoS)} {out out' : Bytes}, writeSubs out es = .ok out' →
    ∀ e ∈ es, Fits (asBytes e.1)
  | [], _, _, _ => by simp
  | (f, q) :: es, out, out', h => by
      obtain ⟨out₁, hf, h⟩ := bind_eq_ok.mp h
      intro e he
      rcases List.mem_cons.mp he with rfl | he
      · exact (writeChunk_ok hf).1
      · exact writeSubs_ok h e he

/-- A save of subscriptions that fit. -/
theorem saveSubs_of_fits {c identity : Str} (hc : c ≠ []) (d : Disk) {es : List (Str × QoS)}
    (h : SubsFit c identity es) :
    saveSubs d (subsFile c) c identity es =
      .ok (if es = [] then d.remove (subsFile c)
        else (d.write (subsTmp c) (subsBytes c identity es)).rename (subsTmp c) (subsFile c)) := by
  rw [saveSubs]
  split
  · rfl
  · simp only [writeChunk_of_fits _ h.clientId, writeChunk_of_fits _ h.identity,
      writeSubs_of_fits _ h.entries, withExtension_subsFile hc, bind, Except.bind,
        pure, Except.pure]
    rfl

/-- A save that succeeds had entries that fit. -/
theorem saveSubs_ok {c identity : Str} {d d' : Disk} {path : Path} {es : List (Str × QoS)}
    (h : saveSubs d path c identity es = .ok d') (hne : es ≠ []) : SubsFit c identity es := by
  rw [saveSubs, if_neg hne] at h
  obtain ⟨out₁, h1, h⟩ := bind_eq_ok.mp h
  obtain ⟨out₂, h2, h⟩ := bind_eq_ok.mp h
  obtain ⟨out₃, h3, h⟩ := bind_eq_ok.mp h
  exact ⟨(writeChunk_ok h1).1, (writeChunk_ok h2).1, writeSubs_ok h3⟩

theorem subEntryBytes_ne_nil (e : Str × QoS) (rest : Bytes) : subEntryBytes e ++ rest ≠ [] := by
  intro h
  have hlen := congrArg List.length h
  simp only [subEntryBytes, List.length_append, Wire.putChunk_length, List.length_nil] at hlen
  omega

end Entmoot
