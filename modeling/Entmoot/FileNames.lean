/-
# `Entmoot.FileNames` — the four names of a session's state files

`crates/entmoot-node/src/session.rs` 184–190 and 608–671.  A session has its queue file
and its subscription file, each written under a temporary name first.  All four begin
with the client id in hexadecimal, which no other id shares, and end in a suffix of their
own, so they are told apart within a session and across sessions.

The hexadecimal name is twice as long as the id.  A file name has at most 255 bytes, so
the four names are usable exactly for ids of up to 122 bytes (`usable_iff`).
-/
import Entmoot.FileCodec

namespace Entmoot

/-- The names the state of a client is kept and written under. -/
def stateFiles (c : Str) : List Path :=
  [queueFile c, withExtension (queueFile c) "queue.tmp".toList,
    subsFile c, withExtension (subsFile c) "subs.tmp".toList]

/-- What a file system takes as a file name. -/
def nameMax : Nat := 255

/-- A client id as MQTT carries it, with a 16-bit length, and not the empty one. -/
def MqttId (c : Str) : Prop := 1 ≤ (asBytes c).length ∧ (asBytes c).length ≤ 65535

instance (c : Str) : Decidable (MqttId c) := inferInstanceAs (Decidable (_ ∧ _))

/-- The client's own four files: each with a name of its own, of no other client, short
enough, and only the subscription file picked up at startup. -/
structure UsableFiles (c : Str) : Prop where
  distinct : (stateFiles c).Nodup
  own : ∀ c', MqttId c' → c' ≠ c → ∀ p ∈ stateFiles c, p ∉ stateFiles c'
  picked_up : ∀ p ∈ stateFiles c, extension p = some "subs".toList ↔ p = subsFile c
  short : ∀ p ∈ stateFiles c, (asBytes p).length ≤ nameMax

theorem MqttId.ne_nil {c : Str} (h : MqttId c) : c ≠ [] := by
  rintro rfl
  exact absurd h.1 (by decide)

theorem stateFiles_eq {c : Str} (h : c ≠ []) :
    stateFiles c = [queueFile c, queueTmp c, subsFile c, subsTmp c] := by
  rw [stateFiles, withExtension_queueFile h, withExtension_subsFile h]

/-! ## Which id, which file -/

/-- A hexadecimal digit is no dot, and one byte long. -/
theorem digitChar_ascii : ∀ n : Fin 16, Nat.digitChar n ≠ '.' ∧
    (String.utf8EncodeChar (Nat.digitChar n)).length = 1 := by decide

theorem hexByte_ascii {b : UInt8} {ch : Char} (h : ch ∈ hexByte b) :
    ch ≠ '.' ∧ (String.utf8EncodeChar ch).length = 1 := by
  have hlt := b.toNat_lt
  rcases List.mem_cons.mp h with rfl | h
  · exact digitChar_ascii ⟨b.toNat / 16, by omega⟩
  · rw [List.mem_singleton.mp h]
    exact digitChar_ascii ⟨b.toNat % 16, by omega⟩

theorem hexName_ascii {c : Str} {ch : Char} (h : ch ∈ hexName c) :
    ch ≠ '.' ∧ (String.utf8EncodeChar ch).length = 1 := by
  obtain ⟨b, _, hb⟩ := List.mem_flatMap.mp h
  exact hexByte_ascii hb

/-- The part of a name in front of its first dot. -/
def stem (p : Path) : Str := p.takeWhile (· ≠ '.')

theorem stem_hexName (c : Str) (suffix : Str) : stem (hexName c ++ '.' :: suffix) = hexName c := by
  rw [stem, List.takeWhile_append_of_pos fun ch hch => by simpa using (hexName_ascii hch).1]
  simp

theorem stem_of_mem {c : Str} {p : Path} (hc : c ≠ []) (h : p ∈ stateFiles c) :
    stem p = hexName c := by
  rw [stateFiles_eq hc] at h
  simp only [List.mem_cons, List.not_mem_nil, or_false] at h
  rcases h with rfl | rfl | rfl | rfl
  · exact stem_hexName c _
  · rw [queueTmp, queueFile_eq, List.append_assoc]
    exact stem_hexName c _
  · exact stem_hexName c _
  · rw [subsTmp, subsFile_eq, List.append_assoc]
    exact stem_hexName c _

theorem owner_of_mem {c c' : Str} {p : Path} (hc : c ≠ []) (hc' : c' ≠ []) (h : p ∈ stateFiles c)
    (h' : p ∈ stateFiles c') : c = c' :=
  hexName_injective ((stem_of_mem hc h).symm.trans (stem_of_mem hc' h'))

theorem stateFiles_nodup {c : Str} (hc : c ≠ []) : (stateFiles c).Nodup := by
  have htmp : queueTmp c ≠ subsTmp c := fun h =>
    queueFile_ne_subsFile c c (List.append_cancel_right h)
  rw [stateFiles_eq hc]
  simp only [List.nodup_cons, List.mem_cons, List.not_mem_nil, or_false, not_or, not_false_iff,
    List.nodup_nil, and_true]
  exact ⟨⟨queueFile_ne_tmp c _, queueFile_ne_subsFile c c, queueFile_ne_tmp c _⟩,
    ⟨(subsFile_ne_tmp c _).symm, htmp⟩, subsFile_ne_tmp c _⟩

theorem extension_tmp (p : Path) : extension (p ++ '.' :: "tmp".toList) ≠ some "subs".toList := by
  rw [extension, rsplitDot_tmp]
  dsimp only
  split
  · simp
  · decide

theorem extension_iff {c : Str} {p : Path} (hc : c ≠ []) (h : p ∈ stateFiles c) :
    extension p = some "subs".toList ↔ p = subsFile c := by
  rw [stateFiles_eq hc] at h
  simp only [List.mem_cons, List.not_mem_nil, or_false] at h
  rcases h with rfl | rfl | rfl | rfl
  · exact iff_of_false (extension_queueFile c) (queueFile_ne_subsFile c c)
  · exact iff_of_false (extension_tmp _) (subsFile_ne_tmp c _).symm
  · exact iff_of_true (extension_subsFile hc) rfl
  · exact iff_of_false (extension_tmp _) (subsFile_ne_tmp c _).symm

/-! ## How long -/

theorem hexName_bytes (c : Str) : (asBytes (hexName c)).length = 2 * (asBytes c).length := by
  rw [asBytes_length_of_ascii fun ch hch => (hexName_ascii hch).2, hexName]
  induction asBytes c with
  | nil => rfl
  | cons b bs ih =>
      rw [List.flatMap_cons, List.length_append, ih, List.length_cons]
      show 2 + 2 * bs.length = 2 * (bs.length + 1)
      omega

/-- A name is twice the id and its suffix. -/
theorem name_bytes (c suffix : Str) :
    (asBytes (hexName c ++ suffix)).length = 2 * (asBytes c).length + (asBytes suffix).length := by
  rw [asBytes_append_length, hexName_bytes]

theorem stateFiles_bytes {c : Str} (hc : c ≠ []) :
    (stateFiles c).map (fun p => (asBytes p).length) =
    [2 * (asBytes c).length + 6, 2 * (asBytes c).length + 10,
      2 * (asBytes c).length + 5, 2 * (asBytes c).length + 9] := by
  have hqueue := name_bytes c ".queue".toList
  have hqueueTmp := name_bytes c (".queue".toList ++ '.' :: "tmp".toList)
  have hsubs := name_bytes c ".subs".toList
  have hsubsTmp := name_bytes c (".subs".toList ++ '.' :: "tmp".toList)
  rw [← List.append_assoc] at hqueueTmp hsubsTmp
  rw [stateFiles_eq hc]
  simp only [List.map_cons, List.map_nil, queueTmp, subsTmp, queueFile, subsFile, hqueue, hqueueTmp,
    hsubs, hsubsTmp]
  rfl

/-- The temporary queue file has the longest name. -/
theorem short_iff {c : Str} (hc : c ≠ []) :
    (∀ p ∈ stateFiles c, (asBytes p).length ≤ nameMax) ↔ (asBytes c).length ≤ 122 := by
  have hbytes := stateFiles_bytes hc
  have hall : (∀ p ∈ stateFiles c, (asBytes p).length ≤ nameMax) ↔
      ∀ n ∈ (stateFiles c).map (fun p => (asBytes p).length), n ≤ nameMax := by
    rw [List.forall_mem_map]
  rw [hall, hbytes]
  simp only [List.mem_cons, List.not_mem_nil, or_false, forall_eq_or_imp, forall_eq, nameMax]
  omega

/-- **Ids of up to 122 bytes have usable state files**, longer ones have not. -/
theorem usable_iff {c : Str} (h : MqttId c) : UsableFiles c ↔ (asBytes c).length ≤ 122 := by
  have hc := h.ne_nil
  refine ⟨fun huse => (short_iff hc).mp huse.short, fun hlen => ⟨stateFiles_nodup hc, ?_, ?_, ?_⟩⟩
  · exact fun c' hc' hne p hp hp' => hne (owner_of_mem hc'.ne_nil hc hp' hp)
  · exact fun p hp => extension_iff hc hp
  · exact (short_iff hc).mpr hlen

theorem usable_dev :
    MqttId "dev".toList ∧ (UsableFiles "dev".toList ↔ (asBytes "dev".toList).length ≤ 122) :=
  ⟨by decide, usable_iff (by decide)⟩

/-- An id of 123 bytes. -/
def longId : Str := List.replicate 123 'a'

theorem long_id_unusable : ¬ ∀ c, MqttId c → UsableFiles c := by
  intro h
  have hlen : (asBytes longId).length = 123 :=
    asBytes_length_of_ascii fun ch hch => by rw [List.eq_of_mem_replicate hch]; decide
  have hid : MqttId longId := ⟨by omega, by omega⟩
  have hshort := (short_iff hid.ne_nil).mp (h longId hid).short
  omega

end Entmoot
