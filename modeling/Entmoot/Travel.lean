/-
# `Entmoot.Travel` — what a retained value keeps on its way

A retained value reaches a node live, as the reply to a query, or from the node's
own snapshot, and the next node from there.  Each of these hops writes the origin
time as milliseconds and reads it back, in one of two formats: `encodeEnvelope` in
front of the payload, `writeEntry` behind it.

The milliseconds of a time that came off the wire are its own (`toMillis_fromMillis`),
so the first hop cuts the time and no later one changes it: over any chain of hops
topic, payload and cut time stay (`Hops.lookup`).  A store written at once is
therefore restored with its times cut, and restored as it was exactly if they
were cut already (`values_travel_unchanged`).
-/
import Entmoot.Replica

namespace Entmoot

open RetainedStore
open Wire (splitAt? putNat getNat)

/-! ## Envelopes -/

/-- A time at or after the epoch, cut to milliseconds. -/
theorem truncMillis_eq {w : Int} (hpos : 0 ≤ w) (hfit : w / 1000000 < 2 ^ 64) :
    truncMillis w = w / 1000000 * 1000000 := by
  have hmillis : toMillis w = w.toNat / 1000000 := by
    rw [toMillis, Nat.mod_eq_of_lt]
    omega
  have hwhole : ((w.toNat / 1000000 : Nat) : Int) * 1000000 = w / 1000000 * 1000000 := by omega
  rw [truncMillis, hmillis]
  exact hwhole

theorem truncMillis_truncMillis (w : SystemTime) : truncMillis (truncMillis w) = truncMillis w :=
  truncMillis_fromMillis (toMillis_lt w)

theorem truncMillis_eq_self {w : SystemTime} :
    truncMillis w = w ↔ ∃ m < 2 ^ 64, w = fromMillis m := by
  constructor
  · exact fun h => ⟨toMillis w, toMillis_lt w, h.symm⟩
  · rintro ⟨m, hm, rfl⟩
    exact truncMillis_fromMillis hm

theorem encodeEnvelope_decodeEnvelope {bytes payload : Bytes} {w : SystemTime}
    (h : decodeEnvelope bytes = some (payload, w)) : encodeEnvelope payload w = bytes := by
  obtain ⟨⟨stamp, rest⟩, hsplit, heq⟩ := Option.map_eq_some_iff.mp h
  cases heq
  obtain ⟨rfl, height⟩ := Wire.splitAt?_eq_some.mp hsplit
  have hlt := Wire.getNat_lt stamp
  have hspell := Wire.putNat_getNat stamp
  rw [height] at hlt hspell
  rw [encodeEnvelope, toMillis_fromMillis hlt, hspell]

theorem decodeEnvelope_isSome {bytes : Bytes} :
    (decodeEnvelope bytes).isSome ↔ 8 ≤ bytes.length := by
  rw [decodeEnvelope, Option.isSome_map, splitAt?]
  split
  · next h => simp [h]
  · next h => simp [h]

/-- What a time becomes on the wire, and the payload stays. -/
def truncValue (v : Bytes × SystemTime) : Bytes × SystemTime := (v.1, truncMillis v.2)

/-- The entries of a map put on the wire, inserted into another in any order. -/
theorem lookup_insertAll_truncEntry {m m' : RetainedMap} {es : List RetainedEntry}
    (hes : es.Perm (Keyed.pairs m)) (t : Str) :
    (Keyed.insertAll m' (es.map truncEntry)).lookup t =
      ((m.lookup t).map truncValue).or (m'.lookup t) := by
  have hkeys : (es.map truncEntry).map Prod.fst = es.map Prod.fst := by
    rw [List.map_map]
    rfl
  have hnd : ((es.map truncEntry).map Prod.fst).Nodup := by
    rw [hkeys]
    exact (hes.map Prod.fst).nodup_iff.mpr (Keyed.pairs_nodup m)
  cases h : m.lookup t with
  | some v =>
      have hmem := hes.mem_iff.mpr (Keyed.mem_pairs.mpr h)
      exact Keyed.lookup_insertAll_of_mem hnd (List.mem_map_of_mem (f := truncEntry) hmem)
  | none =>
      have hk : t ∉ (es.map truncEntry).map Prod.fst := by
        rw [hkeys, (hes.map Prod.fst).mem_iff, Keyed.pairs_keys]
        exact AList.lookup_eq_none.mp h
      exact Keyed.lookup_insertAll_of_notMem hk

/-! ## Hops -/

section Hops
variable [HashOrder]

/-- Topics and payloads that a snapshot can hold. -/
def SnapshotFits (s : RetainedStore) : Prop :=
  ∀ (t : Str) (v : Bytes × SystemTime), s.map.lookup t = some v → Fits (asBytes t) ∧ Fits v.1

omit [HashOrder] in
theorem SnapshotFits.empty : SnapshotFits RetainedStore.empty := by
  intro t v h
  cases h

omit [HashOrder] in
theorem SnapshotFits.insert {s : RetainedStore} (hs : SnapshotFits s) {t : Str} {payload : Bytes}
    (w : SystemTime) (ht : Fits (asBytes t)) (hp : Fits payload) :
    SnapshotFits (s.insert t payload w) := by
  intro t' v h
  rw [RetainedStore.insert, Keyed.lookup_insert] at h
  split at h
  · next heq =>
    cases h
    exact ⟨heq ▸ ht, hp⟩
  · exact hs t' v h

/-- One way for what a store holds of a topic to get into another store. -/
inductive Hop (scope t : Str) : RetainedStore → RetainedStore → Prop where
  /-- it is put on the bus, and a replica that holds `other` receives it -/
  | live (s other : RetainedStore) (v : Bytes × SystemTime) (hheld : s.map.lookup t = some v) :
      Hop scope t s
        (other.applySample scope (retainedKeyexpr t scope) .put (encodeEnvelope v.1 v.2))
  /-- a node that holds `other` asks for everything, and the replies arrive in some order -/
  | reply (s other : RetainedStore) (replies : List (Str × Bytes))
      (hreplies : replies.Perm (s.serveQuery scope)) : Hop scope t s (catchUp scope other replies)
  /-- the node saves its snapshot, and starts again from it -/
  | snapshot (s : RetainedStore) (hfits : SnapshotFits s) :
      Hop scope t s (RetainedStore.empty.loadSnapshot s.snapshotBytes).1

theorem loadSnapshot_saved {s : RetainedStore} (hfits : SnapshotFits s) :
    (RetainedStore.empty.loadSnapshot s.snapshotBytes).2 = .ok s.snapshot.length ∧
      ∀ t, (RetainedStore.empty.loadSnapshot s.snapshotBytes).1.map.lookup t =
        (s.map.lookup t).map truncValue := by
  have hsz : ∀ e ∈ s.snapshot, (asBytes e.1).length < 2 ^ 32 ∧ e.2.1.length < 2 ^ 32 :=
    fun e he => hfits e.1 e.2 (mem_snapshot.mp he)
  rw [loadSnapshot_snapshotBytes _ _ hsz]
  refine ⟨rfl, fun t => ?_⟩
  have hperm : s.snapshot.Perm (Keyed.pairs s.map) := HashOrder.perm _
  exact (lookup_insertAll_truncEntry hperm t).trans Option.or_none

theorem Hop.lookup {scope t : Str} {s s' : RetainedStore} (h : Hop scope t s s')
    {v : Bytes × SystemTime} (hheld : s.map.lookup t = some v) :
    s'.map.lookup t = some (truncValue v) := by
  cases h with
  | live other v' hv' =>
      rw [hheld] at hv'
      cases hv'
      rw [applySample_put]
      exact AList.lookup_insert _
  | reply other replies hreplies =>
      -- a rearrangement of the replies is the replies of a rearrangement
      obtain ⟨es, rfl, hperm⟩ :
          Relation.Comp (· = List.map (replyFor scope) ·) List.Perm replies s.snapshot := by
        rw [List.eq_map_comp_perm]
        exact hreplies
      rw [catchUp_replies, lookup_insertAll_truncEntry (hperm.trans (HashOrder.perm _)), hheld]
      rfl
  | snapshot hfits =>
      rw [(loadSnapshot_saved hfits).2, hheld]
      rfl

theorem hops_lookup {scope t : Str} {s s' : RetainedStore}
    (h : Relation.TransGen (Hop scope t) s s') {v : Bytes × SystemTime}
    (hheld : s.map.lookup t = some v) :
    s'.map.lookup t = some (truncValue v) := by
  induction h with
  | single hop => exact hop.lookup hheld
  | tail _ hop ih =>
      rw [hop.lookup ih, truncValue, truncValue, truncMillis_truncMillis]

/-- **A retained value travels unchanged**, but for its time, which the first hop
cuts to milliseconds; an opened envelope closes to the same bytes; and a saved store
is restored with its times cut, exactly as it was iff they were whole milliseconds. -/
theorem values_travel_unchanged (scope : Str) :
    (∀ (t : Str) (payload : Bytes) (w : SystemTime) (s s' : RetainedStore), 0 ≤ w →
      w / 1000000 < 2 ^ 64 → s.map.lookup t = some (payload, w) →
      Relation.TransGen (Hop scope t) s s' →
        s'.map.lookup t = some (payload, w / 1000000 * 1000000)) ∧
    (∀ bytes : Bytes, 8 ≤ bytes.length →
      ∃ payload w, decodeEnvelope bytes = some (payload, w) ∧ encodeEnvelope payload w = bytes) ∧
    ∀ saved : RetainedStore, SnapshotFits saved →
      (RetainedStore.empty.loadSnapshot saved.snapshotBytes).2 = .ok saved.snapshot.length ∧
      (∀ t, (RetainedStore.empty.loadSnapshot saved.snapshotBytes).1.map.lookup t =
        (saved.map.lookup t).map truncValue) ∧
      ((∀ t, (RetainedStore.empty.loadSnapshot saved.snapshotBytes).1.map.lookup t =
          saved.map.lookup t) ↔
        ∀ (t : Str) (v : Bytes × SystemTime), saved.map.lookup t = some v →
          ∃ m < 2 ^ 64, v.2 = fromMillis m) := by
  refine ⟨?_, ?_, ?_⟩
  · intro t payload w s s' hpos hfit hheld hops
    rw [hops_lookup hops hheld, truncValue, truncMillis_eq hpos hfit]
  · intro bytes hlen
    obtain ⟨⟨payload, w⟩, hopen⟩ := Option.isSome_iff_exists.mp (decodeEnvelope_isSome.mpr hlen)
    exact ⟨payload, w, hopen, encodeEnvelope_decodeEnvelope hopen⟩
  · intro saved hfits
    obtain ⟨hcount, hmap⟩ := loadSnapshot_saved hfits
    refine ⟨hcount, hmap, ?_⟩
    constructor
    · intro h t v hv
      have hsame := h t
      rw [hmap, hv] at hsame
      exact truncMillis_eq_self.mp (congrArg Prod.snd (Option.some.inj hsame))
    · intro h t
      rw [hmap]
      cases hv : saved.map.lookup t with
      | none => rfl
      | some v => exact congrArg some (Prod.ext rfl (truncMillis_eq_self.mpr (h t v hv)))

end Hops

/-- A store with one topic, as its client wrote it. -/
def writtenStore (w : SystemTime) : RetainedStore := RetainedStore.empty.insert "kiln".toList [57] w

theorem writtenStore_fits (w : SystemTime) : SnapshotFits (writtenStore w) :=
  SnapshotFits.empty.insert w (by decide) (by decide)

/-- A time of one nanosecond, saved, comes back as the epoch. -/
theorem nanosecond_is_lost :
    ¬ ∀ (_ : HashOrder) (saved : RetainedStore), SnapshotFits saved →
      ∀ t, (RetainedStore.empty.loadSnapshot saved.snapshotBytes).1.map.lookup t =
        saved.map.lookup t := by
  intro h
  have hsame := h .asStored (writtenStore 1) (writtenStore_fits 1) "kiln".toList
  rw [(@loadSnapshot_saved .asStored _ (writtenStore_fits 1)).2] at hsame
  exact absurd hsame (by decide)

/-- A value put on the bus, saved where it arrives, and asked for by a third node. -/
theorem kiln_travels :
    ∃ s', @Relation.TransGen _ (@Hop .asStored [] "kiln".toList) (writtenStore 1234567) s' ∧
      s'.map.lookup "kiln".toList = some ([57], 1000000) := by
  have hlive := @Hop.live .asStored [] "kiln".toList (writtenStore 1234567) .empty ([57], 1234567)
    (by decide)
  have hfits : SnapshotFits (RetainedStore.empty.applySample []
      (retainedKeyexpr "kiln".toList []) .put (encodeEnvelope [57] 1234567)) := by
    rw [applySample_put]
    exact SnapshotFits.empty.insert _ (by decide) (by decide)
  have hops := Relation.TransGen.tail (Relation.TransGen.tail (.single hlive)
    (@Hop.snapshot .asStored [] _ _ hfits))
    (@Hop.reply .asStored [] _ _ .empty _ (List.Perm.refl _))
  exact ⟨_, hops, (@values_travel_unchanged .asStored []).1 "kiln".toList [57] 1234567 _ _
    (by decide) (by decide) (by decide) hops⟩

end Entmoot
