/-
# `Entmoot.Holdings` — where the values of the replicas come from

A replica gets its values from three sides: live from the bus, in the answers of other
replicas, and from the snapshot in the directory of its node when it starts (`wire` of
`crates/entmoot-node/src/retained.rs`).  Answers and snapshots only pass on what a replica
held before, and a snapshot of an earlier life of the mesh may be there from the start, in
part if it is a bad one.  So every value held was written under a publish grant, or stands
in one of the first snapshots (`held_under_grant`).

A snapshot stores lengths in 32 bits; that nothing put on the bus is 4 GiB long is what
makes it come back as it was saved.
-/
import Entmoot.MeshOrder

namespace Entmoot

open PubSub (Bus BusEvent keys taken)
open SnapshotWorld (restored)

/-! ## Snapshots -/

/-- What stands in a file fits one. -/
theorem restored_fits {file : Option Bytes} {t : Str} {v : Bytes × SystemTime}
    (h : (restored file).1.map.lookup t = some v) : EntryFits (t, v) := by
  cases file with
  | none => cases h
  | some data =>
      simp only [restored, RetainedStore.loadSnapshot] at h
      split at h
      · cases h
      · next body hbody =>
        rw [loadSnapshotLoop_parse, Keyed.lookup_insertAll] at h
        rcases Option.or_eq_some_iff.mp h with hlast | ⟨-, hnone⟩
        · exact Entries.parse_ok_of_mem readEntry_reads (Keyed.mem_of_lastValue hlast)
        · cases hnone

theorem restored_snapshotBytes [HashOrder] {s : RetainedStore}
    (hfits : ∀ t v, s.map.lookup t = some v → EntryFits (t, v)) (t : Str) :
    (restored (some s.snapshotBytes)).1.map.lookup t = s.map.lookup t := by
  have hsnapshot : SnapshotFits s := fun t v hv => ⟨(hfits t v hv).1, (hfits t v hv).2.1⟩
  rw [restored, (loadSnapshot_saved hsnapshot).2]
  cases hv : s.map.lookup t with
  | none => rfl
  | some v => exact congrArg some (Prod.ext rfl (truncMillis_eq_self.mpr (hfits t v hv).2.2))

/-! ## Values and where they come from -/

/-- A user put the value into the slot of the topic. -/
def Written (scope : Str) (h : List MeshEvent) (t : Str) (v : Bytes × SystemTime) : Prop :=
  ∃ j n user now, v.2 = truncMillis now ∧
    .put j ⟨n, some user, .put (retainedKeyexpr t scope) (encodeEnvelope v.1 now)⟩ ∈ h

/-- A value that fits a snapshot, and was written or stood in a first one. -/
structure Rooted (scope : Str) (files : Nat → Option Bytes) (h : List MeshEvent) (t : Str)
    (v : Bytes × SystemTime) : Prop where
  fits : EntryFits (t, v)
  source : Written scope h t v ∨ ∃ n, (restored (files n)).1.map.lookup t = some v

theorem Rooted.mono {scope t : Str} {files : Nat → Option Bytes} {h h' : List MeshEvent}
    {v : Bytes × SystemTime} (hv : Rooted scope files h t v) (hh : h <+: h') :
    Rooted scope files h' t v := by
  refine ⟨hv.fits, hv.source.imp_left fun hw => ?_⟩
  obtain ⟨j, n, user, now, htime, hput⟩ := hw
  exact ⟨j, n, user, now, htime, hh.subset hput⟩

/-- Nothing that was put is 4 GiB long. -/
def Mesh.Small (m : Mesh) : Prop := ∀ x, m.Put x → Fits (asBytes x.op.key) ∧ Fits x.op.payload

theorem fits_of_put {t scope : Str} {payload : Bytes} {now : SystemTime}
    (hkey : Fits (asBytes (retainedKeyexpr t scope)))
    (hpayload : Fits (encodeEnvelope payload now)) :
    EntryFits (t, payload, truncMillis now) := by
  refine ⟨Nat.lt_of_le_of_lt ?_ hkey, Nat.lt_of_le_of_lt ?_ hpayload, _, toMillis_lt now, rfl⟩
  · obtain ⟨front, hfront⟩ : ∃ front, retainedKeyexpr t scope = front ++ t := by
      rw [retainedKeyexpr, inScope]
      split
      · exact ⟨retainedChunk ++ ['/'], by rw [List.append_assoc]; rfl⟩
      · exact ⟨scope ++ '/' :: (retainedChunk ++ ['/']), by simp [List.append_assoc]⟩
    rw [hfront, asBytes_append_length]
    exact Nat.le_add_left _ _
  · rw [encodeEnvelope, List.length_append]
    exact Nat.le_add_left _ _

/-! ## The invariant -/

/-- Everything held, saved and answered has its root. -/
structure Holdings (scope : Str) (files : Nat → Option Bytes) (m : Mesh) : Prop where
  stores : ∀ i t v, (m.stores i).map.lookup t = some v → Rooted scope files m.history t v
  saved : ∀ n t v, (restored (m.files n)).1.map.lookup t = some v → Rooted scope files m.history t v
  replies : ∀ r ∈ m.replies, ∃ t v, Rooted scope files m.history t v ∧
    r = RetainedStore.replyFor scope (t, v)

namespace Holdings

variable {bus : MeshBus} {nodes : Nat → Broker} {scope : Str}
  {files : Nat → Option Bytes} {m m' : Mesh}

theorem init (scope : Str) (files : Nat → Option Bytes) : Holdings scope files (.init files) where
  stores i t v hv := by cases hv
  saved n t v hv := ⟨restored_fits hv, .inr ⟨n, hv⟩⟩
  replies _ hr := absurd hr List.not_mem_nil

theorem onward (h : Holdings scope files m) (hhistory : m.history <+: m'.history)
    (hstores : m'.stores = m.stores) (hfiles : m'.files = m.files)
    (hreplies : m'.replies = m.replies) :
    Holdings scope files m' where
  stores i t v hv := (h.stores i t v (hstores ▸ hv)).mono hhistory
  saved n t v hv := (h.saved n t v (hfiles ▸ hv)).mono hhistory
  replies r hr := by
    obtain ⟨t, v, hrooted, heq⟩ := h.replies r (hreplies ▸ hr)
    exact ⟨t, v, hrooted.mono hhistory, heq⟩

theorem setStore (h : Holdings scope files m) {i : Nat} {s : RetainedStore}
    (hs : ∀ t v, s.map.lookup t = some v → Rooted scope files m.history t v) :
    Holdings scope files (m.setStore i s) := by
  refine ⟨fun j t v hv => ?_, h.saved, h.replies⟩
  by_cases hj : j = i
  · subst hj
    simp only [Mesh.setStore, Function.update_self] at hv
    exact hs t v hv
  · simp only [Mesh.setStore, Function.update_of_ne hj] at hv
    exact h.stores j t v hv

/-- A sample that writes to a slot is the put of a user. -/
theorem rooted_of_put (hauth : Authentic bus nodes m) (hnodes : ∀ n, (nodes n).scope = scope)
    (hsmall : m.Small) {j : Nat} {x : Sample} (hput : .put j x ∈ m.history) {t : Str}
    {v : Bytes × SystemTime} (hv : slotWrite scope t x.op = some (some v)) :
    Rooted scope files m.history t v := by
  obtain ⟨n, sender, op⟩ := x
  have hright : Rightful (nodes n) sender op := hauth.log _ ⟨j, hput⟩
  obtain ⟨hkey, hpayload⟩ := hsmall _ ⟨j, hput⟩
  obtain ⟨user, rfl, -, ⟨hnone, -⟩ | ⟨payload, now, hvalue, rfl⟩⟩ :=
    hright.slotWrite_cases ((hnodes n).symm ▸ hv)
  · cases hnone
  · cases hvalue
    rw [hnodes n] at hput hkey
    exact ⟨fits_of_put hkey hpayload, .inl ⟨j, n, user, now, rfl, hput⟩⟩

/-- The replica has what it had, or what the sample wrote. -/
theorem hand (h : Holdings scope files m) (hauth : Authentic bus nodes m)
    (hnodes : ∀ n, (nodes n).scope = scope) (hsmall : m.Small) {i j p : Nat} {x : Sample}
    (w : Watch) (hput : .put j x ∈ m.history) :
    Holdings scope files (({ m with history := m.history ++ [.hand i j p x] } : Mesh).setStore i
      (Mesh.storeAfter scope w x (m.stores i))) := by
  have hlater : m.history <+: m.history ++ [.hand i j p x] := List.prefix_append _ _
  have honward : Holdings scope files { m with history := m.history ++ [.hand i j p x] } :=
    h.onward hlater rfl rfl rfl
  refine honward.setStore fun t v hv => ?_
  cases w with
  | forward k user filter q => exact (h.stores i t v hv).mono hlater
  | replica k =>
      rw [Mesh.storeAfter, stored_lookup] at hv
      cases hwrite : slotWrite scope t x.op with
      | none =>
          rw [hwrite] at hv
          exact (h.stores i t v hv).mono hlater
      | some written =>
          rw [hwrite] at hv
          cases hv
          exact (rooted_of_put hauth hnodes hsmall hput hwrite).mono hlater

/-- A snapshot gives back what the replica held. -/
theorem save [HashOrder] (h : Holdings scope files m) (i n : Nat) :
    Holdings scope files
      { m with files := Function.update m.files n (some (m.stores i).snapshotBytes) } := by
  refine ⟨h.stores, fun k t v hv => ?_, h.replies⟩
  by_cases hk : k = n
  · subst hk
    simp only [Function.update_self] at hv
    rw [restored_snapshotBytes fun t v hv => (h.stores i t v hv).fits] at hv
    exact h.stores i t v hv
  · simp only [Function.update_of_ne hk] at hv
    exact h.saved k t v hv

/-- An answer gives the value it was made of. -/
theorem reply (h : Holdings scope files m) {i : Nat} {r : Str × Bytes} (hr : r ∈ m.replies) :
    Holdings scope files (m.setStore i ((m.stores i).applyReply scope r.1 r.2)) := by
  obtain ⟨t, v, hrooted, rfl⟩ := h.replies r hr
  refine h.setStore fun t' v' hv' => ?_
  rw [RetainedStore.replyFor, RetainedStore.applyReply_put, RetainedStore.insert,
    Keyed.lookup_insert] at hv'
  split at hv'
  · next ht =>
    cases ht
    cases hv'
    rwa [truncMillis_eq_self.mpr hrooted.fits.2.2]
  · exact h.stores i t' v' hv'

theorem step [HashOrder] (hgenuine : bus.Genuine (Watch.accepts scope))
    (hnodes : ∀ n, (nodes n).scope = scope) {act : MeshAction} (h : Holdings scope files m)
    (hauth : Authentic bus nodes m) (hsmall : m.Small) (hs : m.step bus nodes scope act = some m') :
    Holdings scope files m' := by
  cases Mesh.stepped hs with
  | still _ hact parties stopped => exact h.onward (List.prefix_refl _) rfl rfl rfl
  | noted _ hact e parties hmay he => exact h.onward (List.prefix_append _ _) rfl rfl rfl
  | wire n hmay =>
      -- the snapshot, as far as it could be loaded
      have hlater : m.history <+: m.history ++ [.declare (.replica n)] := List.prefix_append _ _
      have honward : Holdings scope files
          { m with history := m.history ++ [.declare (.replica n)] } :=
        h.onward hlater rfl rfl rfl
      exact honward.setStore fun t v hv => (h.saved n t v hv).mono hlater
  | hand i j p x w hw hmay =>
      have hput := hgenuine.put _ _ _ _ _ hauth.possible hmay
      exact h.hand hauth hnodes hsmall w (PubSub.mem_putsOf.mp (List.mem_of_getElem? hput))
  | save i n hw => exact h.save i n
  | query i =>
      refine ⟨h.stores, h.saved, fun r hr => ?_⟩
      rcases List.mem_append.mp hr with hr | hr
      · exact h.replies r hr
      · obtain ⟨⟨t, v⟩, he, rfl⟩ := List.mem_map.mp hr
        exact ⟨t, v, h.stores i t v (mem_snapshot.mp he), rfl⟩
  | reply i r hmay => exact h.reply (hgenuine.answered _ _ hmay)

/-- A whole run of nodes that put nothing of 4 GiB. -/
theorem run [HashOrder] (hgenuine : bus.Genuine (Watch.accepts scope))
    (hnodes : ∀ n, (nodes n).scope = scope) {acts : List MeshAction}
    (hrun : Run.exec (Mesh.step bus nodes scope) (.init files) acts = some m) (hsmall : m.Small) :
    Holdings scope files m := by
  have hinv : Authentic bus nodes m ∧ (m.Small → Holdings scope files m) := by
    refine Run.exec_invariant (I := fun m => Authentic bus nodes m ∧
      (m.Small → Holdings scope files m))
      (fun m act m' hI hs => ⟨hI.1.step hs, fun hsmall => ?_⟩) acts
      ⟨Authentic.init bus nodes files, fun _ => init scope files⟩ hrun
    have hbefore : m.Small :=
      fun x hx => hsmall x (hx.imp fun j hj => (Onward.step hs).history.subset hj)
    exact (hI.2 hbefore).step hgenuine hnodes hI.1 hbefore hs
  exact hinv.2 hsmall

end Holdings

/-- **A replica holds nothing that was not written under a grant.**  On a bus that hands out
nothing but what was put, in every run that puts nothing of 4 GiB: each value of a replica,
live, from the answers of others or restored from its snapshot, was put into the slot of
its topic by a user with a publish grant for it, and is that of the put; or it stands in a
snapshot that a directory held at the start. -/
theorem held_under_grant [HashOrder] {bus : MeshBus} {nodes : Nat → Broker} {scope : Str}
    {rules : Nat → List AclRule} {files : Nat → Option Bytes} {acts : List MeshAction} {m : Mesh}
    (hgenuine : bus.Genuine (Watch.accepts scope)) (hnodes : ∀ n, (nodes n).scope = scope)
    (hacl : ∀ n, (nodes n).acl = .new (rules n) .deny)
    (hrun : Run.exec (Mesh.step bus nodes scope) (.init files) acts = some m)
    (hsmall : m.Small) {i : Nat} {t : Str} {payload : Bytes} {writtenAt : SystemTime}
    (hheld : (m.stores i).map.lookup t = some (payload, writtenAt)) :
    (∃ j n author now,
      .put j ⟨n, some author, .put (retainedKeyexpr t scope)
        (encodeEnvelope payload now)⟩ ∈ m.history ∧
        writtenAt = truncMillis now ∧
        Granted (rules n) author AclRule.publish fun pat => topicMatches pat t = true) ∨
      ∃ n, (restored (files n)).1.map.lookup t = some (payload, writtenAt) := by
  have hauth : Authentic bus nodes m := .run hrun
  refine ((Holdings.run hgenuine hnodes hrun hsmall).stores i t _ hheld).source.imp_left
    fun hwritten => ?_
  obtain ⟨j, n, author, now, htime, hput⟩ := hwritten
  have hwrite :
      slotWrite (nodes n).scope t (.put (retainedKeyexpr t scope) (encodeEnvelope payload now)) =
      some (some (payload, truncMillis now)) := by
    rw [hnodes n, slotWrite, retainedKeyexprToTopic_retainedKeyexpr, decodeEnvelope_encodeEnvelope]
    exact if_pos rfl
  have hright : Rightful (nodes n) (some author) _ := hauth.log _ ⟨j, hput⟩
  obtain ⟨user, huser, htakes, -⟩ := hright.slotWrite_cases hwrite
  cases huser
  have hpublish := htakes.granted
  rw [hacl n] at hpublish
  exact ⟨j, n, author, now, hput, htime, Acl.mayPublish_deny_iff.mp hpublish⟩

/-- Node 2 saves the value, and starts again. -/
def plantRestart : List MeshAction := plantActs ++ [.save 0, .stop 0, .wire 2]

/-- The check of `Mesh.Small` on a history. -/
def smallEvents (h : List MeshEvent) : Bool :=
  h.all fun | .put _ x => decide (Fits (asBytes x.op.key) ∧ Fits x.op.payload) | _ => true

theorem small_of_events {m : Mesh} (h : smallEvents m.history = true) : m.Small := by
  rintro x ⟨j, hx⟩
  exact of_decide_eq_true (List.all_eq_true.mp h _ hx)

theorem plant_restores_under_grant :
    ∃ m, Run.exec (@Mesh.step .asStored plantBus plantNode [])
      (.init fun _ => none) plantRestart = some m ∧
      (m.stores 2).map.lookup "kiln".toList = some ([57], 1000000) ∧
      ∃ j n author now, .put j ⟨n, some author,
          .put (retainedKeyexpr "kiln".toList []) (encodeEnvelope [57] now)⟩ ∈ m.history ∧
        1000000 = truncMillis now ∧
        Granted [⟨"plc1".toList, ["kiln".toList], []⟩, ⟨"hmi".toList, [], ["kiln/#".toList]⟩] author
          AclRule.publish fun pat => topicMatches pat "kiln".toList = true := by
  obtain ⟨m, hrun, hheld, hsmall⟩ : ∃ m,
      Run.exec (@Mesh.step .asStored plantBus plantNode [])
        (.init fun _ => none) plantRestart = some m ∧
        (m.stores 2).map.lookup "kiln".toList = some ([57], 1000000) ∧
        smallEvents m.history = true := ⟨_, rfl, rfl, rfl⟩
  rcases @held_under_grant .asStored plantBus plantNode []
    (fun _ => [⟨"plc1".toList, ["kiln".toList], []⟩, ⟨"hmi".toList, [], ["kiln/#".toList]⟩]) _
      plantRestart m
    (PubSub.Bus.lawful_genuine _) (fun _ => rfl)
    (fun _ => rfl) hrun (small_of_events hsmall) 2 _ _ _ hheld
    with hput | ⟨n, hnone⟩
  · exact ⟨m, hrun, hheld, hput⟩
  · cases hnone

end Entmoot
