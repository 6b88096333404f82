/-
# `Entmoot.Snapshots` — the retained snapshot and its dirty flag

A change of the retained map sets a flag behind it, and every two seconds the persist
loop takes the flag and, if it was set, saves the map.  The changes and the loop run
side by side, and a save reads the map, writes a temporary file and renames it in
steps of its own.

The flag is down while the file is behind the map only if a save in progress has read
the map since, or a change has its flag still to set (`Tracked.step`).  A save that
fails has nothing behind it any more: the loop took the flag before and does not put it
back.  So the file restores the map, whenever nothing is in progress and the flag is
down, exactly in the runs in which every failed save left the flag up, a change on its
way to set it, or a file that is no older than the map (`snapshot_durable_iff`).
-/
import Entmoot.Travel
import Entmoot.Lib.Run

namespace Entmoot

open RetainedStore

/-! ## The system -/

/-- The retained snapshot in the state directory. -/
def retainedFile : Path := "retained.dat".toList

/-- The name it is written under. -/
def retainedTmp : Path := withExtension retainedFile "tmp".toList

theorem retainedFile_ne_tmp : retainedFile ≠ retainedTmp := by decide

/-- Where the persist loop stands. -/
inductive Saver where
  | idle
  /-- the flag is taken, and `save_snapshot` called -/
  | called
  /-- the map is read and put into bytes -/
  | writing (out : Bytes)
  /-- the temporary file is written -/
  | renaming
  deriving DecidableEq, Repr

structure SnapshotWorld where
  store : RetainedStore
  disk : Disk
  /-- how many `insert` and `remove` calls have changed the map and still set the flag -/
  marking : Nat
  saver : Saver

inductive SnapshotAction where
  /-- an `insert` changes the map -/
  | insert (topicName : Str) (payload : Bytes) (writtenAt : SystemTime)
  /-- a `remove` changes the map -/
  | remove (topicName : Str)
  /-- one of these sets the flag -/
  | mark
  | tick
  /-- `save_snapshot` reads the map, all of it under one lock -/
  | read
  | write
  /-- the write fails, and leaves anything or nothing under the temporary name -/
  | writeFails (left : Option Bytes)
  | rename
  | renameFails

namespace SnapshotWorld

/-- An empty store and no snapshot. -/
def init : SnapshotWorld := ⟨.empty, ∅, 0, .idle⟩

def step [HashOrder] (w : SnapshotWorld) : SnapshotAction → Option SnapshotWorld
  | .insert t payload writtenAt =>
      some { w with
        store := { w.store with map := (w.store.insert t payload writtenAt).map }
        marking := w.marking + 1 }
  | .remove t =>
      some { w with
        store := { w.store with map := (w.store.remove t).map }, marking := w.marking + 1 }
  | .mark =>
      match w.marking with
      | 0 => none
      | n + 1 => some { w with store := { w.store with dirty := true }, marking := n }
  | .tick =>
      match w.saver with
      | .idle =>
          some { w with
            store := w.store.takeDirty.1, saver := if w.store.takeDirty.2 then .called else .idle }
      | _ => none
  | .read =>
      match w.saver with
      | .called => some { w with saver := .writing w.store.snapshotBytes }
      | _ => none
  | .write =>
      match w.saver with
      | .writing out => some { w with disk := w.disk.write retainedTmp out, saver := .renaming }
      | _ => none
  | .writeFails left =>
      match w.saver with
      | .writing _ =>
          some { w with
            disk := left.elim (w.disk.remove retainedTmp) (w.disk.write retainedTmp ·)
            saver := .idle }
      | _ => none
  | .rename =>
      match w.saver with
      | .renaming => some { w with disk := w.disk.rename retainedTmp retainedFile, saver := .idle }
      | _ => none
  | .renameFails =>
      match w.saver with
      | .renaming => some { w with saver := .idle }
      | _ => none

/-! ## The property and the condition -/

/-- What `wire` restores when a node starts: without a file, an empty store. -/
def restored (file : Option Bytes) : RetainedStore × Except String Nat :=
  match file with
  | none => (.empty, .ok 0)
  | some data => RetainedStore.empty.loadSnapshot data

/-- The file restores the map. -/
def Restores (file : Option Bytes) (map : RetainedMap) : Prop :=
  (∃ count, (restored file).2 = .ok count) ∧ ∀ t, (restored file).1.map.lookup t = map.lookup t

/-- With nothing in progress and the flag down, the snapshot is the map. -/
def Durable (w : SnapshotWorld) : Prop :=
  w.marking = 0 → w.saver = .idle → w.store.dirty = false →
    Restores (w.disk.lookup retainedFile) w.store.map

/-- What is stored fits a snapshot, its time being one that `decode_envelope` gives. -/
def ActionFits : SnapshotAction → Prop
  | .insert t payload writtenAt => EntryFits (t, payload, writtenAt)
  | _ => True

/-- The condition on a step: where a save fails, the flag is up again or a change on its
way to set it, or the file needs no save. -/
def FailureSeen (w : SnapshotWorld) : SnapshotAction → Prop
  | .writeFails _ | .renameFails =>
      w.store.dirty = true ∨ 0 < w.marking ∨ Restores (w.disk.lookup retainedFile) w.store.map
  | _ => True

/-! ## What the flag says about the file -/

/-- What is saved of the map already, or about to be. -/
def Saving (w : SnapshotWorld) : Prop :=
  match w.saver with
  | .idle => Restores (w.disk.lookup retainedFile) w.store.map
  | .called => True
  | .writing out => Restores (some out) w.store.map
  | .renaming => ∃ out, w.disk.lookup retainedTmp = some out ∧ Restores (some out) w.store.map

structure Tracked (w : SnapshotWorld) : Prop where
  fits : ∀ (t : Str) (v : Bytes × SystemTime), w.store.map.lookup t = some v → EntryFits (t, v)
  /-- with the flag down and no change about to set it, the map is saved or being saved -/
  saving : w.marking = 0 → w.store.dirty = false → w.Saving

variable {w w' : SnapshotWorld}

theorem Tracked.init : Tracked init where
  fits := by
    intro t v h
    cases h
  saving := fun _ _ => ⟨⟨0, rfl⟩, fun _ => rfl⟩

theorem Tracked.durable (h : Tracked w) : Durable w := by
  intro hmarking hidle hdirty
  have hsaving := h.saving hmarking hdirty
  rw [Saving, hidle] at hsaving
  exact hsaving

theorem Tracked.restores [HashOrder] (h : Tracked w) :
    Restores (some w.store.snapshotBytes) w.store.map := by
  have hfits : SnapshotFits w.store := fun t v hv => ⟨(h.fits t v hv).1, (h.fits t v hv).2.1⟩
  obtain ⟨hcount, hmap⟩ := loadSnapshot_saved hfits
  refine ⟨⟨_, hcount⟩, fun t => ?_⟩
  rw [restored, hmap]
  cases hv : w.store.map.lookup t with
  | none => rfl
  | some v =>
      obtain ⟨_, _, htime⟩ := h.fits t v hv
      exact congrArg some (Prod.ext rfl (truncMillis_eq_self.mpr htime))

theorem lookup_writeFails (d : Disk) (left : Option Bytes) :
    (left.elim (d.remove retainedTmp) (d.write retainedTmp ·)).lookup retainedFile =
      d.lookup retainedFile := by
  cases left with
  | none =>
      rw [Option.elim_none, Disk.remove, Keyed.lookup_erase, if_neg retainedFile_ne_tmp]
  | some out =>
      rw [Option.elim_some, Disk.write, Keyed.lookup_insert, if_neg retainedFile_ne_tmp]

theorem lookup_rename_tmp {d : Disk} {out : Bytes} (h : d.lookup retainedTmp = some out) :
    (d.rename retainedTmp retainedFile).lookup retainedFile = some out := by
  rw [Disk.rename, h]
  exact AList.lookup_insert _

theorem Tracked.change {map : RetainedMap}
    (hfits : ∀ (t : Str) (v : Bytes × SystemTime), map.lookup t = some v → EntryFits (t, v)) :
    Tracked { w with store := { w.store with map := map }, marking := w.marking + 1 } where
  fits := hfits
  saving := by
    intro hzero
    cases hzero

/-- A failure that is seen, with nothing else to show it, needed no save. -/
theorem restores_of_failureSeen
    (h : w.store.dirty = true ∨ 0 < w.marking ∨ Restores (w.disk.lookup retainedFile) w.store.map)
    (hmarking : w.marking = 0) (hdirty : w.store.dirty = false) :
    Restores (w.disk.lookup retainedFile) w.store.map := by
  rcases h with hup | hpos | hrestores
  · exact absurd (hup.symm.trans hdirty) (by decide)
  · exact absurd hmarking (Nat.pos_iff_ne_zero.mp hpos)
  · exact hrestores

theorem Tracked.step [HashOrder] {act : SnapshotAction} (h : Tracked w) (hfits : ActionFits act)
    (hseen : FailureSeen w act) (hstep : w.step act = some w') : Tracked w' := by
  cases act with
  | insert t payload writtenAt =>
      cases hstep
      refine .change fun t' v hv => ?_
      rw [RetainedStore.insert, Keyed.lookup_insert] at hv
      split at hv
      · next heq =>
        cases hv
        rw [heq]
        exact hfits
      · exact h.fits t' v hv
  | remove t =>
      cases hstep
      refine .change fun t' v hv => ?_
      rw [RetainedStore.remove, Keyed.lookup_erase] at hv
      split at hv
      · cases hv
      · exact h.fits t' v hv
  | mark =>
      rw [SnapshotWorld.step] at hstep
      split at hstep
      · cases hstep
      · cases hstep
        exact ⟨h.fits, fun _ hdown => (by cases hdown)⟩
  | tick =>
      rw [SnapshotWorld.step] at hstep
      split at hstep
      · next hidle =>
        cases hstep
        refine ⟨h.fits, fun hmarking _ => ?_⟩
        -- the flag is down now: it was up, and a save is called, or nothing has changed
        cases hdirty : w.store.dirty with
        | true => simp only [Saving, takeDirty, hdirty, if_true]
        | false =>
            have hsaving := h.saving hmarking hdirty
            rw [Saving, hidle] at hsaving
            simpa only [Saving, takeDirty, hdirty, Bool.false_eq_true, if_false] using hsaving
      · cases hstep
  | read =>
      rw [SnapshotWorld.step] at hstep
      split at hstep
      · cases hstep
        exact ⟨h.fits, fun _ _ => h.restores⟩
      · cases hstep
  | write =>
      rw [SnapshotWorld.step] at hstep
      split at hstep
      · next out hwriting =>
        cases hstep
        refine ⟨h.fits, fun hmarking hdirty => ⟨out, AList.lookup_insert _, ?_⟩⟩
        have hsaving := h.saving hmarking hdirty
        rw [Saving, hwriting] at hsaving
        exact hsaving
      · cases hstep
  | writeFails left =>
      rw [SnapshotWorld.step] at hstep
      split at hstep
      · cases hstep
        refine ⟨h.fits, fun hmarking hdirty => ?_⟩
        show Restores _ _
        rw [lookup_writeFails]
        exact restores_of_failureSeen hseen hmarking hdirty
      · cases hstep
  | rename =>
      rw [SnapshotWorld.step] at hstep
      split at hstep
      · next hrenaming =>
        cases hstep
        refine ⟨h.fits, fun hmarking hdirty => ?_⟩
        have hsaving := h.saving hmarking hdirty
        rw [Saving, hrenaming] at hsaving
        obtain ⟨out, htmp, hrestores⟩ := hsaving
        show Restores _ _
        rw [lookup_rename_tmp htmp]
        exact hrestores
      · cases hstep
  | renameFails =>
      rw [SnapshotWorld.step] at hstep
      split at hstep
      · cases hstep
        exact ⟨h.fits, fun hmarking hdirty => restores_of_failureSeen hseen hmarking hdirty⟩
      · cases hstep

/-! ## The exact condition -/

/-- A flag that is down nowhere else leaves only the file. -/
theorem failureSeen_of_restores
    (h : w.marking = 0 → w.store.dirty = false →
      Restores (w.disk.lookup retainedFile) w.store.map) :
    w.store.dirty = true ∨ 0 < w.marking ∨ Restores (w.disk.lookup retainedFile) w.store.map := by
  cases hdirty : w.store.dirty with
  | true => exact .inl rfl
  | false =>
      rcases Nat.eq_zero_or_pos w.marking with hzero | hpos
      · exact .inr (.inr (h hzero hdirty))
      · exact .inr (.inl hpos)

/-- A failed save that is not seen shows at once: nothing is in progress for the loop. -/
theorem failureSeen_of_durable [HashOrder] {act : SnapshotAction} (hstep : w.step act = some w')
    (h : Durable w') : FailureSeen w act := by
  cases act with
  | writeFails left =>
      rw [SnapshotWorld.step] at hstep
      split at hstep
      · cases hstep
        refine failureSeen_of_restores fun hmarking hdirty => ?_
        have hrestores := h hmarking rfl hdirty
        rw [lookup_writeFails] at hrestores
        exact hrestores
      · cases hstep
  | renameFails =>
      rw [SnapshotWorld.step] at hstep
      split at hstep
      · cases hstep
        exact failureSeen_of_restores fun hmarking hdirty => h hmarking rfl hdirty
      · cases hstep
  | _ => trivial

theorem always_durable_iff [HashOrder] : ∀ (acts : List SnapshotAction) {w w' : SnapshotWorld},
    Tracked w → (∀ act ∈ acts, ActionFits act) → Run.exec step w acts = some w' →
      (Run.Always step Durable w acts ↔ Run.Meets step FailureSeen w acts) := by
  intro acts
  induction acts with
  | nil =>
      intro w w' h _ _
      rw [Run.always_nil]
      exact ⟨fun _ => trivial, fun _ => h.durable⟩
  | cons act acts ih =>
      intro w w' h hfits hrun
      obtain ⟨hact, hrest⟩ := List.forall_mem_cons.mp hfits
      obtain ⟨u, hstep, hrun⟩ := Run.exec_cons.mp hrun
      rw [Run.always_cons]
      constructor
      · rintro ⟨_, hall⟩
        have hu := hall u hstep
        have hseen := failureSeen_of_durable hstep (hu [] u List.nil_prefix rfl)
        exact .cons hstep hseen ((ih (h.step hact hseen hstep) hrest hrun).mp hu)
      · intro hm
        refine ⟨h.durable, fun v hv => ?_⟩
        rw [hstep] at hv
        cases hv
        exact (ih (h.step hact hm.head hstep) hrest hrun).mpr (hm.tail hstep)

/-- **A snapshot is as durable as its failures are seen**: along any run of changes and
ticks from an empty store without a file, the snapshot restores the map whenever
nothing is in progress and the flag is down, exactly if at every save that fails the
flag is up again, a change is about to set it, or the file restores the map already. -/
theorem snapshot_durable_iff [HashOrder] (acts : List SnapshotAction) (w : SnapshotWorld)
    (hfits : ∀ act ∈ acts, ActionFits act) (hrun : Run.exec step init acts = some w) :
    Run.Always step Durable init acts ↔ Run.Meets step FailureSeen init acts :=
  always_durable_iff acts .init hfits hrun

/-- One retained message, and a first save that fails. -/
def failedSave : List SnapshotAction :=
  [.insert "kiln".toList [57] 0, .mark, .tick, .read, .writeFails none]

/-- The flag is down, nothing is in progress, and there is no file. -/
theorem failed_save_is_forgotten :
    ¬ ∀ (_ : HashOrder) (acts : List SnapshotAction) (w : SnapshotWorld),
      (∀ act ∈ acts, ActionFits act) → Run.exec step init acts = some w →
        Run.Always step Durable init acts := by
  intro h
  have hfits : ∀ act ∈ failedSave, ActionFits act := by
    intro act hact
    simp only [failedSave, List.mem_cons, List.not_mem_nil, or_false] at hact
    rcases hact with rfl | rfl | rfl | rfl | rfl
    · exact ⟨by decide, by decide, 0, by decide, rfl⟩
    all_goals trivial
  have hdurable := h .asStored failedSave _ hfits rfl failedSave _ (List.prefix_refl _)
    rfl rfl rfl rfl
  exact absurd (hdurable.2 "kiln".toList) (by decide)

/-- The same message, removed again before the save fails: the flag is up for the next
tick. -/
def failedSaveSeen : List SnapshotAction :=
  [.insert "kiln".toList [57] 0, .mark, .tick, .read, .remove "kiln".toList, .writeFails none,
    .mark]

theorem seen_failure_is_harmless : Run.Always (@step .asStored) Durable init failedSaveSeen := by
  refine (@snapshot_durable_iff .asStored failedSaveSeen _ ?_ rfl).mpr ?_
  · intro act hact
    simp only [failedSaveSeen, List.mem_cons, List.not_mem_nil, or_false] at hact
    rcases hact with rfl | rfl | rfl | rfl | rfl | rfl | rfl
    · exact ⟨by decide, by decide, 0, by decide, rfl⟩
    all_goals trivial
  · refine .cons rfl trivial (.cons rfl trivial
      (.cons rfl trivial (.cons rfl trivial (.cons rfl trivial
      (.cons rfl (.inr (.inl ?_)) (.cons rfl trivial trivial))))))
    exact Nat.one_pos

end SnapshotWorld

end Entmoot
