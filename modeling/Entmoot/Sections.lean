/-
# `Entmoot.Sections` — what the steps of attach, detach and sweep leave alone

The facts about registries that the comparison of interleaved calls with
sequential ones rests on.  A session is its subscriptions, the reason it was
kicked for, and a `core` that says everything a section returns; sections that
differ only in what other calls did to the first two agree on the core.  The two
state files of a client id go by their `FileKind`, so that what is said about the
one is said about the other.
-/
import Entmoot.Expiry
import Entmoot.Races

namespace Entmoot

open DiscardWorld (SamePaths)

/-! ## Cores -/

namespace SessionState

/-- All of a session but its subscriptions and the reason it was kicked for. -/
def core (s : SessionState) : SessionState :=
  { s with inner := { s.inner with kickReason := none, subs := ∅ } }

theorem eq_of_core {s t : SessionState} (h : s.core = t.core)
    (hkick : s.inner.kickReason = t.inner.kickReason) (hsubs : s.inner.subs = t.inner.subs) :
      s = t := by
  have hinner := congrArg SessionState.inner h
  obtain ⟨_, _, _, _, _, _, ⟨_, _, _, _, _, _, _, _, _⟩⟩ := s
  obtain ⟨_, _, _, _, _, _, ⟨_, _, _, _, _, _, _, _, _⟩⟩ := t
  cases h
  cases hkick
  cases hsubs
  rfl

theorem kickCurrent_core (s : SessionState) : s.kickCurrent.1.core = s.core := by
  rw [kickCurrent]
  split <;> rfl

theorem abortSubs_core (s : SessionState) : s.abortSubs.1.core = s.core := rfl

/-- A detach looks at the core only. -/
theorem detachConn_core {s t : SessionState} (h : s.core = t.core) (epoch : Nat) (now : Instant) :
    (s.detachConn epoch now).1.core = (t.detachConn epoch now).1.core ∧
      (s.detachConn epoch now).2 = (t.detachConn epoch now).2 := by
  have hcore : ∀ u : SessionState, (u.detachConn epoch now).1.core =
      (u.core.detachConn epoch now).1 ∧
      (u.detachConn epoch now).2 = (u.core.detachConn epoch now).2 := by
    intro u
    rw [detachConn, detachConn]
    by_cases hepoch : u.inner.epoch ≠ epoch
    · have hepoch' : u.core.inner.epoch ≠ epoch := hepoch
      rw [if_pos hepoch, if_pos hepoch']
      exact ⟨rfl, rfl⟩
    · have hepoch' : ¬ u.core.inner.epoch ≠ epoch := hepoch
      rw [if_neg hepoch, if_neg hepoch']
      exact ⟨rfl, rfl⟩
  rw [(hcore s).1, (hcore s).2, (hcore t).1, (hcore t).2, h]
  exact ⟨rfl, rfl⟩

theorem detachConn_subs (s : SessionState) (epoch : Nat) (now : Instant) :
    (s.detachConn epoch now).1.inner.subs = s.inner.subs := by
  rw [detachConn]
  split <;> rfl

theorem expired_core {s t : SessionState} (h : s.core = t.core) (expiry : Duration)
    (now : Instant) :
    s.expired expiry now = t.expired expiry now := by
  have hoff : s.inner.offlineSince = t.inner.offlineSince := by
    show s.core.inner.offlineSince = t.core.inner.offlineSince
    rw [h]
  rw [expired, expired, hoff]

variable [HashOrder]

theorem attachConnLocked_epoch (s : SessionState) (d : Disk) (identity : Str) (sink : Sender)
    (kick : Notify) : (s.attachConnLocked d identity sink kick).epoch = s.inner.epoch + 1 := by
  show ((s.installConn sink kick).setIdentity d identity).1.inner.epoch = _
  rw [setIdentity_inner]
  rfl

/-- An attach returns what the core says, and leaves what the core says. -/
theorem attachConnLocked_core {s t : SessionState} (h : s.core = t.core) (d d' : Disk)
    (identity : Str) (sink : Sender) (kick : Notify) :
    (s.attachConnLocked d identity sink kick).session.core =
        (t.attachConnLocked d' identity sink kick).session.core ∧
      (s.attachConnLocked d identity sink kick).epoch =
        (t.attachConnLocked d' identity sink kick).epoch ∧
      (s.attachConnLocked d identity sink kick).backlog =
        (t.attachConnLocked d' identity sink kick).backlog := by
  have hepoch : s.inner.epoch = t.inner.epoch := by
    show s.core.inner.epoch = t.core.inner.epoch
    rw [h]
  have hqueue : s.inner.queue = t.inner.queue := by
    show s.core.inner.queue = t.core.inner.queue
    rw [h]
  refine ⟨?_, ?_, ?_⟩
  · rw [attachConnLocked_session, attachConnLocked_session]
    exact congrArg (fun u : SessionState => { u with inner := { u.inner with
      epoch := u.inner.epoch + 1, sink := some sink, kick := some kick, offlineSince := none
      identity := identity, queue := [] } }) h
  · rw [attachConnLocked_epoch, attachConnLocked_epoch, hepoch]
  · exact (attachConn_backlog s d identity sink kick).trans
      (hqueue.trans (attachConn_backlog t d' identity sink kick).symm)

end SessionState

/-- Kicked, or rid of its subscriptions, at most. -/
structure Touched (s s' : SessionState) : Prop where
  core : s'.core = s.core
  kick : s'.inner.kickReason = s.inner.kickReason ∨ s.inner.kick.isSome
  subs : s'.inner.subs = s.inner.subs ∨ s'.inner.subs = ∅

namespace Touched

theorem refl (s : SessionState) : Touched s s := ⟨rfl, .inl rfl, .inl rfl⟩

theorem kickCurrent (s : SessionState) : Touched s s.kickCurrent.1 := by
  refine ⟨s.kickCurrent_core, ?_, ?_⟩ <;> rw [SessionState.kickCurrent] <;> split
  · next kick hkick => exact .inr (by rw [hkick]; rfl)
  · exact .inl rfl
  · exact .inl rfl
  · exact .inl rfl

theorem abortSubs (s : SessionState) : Touched s s.abortSubs.1 := ⟨rfl, .inl rfl, .inr rfl⟩

/-- There is nothing to touch on a new session. -/
theorem new_eq {d : Disk} {c : Str} {maxQueue : Nat} {slowGrace : Option Duration}
    {queuePath subsPath : Option Path} {s' : SessionState}
    (h : Touched (.new d c maxQueue slowGrace queuePath subsPath) s') :
    s' = .new d c maxQueue slowGrace queuePath subsPath := by
  refine SessionState.eq_of_core h.core ?_ ?_
  · rcases h.kick with hkick | hkick
    · exact hkick
    · cases hkick
  · rcases h.subs with hsubs | hsubs
    · exact hsubs
    · exact hsubs

end Touched

theorem samePaths_of_core {s s' : SessionState} (h : s'.core = s.core) : SamePaths s s' := by
  have hp : SamePaths s.core s'.core := by
    rw [h]
    exact ⟨rfl, rfl, rfl⟩
  exact ⟨hp.clientId, hp.queuePath, hp.subsPath⟩

/-! ## State files -/

inductive FileKind where
  | queue
  | subs
  deriving DecidableEq

def stateFile (c : Str) : FileKind → Path
  | .queue => queueFile c
  | .subs => subsFile c

/-- The files of two client ids, and of two kinds, differ. -/
theorem stateFile_injective {c c' : Str} {k k' : FileKind} (h : stateFile c k = stateFile c' k') :
    c = c' ∧ k = k' := by
  cases k with
  | queue =>
      cases k' with
      | queue => exact ⟨queueFile_injective h, rfl⟩
      | subs => exact absurd h (queueFile_ne_subsFile c c')
  | subs =>
      cases k' with
      | queue => exact absurd h.symm (queueFile_ne_subsFile c' c)
      | subs => exact ⟨subsFile_injective h, rfl⟩

namespace SessionState

/-- The path of a state file of a session. -/
def file (s : SessionState) : FileKind → Option Path
  | .queue => s.queuePath
  | .subs => s.subsPath

/-- One state file discarded. -/
def discardFile (s : SessionState) (d : Disk) (k : FileKind) : Disk := (s.file k).elim d d.remove

theorem discardFile_queue (s : SessionState) (d : Disk) :
    s.discardFile d .queue = s.discardQueueFile d := by
  rw [discardFile, file, discardQueueFile]
  cases s.queuePath <;> rfl

theorem discardFile_subs (s : SessionState) (d : Disk) :
    s.discardFile d .subs = s.discardSubsFile d := by
  rw [discardFile, file, discardSubsFile]
  cases s.subsPath <;> rfl

end SessionState

theorem SessionState.file_eq {s s' : SessionState} (h : SamePaths s s') (k : FileKind) :
    s'.file k = s.file k := by
  cases k
  · exact h.queuePath
  · exact h.subsPath

namespace SessionRegistry

variable {r : SessionRegistry} {c : Str} {k : FileKind} {p : Path}

/-- The path of a state file of a client id. -/
def file (r : SessionRegistry) (c : Str) (k : FileKind) : Option Path :=
  if r.queueDir then some (stateFile c k) else none

/-- A state file of a client id. -/
def state (r : SessionRegistry) (c : Str) (k : FileKind) : Option Bytes :=
  (r.file c k).bind r.disk.lookup

theorem file_eq_some : r.file c k = some p ↔ r.queueDir = true ∧ p = stateFile c k := by
  rw [file]
  constructor
  · intro hp
    split at hp
    · next h => exact ⟨h, (Option.some.inj hp).symm⟩
    · cases hp
  · rintro ⟨h, rfl⟩
    rw [if_pos h]

theorem file_injective {c' : Str} {k' : FileKind} (h : r.file c k = some p)
    (h' : r.file c' k' = some p) : c = c' ∧ k = k' :=
  stateFile_injective ((file_eq_some.mp h).2.symm.trans (file_eq_some.mp h').2)

theorem state_of_no_path (h : r.file c k = none) : r.state c k = none := by
  rw [state, h]
  rfl

theorem pathExists_file (r : SessionRegistry) (c : Str) (k : FileKind) :
    r.pathExists (r.file c k) = (r.state c k).isSome := by
  rw [state]
  cases r.file c k <;> rfl

theorem state_remove (r : SessionRegistry) (c : Str) (k : FileKind) (p : Path) :
    ({ r with disk := r.disk.remove p } : SessionRegistry).state c k =
      if r.file c k = some p then none else r.state c k := by
  show (r.file c k).bind (r.disk.remove p).lookup = _
  rw [state]
  cases hq : r.file c k with
  | none => exact (if_neg (fun h => by cases h)).symm
  | some q =>
      show (r.disk.remove p).lookup q = _
      rw [Disk.remove, Keyed.lookup_erase]
      by_cases hqp : q = p
      · rw [if_pos hqp, if_pos (congrArg some hqp)]
      · rw [if_neg hqp, if_neg (fun h => hqp (Option.some.inj h))]
        rfl

theorem state_removeFile (r : SessionRegistry) (c : Str) (k k' : FileKind) :
    (r.removeFile (r.file c k')).state c k = if k = k' then none else r.state c k := by
  cases hp : r.file c k' with
  | none =>
      show r.state c k = _
      split
      · next h => exact state_of_no_path (h ▸ hp)
      · rfl
  | some p =>
      show ({ r with disk := r.disk.remove p } : SessionRegistry).state c k = _
      rw [state_remove]
      by_cases hk : k = k'
      · subst hk
        rw [if_pos hp, if_pos rfl]
      · rw [if_neg hk, if_neg (fun h => hk (file_injective h hp).2)]

/-- The session's file of this kind is the client id's. -/
def Owns (r : SessionRegistry) (c : Str) (k : FileKind) (s : SessionState) : Prop :=
  ∃ p, s.file k = some p ∧ r.file c k = some p

instance (r : SessionRegistry) (c : Str) (k : FileKind) (s : SessionState) :
    Decidable (r.Owns c k s) :=
  decidable_of_iff ((s.file k).isSome ∧ r.file c k = s.file k) <| by
    constructor
    · rintro ⟨hs, heq⟩
      obtain ⟨p, hp⟩ := Option.isSome_iff_exists.mp hs
      exact ⟨p, hp, heq.trans hp⟩
    · rintro ⟨p, hs, hr⟩
      exact ⟨by rw [hs]; rfl, hr.trans hs.symm⟩

theorem Owns.congr {s s' : SessionState} (hp : SamePaths s s') :
    r.Owns c k s' ↔ r.Owns c k s := by
  rw [Owns, Owns, SessionState.file_eq hp k]

theorem Tidy.file (h : r.Tidy) {a : Addr} {s : SessionState} (hs : r.heap[a]? = some s)
    (k : FileKind) :
    s.file k = none ∨ s.file k = r.file s.clientId k := by
  cases k
  · exact h.queuePath a s hs
  · exact h.subsPath a s hs

/-- Only a session of the client id has its files. -/
theorem Tidy.clientId_of_owns (h : r.Tidy) {a : Addr} {s : SessionState} (hs : r.heap[a]? = some s)
    (ho : r.Owns c k s) : s.clientId = c := by
  obtain ⟨p, hp, hc⟩ := ho
  rcases h.file hs k with hnone | hown
  · rw [hp] at hnone
    cases hnone
  · exact (file_injective (hown.symm.trans hp) hc).1

/-- Discarding a file of a session takes the client id's away if it is the same one. -/
theorem Tidy.state_discardFile (h : r.Tidy) {a : Addr} {s : SessionState} (hs : r.heap[a]? = some s)
    (c : Str) (k k' : FileKind) :
    ({ r with disk := s.discardFile r.disk k' } : SessionRegistry).state c k =
      if k = k' ∧ r.Owns c k s then none else r.state c k := by
  rw [SessionState.discardFile]
  cases hp : s.file k' with
  | none =>
      show r.state c k = _
      rw [if_neg]
      rintro ⟨rfl, p, hp', _⟩
      rw [hp] at hp'
      cases hp'
  | some p =>
      show ({ r with disk := r.disk.remove p } : SessionRegistry).state c k = _
      rw [state_remove]
      by_cases hc : r.file c k = some p
      · rw [if_pos hc, if_pos]
        have hown : s.file k' = r.file s.clientId k' := by
          rcases h.file hs k' with hnone | hown
          · rw [hp] at hnone
            cases hnone
          · exact hown
        obtain ⟨-, rfl⟩ := file_injective hc (hown.symm.trans hp)
        exact ⟨rfl, p, hp, hc⟩
      · rw [if_neg hc, if_neg]
        rintro ⟨rfl, q, hq, hcq⟩
        rw [hp] at hq
        cases hq
        exact hc hcq

end SessionRegistry

/-! ## Registries with the same sessions -/

theorem samePaths_trans {s s' s'' : SessionState} (h : SamePaths s s') (h' : SamePaths s' s'') :
    SamePaths s s'' :=
  ⟨h'.clientId.trans h.clientId, h'.queuePath.trans h.queuePath, h'.subsPath.trans h.subsPath⟩

theorem samePaths_detachConn (s : SessionState) (epoch : Nat) (now : Instant) :
    SamePaths s (s.detachConn epoch now).1 := by
  have hm : Moved (fun _ => False) s (s.detachConn epoch now).1 :=
    .of_noted (s.noted_detachConn epoch now)
  exact ⟨hm.clientId, hm.queuePath, hm.subsPath⟩

structure SameConfig (r r' : SessionRegistry) : Prop where
  maxQueue : r'.maxQueue = r.maxQueue
  slowGrace : r'.slowGrace = r.slowGrace
  queueDir : r'.queueDir = r.queueDir

/-- Every session of `r` is one of `r'`, with its client id and its paths. -/
structure Keeps (r r' : SessionRegistry) : Prop extends SameConfig r r' where
  heap : ∀ (a : Addr) s, r.heap[a]? = some s → ∃ s', r'.heap[a]? = some s' ∧ SamePaths s s'

theorem SameConfig.symm {r r' : SessionRegistry} (h : SameConfig r r') : SameConfig r' r :=
  ⟨h.maxQueue.symm, h.slowGrace.symm, h.queueDir.symm⟩

theorem SameConfig.trans {r r' r'' : SessionRegistry} (h : SameConfig r r')
    (h' : SameConfig r' r'') :
    SameConfig r r'' :=
  ⟨h'.maxQueue.trans h.maxQueue, h'.slowGrace.trans h.slowGrace, h'.queueDir.trans h.queueDir⟩

theorem SameConfig.file {r r' : SessionRegistry} (h : SameConfig r r') (c : Str) (k : FileKind) :
    r'.file c k = r.file c k := by
  rw [SessionRegistry.file, SessionRegistry.file, h.queueDir]

theorem SameConfig.owns {r r' : SessionRegistry} (h : SameConfig r r') (c : Str) (k : FileKind)
    (s : SessionState) : r'.Owns c k s ↔ r.Owns c k s := by
  rw [SessionRegistry.Owns, SessionRegistry.Owns, h.file]

namespace Keeps

variable {r r' r'' : SessionRegistry} {a : Addr} {s s' : SessionState}

theorem of_heap (hconf : SameConfig r r') (hheap : r'.heap = r.heap) : Keeps r r' :=
  { hconf with heap := fun _ s hs => ⟨s, hheap ▸ hs, rfl, rfl, rfl⟩ }

theorem trans (h : Keeps r r') (h' : Keeps r' r'') : Keeps r r'' :=
  { h.toSameConfig.trans h'.toSameConfig with
    heap := by
      intro b t ht
      obtain ⟨t', ht', hp⟩ := h.heap b t ht
      obtain ⟨t'', ht'', hp'⟩ := h'.heap b t' ht'
      exact ⟨t'', ht'', samePaths_trans hp hp'⟩ }

theorem set (hconf : SameConfig r r') (hs : r.heap[a]? = some s) (hp : SamePaths s s')
    (hheap : r'.heap = r.heap.set a s') : Keeps r r' :=
  { hconf with
    heap := by
      intro b t ht
      rw [hheap]
      by_cases hab : a = b
      · subst hab
        rw [hs] at ht
        cases ht
        exact ⟨s', Cells.set_self hs, hp⟩
      · rw [List.getElem?_set_ne hab]
        exact ⟨t, ht, rfl, rfl, rfl⟩ }

theorem concat (hconf : SameConfig r r') (hheap : r'.heap = r.heap ++ [s]) : Keeps r r' :=
  { hconf with
    heap := fun b t ht => ⟨t, by rw [hheap]; exact Cells.append_of_some ht, rfl, rfl, rfl⟩ }

end Keeps

namespace SessionRegistry

variable {r r' : SessionRegistry} {s : SessionState} {c : Str}

/-- The session registered under a client id is one of that client id. -/
theorem Tidy.clientId_eq (h : r.Tidy) {a : Addr} (hreg : r.sessions.lookup c = some a)
    (hs : r.heap[a]? = some s) : s.clientId = c := by
  obtain ⟨t, ht, hcid⟩ := h.entries c a hreg
  rw [hs] at ht
  cases ht
  exact hcid

/-- Nothing new: the registry stays tidy. -/
theorem Tidy.keep (h : r.Tidy) (hk : Keeps r r') (hlen : r'.heap.length = r.heap.length)
    (hmap : ∀ c a, r'.sessions.lookup c = some a → r.sessions.lookup c = some a) : r'.Tidy := by
  have hcell : ∀ (a : Addr) s', r'.heap[a]? = some s' → ∃ s, r.heap[a]? = some s ∧
      SamePaths s s' := by
    intro a s' hs'
    obtain ⟨hlt, _⟩ := List.getElem?_eq_some_iff.mp hs'
    rw [hlen] at hlt
    obtain ⟨t, ht, hp⟩ := hk.heap a _ (List.getElem?_eq_getElem hlt)
    rw [hs'] at ht
    cases ht
    exact ⟨_, List.getElem?_eq_getElem hlt, hp⟩
  refine ⟨fun c a ha => ?_, fun a s' hs' => ?_, fun a s' hs' => ?_⟩
  · obtain ⟨s, hs, rfl⟩ := h.entries c a (hmap c a ha)
    obtain ⟨s', hs', hp⟩ := hk.heap a s hs
    exact ⟨s', hs', hp.clientId⟩
  · obtain ⟨s, hs, hp⟩ := hcell a s' hs'
    rw [hp.queuePath, hp.clientId]
    exact (h.queuePath a s hs).imp_right fun hq => hq.trans (hk.toSameConfig.file _ .queue).symm
  · obtain ⟨s, hs, hp⟩ := hcell a s' hs'
    rw [hp.subsPath, hp.clientId]
    exact (h.subsPath a s hs).imp_right fun hq => hq.trans (hk.toSameConfig.file _ .subs).symm

/-- One session more, entered under its client id. -/
theorem Tidy.enter (h : r.Tidy) (hconf : SameConfig r r') (hheap : r'.heap = r.heap ++ [s])
    (hmap : r'.sessions = r.sessions.insert s.clientId r.heap.length)
    (hs : ∀ k, s.file k = none ∨ s.file k = r.file s.clientId k) : r'.Tidy := by
  have hk : Keeps r r' := .concat hconf hheap
  have hcell : ∀ (b : Addr) s', r'.heap[b]? = some s' → r.heap[b]? = some s' ∨ s' = s := by
    intro b s' hs'
    rw [hheap] at hs'
    exact (Cells.concat_cases hs').imp_right And.right
  refine ⟨fun c a ha => ?_, fun a s' hs' => ?_, fun a s' hs' => ?_⟩
  · rw [hmap, Keyed.lookup_insert] at ha
    split at ha
    · next hc =>
      cases ha
      rw [hheap]
      exact ⟨s, List.getElem?_concat_length, hc.symm⟩
    · obtain ⟨t, ht, rfl⟩ := h.entries c a ha
      obtain ⟨t', ht', hp⟩ := hk.heap a t ht
      exact ⟨t', ht', hp.clientId⟩
  · rcases hcell a s' hs' with hold | rfl
    · exact (h.queuePath a s' hold).imp_right fun hq => hq.trans (hconf.file _ .queue).symm
    · exact (hs .queue).imp_right fun hq => hq.trans (hconf.file _ .queue).symm
  · rcases hcell a s' hs' with hold | rfl
    · exact (h.subsPath a s' hold).imp_right fun hq => hq.trans (hconf.file _ .subs).symm
    · exact (hs .subs).imp_right fun hq => hq.trans (hconf.file _ .subs).symm

/-! ## The files an attach writes -/

section
variable [HashOrder]

/-- What a save of the subscriptions does to their file depends on the session alone. -/
theorem persistSubs_file (s : SessionState) : ∃ write : Option Bytes → Option Bytes,
    ∀ (d : Disk) (p : Path), s.subsPath = some p →
      (s.persistSubs d).lookup p = write (d.lookup p) := by
  generalize hes : HashOrder.order (SessionState.subEntries s.inner.subs) = es
  by_cases hnil : es = []
  · refine ⟨fun _ => none, fun d p hp => ?_⟩
    simp only [SessionState.persistSubs, hp, hes, saveSubs, if_pos hnil]
    exact lookup_remove_self d p
  · -- a chunk that is too long keeps the file as it was
    cases hclient : writeChunk subsMagic (asBytes s.clientId) with
    | error e =>
        refine ⟨id, fun d p hp => ?_⟩
        simp only [SessionState.persistSubs, hp, hes, saveSubs, if_neg hnil, hclient, bind,
          Except.bind]
        rfl
    | ok out₁ =>
        cases hident : writeChunk out₁ (asBytes s.inner.identity) with
        | error e =>
            refine ⟨id, fun d p hp => ?_⟩
            simp only [SessionState.persistSubs, hp, hes, saveSubs, if_neg hnil, hclient, hident,
              bind, Except.bind]
            rfl
        | ok out₂ =>
            cases hsubs : writeSubs out₂ es with
            | error e =>
                refine ⟨id, fun d p hp => ?_⟩
                simp only [SessionState.persistSubs, hp, hes, saveSubs, if_neg hnil, hclient,
                  hident, hsubs, bind, Except.bind]
                rfl
            | ok out =>
                refine ⟨fun _ => some out, fun d p hp => ?_⟩
                simp only [SessionState.persistSubs, hp, hes, saveSubs, if_neg hnil, hclient,
                  hident, hsubs, bind, Except.bind, pure, Except.pure]
                rw [lookup_rename, if_pos rfl]

/-- What a new owner does to the subscription file depends on the session alone; without
subscriptions it is nothing. -/
theorem setIdentity_file (s : SessionState) (identity : Str) :
    ∃ write : Option Bytes → Option Bytes, (s.inner.subs = ∅ → write = id) ∧
      ∀ (d : Disk) (p : Path), s.subsPath = some p →
        (s.setIdentity d identity).2.lookup p = write (d.lookup p) := by
  by_cases hwrites : s.inner.identity ≠ identity ∧ s.inner.subs.entries ≠ []
  · obtain ⟨hid, hsubs⟩ := hwrites
    obtain ⟨write, hwrite⟩ :=
      persistSubs_file ({ s with inner := { s.inner with identity := identity } } : SessionState)
    refine ⟨write, fun h => absurd (by rw [h]; rfl) hsubs, fun d p hp => ?_⟩
    rw [SessionState.setIdentity, if_pos hid]
    show (if s.inner.subs.entries ≠ [] then _ else d).lookup p = _
    rw [if_pos hsubs]
    exact hwrite d p hp
  · refine ⟨id, fun _ => rfl, fun d p _ => ?_⟩
    rw [SessionState.setIdentity]
    split
    · next hid =>
      show (if s.inner.subs.entries ≠ [] then _ else d).lookup p = _
      rw [if_neg fun hsubs => hwrites ⟨hid, hsubs⟩]
      rfl
    · rfl

theorem setIdentity_queueFile {s : SessionState} (hc : c ≠ []) (hcid : s.clientId = c)
    (hp : s.subsPath = none ∨ s.subsPath = some (subsFile c)) (d : Disk) (identity : Str) :
    (s.setIdentity d identity).2.lookup (queueFile c) = d.lookup (queueFile c) := by
  have hpersist : ∀ t : SessionState, t.clientId = c → t.subsPath = none ∨
      t.subsPath = some (subsFile c) →
      (t.persistSubs d).lookup (queueFile c) = d.lookup (queueFile c) := by
    intro t ht hpath
    rcases hpath with hnone | hsome
    · simp only [SessionState.persistSubs, hnone]
    · exact (SubsWritten.persistSubs hc ht hsome d).queue
  rw [SessionState.setIdentity]
  split
  · dsimp only
    split
    · exact hpersist _ hcid hp
    · rfl
  · rfl

/-- The locked part of an attach leaves the queue file as it is. -/
theorem Tidy.state_attachConnLocked_queue {a : Addr} (h : r.Tidy) (hc : c ≠ [])
    (hs : r.heap[a]? = some s) (hcid : s.clientId = c) (identity : Str) (sink : Sender)
    (kick : Notify) :
    ({ r with
        disk := (s.attachConnLocked r.disk identity sink kick).disk } : SessionRegistry).state
      c .queue = r.state c .queue := by
  show (r.file c .queue).bind _ = (r.file c .queue).bind _
  cases hp : r.file c .queue with
  | none => rfl
  | some p =>
      obtain ⟨hdir, rfl⟩ := file_eq_some.mp hp
      refine setIdentity_queueFile (s := s.installConn sink kick) hc hcid ?_ r.disk identity
      rcases h.file hs .subs with hnone | hown
      · exact .inl hnone
      · rw [hcid] at hown
        exact .inr (hown.trans (file_eq_some.mpr ⟨hdir, rfl⟩))

/-- What it does to the subscription file depends on the session alone. -/
theorem state_attachConnLocked_subs (s : SessionState) (c identity : Str) (sink : Sender)
    (kick : Notify) :
    ∃ write : Option Bytes → Option Bytes, (s.inner.subs = ∅ → write = id) ∧
      ∀ (r : SessionRegistry) (a : Addr), r.Tidy → r.heap[a]? = some s → s.clientId = c →
        ({ r with disk := (s.attachConnLocked r.disk identity sink kick).disk } :
          SessionRegistry).state c
          .subs = write (r.state c .subs) := by
  obtain ⟨write, hid, hwrite⟩ := setIdentity_file (s.installConn sink kick) identity
  cases hpath : s.subsPath with
  | none =>
      refine ⟨id, fun _ => rfl, fun r a _ _ _ => ?_⟩
      have hdisk : (s.attachConnLocked r.disk identity sink kick).disk = r.disk := by
        show ((s.installConn sink kick).setIdentity r.disk identity).2 = r.disk
        have hnone : (s.installConn sink kick).subsPath = none := hpath
        rw [SessionState.setIdentity]
        split
        · simp only [SessionState.persistSubs, hnone, ite_self]
        · rfl
      rw [hdisk]
      rfl
  | some p =>
      refine ⟨write, hid, fun r a ht hs hcid => ?_⟩
      have hown : some p = r.file c .subs := by
        rcases ht.file hs .subs with hnone | hown
        · rw [SessionState.file, hpath] at hnone
          cases hnone
        · rw [← hcid, ← hown, SessionState.file, hpath]
      show (r.file c .subs).bind _ = write ((r.file c .subs).bind _)
      rw [← hown]
      exact hwrite r.disk p hpath

end

/-! ## Sequential calls -/

section
variable {a : Addr} {epoch : Nat} {clean : Bool} {now : Instant}

theorem detach_stays (hs : r.heap[a]? = some s)
    (h : ((s.detachConn epoch now).2 && clean) = false) :
    r.detach a epoch clean now = r.setSession a (s.detachConn epoch now).1 := by
  simp only [detach, hs, h]
  rfl

/-- The end of a connection with cleanSession=1, on a session without files. -/
theorem detach_ends (hs : r.heap[a]? = some s) (h : ((s.detachConn epoch now).2 && clean) = true)
    (hfile : ∀ k, s.file k = none) :
    r.detach a epoch clean now =
      (r.setSession a (s.detachConn epoch now).1.abortSubs.1).removeOwn a := by
  have hcell : (r.setSession a (s.detachConn epoch now).1).heap[a]? =
      some (s.detachConn epoch now).1 :=
    Cells.set_self hs
  have hsame : SamePaths s (s.detachConn epoch now).1 := samePaths_detachConn s epoch now
  have hqueue : (s.detachConn epoch now).1.abortSubs.1.queuePath = none :=
    hsame.queuePath.trans (hfile .queue)
  have hsubs : (s.detachConn epoch now).1.abortSubs.1.subsPath = none :=
    hsame.subsPath.trans (hfile .subs)
  have hdiscard : (r.setSession a (s.detachConn epoch now).1).discardAt a =
      r.setSession a (s.detachConn epoch now).1.abortSubs.1 := by
    simp only [discardAt, hcell, SessionState.discardStateFiles, SessionState.discardQueueFile,
      SessionState.discardSubsFile, hqueue, hsubs]
    simp only [setSession, List.set_set]
  simp only [detach, hs, h, hdiscard, if_true]

theorem Tidy.removeOwn (h : r.Tidy) (a : Addr) : ∃ m, r.removeOwn a = { r with sessions := m } ∧
    ∀ c, m.lookup c = if r.sessions.lookup c = some a then none else r.sessions.lookup c := by
  cases hs : r.heap[a]? with
  | none =>
      refine ⟨r.sessions, by simp only [SessionRegistry.removeOwn, hs], fun c =>
        (if_neg fun ha => ?_).symm⟩
      obtain ⟨s, hs', -⟩ := h.entries c a ha
      rw [hs] at hs'
      cases hs'
  | some s =>
      have hown : ∀ c, r.sessions.lookup c = some a → c = s.clientId :=
        fun c ha => (h.clientId_eq ha hs).symm
      simp only [SessionRegistry.removeOwn, hs]
      by_cases ha : r.sessions.lookup s.clientId = some a
      · refine ⟨r.sessions.erase s.clientId, if_pos ha, fun c => ?_⟩
        rw [Keyed.lookup_erase]
        by_cases hc : c = s.clientId
        · subst hc
          rw [if_pos rfl, if_pos ha]
        · rw [if_neg hc, if_neg fun h => hc (hown c h)]
      · refine ⟨r.sessions, if_neg ha, fun c => (if_neg fun h => ?_).symm⟩
        rw [hown c h] at h
        exact ha h

end

/-- What a sweep does to the sessions, the map and the files of `c`. -/
structure Swept (c : Str) (expiry : Duration) (now : Instant) (r r' : SessionRegistry) : Prop
    extends Keeps r r' where
  length : r'.heap.length = r.heap.length
  entry : ∀ k, r'.sessions.lookup k = (r.sessions.lookup k).filter fun a =>
    !r.expiredAt expiry now a
  core : ∀ (a : Addr) s, r.heap[a]? = some s → ∃ s', r'.heap[a]? = some s' ∧ s'.core = s.core
  kept : ∀ a : Addr, r.expiredAt expiry now a = false → r'.heap[a]? = r.heap[a]?
  fewer : ∀ k, r'.state c k = r.state c k ∨ r'.state c k = none
  gone : ∀ k a s, r.sessions.lookup c = some a → r.expiredAt expiry now a = true →
    r.heap[a]? = some s → r.Owns c k s → r'.state c k = none
  left : ∀ k, (∀ a s, r.sessions.lookup c = some a → r.expiredAt expiry now a = true →
    r.heap[a]? = some s → ¬ r.Owns c k s) → r'.state c k = r.state c k

/-- The files and sessions after those at these addresses were discarded. -/
structure DiscardedAll (c : Str) (gone : List (Str × Addr)) (r r' : SessionRegistry) : Prop
    extends Keeps r r' where
  length : r'.heap.length = r.heap.length
  entry : r'.sessions = r.sessions
  core : ∀ (a : Addr) s, r.heap[a]? = some s → ∃ s', r'.heap[a]? = some s' ∧ s'.core = s.core
  kept : ∀ a : Addr, (∀ k, (k, a) ∉ gone) → r'.heap[a]? = r.heap[a]?
  fewer : ∀ k, r'.state c k = r.state c k ∨ r'.state c k = none
  taken : ∀ k e s, e ∈ gone → r.heap[e.2]? = some s → r.Owns c k s → r'.state c k = none
  left : ∀ k, (∀ e s, e ∈ gone → r.heap[e.2]? = some s → ¬ r.Owns c k s) →
    r'.state c k = r.state c k

theorem Tidy.discardAt (h : r.Tidy) (c : Str) (e : Str × Addr) :
    DiscardedAll c [e] r (r.discardAt e.2) := by
  cases hs : r.heap[e.2]? with
  | none =>
      have heq : r.discardAt e.2 = r := by simp only [SessionRegistry.discardAt, hs]
      rw [heq]
      exact {
        maxQueue := rfl
        slowGrace := rfl
        queueDir := rfl
        heap := fun a s hs => ⟨s, hs, rfl, rfl, rfl⟩
        length := rfl
        entry := rfl
        core := fun a s hs => ⟨s, hs, rfl⟩
        kept := fun _ _ => rfl
        fewer := fun _ => .inl rfl
        taken := by
          intro k e' s' he hs' _
          rw [List.mem_singleton.mp he, hs] at hs'
          cases hs'
        left := fun _ _ => rfl }
  | some s =>
      have heq : r.discardAt e.2 =
          { r.setSession e.2 s.abortSubs.1 with disk := s.discardStateFiles r.disk } := by
        simp only [SessionRegistry.discardAt, hs]
        rfl
      have hkeeps :
          Keeps r { r.setSession e.2 s.abortSubs.1 with disk := s.discardStateFiles r.disk } :=
        .set ⟨rfl, rfl, rfl⟩ hs (samePaths_of_core s.abortSubs_core) rfl
      have hstate : ∀ k, ({ r.setSession e.2 s.abortSubs.1 with
          disk := s.discardStateFiles r.disk } : SessionRegistry).state c k =
            if r.Owns c k s then none else r.state c k := by
        intro k
        have hqueue := h.state_discardFile hs c k .queue
        have hmid : ({ r with disk := s.discardFile r.disk .queue } : SessionRegistry).Tidy :=
          h.keep (.of_heap ⟨rfl, rfl, rfl⟩ rfl) rfl fun _ _ h => h
        have hsubs := hmid.state_discardFile hs c k .subs
        rw [SessionState.discardFile_queue] at hqueue
        rw [SessionState.discardFile_queue, SessionState.discardFile_subs] at hsubs
        refine hsubs.trans ?_
        by_cases ho : r.Owns c k s
        · rw [if_pos ho]
          cases k with
          | queue =>
              rw [if_neg (fun h => by cases h.1), hqueue, if_pos ⟨rfl, ho⟩]
          | subs => exact if_pos ⟨rfl, ho⟩
        · rw [if_neg ho, if_neg fun h => ho h.2, hqueue, if_neg fun h => ho h.2]
      rw [heq]
      exact {
        hkeeps with
        length := List.length_set
        entry := rfl
        core := by
          intro a t ht
          by_cases hab : e.2 = a
          · subst hab
            rw [hs] at ht
            cases ht
            exact ⟨s.abortSubs.1, Cells.set_self hs, rfl⟩
          · exact ⟨t, (List.getElem?_set_ne hab).trans ht, rfl⟩
        kept := by
          intro a ha
          exact List.getElem?_set_ne fun h => ha e.1 (by rw [← h]; exact List.mem_singleton_self _)
        fewer := by
          intro k
          rw [hstate k]
          split
          · exact .inr rfl
          · exact .inl rfl
        taken := by
          intro k e' t he ht ho
          rw [List.mem_singleton.mp he, hs] at ht
          cases ht
          rw [hstate k, if_pos ho]
        left := by
          intro k hnot
          rw [hstate k, if_neg (hnot e s (List.mem_singleton_self _) hs)] }

theorem Tidy.discardAll (c : Str) : ∀ (gone : List (Str × Addr)) {r : SessionRegistry}, r.Tidy →
    DiscardedAll c gone r (gone.foldl (fun r e => r.discardAt e.2) r) := by
  intro gone
  induction gone with
  | nil =>
      intro r _
      exact {
        maxQueue := rfl
        slowGrace := rfl
        queueDir := rfl
        heap := fun a s hs => ⟨s, hs, rfl, rfl, rfl⟩
        length := rfl
        entry := rfl
        core := fun a s hs => ⟨s, hs, rfl⟩
        kept := fun _ _ => rfl
        fewer := fun _ => .inl rfl
        taken := fun _ _ _ he => absurd he List.not_mem_nil
        left := fun _ _ => rfl }
  | cons e gone ih =>
      intro r h
      have hone := h.discardAt c e
      have htidy : (r.discardAt e.2).Tidy :=
        h.keep hone.toKeeps hone.length fun k a ha => by rwa [hone.entry] at ha
      have hrest := ih htidy
      rw [List.foldl_cons]
      exact {
        hone.toKeeps.trans hrest.toKeeps with
        length := hrest.length.trans hone.length
        entry := hrest.entry.trans hone.entry
        core := by
          intro a s hs
          obtain ⟨s', hs', hcore⟩ := hone.core a s hs
          obtain ⟨s'', hs'', hcore'⟩ := hrest.core a s' hs'
          exact ⟨s'', hs'', hcore'.trans hcore⟩
        kept := by
          intro a ha
          rw [hrest.kept a fun k hk => ha k (List.mem_cons_of_mem _ hk)]
          exact hone.kept a fun k hk => ha k (List.mem_singleton.mp hk ▸ List.mem_cons_self)
        fewer := by
          intro k
          rcases hrest.fewer k with hk | hk
          · rw [hk]
            exact hone.fewer k
          · exact .inr hk
        taken := by
          intro k e' s he hs ho
          rcases List.mem_cons.mp he with rfl | he
          · have hnone := hone.taken k e' s (List.mem_singleton_self _) hs ho
            rcases hrest.fewer k with hk | hk
            · exact hk.trans hnone
            · exact hk
          · obtain ⟨s', hs', hp⟩ := hone.heap e'.2 s hs
            exact hrest.taken k e' s' he hs' ((hone.owns c k s').mpr ((Owns.congr hp).mpr ho))
        left := by
          intro k hnot
          rw [hrest.left k, hone.left k]
          · exact fun e' s he hs => hnot e' s (List.mem_singleton.mp he ▸ List.mem_cons_self) hs
          · intro e' s' he hs' ho
            obtain ⟨hlt, _⟩ := List.getElem?_eq_some_iff.mp hs'
            rw [hone.length] at hlt
            have hs := List.getElem?_eq_getElem hlt
            obtain ⟨t, ht, hp⟩ := hone.heap e'.2 _ hs
            rw [hs'] at ht
            cases ht
            exact hnot e' _ (List.mem_cons_of_mem _ he) hs
              ((Owns.congr hp).mp ((hone.owns c k s').mp ho)) }

/-- **A sweep** discards the sessions that are registered and expired, and nothing else. -/
theorem Tidy.swept (h : r.Tidy) (c : Str) (expiry : Duration) (now : Instant) :
    Swept c expiry now r (r.sweep expiry now) := by
  have hlookup : ∀ k, (Keyed.retain (fun _ a => !r.expiredAt expiry now a) r.sessions).lookup k =
      (r.sessions.lookup k).filter fun a => !r.expiredAt expiry now a :=
    Keyed.lookup_retain _ r.sessions
  have htidy : ({ r with
      sessions := Keyed.retain (fun _ a => !r.expiredAt expiry now a) r.sessions } :
        SessionRegistry).Tidy :=
    h.keep (.of_heap ⟨rfl, rfl, rfl⟩ rfl) rfl fun k a ha =>
      (Option.filter_eq_some_iff.mp ((hlookup k).symm.trans ha)).1
  have hall :=
    htidy.discardAll c ((Keyed.pairs r.sessions).filter fun e => r.expiredAt expiry now e.2)
  have hgone : ∀ e, e ∈ ((Keyed.pairs r.sessions).filter fun e => r.expiredAt expiry now e.2) ↔
      r.sessions.lookup e.1 = some e.2 ∧ r.expiredAt expiry now e.2 = true := by
    intro e
    rw [List.mem_filter]
    exact and_congr_left' Keyed.mem_pairs
  exact {
    maxQueue := hall.maxQueue
    slowGrace := hall.slowGrace
    queueDir := hall.queueDir
    heap := hall.heap
    length := hall.length
    entry := fun k => (congrArg (fun m : AList fun _ : Str => Addr => m.lookup k) hall.entry).trans
      (hlookup k)
    core := hall.core
    kept := by
      intro a ha
      refine hall.kept a fun k hk => ?_
      rw [((hgone _).mp hk).2] at ha
      cases ha
    fewer := hall.fewer
    gone := fun k a s ha hexp hs ho => hall.taken k (c, a) s ((hgone _).mpr ⟨ha, hexp⟩) hs ho
    left := by
      intro k hnot
      refine hall.left k fun e s he hs ho => ?_
      obtain ⟨ha, hexp⟩ := (hgone e).mp he
      have hc : e.1 = c := (h.clientId_eq ha hs).symm.trans (h.clientId_of_owns hs ho)
      rw [hc] at ha
      exact hnot e.2 s ha hexp hs ho }

/-! ## Sequential attaches -/

/-- `attach_conn` on the session `s` at `a`, whose locked part did `k`. -/
structure Connected (c : Str) (a : Addr) (s : SessionState) (k : SessionState.AttachConn)
    (r r' : SessionRegistry) : Prop extends SameConfig r r' where
  heap : r'.heap = r.heap.set a k.session
  entry : r'.sessions = r.sessions
  queue : r'.state c .queue = if r.Owns c .queue s then none else r.state c .queue
  subs : r'.state c .subs = ({ r with disk := k.disk } : SessionRegistry).state c .subs

theorem removeState_eq (r : SessionRegistry) (c : Str) :
    r.removeState c = (r.removeFile (r.file c .queue)).removeFile (r.file c .subs) := by
  show r.removeState c = (r.removeFile (r.queuePath c)).removeFile (r.subsPath c)
  rw [removeState]
  cases r.queuePath c <;> cases r.subsPath c <;> rfl

theorem sameConfig_removeFile (r : SessionRegistry) (p : Option Path) :
    SameConfig r (r.removeFile p) ∧ (r.removeFile p).heap = r.heap ∧
      (r.removeFile p).sessions = r.sessions := by
  cases p <;> exact ⟨⟨rfl, rfl, rfl⟩, rfl, rfl⟩

/-- Both state files of `c` are gone, and nothing else. -/
theorem removeState_state (r : SessionRegistry) (c : Str) (k : FileKind) :
    (r.removeState c).state c k = none := by
  have hfile : r.file c .subs = (r.removeFile (r.file c .queue)).file c .subs :=
    ((sameConfig_removeFile r _).1.file c .subs).symm
  rw [removeState_eq, hfile, state_removeFile, state_removeFile]
  cases k with
  | queue => rw [if_neg (fun h => by cases h), if_pos rfl]
  | subs => rw [if_pos rfl]

/-- The registry a clean attach enters its new session in. -/
structure Cleared (c : Str) (r r₁ : SessionRegistry) : Prop extends SameConfig r r₁ where
  length : r₁.heap.length = r.heap.length
  entry : r₁.sessions = r.sessions
  core : ∀ (a : Addr) s, r.heap[a]? = some s → ∃ s', r₁.heap[a]? = some s' ∧ s'.core = s.core
  state : ∀ k, r₁.state c k = none

theorem Cleared.keeps {r₁ : SessionRegistry} (h : Cleared c r r₁) : Keeps r r₁ :=
  { h.toSameConfig with
    heap := by
      intro a s hs
      obtain ⟨s', hs', hcore⟩ := h.core a s hs
      exact ⟨s', hs', samePaths_of_core hcore⟩ }

theorem cleared_removeState (hlen : r'.heap.length = r.heap.length) (hconf : SameConfig r r')
    (hmap : r'.sessions = r.sessions)
    (hcore : ∀ (a : Addr) s, r.heap[a]? = some s → ∃ s', r'.heap[a]? = some s' ∧ s'.core = s.core) :
    Cleared c r (r'.removeState c) where
  maxQueue := hconf.maxQueue
  slowGrace := hconf.slowGrace
  queueDir := hconf.queueDir
  length := hlen
  entry := hmap
  core := hcore
  state := removeState_state r' c

/-- cleanSession=1: whether there is a session or not, a new one is made. -/
theorem Tidy.attachLookup_clean (h : r.Tidy) (c : Str) : ∃ r₁ n, Cleared c r r₁ ∧
    r.attachLookup c true = ⟨(r₁.addSession c none none).1, r.heap.length, false, n⟩ := by
  cases ha : r.sessions.lookup c with
  | none =>
      refine ⟨r.removeState c, none,
        cleared_removeState rfl ⟨rfl, rfl, rfl⟩ rfl fun _ s hs => ⟨s, hs, rfl⟩, ?_⟩
      simp only [attachLookup, ha]
      rfl
  | some a =>
      obtain ⟨s, hs, -⟩ := h.entries c a ha
      have hlen : (r.setSession a s.kickCurrent.1.abortSubs.1).heap.length = r.heap.length :=
        List.length_set
      refine ⟨(r.setSession a s.kickCurrent.1.abortSubs.1).removeState c, s.kickCurrent.2,
        cleared_removeState hlen ⟨rfl, rfl, rfl⟩ rfl fun b t ht => ?_, ?_⟩
      · by_cases hab : a = b
        · subst hab
          rw [hs] at ht
          cases ht
          exact ⟨_, Cells.set_self hs, s.kickCurrent_core⟩
        · exact ⟨t, (List.getElem?_set_ne hab).trans ht, rfl⟩
      · simp only [attachLookup, ha, hs]
        rw [← hlen]
        rfl

theorem attachLookup_resumed {a : Addr} (ha : r.sessions.lookup c = some a) :
    r.attachLookup c false =
    ⟨{ r with sessions := r.sessions.insert c a }, a, true, none⟩ := by
  simp only [attachLookup, ha]

theorem attachLookup_opened (ha : r.sessions.lookup c = none) : r.attachLookup c false =
    ⟨(r.addSession c (r.file c .queue) (r.file c .subs)).1, r.heap.length,
      (r.state c .queue).isSome || (r.state c .subs).isSome, none⟩ := by
  rw [← pathExists_file, ← pathExists_file]
  simp only [attachLookup, ha]
  rfl

section
variable [HashOrder] {a : Addr}

theorem Tidy.connected (h : r.Tidy) (hs : r.heap[a]? = some s) (hcid : s.clientId = c)
    (identity : Str) (sink : Sender) (kick : Notify) (hc : c ≠ []) :
    let k := s.attachConnLocked r.disk identity sink kick
    let p := r.attachConnAt a identity sink kick
    Connected c a s k r p.1 ∧ p.2.1 = k.epoch ∧ p.2.2.1 = k.backlog := by
  intro k p
  have hp : p = ({ r.setSession a k.session with disk := k.session.discardQueueFile k.disk },
      k.epoch, k.backlog, k.notified) := by
    show r.attachConnAt a identity sink kick = _
    simp only [attachConnAt, hs]
    rfl
  have hsame : SamePaths s k.session := by
    show SamePaths s (s.attachConnLocked r.disk identity sink kick).session
    rw [SessionState.attachConnLocked_session]
    exact ⟨rfl, rfl, rfl⟩
  rw [hp]
  refine ⟨⟨⟨rfl, rfl, rfl⟩, rfl, rfl, ?_, ?_⟩, rfl, rfl⟩
  · have htidy : ({ r.setSession a k.session with disk := k.disk } : SessionRegistry).Tidy :=
      h.keep (.set ⟨rfl, rfl, rfl⟩ hs hsame rfl) List.length_set fun _ _ h => h
    have hdiscard := htidy.state_discardFile (Cells.set_self hs) c .queue .queue
    rw [SessionState.discardFile_queue] at hdiscard
    refine hdiscard.trans ?_
    have howns : ({ r.setSession a k.session with disk := k.disk } : SessionRegistry).Owns c .queue
        k.session ↔ r.Owns c .queue s := Owns.congr hsame
    by_cases ho : r.Owns c .queue s
    · rw [if_pos ⟨rfl, howns.mpr ho⟩, if_pos ho]
    · rw [if_neg (fun h => ho (howns.mp h.2)), if_neg ho]
      exact h.state_attachConnLocked_queue hc hs hcid identity sink kick
  · have htidy : ({ r.setSession a k.session with disk := k.disk } : SessionRegistry).Tidy :=
      h.keep (.set ⟨rfl, rfl, rfl⟩ hs hsame rfl) List.length_set fun _ _ h => h
    have hdiscard := htidy.state_discardFile (Cells.set_self hs) c .subs .queue
    rw [SessionState.discardFile_queue, if_neg (fun h => by cases h.1)] at hdiscard
    exact hdiscard

/-- Whatever the registry is, an attach registers the session it returns. -/
theorem attach_registers (r : SessionRegistry) (c identity : Str) (clean : Bool) (sink : Sender)
    (kick : Notify) : (r.attach c identity clean sink kick).registry.sessions.lookup c =
      some (r.attach c identity clean sink kick).outcome.session := by
  have hconn : ∀ (r₁ : SessionRegistry) (b : Addr),
      (r₁.attachConnAt b identity sink kick).1.sessions = r₁.sessions := by
    intro r₁ b
    rw [attachConnAt]
    split <;> rfl
  show ((r.attachLookup c clean).registry.attachConnAt
    (r.attachLookup c clean).session identity sink
    kick).1.sessions.lookup c = some (r.attachLookup c clean).session
  rw [hconn]
  cases ha : r.sessions.lookup c with
  | none =>
      cases clean with
      | false => simp only [attachLookup, ha, addSession, AList.lookup_insert]
      | true => simp only [attachLookup, ha, addSession, AList.lookup_insert]
  | some b =>
      cases clean with
      | false => simp only [attachLookup, ha, AList.lookup_insert]
      | true =>
          cases hs : r.heap[b]? with
          | none => simp only [attachLookup, ha, hs]
          | some s => simp only [attachLookup, ha, hs, addSession, AList.lookup_insert]

end

end SessionRegistry

end Entmoot
