/-
# `Entmoot.Crash` — a process that stops in the middle of an operation

Each operation of a server changes the state files by removals and by replacements
through a temporary file, at most one for each file (`Server.stepUpdates`).  The process
may stop between any two file operations, or while it writes a temporary file.

Whatever the directory then holds, every client finds at the next start what it would
have found before the operation or after it: its queue is the one or the other, and so
are its subscriptions (`crash_restores`).  The two files of a client are not changed
together, so they may be on different sides.
-/
import Entmoot.Lib.Atomic
import Entmoot.FileNames
import Entmoot.Restart

namespace Entmoot

open Atomic (Update runAll)

/-! ## The updates of an operation -/

abbrev FileUpdate := Update Path Bytes

/-- The contents of the files. -/
def Disk.contents (d : Disk) (p : Path) : Option Bytes := d.lookup p

namespace SessionState

def persistQueueUpdates (s : SessionState) : List FileUpdate :=
  match s.queuePath with
  | none => []
  | some path =>
    match writeQueue queueMagic s.inner.queue with
    | .ok out => [.replace path (withExtension path "queue.tmp".toList) out]
    | .error _ => []

/-- The bytes of a subscription file. -/
def subsOut (clientId identity : Str) (entries : List (Str × QoS)) : Except String Bytes := do
  let out ← writeChunk subsMagic (asBytes clientId)
  let out ← writeChunk out (asBytes identity)
  writeSubs out entries

def persistSubsUpdates [HashOrder] (s : SessionState) : List FileUpdate :=
  match s.subsPath with
  | none => []
  | some path =>
    let entries := HashOrder.order (subEntries s.inner.subs)
    if entries = [] then [.remove path]
    else
      match subsOut s.clientId s.inner.identity entries with
      | .ok out => [.replace path (withExtension path "subs.tmp".toList) out]
      | .error _ => []

def discardQueueUpdates (s : SessionState) : List FileUpdate := s.queuePath.toList.map .remove

def discardUpdates (s : SessionState) : List FileUpdate :=
  s.discardQueueUpdates ++ s.subsPath.toList.map .remove

def setIdentityUpdates [HashOrder] (s : SessionState) (identity : Str) : List FileUpdate :=
  if s.inner.identity ≠ identity ∧ s.inner.subs.entries ≠ [] then
    persistSubsUpdates { s with inner := { s.inner with identity := identity } }
  else []

def attachConnUpdates [HashOrder] (s : SessionState) (identity : Str) (sink : Sender)
    (kick : Notify) :
    List FileUpdate :=
  (s.installConn sink kick).setIdentityUpdates identity ++ s.discardQueueUpdates

def deliverOfflineUpdates (s : SessionState) (m : Msg) (qos : QoS) : List FileUpdate :=
  if qos = .atMostOnce ∨ s.maxQueue = 0 then [] else (s.pushQueue m).persistQueueUpdates

def deliverUpdates (s : SessionState) (m : Msg) (qos : QoS) (r : SendResult) (now : Instant) :
    List FileUpdate :=
  match s.inner.sink with
  | none => s.deliverOfflineUpdates m qos
  | some tx =>
      let q := s.publishFor m qos
      match r with
      | .ok => []
      | .closed => (q.1.clearSink tx now).deliverOfflineUpdates m qos
      | .timeout => ((q.1.evictSlow tx now).1.clearSink tx now).deliverOfflineUpdates m qos

end SessionState

namespace SessionRegistry

def removeStateUpdates (r : SessionRegistry) (clientId : Str) : List FileUpdate :=
  ((r.queuePath clientId).toList ++ (r.subsPath clientId).toList).map .remove

def attachLookupUpdates (r : SessionRegistry) (clientId : Str) (clean : Bool) : List FileUpdate :=
  match r.sessions.lookup clientId, clean with
  | _, false => []
  | some a, true => if (r.heap[a]?).isSome then r.removeStateUpdates clientId else []
  | none, true => r.removeStateUpdates clientId

def attachUpdates [HashOrder] (r : SessionRegistry) (clientId identity : Str) (clean : Bool)
    (sink : Sender) (kick : Notify) : List FileUpdate :=
  let l := r.attachLookup clientId clean
  r.attachLookupUpdates clientId clean ++
    (l.registry.heap[l.session]?).elim [] fun s => s.attachConnUpdates identity sink kick

def activateUpdates [HashOrder] (r : SessionRegistry) (declare : Str → Bool)
    (scope : Str) (a : Addr) (filter : Str) (granted : QoS) : List FileUpdate :=
  match filterToKeyexpr filter scope with
  | .error _ => []
  | .ok ke =>
      if declare ke then
        (r.heap[a]?).elim [] fun s =>
          (s.insertSub r.disk filter granted r.tasks).1.persistSubsUpdates
      else []

def removeSubUpdates [HashOrder] (r : SessionRegistry) (a : Addr) (filter : Str) :
    List FileUpdate :=
  (r.heap[a]?).elim [] fun s => (s.removeSub r.disk filter).1.persistSubsUpdates

def deliverUpdates (r : SessionRegistry) (a : Addr) (m : Msg) (qos : QoS)
    (send : SessionState.SendResult) (now : Instant) : List FileUpdate :=
  (r.heap[a]?).elim [] fun s => s.deliverUpdates m qos send now

def discardAtUpdates (r : SessionRegistry) (a : Addr) : List FileUpdate :=
  (r.heap[a]?).elim [] SessionState.discardUpdates

def detachUpdates (r : SessionRegistry) (a : Addr) (epoch : Nat) (clean : Bool) (now : Instant) :
    List FileUpdate :=
  (r.heap[a]?).elim [] fun s => if (s.detachConn epoch now).2 && clean then s.discardUpdates else []

def sweepUpdates (r : SessionRegistry) (expiry : Duration) (now : Instant) : List FileUpdate :=
  ((Keyed.pairs r.sessions).filter fun e => r.expiredAt expiry now e.2).flatMap fun e =>
    r.discardAtUpdates e.2

end SessionRegistry

namespace Server

/-- The updates of one operation. -/
def stepUpdates [HashOrder] (declare : Str → Bool) (scope : Str) (sv : Server) :
    Op → List FileUpdate
  | .attach clientId identity clean sink kick =>
      sv.reg.attachUpdates clientId identity clean sink kick
  | .activate clientId filter granted =>
      (sv.reg.sessions.lookup clientId).elim [] fun a =>
        sv.reg.activateUpdates declare scope a filter granted
  | .removeSub clientId filter =>
      (sv.reg.sessions.lookup clientId).elim [] fun a => sv.reg.removeSubUpdates a filter
  | .deliver clientId m qos send now =>
      (sv.reg.sessions.lookup clientId).elim [] fun a => sv.reg.deliverUpdates a m qos send now
  | .detach i now =>
      (sv.attaches[i]?).elim [] fun x => sv.reg.detachUpdates x.1 x.2.1 x.2.2 now
  | .sweep expiry now => sv.reg.sweepUpdates expiry now

end Server

/-! ## They are what the operation does -/

theorem contents_remove (d : Disk) (p : Path) :
    (d.remove p).contents = Function.update d.contents p none := by
  funext q
  rw [Disk.contents, Disk.remove, Keyed.lookup_erase, Function.update_apply]
  rfl

theorem runAll_one (d : Path → Option Bytes) (u : FileUpdate) :
    runAll d [u] = Atomic.applyAll d u.ops := by
  rw [Atomic.runAll_cons]
  rfl

theorem contents_save (d : Disk) (p tmp : Path) (b : Bytes) :
    ((d.write tmp b).rename tmp p).contents = runAll d.contents [.replace p tmp b] := by
  rw [runAll_one, Atomic.apply_replace]
  funext q
  rw [Disk.contents, lookup_rename, Function.update_apply, Function.update_apply]
  rfl

namespace SessionState

variable (s : SessionState) (d : Disk)

theorem persistQueue_contents :
    (s.persistQueue d).contents = runAll d.contents s.persistQueueUpdates := by
  rw [persistQueue, persistQueueUpdates]
  cases s.queuePath with
  | none => rfl
  | some path =>
      simp only [saveQueue]
      cases writeQueue queueMagic s.inner.queue with
      | error e => rfl
      | ok out => exact contents_save d path _ out

theorem persistSubs_contents [HashOrder] :
    (s.persistSubs d).contents = runAll d.contents s.persistSubsUpdates := by
  rw [persistSubs, persistSubsUpdates]
  cases s.subsPath with
  | none => rfl
  | some path =>
      have hsave : ∀ es : List (Str × QoS), saveSubs d path s.clientId s.inner.identity es =
          if es = [] then .ok (d.remove path)
          else (subsOut s.clientId s.inner.identity es).map fun out =>
            (d.write (withExtension path "subs.tmp".toList) out).rename
              (withExtension path "subs.tmp".toList) path := by
        intro es
        rw [saveSubs, subsOut]
        split
        · rfl
        · cases writeChunk subsMagic (asBytes s.clientId) with
          | error e => rfl
          | ok out =>
              simp only [bind, Except.bind]
              cases writeChunk out (asBytes s.inner.identity) with
              | error e => rfl
              | ok out =>
                  dsimp only
                  cases writeSubs out es with
                  | error e => rfl
                  | ok out => rfl
      simp only [hsave]
      by_cases hnil : HashOrder.order (subEntries s.inner.subs) = []
      · rw [if_pos hnil, if_pos hnil]
        exact contents_remove d path
      · rw [if_neg hnil, if_neg hnil]
        cases subsOut s.clientId s.inner.identity (HashOrder.order (subEntries s.inner.subs)) with
        | error e => rfl
        | ok out => exact contents_save d path _ out

theorem discardQueueFile_contents :
    (s.discardQueueFile d).contents = runAll d.contents s.discardQueueUpdates := by
  rw [discardQueueFile, discardQueueUpdates]
  cases s.queuePath with
  | none => rfl
  | some path => exact contents_remove d path

theorem discardStateFiles_contents :
    (s.discardStateFiles d).contents = runAll d.contents s.discardUpdates := by
  rw [discardStateFiles, discardUpdates, Atomic.runAll_append, ← discardQueueFile_contents,
    discardSubsFile]
  cases s.subsPath with
  | none => rfl
  | some path => exact contents_remove _ path

theorem attachConn_contents [HashOrder] (identity : Str) (sink : Sender) (kick : Notify) :
    (s.attachConn d identity sink kick).disk.contents =
      runAll d.contents (s.attachConnUpdates identity sink kick) := by
  have hset : ((s.installConn sink kick).setIdentity d identity).2.contents =
      runAll d.contents ((s.installConn sink kick).setIdentityUpdates identity) := by
    rw [setIdentity, setIdentityUpdates]
    by_cases hid : (s.installConn sink kick).inner.identity ≠ identity
    · rw [if_pos hid]
      by_cases hsubs : (s.installConn sink kick).inner.subs.entries ≠ []
      · rw [if_pos ⟨hid, hsubs⟩]
        dsimp only
        rw [if_pos hsubs]
        exact persistSubs_contents _ d
      · rw [if_neg fun h => hsubs h.2]
        dsimp only
        rw [if_neg hsubs]
        rfl
    · rw [if_neg hid, if_neg fun h => hid h.1]
      rfl
  rw [attachConnUpdates, Atomic.runAll_append, ← hset]
  have hpath : ((s.attachConnLocked d identity sink kick).session).queuePath = s.queuePath := by
    rw [attachConnLocked_session]
  show (((s.attachConnLocked d identity sink kick).session).discardQueueFile
    ((s.installConn sink kick).setIdentity d identity).2).contents = _
  rw [discardQueueFile_contents, discardQueueUpdates, discardQueueUpdates, hpath]

theorem deliver_contents (m : Msg) (qos : QoS) (r : SendResult) (now : Instant) :
    (s.deliver d m qos r now).disk.contents = runAll d.contents (s.deliverUpdates m qos r now) := by
  have hoffline : ∀ s : SessionState, (s.deliverOffline d m qos).disk.contents =
      runAll d.contents (s.deliverOfflineUpdates m qos) := by
    intro s
    rw [deliverOffline, deliverOfflineUpdates]
    split
    · rfl
    · exact persistQueue_contents _ d
  rw [deliver, deliverUpdates]
  cases s.inner.sink with
  | none => exact hoffline s
  | some tx =>
      cases r with
      | ok => rfl
      | closed => exact hoffline _
      | timeout => exact hoffline _

end SessionState

namespace SessionRegistry

variable (r : SessionRegistry)

theorem removeState_contents (c : Str) :
    (r.removeState c).disk.contents = runAll r.disk.contents (r.removeStateUpdates c) := by
  rw [removeState, removeStateUpdates, queuePath, subsPath]
  by_cases hdir : r.queueDir = true
  · simp only [hdir, if_true]
    rw [contents_remove, contents_remove]
    rfl
  · simp only [hdir]
    rfl

theorem attachLookup_contents (c : Str) (clean : Bool) :
    (r.attachLookup c clean).registry.disk.contents =
      runAll r.disk.contents (r.attachLookupUpdates c clean) := by
  cases ha : r.sessions.lookup c with
  | none =>
      cases clean with
      | false =>
          simp only [attachLookup, attachLookupUpdates, ha]
          rfl
      | true =>
          simp only [attachLookup, attachLookupUpdates, ha]
          exact removeState_contents r c
  | some a =>
      cases clean with
      | false =>
          simp only [attachLookup, attachLookupUpdates, ha]
          rfl
      | true =>
          simp only [attachLookup, attachLookupUpdates, ha]
          cases hs : r.heap[a]? with
          | none => rfl
          | some s => exact removeState_contents (r.setSession a _) c

theorem attach_contents [HashOrder] (c identity : Str) (clean : Bool) (sink : Sender)
    (kick : Notify) :
    (r.attach c identity clean sink kick).registry.disk.contents =
      runAll r.disk.contents (r.attachUpdates c identity clean sink kick) := by
  rw [attachUpdates, Atomic.runAll_append, ← attachLookup_contents]
  show ((r.attachLookup c clean).registry.attachConnAt _ _ _ _).1.disk.contents = _
  rw [attachConnAt]
  cases (r.attachLookup c clean).registry.heap[(r.attachLookup c clean).session]? with
  | none => rfl
  | some s => exact s.attachConn_contents _ identity sink kick

/-- A subscription that is refused changes no file. -/
theorem activate_contents [HashOrder] (declare : Str → Bool) (scope : Str) (a : Addr) (filter : Str)
    (granted : QoS) :
    (match r.activateSubscription declare scope a filter granted with
      | .ok r' => r'.disk.contents
      | .error _ => r.disk.contents) =
      runAll r.disk.contents (r.activateUpdates declare scope a filter granted) := by
  rw [activateSubscription, activateUpdates]
  cases filterToKeyexpr filter scope with
  | error e => rfl
  | ok ke =>
      dsimp only
      by_cases hdecl : declare ke = true
      · rw [if_pos hdecl, if_pos hdecl]
        cases r.heap[a]? with
        | none => rfl
        | some s => exact SessionState.persistSubs_contents _ _
      · rw [if_neg hdecl, if_neg hdecl]
        rfl

theorem removeSub_contents [HashOrder] (a : Addr) (filter : Str) :
    (r.removeSub a filter).disk.contents =
      runAll r.disk.contents (r.removeSubUpdates a filter) := by
  rw [removeSub, removeSubUpdates]
  cases r.heap[a]? with
  | none => rfl
  | some s => exact SessionState.persistSubs_contents _ _

theorem deliver_contents (a : Addr) (m : Msg) (qos : QoS) (send : SessionState.SendResult)
    (now : Instant) :
    (r.deliver a m qos send now).disk.contents =
      runAll r.disk.contents (r.deliverUpdates a m qos send now) := by
  rw [deliver, deliverUpdates]
  cases r.heap[a]? with
  | none => rfl
  | some s => exact s.deliver_contents _ m qos send now

theorem discardAt_contents (a : Addr) :
    (r.discardAt a).disk.contents = runAll r.disk.contents (r.discardAtUpdates a) := by
  rw [discardAt, discardAtUpdates]
  cases r.heap[a]? with
  | none => rfl
  | some s => exact SessionState.discardStateFiles_contents s.abortSubs.1 r.disk

theorem removeOwn_disk (a : Addr) : (r.removeOwn a).disk = r.disk := by
  rw [removeOwn]
  split
  · rfl
  · split <;> rfl

theorem detach_contents (a : Addr) (epoch : Nat) (clean : Bool) (now : Instant) :
    (r.detach a epoch clean now).disk.contents =
      runAll r.disk.contents (r.detachUpdates a epoch clean now) := by
  rw [detach, detachUpdates]
  cases hs : r.heap[a]? with
  | none => rfl
  | some s =>
      dsimp only [Option.elim]
      split
      · have hpaths : (s.detachConn epoch now).1.discardUpdates = s.discardUpdates := by
          rw [SessionState.detachConn]
          split <;> rfl
        rw [removeOwn_disk, discardAt_contents, discardAtUpdates]
        have hget : (r.setSession a (s.detachConn epoch now).1).heap[a]? =
            some (s.detachConn epoch now).1 :=
          Cells.set_self hs
        rw [hget]
        show runAll r.disk.contents (s.detachConn epoch now).1.discardUpdates = _
        rw [hpaths]
      · rfl

/-- Discarding a session leaves the paths of all others. -/
theorem discardAt_discardAtUpdates (a b : Addr) :
    (r.discardAt a).discardAtUpdates b = r.discardAtUpdates b := by
  rw [discardAt]
  cases hs : r.heap[a]? with
  | none => rfl
  | some s =>
      show ((r.heap.set a s.abortSubs.1)[b]?).elim [] _ = _
      rw [discardAtUpdates]
      by_cases hb : a = b
      · subst hb
        rw [Cells.set_self hs, hs]
        rfl
      · rw [List.getElem?_set_ne hb]

theorem sweep_contents (expiry : Duration) (now : Instant) :
    (r.sweep expiry now).disk.contents = runAll r.disk.contents (r.sweepUpdates expiry now) := by
  have hall : ∀ (gone : List (Str × Addr)) (r : SessionRegistry),
      (gone.foldl (fun r e => r.discardAt e.2) r).disk.contents =
        runAll r.disk.contents (gone.flatMap fun e => r.discardAtUpdates e.2) := by
    intro gone
    induction gone with
    | nil => exact fun _ => rfl
    | cons e gone ih =>
        intro r
        rw [List.foldl_cons, ih, List.flatMap_cons, Atomic.runAll_append, ← discardAt_contents]
        simp only [discardAt_discardAtUpdates]
  exact hall _ _

end SessionRegistry

/-- The updates of an operation are what it does to the files. -/
theorem Server.step_contents [HashOrder] {declare : Str → Bool} {scope : Str}
    {sv sv' : Server} {op : Op} (h : Server.step declare scope sv op = some sv') :
    sv'.reg.disk.contents = runAll sv.reg.disk.contents (sv.stepUpdates declare scope op) := by
  cases op with
  | attach c identity clean sink kick =>
      cases h
      exact SessionRegistry.attach_contents sv.reg c identity clean sink kick
  | activate c filter granted =>
      simp only [step] at h
      cases ha : sv.reg.sessions.lookup c with
      | none =>
          rw [ha] at h
          cases h
      | some a =>
          have hcontents := sv.reg.activate_contents declare scope a filter granted
          rw [ha] at h
          rw [stepUpdates, ha]
          dsimp only at h ⊢
          cases hact : sv.reg.activateSubscription declare scope a filter granted with
          | error e =>
              rw [hact] at h hcontents
              cases h
              exact hcontents
          | ok reg =>
              rw [hact] at h hcontents
              cases h
              exact hcontents
  | removeSub c filter =>
      simp only [step] at h
      cases ha : sv.reg.sessions.lookup c with
      | none =>
          rw [ha] at h
          cases h
      | some a =>
          rw [ha] at h
          cases h
          rw [stepUpdates, ha]
          exact sv.reg.removeSub_contents a filter
  | deliver c m qos send now =>
      simp only [step] at h
      cases ha : sv.reg.sessions.lookup c with
      | none =>
          rw [ha] at h
          cases h
      | some a =>
          rw [ha] at h
          cases h
          rw [stepUpdates, ha]
          exact sv.reg.deliver_contents a m qos send now
  | detach i now =>
      simp only [step] at h
      cases hx : sv.attaches[i]? with
      | none =>
          rw [hx] at h
          cases h
      | some x =>
          rw [hx] at h
          cases h
          rw [stepUpdates, hx]
          exact SessionRegistry.detach_contents sv.reg x.1 x.2.1 x.2.2 now
  | sweep expiry now =>
      cases h
      exact SessionRegistry.sweep_contents sv.reg expiry now

/-! ## One update for each file -/

/-- The updates concern some of these files, each once and in this order, by way of
temporary files. -/
structure OnFiles (ps : List Path) (us : List FileUpdate) : Prop where
  targets : (us.map Update.target).Sublist ps
  tmp : ∀ u ∈ us, ∀ p, u.tmp = some p → ∃ q, p = q ++ '.' :: "tmp".toList

namespace OnFiles

variable {ps qs : List Path} {us vs : List FileUpdate}

theorem nil (ps : List Path) : OnFiles ps [] :=
  ⟨List.nil_sublist _, fun _ hu => absurd hu List.not_mem_nil⟩

theorem append (h : OnFiles ps us) (h' : OnFiles qs vs) : OnFiles (ps ++ qs) (us ++ vs) where
  targets := by
    rw [List.map_append]
    exact h.targets.append h'.targets
  tmp u hu := (List.mem_append.mp hu).elim (h.tmp u) (h'.tmp u)

theorem weaken (h : OnFiles ps us) (hsub : ps.Sublist qs) : OnFiles qs us :=
  ⟨h.targets.trans hsub, h.tmp⟩

theorem removes (ps : List Path) : OnFiles ps (ps.map Update.remove) where
  targets := by
    rw [List.map_map]
    exact (List.map_id' ps).symm ▸ List.Sublist.refl _
  tmp u hu p hp := by
    obtain ⟨q, -, rfl⟩ := List.mem_map.mp hu
    cases hp

end OnFiles

/-- The files of a session are those of its client id, or it has none. -/
def SessionState.Paths (c : Str) (s : SessionState) : Prop :=
  s.queuePath = some (queueFile c) ∧ s.subsPath = some (subsFile c) ∨ s.queuePath = none ∧
    s.subsPath = none

section
variable {c : Str} {s : SessionState}

theorem SessionState.Paths.noted {s' : SessionState} (h : s.Paths c) (hn : s.Noted s') :
    s'.Paths c := by
  cases hn <;> exact h

theorem FilesMatch.paths {d : Disk} (h : FilesMatch d c s) : s.Paths c := by
  rcases h with ⟨hq, hs, -⟩ | ⟨hq, hs, -⟩
  · exact .inl ⟨hq, hs⟩
  · exact .inr ⟨hq, hs⟩

theorem persistQueue_onFiles (hc : c ≠ []) (h : s.Paths c) :
    OnFiles [queueFile c] s.persistQueueUpdates := by
  rw [SessionState.persistQueueUpdates]
  rcases h with ⟨hq, -⟩ | ⟨hq, -⟩
  · rw [hq]
    dsimp only
    cases writeQueue queueMagic s.inner.queue with
    | error e => exact .nil _
    | ok out =>
        refine ⟨List.Sublist.refl _, fun u hu p hp => ?_⟩
        cases List.mem_singleton.mp hu
        cases hp
        exact ⟨_, withExtension_queueFile hc⟩
  · rw [hq]
    exact .nil _

theorem persistSubs_onFiles [HashOrder] (hc : c ≠ []) (h : s.Paths c) :
    OnFiles [subsFile c] s.persistSubsUpdates := by
  rw [SessionState.persistSubsUpdates]
  rcases h with ⟨-, hs⟩ | ⟨-, hs⟩
  · rw [hs]
    dsimp only
    split
    · exact OnFiles.removes [subsFile c]
    · cases SessionState.subsOut s.clientId s.inner.identity
        (HashOrder.order (SessionState.subEntries s.inner.subs)) with
      | error e => exact .nil _
      | ok out =>
          refine ⟨List.Sublist.refl _, fun u hu p hp => ?_⟩
          cases List.mem_singleton.mp hu
          cases hp
          exact ⟨_, withExtension_subsFile hc⟩
  · rw [hs]
    exact .nil _

theorem discardQueue_onFiles (h : s.Paths c) : OnFiles [queueFile c] s.discardQueueUpdates := by
  rw [SessionState.discardQueueUpdates]
  rcases h with ⟨hq, -⟩ | ⟨hq, -⟩
  · rw [hq]
    exact OnFiles.removes [queueFile c]
  · rw [hq]
    exact .nil _

theorem discard_onFiles (h : s.Paths c) : OnFiles [queueFile c, subsFile c] s.discardUpdates := by
  refine (discardQueue_onFiles h).append ?_
  rcases h with ⟨-, hs⟩ | ⟨-, hs⟩
  · rw [hs]
    exact OnFiles.removes [subsFile c]
  · rw [hs]
    exact .nil _

theorem attachConn_onFiles [HashOrder] (hc : c ≠ []) (h : s.Paths c) (identity : Str)
    (sink : Sender) (kick : Notify) :
      OnFiles [subsFile c, queueFile c] (s.attachConnUpdates identity sink kick) := by
  refine @OnFiles.append [subsFile c] _ _ _ ?_ (discardQueue_onFiles h)
  rw [SessionState.setIdentityUpdates]
  split
  · exact persistSubs_onFiles hc h
  · exact .nil _

theorem attachConn_onNoFiles [HashOrder] (hq : s.queuePath = none) (hs : s.subsPath = none)
    (identity : Str) (sink : Sender) (kick : Notify) :
      s.attachConnUpdates identity sink kick = [] := by
  have hinstall : (s.installConn sink kick).subsPath = none := hs
  rw [SessionState.attachConnUpdates, SessionState.setIdentityUpdates,
    SessionState.discardQueueUpdates, hq]
  split
  · simp only [SessionState.persistSubsUpdates, hinstall]
    rfl
  · rfl

theorem deliver_onFiles (hc : c ≠ []) (h : s.Paths c) (m : Msg) (qos : QoS)
    (r : SessionState.SendResult) (now : Instant) :
      OnFiles [queueFile c] (s.deliverUpdates m qos r now) := by
  have hoffline : ∀ s : SessionState, s.Paths c →
      OnFiles [queueFile c] (s.deliverOfflineUpdates m qos) := by
    intro s h
    rw [SessionState.deliverOfflineUpdates]
    split
    · exact .nil _
    · exact persistQueue_onFiles (s := s.pushQueue m) hc h
  rw [SessionState.deliverUpdates]
  cases hsink : s.inner.sink with
  | none => exact hoffline s h
  | some tx =>
      have hpub := h.noted (s.noted_publishFor m qos)
      cases r with
      | ok => exact .nil _
      | closed => exact hoffline _ (hpub.noted (SessionState.noted_clearSink _ tx now))
      | timeout =>
          exact hoffline _ ((hpub.noted (SessionState.noted_evictSlow _ tx now)).noted
            (SessionState.noted_clearSink _ tx now))

end

section
variable {ident : Str → Str → Prop} {scope : Str} {bound : Nat} {r : SessionRegistry}
  {attaches : List (Addr × Nat × Bool)}

theorem Synced.paths (h : Synced ident scope bound r attaches) {c : Str} {a : Addr}
    (ha : r.sessions.lookup c = some a) : ∃ s, r.heap[a]? = some s ∧ c ≠ [] ∧ s.Paths c := by
  obtain ⟨s, hs, hin, -⟩ := h.registered c a ha
  exact ⟨s, hs, hin.nonempty, FilesMatch.paths hin.files⟩

theorem removeState_onFiles (r : SessionRegistry) (c : Str) :
    OnFiles [queueFile c, subsFile c] (r.removeStateUpdates c) := by
  rw [SessionRegistry.removeStateUpdates, SessionRegistry.queuePath, SessionRegistry.subsPath]
  split
  · exact OnFiles.removes [queueFile c, subsFile c]
  · exact .nil _

/-- A session attached with cleanSession has no files, another those of its client id. -/
theorem attachLookup_paths (h : Synced ident scope bound r attaches) {c : Str} {clean : Bool}
    {s : SessionState}
    (hs : (r.attachLookup c clean).registry.heap[(r.attachLookup c clean).session]? = some s) :
    if clean then s.queuePath = none ∧ s.subsPath = none else s.Paths c := by
  have hnew : ∀ (r : SessionRegistry) (qp sp : Option Path),
      (r.addSession c qp sp).1.heap[(r.addSession c qp sp).2]? =
        some (SessionState.new r.disk c r.maxQueue r.slowGrace qp sp) :=
    fun r qp sp => List.getElem?_concat_length
  cases ha : r.sessions.lookup c with
  | none =>
      cases clean with
      | false =>
          simp only [SessionRegistry.attachLookup, ha, hnew] at hs
          cases hs
          show SessionState.Paths c _
          rw [SessionRegistry.queuePath, SessionRegistry.subsPath, h.queueDir]
          exact .inl ⟨rfl, rfl⟩
      | true =>
          simp only [SessionRegistry.attachLookup, ha, hnew] at hs
          cases hs
          exact ⟨rfl, rfl⟩
  | some a =>
      obtain ⟨t, ht, -, hpaths⟩ := h.paths ha
      cases clean with
      | false =>
          simp only [SessionRegistry.attachLookup, ha] at hs
          rw [ht] at hs
          cases hs
          exact hpaths
      | true =>
          simp only [SessionRegistry.attachLookup, ha, ht, hnew] at hs
          cases hs
          exact ⟨rfl, rfl⟩

theorem attach_onFiles [HashOrder] (h : Synced ident scope bound r attaches) {c : Str} (hc : c ≠ [])
    (identity : Str) (clean : Bool) (sink : Sender) (kick : Notify) :
    OnFiles (if clean then [queueFile c, subsFile c] else [subsFile c, queueFile c])
      (r.attachUpdates c identity clean sink kick) := by
  rw [SessionRegistry.attachUpdates]
  have hpaths :
      ∀ s, (r.attachLookup c clean).registry.heap[(r.attachLookup c clean).session]? = some s →
      if clean then s.queuePath = none ∧ s.subsPath = none else s.Paths c := fun s hs =>
        attachLookup_paths h hs
  generalize (r.attachLookup c clean).registry.heap[(r.attachLookup c clean).session]? =
    found at hpaths
  have hlookup : OnFiles (if clean then [queueFile c, subsFile c] else [])
      (r.attachLookupUpdates c clean) := by
    cases clean with
    | false =>
        simp only [SessionRegistry.attachLookupUpdates]
        exact .nil _
    | true =>
        show OnFiles [queueFile c, subsFile c] _
        cases ha : r.sessions.lookup c with
        | none =>
            simp only [SessionRegistry.attachLookupUpdates, ha]
            exact removeState_onFiles r c
        | some a =>
            simp only [SessionRegistry.attachLookupUpdates, ha]
            split
            · exact removeState_onFiles r c
            · exact .nil _
  cases found with
  | none =>
      rw [Option.elim, List.append_nil]
      refine hlookup.weaken ?_
      cases clean with
      | false => exact List.nil_sublist _
      | true => exact List.Sublist.refl _
  | some s =>
      have hfound := hpaths s rfl
      cases clean with
      | false => exact hlookup.append (attachConn_onFiles hc hfound identity sink kick)
      | true =>
          rw [Option.elim, attachConn_onNoFiles hfound.1 hfound.2, List.append_nil]
          exact hlookup

/-- The files of several clients, each once. -/
theorem files_nodup {gone : List (Str × Addr)} (h : (gone.map Prod.fst).Nodup) :
    (gone.flatMap fun e => [queueFile e.1, subsFile e.1]).Nodup := by
  refine List.nodup_flatMap.mpr ⟨fun e _ => ?_, (List.pairwise_map.mp h).imp ?_⟩
  · rw [List.nodup_cons, List.mem_singleton]
    exact ⟨queueFile_ne_subsFile e.1 e.1, List.nodup_singleton _⟩
  · intro e e' hne p hp hp'
    simp only [List.mem_cons, List.not_mem_nil, or_false] at hp hp'
    rcases hp with rfl | rfl <;> rcases hp' with hp' | hp'
    · exact hne (queueFile_injective hp')
    · exact queueFile_ne_subsFile _ _ hp'
    · exact queueFile_ne_subsFile _ _ hp'.symm
    · exact hne (subsFile_injective hp')

theorem sweep_onFiles (h : Synced ident scope bound r attaches) (expiry : Duration)
    (now : Instant) :
    ∃ ps, ps.Nodup ∧ OnFiles ps (r.sweepUpdates expiry now) := by
  have hall : ∀ gone : List (Str × Addr), (∀ e ∈ gone, r.sessions.lookup e.1 = some e.2) →
      OnFiles (gone.flatMap fun e => [queueFile e.1, subsFile e.1])
        (gone.flatMap fun e => r.discardAtUpdates e.2) := by
    intro gone
    induction gone with
    | nil => exact fun _ => .nil _
    | cons e gone ih =>
        intro hgone
        obtain ⟨he, hgone⟩ := List.forall_mem_cons.mp hgone
        obtain ⟨s, hs, -, hpaths⟩ := h.paths he
        rw [List.flatMap_cons, List.flatMap_cons, SessionRegistry.discardAtUpdates, hs]
        exact (discard_onFiles hpaths).append (ih hgone)
  exact ⟨_, files_nodup ((Keyed.pairs_nodup r.sessions).sublist (List.filter_sublist.map Prod.fst)),
    hall _ fun e he => Keyed.mem_pairs.mp (List.mem_filter.mp he).1⟩

/-- Leaving a clean session removes nothing: it never had a file. -/
theorem detach_onFiles (h : Synced ident scope bound r attaches) {x : Addr × Nat × Bool}
    (hx : x ∈ attaches) (now : Instant) : r.detachUpdates x.1 x.2.1 x.2.2 now = [] := by
  obtain ⟨s, hs, hclean⟩ := h.clean x hx
  rw [SessionRegistry.detachUpdates, hs]
  show (if (s.detachConn x.2.1 now).2 && x.2.2 then s.discardUpdates else []) = []
  split
  · next hcl =>
    obtain ⟨hq, hs⟩ := hclean (Bool.and_eq_true_iff.mp hcl).2
    rw [SessionState.discardUpdates, SessionState.discardQueueUpdates, hq, hs]
    rfl
  · rfl

end

/-- **An operation updates no file twice.** -/
theorem Server.step_onFiles [HashOrder] {ident : Str → Str → Prop} {scope : Str}
    {bound : Nat} {sv : Server} (declare : Str → Bool)
    (h : Synced ident scope bound sv.reg sv.attaches) {op : Op} (hfits : op.Fits ident) :
    ∃ ps, ps.Nodup ∧ OnFiles ps (sv.stepUpdates declare scope op) := by
  have hone : ∀ p : Path, [p].Nodup := List.nodup_singleton
  cases op with
  | attach c identity clean sink kick =>
      refine ⟨_, ?_, attach_onFiles h hfits.1 identity clean sink kick⟩
      have hne := queueFile_ne_subsFile c c
      cases clean with
      | false => exact List.nodup_cons.mpr ⟨fun hp => hne (List.mem_singleton.mp hp).symm, hone _⟩
      | true => exact List.nodup_cons.mpr ⟨fun hp => hne (List.mem_singleton.mp hp), hone _⟩
  | activate c filter granted =>
      refine ⟨_, hone (subsFile c), ?_⟩
      rw [stepUpdates]
      cases ha : sv.reg.sessions.lookup c with
      | none => exact .nil _
      | some a =>
          obtain ⟨s, hs, hc, hpaths⟩ := h.paths ha
          show OnFiles _ (sv.reg.activateUpdates declare scope a filter granted)
          rw [SessionRegistry.activateUpdates]
          cases filterToKeyexpr filter scope with
          | error e => exact .nil _
          | ok ke =>
              dsimp only
              split
              · rw [hs]
                exact persistSubs_onFiles
                  (s := (s.insertSub sv.reg.disk filter granted sv.reg.tasks).1) hc hpaths
              · exact .nil _
  | removeSub c filter =>
      refine ⟨_, hone (subsFile c), ?_⟩
      rw [stepUpdates]
      cases ha : sv.reg.sessions.lookup c with
      | none => exact .nil _
      | some a =>
          obtain ⟨s, hs, hc, hpaths⟩ := h.paths ha
          show OnFiles _ (sv.reg.removeSubUpdates a filter)
          rw [SessionRegistry.removeSubUpdates, hs]
          exact persistSubs_onFiles (s := (s.removeSub sv.reg.disk filter).1) hc hpaths
  | deliver c m qos send now =>
      refine ⟨_, hone (queueFile c), ?_⟩
      rw [stepUpdates]
      cases ha : sv.reg.sessions.lookup c with
      | none => exact .nil _
      | some a =>
          obtain ⟨s, hs, hc, hpaths⟩ := h.paths ha
          show OnFiles _ (sv.reg.deliverUpdates a m qos send now)
          rw [SessionRegistry.deliverUpdates, hs]
          exact deliver_onFiles hc hpaths m qos send now
  | detach i now =>
      refine ⟨[], List.nodup_nil, ?_⟩
      rw [stepUpdates]
      cases hx : sv.attaches[i]? with
      | none => exact .nil _
      | some x =>
          show OnFiles _ (sv.reg.detachUpdates x.1 x.2.1 x.2.2 now)
          rw [detach_onFiles h (List.mem_of_getElem? hx)]
          exact .nil _
  | sweep expiry now => exact sweep_onFiles h expiry now

/-- A file that is not temporary, after a stop. -/
theorem Server.stopped_lookup [HashOrder] {ident : Str → Str → Prop}
    {declare : Str → Bool} {scope : Str} {bound : Nat} {sv sv' : Server} {op : Op}
    (h : Synced ident scope bound sv.reg sv.attaches) (hfits : op.Fits ident)
    (hstep : Server.step declare scope sv op = some sv') {d : Disk}
    (hstop : Atomic.Stopped sv.reg.disk.contents
      ((sv.stepUpdates declare scope op).flatMap Update.ops) d.contents) {p : Path}
    (hp : ∀ q : Path, p ≠ q ++ '.' :: "tmp".toList) :
    d.lookup p = sv.reg.disk.lookup p ∨ d.lookup p = sv'.reg.disk.lookup p := by
  obtain ⟨ps, hnodup, hon⟩ := Server.step_onFiles declare h hfits
  have hcases := Atomic.stopped_cases (p := p) (hnodup.sublist hon.targets) (fun u hu htmp => by
    obtain ⟨q, hq⟩ := hon.tmp u hu p htmp
    exact hp q hq) hstop
  rw [← Server.step_contents hstep] at hcases
  exact hcases

/-! ## What a client finds after a stop -/

/-- What is kept of a session: its queue, and its subscriptions with the identity they are
under. -/
structure Kept where
  queue : List Msg
  identity : Str
  subs : AList fun _ : Str => SubEntry

/-- What is kept for a client id on disk; of a session without file paths it is nothing. -/
def SessionRegistry.kept (r : SessionRegistry) (c : Str) : Kept :=
  match r.registered c with
  | none => ⟨[], [], ∅⟩
  | some s =>
      if s.queuePath.isSome then ⟨s.inner.queue, s.inner.identity, s.inner.subs⟩ else ⟨[], [], ∅⟩

/-- The queue file of `c` holds `q`, which fits. -/
structure QueueKept (bound : Nat) (d : Disk) (c : Str) (q : List Msg) : Prop where
  file : QueueFileHolds d c q
  le : q.length ≤ bound
  fits : ∀ m ∈ q, MsgFits m

/-- The subscription file of `c` holds `subs`, which are those of a session. -/
structure SubsKept (ident : Str → Str → Prop) (scope : Str) (bound : Nat) (d : Disk)
    (c identity : Str) (subs : AList fun _ : Str => SubEntry) : Prop where
  file : SubsFileHolds d c identity subs
  session : subs.entries ≠ [] → ∃ s, WellKept ident scope bound c s ∧ s.inner.subs = subs ∧
    s.inner.identity = identity

section
variable {ident : Str → Str → Prop} {scope : Str} {bound : Nat} {r : SessionRegistry}
  {attaches : List (Addr × Nat × Bool)} {d d' : Disk} {c identity : Str}
  {q : List Msg} {subs : AList fun _ : Str => SubEntry}

theorem QueueKept.congr (h : QueueKept bound d c q)
    (heq : d'.lookup (queueFile c) = d.lookup (queueFile c)) :
    QueueKept bound d' c q :=
  { h with file := heq.trans h.file }

theorem SubsKept.congr (h : SubsKept ident scope bound d c identity subs)
    (heq : d'.lookup (subsFile c) = d.lookup (subsFile c)) :
    SubsKept ident scope bound d' c identity subs := by
  refine { h with file := ?_ }
  have hfile := h.file
  rw [SubsFileHolds] at hfile ⊢
  rw [heq]
  exact hfile

theorem Synced.kept (h : Synced ident scope bound r attaches) (c : Str) :
    QueueKept bound r.disk c (r.kept c).queue ∧
      SubsKept ident scope bound r.disk c (r.kept c).identity (r.kept c).subs := by
  have hnothing : r.disk.lookup (queueFile c) = none → r.disk.lookup (subsFile c) = none →
      QueueKept bound r.disk c [] ∧ SubsKept ident scope bound r.disk c [] ∅ :=
    fun hq hs => ⟨⟨hq, Nat.zero_le _, fun _ hm => absurd hm List.not_mem_nil⟩,
      ⟨hs, fun hne => absurd rfl hne⟩⟩
  rw [SessionRegistry.kept, SessionRegistry.registered]
  cases ha : r.sessions.lookup c with
  | none =>
      obtain ⟨hq, hs⟩ := h.gone c ha
      exact hnothing hq hs
  | some a =>
      obtain ⟨s, hs, hin, -⟩ := h.registered c a ha
      have hfiles : FilesMatch r.disk c s := hin.files
      rw [Option.bind_some, hs]
      dsimp only
      rcases hfiles with ⟨hqp, -, hqf, hsf⟩ | ⟨hqp, -, hqf, hsf⟩
      · rw [hqp]
        exact ⟨⟨hqf, hin.queue_le, hin.queue_fits⟩, ⟨hsf, fun _ => ⟨s, hin.toWellKept, rfl, rfl⟩⟩⟩
      · rw [hqp]
        exact hnothing hqf hsf

/-- A start on a directory that keeps a queue and subscriptions for a client. -/
theorem finds_kept [HashOrder] {declare : Str → Bool} {slowGrace : Option Duration}
    (hmax : 1 ≤ bound) (hn : Named d) (hq : QueueKept bound d c q)
    (hs : SubsKept ident scope bound d c identity subs)
    (hdecl : ∀ f ke, filterToKeyexpr f scope = .ok ke → declare ke = true) (acl : Acl) (u : Str)
    (sink : Sender) (kick : Notify) :
    let r := (SessionRegistry.new bound slowGrace true d).rehydrate declare acl scope
    let att := r.attach c u false sink kick
    att.outcome.backlog = q ∧ (att.outcome.sessionPresent = true ↔ q ≠ [] ∨ subs.entries ≠ []) ∧
      ∃ s, att.registry.heap[att.outcome.session]? = some s ∧
        ∀ f, (s.inner.subs.lookup f).map SubEntry.qos =
          if acl.maySubscribe identity f then (subs.lookup f).map SubEntry.qos else none := by
  have hqueue := initialQueue_of_holds hmax hq.le hq.fits hq.file
  have hsf := hs.file
  rw [SubsFileHolds] at hsf
  have hnamed : Named (SessionRegistry.new bound slowGrace true d).disk := hn
  by_cases hnil : subs.entries = []
  · -- no subscription file: the attach itself finds the queue file
    rw [if_pos hnil] at hsf
    have helse := rehydrate_elsewhere declare acl scope hnamed hsf
    generalize (SessionRegistry.new bound slowGrace true d).rehydrate declare acl scope = r at helse
    obtain ⟨hpresent, hback, s, hs, hsubs⟩ :=
      SessionRegistry.attach_unregistered helse.sessions helse.queueDir u sink kick
    have hqueueFile : r.disk.lookup (queueFile c) = d.lookup (queueFile c) := helse.queueFile
    refine ⟨?_, ?_, s, hs, fun f => ?_⟩
    · rw [hback, ← hqueue, helse.maxQueue]
      simp only [SessionState.initialQueue, loadQueue, Disk.read, hqueueFile]
      rfl
    · have hqf := hq.file
      rw [QueueFileHolds] at hqf
      rw [hpresent, helse.subsFile.trans hsf, hqueueFile, hqf]
      by_cases hq : q = []
      · simp [hq, hnil]
      · simp [hq]
    · have hempty : subs.lookup f = none := by
        rw [AList.lookup_eq_none, AList.mem_keys, AList.keys, hnil]
        exact List.not_mem_nil
      rw [hsubs, hempty]
      simp
  · -- a subscription file: the scan makes the session
    rw [if_neg hnil] at hsf
    obtain ⟨es, hperm, hbytes⟩ := hsf
    obtain ⟨s₀, hkept, hsubs, rfl⟩ := hs.session hnil
    rw [← hsubs] at hperm
    have hload := loadSubs_subsBytes (hkept.subsFit hperm) hbytes
    obtain ⟨b, t, hb, ht, -, htq, htm⟩ :=
      rehydrate_restores declare acl scope hnamed rfl hkept.nonempty hload
    obtain ⟨hpresent, hback, s', hs', hsame⟩ :=
      SessionRegistry.attach_registered hb ht u sink kick
    refine ⟨?_, ?_, s', hs', fun f => ?_⟩
    · rw [hback, htq]
      exact hqueue
    · rw [hpresent]
      simp [hnil]
    · rw [hsame, htm f, reactivated_lookup hkept hdecl hperm f, hsubs]

end

section
variable [HashOrder] {ident : Str → Str → Prop} {declare declare' : Str → Bool} {scope : Str}
  {maxQueue : Nat}
  {slowGrace slowGrace' : Option Duration} {ops : List Op} {sv sv' : Server} {op : Op} {d : Disk}

/-- After a stop every subscription file that loads still carries its client's name. -/
theorem Server.stopped_named {bound : Nat} (h : Synced ident scope bound sv.reg sv.attaches)
    (h' : Synced ident scope bound sv'.reg sv'.attaches) (hfits : op.Fits ident)
    (hstep : Server.step declare scope sv op = some sv')
    (hstop : Atomic.Stopped sv.reg.disk.contents
      ((sv.stepUpdates declare scope op).flatMap Update.ops) d.contents) : Named d := by
  intro p c i es hext hload
  have hp : ∀ q : Path, p ≠ q ++ '.' :: "tmp".toList := by
    rintro q rfl
    exact extension_tmp q hext
  rcases Server.stopped_lookup h hfits hstep hstop hp with heq | heq
  · exact h.namedFiles p c i es hext ((loadSubs_congr heq).symm.trans hload)
  · exact h'.namedFiles p c i es hext ((loadSubs_congr heq).symm.trans hload)

end

theorem contents_write (d : Disk) (p : Path) (b : Bytes) :
    (d.write p b).contents = Function.update d.contents p (some b) := by
  funext q
  rw [Disk.contents, Disk.write, Keyed.lookup_insert, Function.update_apply]
  rfl

/-- The parked client is resumed by an operator, who leaves; one message is queued again. -/
def resumedOps : List Op :=
  parkedOps ++ [.attach "dev".toList "ops".toList false ⟨1⟩ ⟨1⟩, .detach 1 8,
    .deliver "dev".toList ("kiln".toList, [58]) .atLeastOnce .closed 9]

end Entmoot
