/-
# `Entmoot.Restart` — a session brought back from its files

`rehydrate` reads every subscription file of the directory and makes one session
of each.  As long as each such file carries the name of its client id (`Named`),
a turn of the scan on another client's file changes nothing for this one
(`rehydrateStep_elsewhere`), and the turn on its own file gives it back its queue
and those of its subscriptions the ACL still permits (`rehydrateOne_ok`).

With `Server.synced_exec` this says what a restart restores after any operations:
the queue of every persistent session as it was, and its permitted subscriptions
(`restart_restores`).
-/
import Entmoot.Synced
import Entmoot.Reading

namespace Entmoot

/-! ## Subscription files and their names -/

/-- Every subscription file that loads carries the name of its client id. -/
def Named (d : Disk) : Prop :=
  ∀ p c i es, extension p = some "subs".toList → loadSubs d p = .ok (c, i, es) → p = subsFile c

theorem loadSubs_congr {d d' : Disk} {p : Path} (h : d'.lookup p = d.lookup p) :
    loadSubs d' p = loadSubs d p := by
  simp only [loadSubs, Disk.read, h]

theorem loadSubs_isSome {d : Disk} {p : Path} {x : LoadedSubs} (h : loadSubs d p = .ok x) :
    (d.lookup p).isSome := by
  cases hp : d.lookup p with
  | some b => rfl
  | none =>
      simp only [loadSubs, Disk.read, hp, bind, Except.bind] at h
      cases h

theorem ne_nil_of_extension {c : Str} (h : extension (subsFile c) = some "subs".toList) :
    c ≠ [] := by
  rintro rfl
  revert h
  decide

/-- Only the subscription file of `c` may have been written, and under its name. -/
structure SubsWritten (c : Str) (d d' : Disk) : Prop where
  files : OnlyFiles c d d'
  queue : d'.lookup (queueFile c) = d.lookup (queueFile c)
  named : Named d → Named d'

namespace SubsWritten

variable {c : Str} {d d' d'' : Disk}

theorem refl (c : Str) (d : Disk) : SubsWritten c d d := ⟨.refl c d, rfl, id⟩

theorem trans (h : SubsWritten c d d') (h' : SubsWritten c d' d'') : SubsWritten c d d'' :=
  ⟨h.files.trans h'.files, h'.queue.trans h.queue, fun hn => h'.named (h.named hn)⟩

theorem remove (c : Str) (d : Disk) : SubsWritten c d (d.remove (subsFile c)) where
  files := .removeSubs c d
  queue := by rw [Disk.remove, Keyed.lookup_erase, if_neg (queueFile_ne_subsFile c c)]
  named := by
    intro hn p c' i es hext hload
    have hp : p ≠ subsFile c := by
      rintro rfl
      have hsome := loadSubs_isSome hload
      rw [Disk.remove, Keyed.lookup_erase, if_pos rfl] at hsome
      cases hsome
    refine hn p c' i es hext ?_
    rw [← hload, loadSubs_congr]
    rw [Disk.remove, Keyed.lookup_erase, if_neg hp]

theorem save {identity : Str} {es : List (Str × QoS)} (hfit : SubsFit c identity es) (d : Disk) :
    SubsWritten c d
      ((d.write (subsTmp c) (subsBytes c identity es)).rename (subsTmp c) (subsFile c)) where
  files := .rename c d _ (.inr rfl)
  queue := by
    rw [lookup_rename, if_neg (queueFile_ne_subsFile c c)]
    exact if_neg (queueFile_ne_tmp c _)
  named := by
    intro hn p c' i es' hext hload
    by_cases hp : p = subsFile c
    · subst hp
      rw [loadSubs_subsBytes hfit (by rw [lookup_rename, if_pos rfl])] at hload
      cases hload
      rfl
    · by_cases htmp : p = subsTmp c
      · have hsome := loadSubs_isSome hload
        rw [lookup_rename, if_neg hp, if_pos htmp] at hsome
        cases hsome
      · refine hn p c' i es' hext ?_
        rw [← hload, loadSubs_congr]
        rw [lookup_rename, if_neg hp, if_neg htmp]

/-- `persist_subs` of a session of `c`; a save that fails writes nothing. -/
theorem persistSubs [HashOrder] {s : SessionState} (hc : c ≠ []) (hcid : s.clientId = c)
    (hp : s.subsPath = some (subsFile c)) (d : Disk) : SubsWritten c d (s.persistSubs d) := by
  simp only [SessionState.persistSubs, hp, hcid]
  generalize hes : HashOrder.order (SessionState.subEntries s.inner.subs) = es
  cases hsave : saveSubs d (subsFile c) c s.inner.identity es with
  | error e => exact .refl c d
  | ok d' =>
      by_cases hnil : es = []
      · rw [saveSubs, if_pos hnil] at hsave
        cases hsave
        exact .remove c d
      · have hfit := saveSubs_ok hsave hnil
        rw [saveSubs_of_fits hc d hfit, if_neg hnil] at hsave
        cases hsave
        exact .save hfit d

end SubsWritten

/-! ## One file replayed -/

/-- The granted QoS of each filter. -/
def Mirrors (subs : AList fun _ : Str => SubEntry) (m : AList fun _ : Str => QoS) : Prop :=
  ∀ f, (subs.lookup f).map SubEntry.qos = m.lookup f

section
variable [HashOrder] (declare : Str → Bool) (acl : Acl) (scope : Str)

/-- Whether a filter of the file is subscribed again: still permitted, valid, and
accepted by the bus. -/
def reactivates (identity f : Str) : Bool :=
  acl.maySubscribe identity f &&
    match filterToKeyexpr f scope with
    | .ok ke => declare ke
    | .error _ => false

/-- From `r₀` to `r` a session of `c` was made at the end of the heap, with the
granted filters `m` so far. -/
structure Restoring (c identity : Str) (queue : List Msg) (r₀ r : SessionRegistry)
    (m : AList fun _ : Str => QoS) : Prop where
  queueDir : r.queueDir = r₀.queueDir
  maxQueue : r.maxQueue = r₀.maxQueue
  sessions : r.sessions = r₀.sessions
  heap : ∀ (b : Addr) (s : SessionState), r₀.heap[b]? = some s → r.heap[b]? = some s
  session : ∃ s, r.heap[r₀.heap.length]? = some s ∧ s.clientId = c ∧
    s.queuePath = r₀.queuePath c ∧ s.subsPath = some (subsFile c) ∧ s.inner.identity = identity ∧
    s.inner.queue = queue ∧ Mirrors s.inner.subs m
  disk : SubsWritten c r₀.disk r.disk

variable {c identity : Str} {queue : List Msg} {r₀ r : SessionRegistry}
  {m : AList fun _ : Str => QoS}

theorem replaySub_of_not (r : SessionRegistry) {a : Addr} {e : Str × QoS}
    (h : reactivates declare acl scope identity e.1 = false) :
    r.replaySub declare acl scope identity a e = r := by
  rw [reactivates] at h
  rw [SessionRegistry.replaySub, SessionRegistry.activateSubscription]
  by_cases hacl : acl.maySubscribe identity e.1 = true
  · rw [if_pos hacl]
    cases hke : filterToKeyexpr e.1 scope with
    | error err => rfl
    | ok ke =>
        rw [hke, hacl, Bool.true_and] at h
        simp only [h, Bool.false_eq_true, if_false]
  · rw [if_neg hacl]

theorem replaySub_of_reactivates {a : Addr} {e : Str × QoS} {s : SessionState}
    (h : reactivates declare acl scope identity e.1 = true) (hs : r.heap[a]? = some s) :
    r.replaySub declare acl scope identity a e =
      { r.setSession a (s.insertSub r.disk e.1 e.2 r.tasks).1 with
        disk := (s.insertSub r.disk e.1 e.2 r.tasks).2.1, tasks := r.tasks + 1 } := by
  rw [reactivates, Bool.and_eq_true] at h
  obtain ⟨hacl, hke⟩ := h
  rw [SessionRegistry.replaySub, SessionRegistry.activateSubscription, if_pos hacl]
  cases hk : filterToKeyexpr e.1 scope with
  | error err =>
      rw [hk] at hke
      cases hke
  | ok ke =>
      rw [hk] at hke
      dsimp only at hke
      simp only [hke, if_true, hs]

theorem Restoring.replaySub (h : Restoring c identity queue r₀ r m) (hc : c ≠ []) (e : Str × QoS) :
    Restoring c identity queue r₀
      (r.replaySub declare acl scope identity r₀.heap.length e)
      (if reactivates declare acl scope identity e.1 then m.insert e.1 e.2 else m) := by
  obtain ⟨s, hs, hcid, hqp, hsp, hid, hq, hm⟩ := h.session
  cases hr : reactivates declare acl scope identity e.1 with
  | false =>
      rw [replaySub_of_not declare acl scope r hr, if_neg Bool.false_ne_true]
      exact h
  | true =>
      rw [replaySub_of_reactivates declare acl scope hr hs, if_pos rfl]
      have hcid' : (s.insertSub r.disk e.1 e.2 r.tasks).1.clientId = c := hcid
      have hwritten := SubsWritten.persistSubs hc hcid' hsp r.disk
      exact {
        queueDir := h.queueDir
        maxQueue := h.maxQueue
        sessions := h.sessions
        heap := by
          intro b t ht
          obtain ⟨hlt, _⟩ := List.getElem?_eq_some_iff.mp ht
          show (r.heap.set _ _)[b]? = some t
          rw [List.getElem?_set_ne (Nat.ne_of_gt hlt)]
          exact h.heap b t ht
        session := by
          refine ⟨_, Cells.set_self hs, hcid, hqp, hsp, hid, hq, ?_⟩
          intro f
          show ((s.inner.subs.insert e.1 ⟨e.2, r.tasks⟩).lookup f).map SubEntry.qos = _
          rw [Keyed.lookup_insert, Keyed.lookup_insert]
          split
          · rfl
          · exact hm f
        disk := h.disk.trans hwritten }

theorem Restoring.replayAll (hc : c ≠ []) (es : List (Str × QoS)) :
    ∀ {r : SessionRegistry} {m : AList fun _ : Str => QoS}, Restoring c identity queue r₀ r m →
      Restoring c identity queue r₀
        (es.foldl (SessionRegistry.replaySub declare acl scope identity r₀.heap.length) r)
        (Keyed.insertAll m (es.filter fun e => reactivates declare acl scope identity e.1)) := by
  induction es with
  | nil => exact fun h => h
  | cons e es ih =>
      intro r m h
      have hnext := ih (h.replaySub declare acl scope hc e)
      rw [List.foldl_cons, List.filter_cons]
      split
      · next hr =>
        rw [if_pos hr] at hnext
        exact hnext
      · next hr =>
        rw [if_neg hr] at hnext
        exact hnext

theorem Restoring.persist (h : Restoring c identity queue r₀ r m) (hc : c ≠ [])
    {s : SessionState} (hs : r.heap[r₀.heap.length]? = some s) :
    Restoring c identity queue r₀ { r with disk := s.persistSubs r.disk } m := by
  obtain ⟨t, ht, hcid, hqp, hsp, hrest⟩ := h.session
  rw [hs] at ht
  cases ht
  exact {
    queueDir := h.queueDir
    maxQueue := h.maxQueue
    sessions := h.sessions
    heap := h.heap
    session := ⟨s, hs, hcid, hqp, hsp, hrest⟩
    disk := h.disk.trans (.persistSubs hc hcid hsp r.disk) }

/-- `rehydrate_one` on a file that loads, with the session it ends up with. -/
theorem rehydrateOne_of_load {path : Path} {es : List (Str × QoS)} {r r₂ : SessionRegistry}
    {s₁ s : SessionState} (hload : loadSubs r.disk path = .ok (c, identity, es))
    (hs₁ : s₁ = { SessionState.new r.disk c r.maxQueue r.slowGrace (r.queuePath c) (some path) with
      inner := { (SessionState.new r.disk c r.maxQueue r.slowGrace (r.queuePath c)
        (some path)).inner
        with identity := identity } })
    (hfold : es.foldl (SessionRegistry.replaySub declare acl scope identity r.heap.length)
      { r with heap := r.heap ++ [s₁] } = r₂) (hs : r₂.heap[r.heap.length]? = some s) :
    r.rehydrateOne declare acl scope path =
      .ok ({ r₂ with
        disk := s.persistSubs r₂.disk, sessions := r₂.sessions.insert c r.heap.length }, c) := by
  subst hs₁ hfold
  refine (congrArg (· >>= _) hload).trans ?_
  simp only [bind, Except.bind, pure, Except.pure, hs]

/-- **What `rehydrate_one` makes of a subscription file**: a session with the
queue of the client id's queue file and the filters that are reactivated. -/
theorem rehydrateOne_ok {es : List (Str × QoS)} (hc : c ≠ []) (r : SessionRegistry)
    (hload : loadSubs r.disk (subsFile c) = .ok (c, identity, es)) :
    ∃ r₁, Restoring c identity
        (SessionState.initialQueue r.disk r.maxQueue (r.queuePath c)) r r₁
        (Keyed.insertAll ∅ (es.filter fun e => reactivates declare acl scope identity e.1)) ∧
      r.rehydrateOne declare acl scope (subsFile c) =
        .ok ({ r₁ with sessions := r.sessions.insert c r.heap.length }, c) := by
  let s₀ := SessionState.new r.disk c r.maxQueue r.slowGrace (r.queuePath c) (some (subsFile c))
  let s₁ := { s₀ with inner := { s₀.inner with identity := identity } }
  have hstart : Restoring c identity
      (SessionState.initialQueue r.disk r.maxQueue (r.queuePath c)) r
      { r with heap := r.heap ++ [s₁] } ∅ := {
    queueDir := rfl
    maxQueue := rfl
    sessions := rfl
    heap := fun b s hb => Cells.append_of_some hb
    session := ⟨s₁, List.getElem?_concat_length, rfl, rfl, rfl, rfl, rfl, fun _ => rfl⟩
    disk := .refl c r.disk }
  have hall := hstart.replayAll declare acl scope hc es
  generalize hfold : es.foldl (SessionRegistry.replaySub declare acl scope identity r.heap.length)
    { r with heap := r.heap ++ [s₁] } = r₂ at hall
  obtain ⟨s, hs, _⟩ := hall.session
  refine ⟨_, hall.persist hc hs, ?_⟩
  rw [rehydrateOne_of_load declare acl scope hload rfl hfold hs, ← hall.sessions]

end

/-! ## The scan -/

/-- What a step leaves alone for the client id `c`. -/
structure Elsewhere (c : Str) (r r' : SessionRegistry) : Prop where
  queueDir : r'.queueDir = r.queueDir
  maxQueue : r'.maxQueue = r.maxQueue
  sessions : r'.sessions.lookup c = r.sessions.lookup c
  heap : ∀ (b : Addr) (s : SessionState), r.heap[b]? = some s → r'.heap[b]? = some s
  queueFile : r'.disk.lookup (queueFile c) = r.disk.lookup (queueFile c)
  subsFile : r'.disk.lookup (subsFile c) = r.disk.lookup (subsFile c)
  named : Named r.disk → Named r'.disk

theorem Elsewhere.refl (c : Str) (r : SessionRegistry) : Elsewhere c r r :=
  ⟨rfl, rfl, rfl, fun _ _ h => h, rfl, rfl, id⟩

theorem Elsewhere.trans {c : Str} {r r' r'' : SessionRegistry} (h : Elsewhere c r r')
    (h' : Elsewhere c r' r'') : Elsewhere c r r'' where
  queueDir := h'.queueDir.trans h.queueDir
  maxQueue := h'.maxQueue.trans h.maxQueue
  sessions := h'.sessions.trans h.sessions
  heap := fun b s hb => h'.heap b s (h.heap b s hb)
  queueFile := h'.queueFile.trans h.queueFile
  subsFile := h'.subsFile.trans h.subsFile
  named := fun hn => h'.named (h.named hn)

section
variable [HashOrder] (declare : Str → Bool) (acl : Acl) (scope : Str) {c : Str}

theorem rehydrateStep_elsewhere {r : SessionRegistry} {p : Path} (hn : Named r.disk)
    (hext : extension p = some "subs".toList) (hp : p ≠ subsFile c) :
    Elsewhere c r (r.rehydrateStep declare acl scope p) := by
  cases hload : loadSubs r.disk p with
  | error e =>
      have hstep : r.rehydrateStep declare acl scope p = r := by
        simp only [SessionRegistry.rehydrateStep, SessionRegistry.rehydrateOne, hload, bind,
          Except.bind]
      rw [hstep]
      exact .refl c r
  | ok x =>
      obtain ⟨c', i, es⟩ := x
      have heq : p = subsFile c' := hn p c' i es hext hload
      subst heq
      have hne : c ≠ c' := fun h => hp (h ▸ rfl)
      obtain ⟨r₁, hr₁, hone⟩ :=
        rehydrateOne_ok declare acl scope (ne_nil_of_extension hext) r hload
      have hstep : r.rehydrateStep declare acl scope (subsFile c') =
          { r₁ with sessions := r.sessions.insert c' r.heap.length } := by
        rw [SessionRegistry.rehydrateStep, hone]
      rw [hstep]
      exact {
        queueDir := hr₁.queueDir
        maxQueue := hr₁.maxQueue
        sessions := by
          show (r.sessions.insert c' r.heap.length).lookup c = _
          rw [Keyed.lookup_insert, if_neg hne]
        heap := hr₁.heap
        queueFile := hr₁.disk.files.queue c hne
        subsFile := hr₁.disk.files.subs c hne
        named := hr₁.disk.named }

theorem rehydrateSteps_elsewhere (ps : List Path) : ∀ {r : SessionRegistry}, Named r.disk →
    (∀ p ∈ ps, extension p = some "subs".toList ∧ p ≠ subsFile c) →
    Elsewhere c r (ps.foldl (SessionRegistry.rehydrateStep declare acl scope) r) := by
  induction ps with
  | nil => exact fun _ _ => .refl c _
  | cons p ps ih =>
      intro r hn hps
      obtain ⟨hext, hp⟩ := hps p List.mem_cons_self
      have hfirst := rehydrateStep_elsewhere declare acl scope hn hext hp
      exact hfirst.trans (ih (hfirst.named hn) fun p' hp' => hps p' (List.mem_cons_of_mem _ hp'))

theorem mem_subsFiles {d : Disk} {p : Path} :
    p ∈ SessionRegistry.subsFiles d ↔ (d.lookup p).isSome ∧ extension p = some "subs".toList := by
  rw [SessionRegistry.subsFiles, List.mem_filter, (HashOrder.perm d.keys).mem_iff,
    AList.lookup_isSome, AList.mem_keys]
  simp

theorem subsFiles_nodup (d : Disk) : (SessionRegistry.subsFiles d).Nodup :=
  ((HashOrder.perm d.keys).nodup_iff.mpr d.keys_nodup).sublist List.filter_sublist

theorem rehydrate_elsewhere {r : SessionRegistry} (hn : Named r.disk)
    (hc : r.disk.lookup (subsFile c) = none) :
    Elsewhere c r (r.rehydrate declare acl scope) := by
  rw [SessionRegistry.rehydrate]
  split
  · refine rehydrateSteps_elsewhere declare acl scope _ hn fun p hp => ?_
    obtain ⟨hsome, hext⟩ := mem_subsFiles.mp hp
    refine ⟨hext, ?_⟩
    rintro rfl
    rw [hc] at hsome
    cases hsome
  · exact .refl c r

/-- **A client's subscription file makes a session of it again**, whatever the
other files hold. -/
theorem rehydrate_restores {r : SessionRegistry} {identity : Str} {es : List (Str × QoS)}
    (hn : Named r.disk) (hdir : r.queueDir = true) (hc : c ≠ [])
    (hload : loadSubs r.disk (subsFile c) = .ok (c, identity, es)) :
    ∃ a s, (r.rehydrate declare acl scope).sessions.lookup c = some a ∧
      (r.rehydrate declare acl scope).heap[a]? = some s ∧ s.inner.identity = identity ∧
      s.inner.queue = SessionState.initialQueue r.disk r.maxQueue (some (queueFile c)) ∧
      Mirrors s.inner.subs
        (Keyed.insertAll ∅ (es.filter fun e => reactivates declare acl scope identity e.1)) := by
  have hmem : subsFile c ∈ SessionRegistry.subsFiles r.disk :=
    mem_subsFiles.mpr ⟨loadSubs_isSome hload, extension_subsFile hc⟩
  obtain ⟨before, after, hsplit⟩ := List.append_of_mem hmem
  have hnodup := subsFiles_nodup r.disk
  rw [hsplit, List.nodup_append, List.nodup_cons] at hnodup
  obtain ⟨_, ⟨hafter, _⟩, hbefore⟩ := hnodup
  have hexts : ∀ p ∈ before ++ subsFile c :: after, extension p = some "subs".toList := by
    intro p hp
    rw [← hsplit] at hp
    exact (mem_subsFiles.mp hp).2
  -- the scan up to the client's own file
  have h₁ := rehydrateSteps_elsewhere declare acl scope (c := c) before hn fun p hp =>
      ⟨hexts p (List.mem_append_left _ hp), fun heq => hbefore p hp _ List.mem_cons_self heq⟩
  generalize hr₁ : before.foldl (SessionRegistry.rehydrateStep declare acl scope) r = r₁ at h₁
  -- its own file
  have hload₁ : loadSubs r₁.disk (subsFile c) = .ok (c, identity, es) := by
    rw [loadSubs_congr h₁.subsFile, hload]
  obtain ⟨r₂, hr₂, hone⟩ := rehydrateOne_ok declare acl scope hc r₁ hload₁
  obtain ⟨s, hs, _, _, _, hid, hq, hm⟩ := hr₂.session
  -- the rest of the scan
  have h₃ := rehydrateSteps_elsewhere declare acl scope (c := c) after
    (r := { r₂ with sessions := r₁.sessions.insert c r₁.heap.length })
    (hr₂.disk.named (h₁.named hn)) fun p hp =>
      ⟨hexts p (List.mem_append_right _ (List.mem_cons_of_mem _ hp)), fun heq => hafter (heq ▸ hp)⟩
  have hscan : r.rehydrate declare acl scope =
      after.foldl (SessionRegistry.rehydrateStep declare acl scope)
        { r₂ with sessions := r₁.sessions.insert c r₁.heap.length } := by
    rw [SessionRegistry.rehydrate, if_pos hdir, hsplit, List.foldl_append, List.foldl_cons, hr₁,
      SessionRegistry.rehydrateStep, hone]
  have hpath : r₁.queuePath c = some (queueFile c) := by
    rw [SessionRegistry.queuePath, h₁.queueDir, hdir]
    rfl
  have hqueue : SessionState.initialQueue r₁.disk r₁.maxQueue (r₁.queuePath c) =
      SessionState.initialQueue r.disk r.maxQueue (some (queueFile c)) := by
    rw [hpath, h₁.maxQueue]
    simp only [SessionState.initialQueue, loadQueue, Disk.read, h₁.queueFile]
  rw [hscan]
  refine ⟨r₁.heap.length, s, ?_, h₃.heap _ _ hs, hid, hq.trans hqueue, hm⟩
  rw [h₃.sessions]
  exact AList.lookup_insert _

end

/-! ## Attaching after the restart -/

theorem initialQueue_of_holds {d : Disk} {c : Str} {q : List Msg} {maxQueue : Nat}
    (hmax : 1 ≤ maxQueue) (hle : q.length ≤ maxQueue) (hfits : ∀ m ∈ q, MsgFits m)
    (h : QueueFileHolds d c q) : SessionState.initialQueue d maxQueue (some (queueFile c)) = q := by
  rw [QueueFileHolds] at h
  by_cases hnil : q = []
  · rw [if_pos hnil] at h
    have hload : loadQueue d (queueFile c) maxQueue =
        .error "No such file or directory (os error 2)" := by
      rw [loadQueue, if_neg (by omega)]
      simp only [Disk.read, h, bind, Except.bind]
    simp only [SessionState.initialQueue, hload, hnil]
  · rw [if_neg hnil] at h
    simp only [SessionState.initialQueue, loadQueue_queueBytes hmax hle hfits h]

namespace SessionRegistry

variable [HashOrder] {r : SessionRegistry} {c : Str} {a : Addr} {s : SessionState}

/-- A registered session is handed its queue and keeps its subscriptions. -/
theorem attach_registered (ha : r.sessions.lookup c = some a) (hs : r.heap[a]? = some s)
    (identity : Str) (sink : Sender) (kick : Notify) :
    let att := r.attach c identity false sink kick
    att.outcome.sessionPresent = true ∧ att.outcome.backlog = s.inner.queue ∧
      ∃ s', att.registry.heap[att.outcome.session]? = some s' ∧ s'.inner.subs = s.inner.subs := by
  simp only [attach, attachLookup, ha, attachConnAt, hs]
  exact ⟨trivial, s.attachConn_backlog _ _ _ _, _, Cells.set_self hs, s.attachConn_subs _ _ _ _⟩

theorem attach_unregistered (ha : r.sessions.lookup c = none) (hdir : r.queueDir = true)
    (identity : Str) (sink : Sender) (kick : Notify) :
    let att := r.attach c identity false sink kick
    att.outcome.sessionPresent =
        ((r.disk.lookup (queueFile c)).isSome || (r.disk.lookup (subsFile c)).isSome) ∧
      att.outcome.backlog = SessionState.initialQueue r.disk r.maxQueue (some (queueFile c)) ∧
      ∃ s', att.registry.heap[att.outcome.session]? = some s' ∧ s'.inner.subs = ∅ := by
  let s₀ := SessionState.new r.disk c r.maxQueue r.slowGrace (some (queueFile c))
    (some (subsFile c))
  have hs₀ : (r.heap ++ [s₀])[r.heap.length]? = some s₀ := List.getElem?_concat_length
  have hlookup : r.attachLookup c false =
      { registry :=
          { r with heap := r.heap ++ [s₀], sessions := r.sessions.insert c r.heap.length }
        session := r.heap.length
        sessionPresent :=
          (r.disk.lookup (queueFile c)).isSome || (r.disk.lookup (subsFile c)).isSome
        notified := none } := by
    have hqp : r.queuePath c = some (queueFile c) := by rw [queuePath, hdir, if_pos rfl]
    have hsp : r.subsPath c = some (subsFile c) := by rw [subsPath, hdir, if_pos rfl]
    simp only [attachLookup, ha, hqp, hsp, pathExists, Disk.exists?]
    rfl
  simp only [attach, hlookup, attachConnAt, hs₀]
  exact ⟨trivial, s₀.attachConn_backlog _ _ _ _, _, Cells.set_self hs₀, s₀.attachConn_subs _ _ _ _⟩

end SessionRegistry

/-! ## Restarts -/

section
variable [HashOrder] {ident : Str → Str → Prop} {declare declare' : Str → Bool} {scope : Str}
  {maxQueue : Nat} {slowGrace slowGrace' : Option Duration} {r : SessionRegistry}
  {attaches : List (Addr × Nat × Bool)} {c : Str} {s : SessionState}

omit [HashOrder] in
theorem InStep.loadSubs {d : Disk} {bound : Nat} (h : InStep ident scope bound d c s)
    (hsome : (d.lookup (subsFile c)).isSome) :
    ∃ es, es.Perm (SessionState.subEntries s.inner.subs) ∧
      Entmoot.loadSubs d (subsFile c) = .ok (c, s.inner.identity, es) := by
  have hfiles : FilesMatch d c s := h.files
  rcases hfiles with ⟨_, _, _, hsf⟩ | ⟨_, _, _, hsf⟩
  · rw [SubsFileHolds] at hsf
    split at hsf
    · rw [hsf] at hsome
      cases hsome
    · obtain ⟨es, hperm, hbytes⟩ := hsf
      exact ⟨es, hperm, loadSubs_subsBytes (h.toWellKept.subsFit hperm) hbytes⟩
  · rw [hsf] at hsome
    cases hsome

omit [HashOrder] in
/-- A server's subscription files carry the names of their client ids. -/
theorem Synced.namedFiles {bound : Nat} (h : Synced ident scope bound r attaches) :
    Named r.disk := by
  intro p c i es hext hload
  have hsome := loadSubs_isSome hload
  obtain ⟨c', rfl | rfl⟩ := h.named p hsome
  · exact absurd hext (extension_queueFile c')
  · cases ha : r.sessions.lookup c' with
    | none =>
        rw [(h.gone c' ha).2] at hsome
        cases hsome
    | some a =>
        obtain ⟨s, _, hin, _⟩ := h.registered c' a ha
        obtain ⟨es', _, hload'⟩ := hin.loadSubs hsome
        rw [hload'] at hload
        cases hload
        rfl

omit [HashOrder] in
/-- The filters a restart brings back, when valid filters are accepted by the bus. -/
theorem reactivated_lookup {acl : Acl} {bound : Nat} {es : List (Str × QoS)}
    (h : WellKept ident scope bound c s)
    (hdecl : ∀ f ke, filterToKeyexpr f scope = .ok ke → declare' ke = true)
    (hperm : es.Perm (SessionState.subEntries s.inner.subs)) (f : Str) :
    (Keyed.insertAll (∅ : AList fun _ : Str => QoS)
        (es.filter fun e => reactivates declare' acl scope s.inner.identity e.1)).lookup f =
      if acl.maySubscribe s.inner.identity f then (s.inner.subs.lookup f).map SubEntry.qos
        else none := by
  have hmem : ∀ f q, (f, q) ∈ es ↔ (s.inner.subs.lookup f).map SubEntry.qos = some q := by
    intro f q
    rw [hperm.mem_iff, mem_subEntries, Option.map_eq_some_iff]
    constructor
    · rintro ⟨t, ht⟩
      exact ⟨_, ht, rfl⟩
    · rintro ⟨⟨q', t⟩, ht, rfl⟩
      exact ⟨t, ht⟩
  have hkeys : (es.map Prod.fst).Nodup := by
    have hentries : (SessionState.subEntries s.inner.subs).map Prod.fst = s.inner.subs.keys := by
      rw [SessionState.subEntries, List.map_map]
      rfl
    rw [(hperm.map Prod.fst).nodup_iff, hentries]
    exact s.inner.subs.keys_nodup
  have hreact : ∀ f q, (f, q) ∈ es →
      reactivates declare' acl scope s.inner.identity f = acl.maySubscribe s.inner.identity f := by
    intro f q hf
    obtain ⟨e, he, _⟩ := Option.map_eq_some_iff.mp ((hmem f q).mp hf)
    obtain ⟨ke, hke⟩ := h.subs_valid f e he
    rw [reactivates, hke]
    simp only [hdecl f ke hke, Bool.and_true]
  cases hq : if acl.maySubscribe s.inner.identity f then (s.inner.subs.lookup f).map SubEntry.qos
      else none with
  | some q =>
      split at hq
      · next hacl =>
        have hin : (f, q) ∈ es := (hmem f q).mpr hq
        refine Keyed.lookup_insertAll_of_mem (hkeys.sublist (List.filter_sublist.map Prod.fst)) ?_
        exact List.mem_filter.mpr ⟨hin, (hreact f q hin).trans hacl⟩
      · cases hq
  | none =>
      rw [Keyed.lookup_insertAll_of_notMem]
      · rfl
      · intro hin
        obtain ⟨⟨f', q⟩, he, rfl⟩ := List.mem_map.mp hin
        obtain ⟨hes, hr⟩ := List.mem_filter.mp he
        rw [if_pos ((hreact f' q hes).symm.trans hr), (hmem f' q).mp hes] at hq
        cases hq

/-- **A restart restores every persistent session.**  Run any operations, stop, and
start again on the same directory under any ACL: the client id finds its queue as
the backlog, and a session with exactly those of its subscriptions the ACL permits;
a session is reported present iff there was a queue or a subscription to restore. -/
theorem restart_restores {ident : Str → Str} {ops : List Op} {sv : Server} {a : Addr}
    (hmax : 1 ≤ maxQueue) (hfits : ∀ op ∈ ops, op.Fits fun c identity => identity = ident c)
    (hrun : Run.exec (Server.step declare scope) (Server.start maxQueue slowGrace) ops = some sv)
    (ha : sv.reg.sessions.lookup c = some a) (hs : sv.reg.heap[a]? = some s)
    (hmade : madeClean sv.attaches a = some false)
    (hdecl : ∀ f ke, filterToKeyexpr f scope = .ok ke → declare' ke = true) (acl : Acl)
    (sink : Sender) (kick : Notify) :
    let r := (SessionRegistry.new maxQueue slowGrace' true sv.reg.disk).rehydrate declare' acl scope
    let att := r.attach c (ident c) false sink kick
    att.outcome.backlog = s.inner.queue ∧
      (att.outcome.sessionPresent = true ↔ s.inner.queue ≠ [] ∨ s.inner.subs.entries ≠ []) ∧
      ∃ s', att.registry.heap[att.outcome.session]? = some s' ∧
        ∀ f, (s'.inner.subs.lookup f).map SubEntry.qos =
          if acl.maySubscribe (ident c) f then (s.inner.subs.lookup f).map SubEntry.qos
            else none := by
  have hsync := Server.synced_exec hfits hrun
  obtain ⟨t, ht, hin, hclean⟩ := hsync.registered c a ha
  rw [hs] at ht
  cases ht
  have hident : s.inner.identity = ident c := hin.identity
  have hnamed : Named (SessionRegistry.new maxQueue slowGrace' true sv.reg.disk).disk :=
    hsync.namedFiles
  have hfiles : FilesMatch sv.reg.disk c s := hin.files
  rcases hfiles with ⟨_, _, hqf, hsf⟩ | ⟨hnone, _⟩
  · have hqueue : SessionState.initialQueue sv.reg.disk maxQueue (some (queueFile c)) =
        s.inner.queue := initialQueue_of_holds hmax hin.queue_le hin.queue_fits hqf
    by_cases hnil : s.inner.subs.entries = []
    · -- no subscription file: the attach itself finds the queue file
      have hno : sv.reg.disk.lookup (subsFile c) = none := by
        rw [SubsFileHolds, if_pos hnil] at hsf
        exact hsf
      have helse := rehydrate_elsewhere declare' acl scope hnamed hno
      generalize (SessionRegistry.new maxQueue slowGrace' true sv.reg.disk).rehydrate declare' acl
        scope = r at helse
      obtain ⟨hpresent, hback, s', hs', hsubs⟩ :=
        SessionRegistry.attach_unregistered helse.sessions helse.queueDir (ident c) sink kick
      have hsubsFile : r.disk.lookup (subsFile c) = none := helse.subsFile.trans hno
      have hqueueFile : r.disk.lookup (queueFile c) = sv.reg.disk.lookup (queueFile c) :=
        helse.queueFile
      refine ⟨?_, ?_, s', hs', ?_⟩
      · rw [hback, ← hqueue, helse.maxQueue]
        simp only [SessionState.initialQueue, loadQueue, Disk.read, hqueueFile]
        rfl
      · rw [hpresent, hsubsFile, hqueueFile, hqf]
        by_cases hq : s.inner.queue = []
        · simp [hq, hnil]
        · simp [hq]
      · intro f
        have hempty : s.inner.subs.lookup f = none := by
          rw [AList.lookup_eq_none, AList.mem_keys, AList.keys, hnil]
          exact List.not_mem_nil
        rw [hsubs, hempty]
        simp
    · -- a subscription file: the scan makes the session
      have hsome : (sv.reg.disk.lookup (subsFile c)).isSome := by
        rw [SubsFileHolds, if_neg hnil] at hsf
        obtain ⟨es, _, hbytes⟩ := hsf
        rw [hbytes]
        rfl
      obtain ⟨es, hperm, hload⟩ := hin.loadSubs hsome
      obtain ⟨b, u, hb, hu, _, huq, hum⟩ :=
        rehydrate_restores declare' acl scope hnamed rfl hin.nonempty hload
      obtain ⟨hpresent, hback, s', hs', hsubs⟩ :=
        SessionRegistry.attach_registered hb hu (ident c) sink kick
      refine ⟨?_, ?_, s', hs', ?_⟩
      · rw [hback, huq]
        exact hqueue
      · rw [hpresent]
        simp [hnil]
      · intro f
        rw [hsubs, hum f, ← hident]
        exact reactivated_lookup hin.toWellKept hdecl hperm f
  · rw [hclean hnone] at hmade
    cases hmade

end

/-- A client subscribes, leaves, and one message is queued for it. -/
def parkedOps : List Op :=
  [.attach "dev".toList "dev".toList false ⟨0⟩ ⟨0⟩,
    .activate "dev".toList "kiln".toList .atLeastOnce,
    .detach 0 5, .deliver "dev".toList ("kiln".toList, [57]) .atLeastOnce .closed 6]

/-- After a restart it finds the message and, if the ACL lets it, the subscription. -/
theorem parked_client_is_restored :
    ∃ sv s, Run.exec (@Server.step .asStored (fun _ => true) []) (Server.start 10 none) parkedOps =
        some sv ∧ sv.reg.registered "dev".toList = some s ∧
      s.inner.queue = [("kiln".toList, [57])] ∧
      (s.inner.subs.lookup "kiln".toList).map SubEntry.qos = some .atLeastOnce ∧
      ∀ acl : Acl,
        let r := @SessionRegistry.rehydrate .asStored (fun _ => true) acl []
          (.new 10 none true sv.reg.disk)
        let att := @SessionRegistry.attach .asStored r "dev".toList "dev".toList false ⟨1⟩ ⟨1⟩
        att.outcome.backlog = [("kiln".toList, [57])] ∧ att.outcome.sessionPresent = true ∧
          ∃ s', att.registry.heap[att.outcome.session]? = some s' ∧
            (s'.inner.subs.lookup "kiln".toList).map SubEntry.qos =
              if acl.maySubscribe "dev".toList "kiln".toList then some .atLeastOnce else none := by
  have hfits : ∀ op ∈ parkedOps, op.Fits fun c identity => identity = id c := by
    intro op hop
    simp only [parkedOps, List.mem_cons, List.not_mem_nil, or_false] at hop
    rcases hop with rfl | rfl | rfl | rfl
    · exact ⟨by decide, rfl, by decide, by decide⟩
    · show Fits _
      decide
    · trivial
    · exact ⟨by decide, by decide⟩
  have hqueue : [("kiln".toList, [57])] ≠ ([] : List Msg) := List.cons_ne_nil _ _
  refine ⟨_, _, rfl, rfl, rfl, rfl, fun acl => ?_⟩
  obtain ⟨hback, hpresent, s', hs', hsubs⟩ := @restart_restores .asStored (fun _ => true)
    (fun _ => true) [] 10 none none "dev".toList _ id parkedOps _ 0 (by decide) hfits
      rfl rfl rfl rfl
    (fun _ _ _ => rfl) acl ⟨1⟩ ⟨1⟩
  exact ⟨hback, hpresent.mpr (.inl hqueue), s', hs', hsubs "kiln".toList⟩

end Entmoot
