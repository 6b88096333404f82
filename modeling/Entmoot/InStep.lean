/-
# `Entmoot.InStep` — a session and its two files

A session is in step with the files of its client id when the queue file holds
its queue and is there iff that is not empty, and the subscription file holds its
subscriptions and is there iff there are any (`InStep`); a session without file
paths leaves no files behind.  Each operation of `SessionState` on a session in
step leaves it in step, and changes the files of no other client id
(`OnlyFiles`).
-/
import Entmoot.FileCodec
import Entmoot.Session
import Entmoot.Topic

namespace Entmoot

/-! ## Changes to the files of one client id -/

/-- From `d` to `d'` only the two files of `c` may have changed. -/
structure OnlyFiles (c : Str) (d d' : Disk) : Prop where
  queue : ∀ c', c' ≠ c → d'.lookup (queueFile c') = d.lookup (queueFile c')
  subs : ∀ c', c' ≠ c → d'.lookup (subsFile c') = d.lookup (subsFile c')
  fresh : ∀ p, (d'.lookup p).isSome → (d.lookup p).isSome ∨ p = queueFile c ∨ p = subsFile c

namespace OnlyFiles

theorem refl (c : Str) (d : Disk) : OnlyFiles c d d :=
  ⟨fun _ _ => rfl, fun _ _ => rfl, fun _ h => .inl h⟩

theorem trans {c : Str} {d d' d'' : Disk} (h : OnlyFiles c d d') (h' : OnlyFiles c d' d'') :
    OnlyFiles c d d'' where
  queue := fun c' hc => (h'.queue c' hc).trans (h.queue c' hc)
  subs := fun c' hc => (h'.subs c' hc).trans (h.subs c' hc)
  fresh := by
    intro p hp
    rcases h'.fresh p hp with hp | hp
    · exact h.fresh p hp
    · exact .inr hp

theorem removeQueue (c : Str) (d : Disk) : OnlyFiles c d (d.remove (queueFile c)) where
  queue := by
    intro c' hc
    rw [Disk.remove, Keyed.lookup_erase, if_neg (fun h => hc (queueFile_injective h))]
  subs := by
    intro c' _
    rw [Disk.remove, Keyed.lookup_erase, if_neg (queueFile_ne_subsFile c c').symm]
  fresh := by
    intro p hp
    rw [Disk.remove, Keyed.lookup_erase] at hp
    split at hp
    · cases hp
    · exact .inl hp

theorem removeSubs (c : Str) (d : Disk) : OnlyFiles c d (d.remove (subsFile c)) where
  queue := by
    intro c' _
    rw [Disk.remove, Keyed.lookup_erase, if_neg (queueFile_ne_subsFile c' c)]
  subs := by
    intro c' hc
    rw [Disk.remove, Keyed.lookup_erase, if_neg (fun h => hc (subsFile_injective h))]
  fresh := by
    intro p hp
    rw [Disk.remove, Keyed.lookup_erase] at hp
    split at hp
    · cases hp
    · exact .inl hp

/-- A save of either file, through a temporary name of its own. -/
theorem rename (c : Str) (d : Disk) (b : Bytes) {p : Path} (hp : p = queueFile c ∨ p = subsFile c) :
    OnlyFiles c d ((d.write (p ++ '.' :: "tmp".toList) b).rename (p ++ '.' :: "tmp".toList) p) where
  queue := by
    intro c' hc
    rw [lookup_rename, if_neg ?_, if_neg (queueFile_ne_tmp c' p)]
    rcases hp with rfl | rfl
    · exact fun h => hc (queueFile_injective h)
    · exact queueFile_ne_subsFile c' c
  subs := by
    intro c' hc
    rw [lookup_rename, if_neg ?_, if_neg (subsFile_ne_tmp c' p)]
    rcases hp with rfl | rfl
    · exact (queueFile_ne_subsFile c c').symm
    · exact fun h => hc (subsFile_injective h)
  fresh := by
    intro p' hp'
    rw [lookup_rename] at hp'
    split at hp'
    · next heq =>
      rw [heq]
      exact .inr hp
    · split at hp'
      · cases hp'
      · exact .inl hp'

end OnlyFiles

/-! ## A session in step with its files -/

/-- The queue file of `c` holds `q`. -/
def QueueFileHolds (d : Disk) (c : Str) (q : List Msg) : Prop :=
  d.lookup (queueFile c) = if q = [] then none else some (queueBytes q)

/-- The subscription file of `c` holds `subs`, in some order. -/
def SubsFileHolds (d : Disk) (c identity : Str) (subs : AList fun _ : Str => SubEntry) : Prop :=
  if subs.entries = [] then d.lookup (subsFile c) = none
  else ∃ es, es.Perm (SessionState.subEntries subs) ∧
    d.lookup (subsFile c) = some (subsBytes c identity es)

/-- A session with its files, or one without any that leaves none behind. -/
def FilesMatch (d : Disk) (c : Str) (s : SessionState) : Prop :=
  (s.queuePath = some (queueFile c) ∧ s.subsPath = some (subsFile c) ∧
    QueueFileHolds d c s.inner.queue ∧ SubsFileHolds d c s.inner.identity s.inner.subs) ∨
  (s.queuePath = none ∧ s.subsPath = none ∧
    d.lookup (queueFile c) = none ∧ d.lookup (subsFile c) = none)

/-- What holds of the session itself: it is under an identity its client comes with, it
fits, and its subscriptions can be declared. -/
structure WellKept (ident : Str → Str → Prop) (scope : Str) (bound : Nat) (c : Str)
    (s : SessionState) : Prop where
  nonempty : c ≠ []
  clientId : s.clientId = c
  maxQueue : s.maxQueue = bound
  identity : ident c s.inner.identity
  queue_le : s.inner.queue.length ≤ bound
  queue_fits : ∀ m ∈ s.inner.queue, MsgFits m
  fits : Fits (asBytes c) ∧ Fits (asBytes s.inner.identity)
  subs_fit : ∀ f e, s.inner.subs.lookup f = some e → Fits (asBytes f)
  subs_valid : ∀ f e, s.inner.subs.lookup f = some e → ∃ ke, filterToKeyexpr f scope = .ok ke

structure InStep (ident : Str → Str → Prop) (scope : Str) (bound : Nat) (d : Disk) (c : Str)
    (s : SessionState) : Prop extends WellKept ident scope bound c s where
  files : FilesMatch d c s

section
variable {ident : Str → Str → Prop} {scope : Str} {bound : Nat} {d d' : Disk} {c c' : Str}
  {s s' : SessionState}

theorem InStep.frame (h : InStep ident scope bound d c' s) (hd : OnlyFiles c d d')
    (hc : c' ≠ c) : InStep ident scope bound d' c' s := by
  refine { h with files := ?_ }
  rcases h.files with ⟨hq, hs, hqf, hsf⟩ | ⟨hq, hs, hqf, hsf⟩
  · refine .inl ⟨hq, hs, ?_, ?_⟩
    · rw [QueueFileHolds, hd.queue c' hc]
      exact hqf
    · rw [SubsFileHolds, hd.subs c' hc]
      exact hsf
  · exact .inr ⟨hq, hs, (hd.queue c' hc).trans hqf, (hd.subs c' hc).trans hsf⟩

/-- What being in step looks at. -/
structure SameKept (s s' : SessionState) : Prop where
  clientId : s'.clientId = s.clientId
  maxQueue : s'.maxQueue = s.maxQueue
  queuePath : s'.queuePath = s.queuePath
  subsPath : s'.subsPath = s.subsPath
  identity : s'.inner.identity = s.inner.identity
  subs : s'.inner.subs = s.inner.subs
  queue : s'.inner.queue = s.inner.queue

theorem InStep.same (h : InStep ident scope bound d c s) (hs : SameKept s s') :
    InStep ident scope bound d c s' where
  nonempty := h.nonempty
  clientId := hs.clientId.trans h.clientId
  maxQueue := hs.maxQueue.trans h.maxQueue
  identity := by
    rw [hs.identity]
    exact h.identity
  queue_le := by
    rw [hs.queue]
    exact h.queue_le
  queue_fits := by
    rw [hs.queue]
    exact h.queue_fits
  fits := by
    rw [hs.identity]
    exact h.fits
  subs_fit := by
    rw [hs.subs]
    exact h.subs_fit
  subs_valid := by
    rw [hs.subs]
    exact h.subs_valid
  files := by
    have hf := h.files
    rw [FilesMatch, hs.queuePath, hs.subsPath, hs.queue, hs.subs, hs.identity]
    exact hf

theorem mem_subEntries {subs : AList fun _ : Str => SubEntry} {f : Str} {q : QoS} :
    (f, q) ∈ SessionState.subEntries subs ↔ ∃ t, subs.lookup f = some ⟨q, t⟩ := by
  have hmem : ∀ e : SubEntry, subs.lookup f = some e ↔
      (⟨f, e⟩ : Σ _ : Str, SubEntry) ∈ subs.entries :=
    fun e => AList.mem_lookup_iff
  simp only [SessionState.subEntries, List.mem_map, hmem]
  constructor
  · rintro ⟨⟨f', e⟩, he, heq⟩
    cases heq
    exact ⟨e.task, he⟩
  · rintro ⟨t, ht⟩
    exact ⟨_, ht, rfl⟩

theorem subEntries_eq_nil {subs : AList fun _ : Str => SubEntry} :
    SessionState.subEntries subs = [] ↔ subs.entries = [] := List.map_eq_nil_iff

theorem WellKept.subsFit (h : WellKept ident scope bound c s) {es : List (Str × QoS)}
    (hes : es.Perm (SessionState.subEntries s.inner.subs)) : SubsFit c s.inner.identity es where
  clientId := h.fits.1
  identity := h.fits.2
  entries := by
    intro e he
    obtain ⟨t, ht⟩ := mem_subEntries.mp (hes.mem_iff.mp he)
    exact h.subs_fit _ _ ht

/-! ## Saving -/

/-- `persist_subs` leaves the file as the subscriptions are. -/
theorem WellKept.persistSubs [HashOrder] (h : WellKept ident scope bound c s)
    (hpath : s.subsPath = some (subsFile c)) (d : Disk) :
    OnlyFiles c d (s.persistSubs d) ∧
      (s.persistSubs d).lookup (queueFile c) = d.lookup (queueFile c) ∧
      SubsFileHolds (s.persistSubs d) c s.inner.identity s.inner.subs := by
  have hperm : (HashOrder.order (SessionState.subEntries s.inner.subs)).Perm
      (SessionState.subEntries s.inner.subs) := HashOrder.perm _
  have hsave := saveSubs_of_fits h.nonempty d (h.subsFit hperm)
  have heq : s.persistSubs d =
      if HashOrder.order (SessionState.subEntries s.inner.subs) = [] then d.remove (subsFile c)
      else (d.write (subsTmp c)
        (subsBytes c s.inner.identity
          (HashOrder.order (SessionState.subEntries s.inner.subs)))).rename
            (subsTmp c) (subsFile c) := by
    simp only [SessionState.persistSubs, hpath, h.clientId, hsave]
  by_cases hnil : s.inner.subs.entries = []
  · have horder : HashOrder.order (SessionState.subEntries s.inner.subs) = [] := by
      rw [subEntries_eq_nil.mpr hnil] at hperm ⊢
      exact List.perm_nil.mp hperm
    rw [heq, if_pos horder]
    refine ⟨.removeSubs c d, ?_, ?_⟩
    · rw [Disk.remove, Keyed.lookup_erase, if_neg (queueFile_ne_subsFile c c)]
    · rw [SubsFileHolds, if_pos hnil, Disk.remove, Keyed.lookup_erase, if_pos rfl]
  · have horder : HashOrder.order (SessionState.subEntries s.inner.subs) ≠ [] := by
      intro horder
      rw [horder] at hperm
      exact hnil (subEntries_eq_nil.mp (List.nil_perm.mp hperm))
    rw [heq, if_neg horder]
    refine ⟨.rename c d _ (.inr rfl), ?_, ?_⟩
    · rw [lookup_rename, if_neg (queueFile_ne_subsFile c c)]
      exact if_neg (queueFile_ne_tmp c _)
    · rw [SubsFileHolds, if_neg hnil]
      exact ⟨_, hperm, by rw [lookup_rename, if_pos rfl]⟩

theorem WellKept.persistQueue (h : WellKept ident scope bound c s)
    (hpath : s.queuePath = some (queueFile c)) (hne : s.inner.queue ≠ []) (d : Disk) :
    OnlyFiles c d (s.persistQueue d) ∧
      (s.persistQueue d).lookup (subsFile c) = d.lookup (subsFile c) ∧
      QueueFileHolds (s.persistQueue d) c s.inner.queue := by
  have heq : s.persistQueue d =
      (d.write (queueTmp c) (queueBytes s.inner.queue)).rename (queueTmp c) (queueFile c) := by
    simp only [SessionState.persistQueue, hpath, saveQueue_of_fits h.nonempty d h.queue_fits]
  rw [heq]
  refine ⟨.rename c d _ (.inl rfl), ?_, ?_⟩
  · rw [lookup_rename, if_neg (queueFile_ne_subsFile c c).symm]
    exact if_neg (subsFile_ne_tmp c _)
  · rw [QueueFileHolds, if_neg hne, lookup_rename, if_pos rfl]

/-! ## The operations of a session -/

/-- A session whose files match loses its queue file when its queue is handed out. -/
theorem FilesMatch.takeQueue (h : FilesMatch d c s) (hq : s'.queuePath = s.queuePath)
    (hp : s'.subsPath = s.subsPath) (hqueue : s'.inner.queue = [])
    (hid : s'.inner.identity = s.inner.identity) (hsubs : s'.inner.subs = s.inner.subs) :
    FilesMatch (s'.discardQueueFile d) c s' ∧ OnlyFiles c d (s'.discardQueueFile d) := by
  rcases h with ⟨h1, h2, _, h4⟩ | ⟨h1, h2, h3, h4⟩
  · have hdisk : s'.discardQueueFile d = d.remove (queueFile c) := by
      simp only [SessionState.discardQueueFile, hq.trans h1]
    rw [hdisk]
    refine ⟨.inl ⟨hq.trans h1, hp.trans h2, ?_, ?_⟩, .removeQueue c d⟩
    · rw [QueueFileHolds, if_pos hqueue, Disk.remove, Keyed.lookup_erase, if_pos rfl]
    · rw [SubsFileHolds, hid, hsubs, Disk.remove, Keyed.lookup_erase,
        if_neg (queueFile_ne_subsFile c c).symm]
      exact h4
  · have hdisk : s'.discardQueueFile d = d := by
      simp only [SessionState.discardQueueFile, hq.trans h1]
    rw [hdisk]
    exact ⟨.inr ⟨hq.trans h1, hp.trans h2, h3, h4⟩, .refl c d⟩

/-- `attach_conn` writes no subscription file when there are no subscriptions. -/
theorem attachConn_quiet [HashOrder] {s : SessionState} {identity : Str}
    (h : s.inner.subs.entries = []) (d : Disk) (sink : Sender) (kick : Notify) :
    ∃ s' : SessionState, (s.attachConn d identity sink kick).session = s' ∧
      (s.attachConn d identity sink kick).disk = s'.discardQueueFile d ∧
      s'.clientId = s.clientId ∧ s'.maxQueue = s.maxQueue ∧ s'.queuePath = s.queuePath ∧
      s'.subsPath = s.subsPath ∧ s'.inner.identity = identity ∧
      s'.inner.subs = s.inner.subs ∧ s'.inner.queue = [] := by
  have hid : ((s.installConn sink kick).setIdentity d identity).2 = d := by
    rw [SessionState.setIdentity]
    split
    · exact if_neg (not_not_intro h)
    · rfl
  have hs : ((s.installConn sink kick).setIdentity d identity).1 =
      { s.installConn sink kick with
        inner := { (s.installConn sink kick).inner with identity := identity } } := by
    rw [SessionState.setIdentity]
    split
    · rfl
    · next heq =>
      rw [← not_not.mp heq]
  refine ⟨_, rfl, ?_, ?_⟩
  · simp only [SessionState.attachConn, SessionState.attachConnLocked, hid]
  · simp only [SessionState.attachConn, SessionState.attachConnLocked, hs]
    simp [SessionState.installConn]

theorem InStep.persisted [HashOrder] (h : InStep ident scope bound d c s)
    (hs : WellKept ident scope bound c s') (hq : s'.queuePath = s.queuePath)
    (hp : s'.subsPath = s.subsPath) (hqueue : s'.inner.queue = s.inner.queue) :
    InStep ident scope bound (s'.persistSubs d) c s' ∧ OnlyFiles c d (s'.persistSubs d) := by
  rcases h.files with ⟨h1, h2, h3, _⟩ | ⟨h1, h2, h3, h4⟩
  · obtain ⟨honly, hqf, hsf⟩ := hs.persistSubs (hp.trans h2) d
    refine ⟨{ hs with files := .inl ⟨hq.trans h1, hp.trans h2, ?_, hsf⟩ }, honly⟩
    rw [QueueFileHolds, hqf, hqueue]
    exact h3
  · have hdisk : s'.persistSubs d = d := by
      simp only [SessionState.persistSubs, hp.trans h2]
    rw [hdisk]
    exact ⟨{ hs with files := .inr ⟨hq.trans h1, hp.trans h2, h3, h4⟩ }, .refl c d⟩

/-- The session takes on an identity its client comes with. -/
theorem InStep.setIdentity [HashOrder] (h : InStep ident scope bound d c s) {identity : Str}
    (hid : ident c identity) (hfits : Fits (asBytes identity)) :
    InStep ident scope bound (s.setIdentity d identity).2 c (s.setIdentity d identity).1 ∧
      OnlyFiles c d (s.setIdentity d identity).2 := by
  have hkept : WellKept ident scope bound c
      { s with inner := { s.inner with identity := identity } } :=
    { h.toWellKept with identity := hid, fits := ⟨h.fits.1, hfits⟩ }
  rw [SessionState.setIdentity]
  split
  · dsimp only
    split
    · exact h.persisted hkept rfl rfl rfl
    · next hnil =>
      -- there is no file that names the old identity
      refine ⟨{ hkept with files := ?_ }, .refl c d⟩
      have hnil : s.inner.subs.entries = [] := not_not.mp hnil
      have hfiles : FilesMatch d c s := h.files
      rw [FilesMatch, SubsFileHolds, if_pos hnil] at hfiles ⊢
      exact hfiles
  · exact ⟨h, .refl c d⟩

theorem InStep.takeQueue (h : InStep ident scope bound d c s)
    (hs : s' = { s with inner := { s.inner with queue := [] } }) :
    InStep ident scope bound (s'.discardQueueFile d) c s' ∧
      OnlyFiles c d (s'.discardQueueFile d) := by
  subst hs
  have hfiles : FilesMatch d c s := h.files
  obtain ⟨hfiles', honly⟩ :
      FilesMatch _ c { s with inner := { s.inner with queue := [] } } ∧ OnlyFiles c d _ :=
    hfiles.takeQueue rfl rfl rfl rfl rfl
  refine ⟨{ h.toWellKept with files := hfiles', queue_le := ?_, queue_fits := ?_ }, honly⟩
  · exact Nat.zero_le _
  · exact fun _ hm => absurd hm List.not_mem_nil

theorem InStep.attachConn [HashOrder] (h : InStep ident scope bound d c s) {identity : Str}
    (hid : ident c identity) (hfits : Fits (asBytes identity)) (sink : Sender) (kick : Notify) :
    InStep ident scope bound (s.attachConn d identity sink kick).disk c
        (s.attachConn d identity sink kick).session ∧
      OnlyFiles c d (s.attachConn d identity sink kick).disk := by
  have hconn : InStep ident scope bound d c (s.installConn sink kick) :=
    h.same ⟨rfl, rfl, rfl, rfl, rfl, rfl, rfl⟩
  obtain ⟨hset, honly⟩ := hconn.setIdentity hid hfits
  obtain ⟨htake, honly'⟩ := hset.takeQueue rfl
  exact ⟨htake, honly.trans honly'⟩

theorem InStep.insertSub [HashOrder] (h : InStep ident scope bound d c s) {f ke : Str} (q : QoS)
    (t : Task) (hf : Fits (asBytes f)) (hke : filterToKeyexpr f scope = .ok ke) :
    InStep ident scope bound (s.insertSub d f q t).2.1 c (s.insertSub d f q t).1 ∧
      OnlyFiles c d (s.insertSub d f q t).2.1 := by
  refine h.persisted ?_ rfl rfl rfl
  exact {
    nonempty := h.nonempty
    clientId := h.clientId
    maxQueue := h.maxQueue
    identity := h.identity
    queue_le := h.queue_le
    queue_fits := h.queue_fits
    fits := h.fits
    subs_fit := by
      intro f' e he
      simp only [Keyed.lookup_insert] at he
      split at he
      · next heq =>
        rw [heq]
        exact hf
      · exact h.subs_fit f' e he
    subs_valid := by
      intro f' e he
      simp only [Keyed.lookup_insert] at he
      split at he
      · next heq =>
        rw [heq]
        exact ⟨ke, hke⟩
      · exact h.subs_valid f' e he }

theorem InStep.removeSub [HashOrder] (h : InStep ident scope bound d c s) (f : Str) :
    InStep ident scope bound (s.removeSub d f).2.1 c (s.removeSub d f).1 ∧
      OnlyFiles c d (s.removeSub d f).2.1 := by
  have hold : ∀ f' e, (s.inner.subs.erase f).lookup f' = some e →
      s.inner.subs.lookup f' = some e := by
    intro f' e he
    rw [Keyed.lookup_erase] at he
    split at he
    · cases he
    · exact he
  refine h.persisted ?_ rfl rfl rfl
  exact {
    nonempty := h.nonempty
    clientId := h.clientId
    maxQueue := h.maxQueue
    identity := h.identity
    queue_le := h.queue_le
    queue_fits := h.queue_fits
    fits := h.fits
    subs_fit := fun f' e he => h.subs_fit f' e (hold f' e he)
    subs_valid := fun f' e he => h.subs_valid f' e (hold f' e he) }

/-- The offline arm of `deliver`: the queue and its file grow together. -/
theorem InStep.deliverOffline (h : InStep ident scope bound d c s) {m : Msg} (hm : MsgFits m)
    (q : QoS) :
    InStep ident scope bound (s.deliverOffline d m q).disk c (s.deliverOffline d m q).session ∧
      OnlyFiles c d (s.deliverOffline d m q).disk := by
  rw [SessionState.deliverOffline]
  split
  · exact ⟨h, .refl c d⟩
  · next hqos =>
    have hbound : 0 < s.maxQueue := Nat.pos_of_ne_zero fun hz => hqos (.inr hz)
    have hkept : WellKept ident scope bound c (s.pushQueue m) := {
      nonempty := h.nonempty
      clientId := h.clientId
      maxQueue := h.maxQueue
      identity := h.identity
      queue_le := by
        have hle := h.queue_le
        have hmax := h.maxQueue
        simp only [SessionState.pushQueue]
        split
        · rw [List.length_append, List.length_tail, List.length_singleton]
          omega
        · rw [List.length_append, List.length_singleton]
          omega
      queue_fits := by
        intro m' hm'
        simp only [SessionState.pushQueue, List.mem_append, List.mem_singleton] at hm'
        rcases hm' with hm' | rfl
        · split at hm'
          · exact h.queue_fits m' (List.mem_of_mem_tail hm')
          · exact h.queue_fits m' hm'
        · exact hm
      fits := h.fits
      subs_fit := h.subs_fit
      subs_valid := h.subs_valid }
    have hne : (s.pushQueue m).inner.queue ≠ [] := by
      simp [SessionState.pushQueue]
    rcases h.files with ⟨h1, h2, _, h4⟩ | ⟨h1, h2, h3, h4⟩
    · obtain ⟨honly, hsf, hqf⟩ := hkept.persistQueue h1 hne d
      refine ⟨{ hkept with files := .inl ⟨h1, h2, hqf, ?_⟩ }, honly⟩
      rw [SubsFileHolds, hsf]
      exact h4
    · have hdisk : (s.pushQueue m).persistQueue d = d := by
        have hpath : (s.pushQueue m).queuePath = none := h1
        simp only [SessionState.persistQueue, hpath]
      show InStep ident scope bound ((s.pushQueue m).persistQueue d) c _ ∧
        OnlyFiles c d ((s.pushQueue m).persistQueue d)
      rw [hdisk]
      exact ⟨{ hkept with files := .inr ⟨h1, h2, h3, h4⟩ }, .refl c d⟩

theorem SameKept.of_noted (h : s.Noted s') : SameKept s s' := by
  cases h <;> exact ⟨rfl, rfl, rfl, rfl, rfl, rfl, rfl⟩

theorem InStep.deliver (h : InStep ident scope bound d c s) {m : Msg} (hm : MsgFits m)
    (q : QoS) (r : SessionState.SendResult) (now : Instant) :
    InStep ident scope bound (s.deliver d m q r now).disk c (s.deliver d m q r now).session ∧
      OnlyFiles c d (s.deliver d m q r now).disk := by
  rw [SessionState.deliver]
  cases s.inner.sink with
  | none => exact h.deliverOffline hm q
  | some tx =>
      have hpub := h.same (.of_noted (s.noted_publishFor m q))
      cases r with
      | ok => exact ⟨hpub, .refl c d⟩
      | closed =>
          exact (hpub.same (.of_noted (SessionState.noted_clearSink _ tx now))).deliverOffline hm q
      | timeout =>
          exact ((hpub.same (.of_noted (SessionState.noted_evictSlow _ tx now))).same
            (.of_noted (SessionState.noted_clearSink _ tx now))).deliverOffline hm q

theorem SessionState.attachConn_paths [HashOrder] (s : SessionState) (d : Disk) (identity : Str)
    (sink : Sender) (kick : Notify) :
    (s.attachConn d identity sink kick).session.queuePath = s.queuePath ∧
      (s.attachConn d identity sink kick).session.subsPath = s.subsPath := by
  have hlocked : (s.attachConn d identity sink kick).session =
      (s.attachConnLocked d identity sink kick).session := rfl
  rw [hlocked, attachConnLocked_session]
  exact ⟨rfl, rfl⟩

theorem SessionState.deliver_paths (s : SessionState) (d : Disk) (m : Msg) (q : QoS)
    (r : SessionState.SendResult) (now : Instant) :
    (s.deliver d m q r now).session.queuePath = s.queuePath ∧
      (s.deliver d m q r now).session.subsPath = s.subsPath := by
  have hoff : ∀ t : SessionState, (t.deliverOffline d m q).session.queuePath = t.queuePath ∧
      (t.deliverOffline d m q).session.subsPath = t.subsPath := by
    intro t
    rw [SessionState.deliverOffline]
    split <;> exact ⟨rfl, rfl⟩
  have hpub := SameKept.of_noted (s.noted_publishFor m q)
  rw [SessionState.deliver]
  cases s.inner.sink with
  | none => exact hoff s
  | some tx =>
      cases r with
      | ok => exact ⟨hpub.queuePath, hpub.subsPath⟩
      | closed =>
          have hclear := SameKept.of_noted ((s.publishFor m q).1.noted_clearSink tx now)
          obtain ⟨hq, hp⟩ := hoff ((s.publishFor m q).1.clearSink tx now)
          exact ⟨hq.trans (hclear.queuePath.trans hpub.queuePath),
            hp.trans (hclear.subsPath.trans hpub.subsPath)⟩
      | timeout =>
          have hevict := SameKept.of_noted ((s.publishFor m q).1.noted_evictSlow tx now)
          have hclear := SameKept.of_noted
            (((s.publishFor m q).1.evictSlow tx now).1.noted_clearSink tx now)
          obtain ⟨hq, hp⟩ := hoff (((s.publishFor m q).1.evictSlow tx now).1.clearSink tx now)
          exact ⟨hq.trans (hclear.queuePath.trans (hevict.queuePath.trans hpub.queuePath)),
            hp.trans (hclear.subsPath.trans (hevict.subsPath.trans hpub.subsPath))⟩

/-- A new session attached to, where the client id had no files. -/
theorem InStep.created [HashOrder] {identity : Str} (hc : c ≠ []) (hid : ident c identity)
    (hfits : Fits (asBytes c) ∧ Fits (asBytes identity)) (hqf : d.lookup (queueFile c) = none)
    (hsf : d.lookup (subsFile c) = none) {qp sp : Option Path}
    (hpaths : qp = some (queueFile c) ∧ sp = some (subsFile c) ∨ qp = none ∧ sp = none)
    (slowGrace : Option Duration) (sink : Sender) (kick : Notify) :
    let att := (SessionState.new d c bound slowGrace qp sp).attachConn d identity sink kick
    InStep ident scope bound att.disk c att.session ∧ OnlyFiles c d att.disk ∧
      att.session.queuePath = qp ∧ att.session.subsPath = sp := by
  have hquiet : (SessionState.new d c bound slowGrace qp sp).inner.subs.entries = [] := rfl
  obtain ⟨s', hs', hd', hcid, hmax, hq, hp, hident, hsubs, hqueue⟩ :=
    attachConn_quiet hquiet d sink kick
  have hsubs' : s'.inner.subs = ∅ := hsubs
  have hkept : WellKept ident scope bound c s' := {
    nonempty := hc
    clientId := hcid
    maxQueue := hmax
    identity := hident.symm ▸ hid
    queue_le := by
      rw [hqueue]
      exact Nat.zero_le _
    queue_fits := by
      rw [hqueue]
      exact fun _ hm => absurd hm List.not_mem_nil
    fits := hident.symm ▸ hfits
    subs_fit := by simp [hsubs']
    subs_valid := by simp [hsubs'] }
  simp only [hs', hd']
  rcases hpaths with ⟨rfl, rfl⟩ | ⟨rfl, rfl⟩
  · have hdisk : s'.discardQueueFile d = d.remove (queueFile c) := by
      simp only [SessionState.discardQueueFile, hq, SessionState.new]
    rw [hdisk]
    refine ⟨{ hkept with files := .inl ⟨hq, hp, ?_, ?_⟩ }, .removeQueue c d, hq, hp⟩
    · rw [QueueFileHolds, if_pos hqueue, Disk.remove, Keyed.lookup_erase, if_pos rfl]
    · rw [SubsFileHolds, if_pos (by rw [hsubs']; rfl), Disk.remove, Keyed.lookup_erase,
        if_neg (queueFile_ne_subsFile c c).symm]
      exact hsf
  · have hdisk : s'.discardQueueFile d = d := by
      simp only [SessionState.discardQueueFile, hq, SessionState.new]
    rw [hdisk]
    exact ⟨{ hkept with files := .inr ⟨hq, hp, hqf, hsf⟩ }, .refl c d, hq, hp⟩

/-- Both files of a session that is in step removed. -/
theorem FilesMatch.discard (h : FilesMatch d c s) :
    OnlyFiles c d (s.discardStateFiles d) ∧ (s.discardStateFiles d).lookup (queueFile c) = none ∧
      (s.discardStateFiles d).lookup (subsFile c) = none := by
  rcases h with ⟨h1, h2, _, _⟩ | ⟨h1, h2, h3, h4⟩
  · have hdisk : s.discardStateFiles d = (d.remove (queueFile c)).remove (subsFile c) := by
      simp only [SessionState.discardStateFiles, SessionState.discardSubsFile,
        SessionState.discardQueueFile, h1, h2]
    rw [hdisk]
    refine ⟨.trans (.removeQueue c d) (.removeSubs c _), ?_, ?_⟩
    · rw [Disk.remove, Keyed.lookup_erase, if_neg (queueFile_ne_subsFile c c), Disk.remove,
        Keyed.lookup_erase, if_pos rfl]
    · rw [Disk.remove, Keyed.lookup_erase, if_pos rfl]
  · have hdisk : s.discardStateFiles d = d := by
      simp only [SessionState.discardStateFiles, SessionState.discardSubsFile,
        SessionState.discardQueueFile, h1, h2]
    rw [hdisk]
    exact ⟨.refl c d, h3, h4⟩

end

end Entmoot
