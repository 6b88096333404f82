/-
# `Entmoot.CrashPoints` — what is left when a rehydration stops half-way

`rehydrate_one` reads the subscription file and replays its entries, and each
`insert_sub` writes the file anew from the subscriptions made so far.  The file
operations it performs are a list (`rehydrateOps`, and `rehydrateOne_ops` says that
they are what `rehydrateOne` does to the disk), and the process can stop after any
number of them: what is left is the state of the disk after an initial part of the
list, so a law about every such point is a `Run.Always`.

A rename replaces the file in one go, so whatever is left of it loads.  But after
the first entry it holds that entry alone: a stop before the last one loses the
rest (`second_filter_is_lost`).  The file survives every stop exactly if no two
different entries of it are due, and the bus accepts the one that is
(`crash_safe_iff`).
-/
import Entmoot.Restart

namespace Entmoot

/-! ## File operations -/

inductive FileOp where
  | write (p : Path) (b : Bytes)
  | rename (src dst : Path)
  | remove (p : Path)
  deriving DecidableEq, Repr

def FileOp.apply (d : Disk) : FileOp → Disk
  | .write p b => d.write p b
  | .rename src dst => d.rename src dst
  | .remove p => d.remove p

/-- The disk as a system that takes file operations. -/
def fileStep (d : Disk) (op : FileOp) : Option Disk := some (op.apply d)

/-- The file operations of `save_subs`. -/
def saveSubsOps (path : Path) (clientId identity : Str) (entries : List (Str × QoS)) :
    Except String (List FileOp) :=
  if entries = [] then .ok [.remove path]
  else do
    let out ← writeChunk subsMagic (asBytes clientId)
    let out ← writeChunk out (asBytes identity)
    let out ← writeSubs out entries
    let tmp := withExtension path "subs.tmp".toList
    pure [.write tmp out, .rename tmp path]

/-- The file operations of `persist_subs`. -/
def SessionState.persistSubsOps [HashOrder] (s : SessionState) : List FileOp :=
  match s.subsPath with
  | none => []
  | some path =>
    let entries := HashOrder.order (subEntries s.inner.subs)
    match saveSubsOps path s.clientId s.inner.identity entries with
    | .ok ops => ops
    | .error _ => []

namespace SessionRegistry

/-- The file operations of one entry replayed. -/
def replaySubOps [HashOrder] (declare : Str → Bool) (acl : Acl) (scope identity : Str) (a : Addr)
    (r : SessionRegistry) (e : Str × QoS) : List FileOp :=
  if acl.maySubscribe identity e.1 then
    match filterToKeyexpr e.1 scope with
    | .error _ => []
    | .ok ke =>
      if declare ke then
        match r.heap[a]? with
        | none => []
        | some s => (s.insertSub r.disk e.1 e.2 r.tasks).1.persistSubsOps
      else []
  else []

/-- Those of all entries, and of the file being reconciled at the end. -/
def replayOps [HashOrder] (declare : Str → Bool) (acl : Acl) (scope identity : Str) (a : Addr) :
    SessionRegistry → List (Str × QoS) → List FileOp
  | r, [] =>
      match r.heap[a]? with
      | some s => s.persistSubsOps
      | none => []
  | r, e :: es =>
      r.replaySubOps declare acl scope identity a e ++
        replayOps declare acl scope identity a (r.replaySub declare acl scope identity a e) es

/-- The session `rehydrate_one` starts from. -/
def restoredSession (r : SessionRegistry) (path : Path) (clientId identity : Str) : SessionState :=
  let s := SessionState.new r.disk clientId r.maxQueue r.slowGrace (r.queuePath clientId)
    (some path)
  { s with inner := { s.inner with identity := identity } }

/-- The file operations of `rehydrate_one`. -/
def rehydrateOps [HashOrder] (declare : Str → Bool) (acl : Acl) (scope : Str) (r : SessionRegistry)
    (path : Path) : List FileOp :=
  match loadSubs r.disk path with
  | .error _ => []
  | .ok (clientId, identity, filters) =>
    replayOps declare acl scope identity r.heap.length
      { r with heap := r.heap ++ [r.restoredSession path clientId identity] } filters

end SessionRegistry

theorem saveSubs_ops (d : Disk) (path : Path) (c identity : Str) (es : List (Str × QoS)) :
    saveSubs d path c identity es =
      (saveSubsOps path c identity es).map (List.foldl FileOp.apply d) := by
  rw [saveSubs, saveSubsOps]
  split
  · rfl
  · cases writeChunk subsMagic (asBytes c) with
    | error e => rfl
    | ok out₁ =>
        simp only [bind, Except.bind]
        cases writeChunk out₁ (asBytes identity) with
        | error e => rfl
        | ok out₂ =>
            dsimp only
            cases writeSubs out₂ es with
            | error e => rfl
            | ok out₃ => rfl

section
variable [HashOrder] (declare : Str → Bool) (acl : Acl) (scope identity : Str) {a : Addr}
  {r : SessionRegistry} {e : Str × QoS} {s : SessionState}

theorem persistSubs_ops (s : SessionState) (d : Disk) :
    s.persistSubs d = s.persistSubsOps.foldl FileOp.apply d := by
  rw [SessionState.persistSubs, SessionState.persistSubsOps]
  cases s.subsPath with
  | none => rfl
  | some path =>
      simp only [saveSubs_ops]
      cases saveSubsOps path s.clientId s.inner.identity
        (HashOrder.order (SessionState.subEntries s.inner.subs)) with
      | error e => rfl
      | ok ops => rfl

/-! ## One entry -/

theorem replaySubOps_of_not (r : SessionRegistry)
    (h : reactivates declare acl scope identity e.1 = false) :
    r.replaySubOps declare acl scope identity a e = [] := by
  rw [reactivates] at h
  rw [SessionRegistry.replaySubOps]
  by_cases hacl : acl.maySubscribe identity e.1 = true
  · rw [if_pos hacl]
    cases hke : filterToKeyexpr e.1 scope with
    | error err => rfl
    | ok ke =>
        rw [hke, hacl, Bool.true_and] at h
        simp only [h, Bool.false_eq_true, if_false]
  · rw [if_neg hacl]

theorem replaySubOps_of_reactivates (h : reactivates declare acl scope identity e.1 = true)
    (hs : r.heap[a]? = some s) : r.replaySubOps declare acl scope identity a e =
      (s.insertSub r.disk e.1 e.2 r.tasks).1.persistSubsOps := by
  rw [reactivates, Bool.and_eq_true] at h
  obtain ⟨hacl, hke⟩ := h
  rw [SessionRegistry.replaySubOps, if_pos hacl]
  cases hk : filterToKeyexpr e.1 scope with
  | error err =>
      rw [hk] at hke
      cases hke
  | ok ke =>
      rw [hk] at hke
      dsimp only at hke
      simp only [hke, if_true, hs]

/-- The session stays where it is, and its operations are what an entry does to the disk. -/
theorem replaySub_ops (hs : r.heap[a]? = some s) (e : Str × QoS) :
    (∃ s', (r.replaySub declare acl scope identity a e).heap[a]? = some s') ∧
      (r.replaySub declare acl scope identity a e).disk =
        (r.replaySubOps declare acl scope identity a e).foldl FileOp.apply r.disk := by
  cases hr : reactivates declare acl scope identity e.1 with
  | false =>
      rw [replaySub_of_not declare acl scope r hr,
        replaySubOps_of_not declare acl scope identity r hr]
      exact ⟨⟨s, hs⟩, rfl⟩
  | true =>
      rw [replaySub_of_reactivates declare acl scope hr hs,
        replaySubOps_of_reactivates declare acl scope identity hr hs]
      exact ⟨⟨_, Cells.set_self hs⟩, persistSubs_ops _ _⟩

theorem replayOps_disk : ∀ (es : List (Str × QoS)) {r : SessionRegistry} {s : SessionState},
    r.heap[a]? = some s →
      ∃ s', (es.foldl (SessionRegistry.replaySub declare acl scope identity a) r).heap[a]? =
        some s' ∧
        s'.persistSubs (es.foldl (SessionRegistry.replaySub declare acl scope identity a) r).disk =
          (r.replayOps declare acl scope identity a es).foldl FileOp.apply r.disk := by
  intro es
  induction es with
  | nil =>
      intro r s hs
      refine ⟨s, hs, ?_⟩
      rw [SessionRegistry.replayOps, hs]
      exact persistSubs_ops s r.disk
  | cons e es ih =>
      intro r s hs
      obtain ⟨⟨s₁, hs₁⟩, hdisk⟩ := replaySub_ops declare acl scope identity hs e
      obtain ⟨s', hs', hrest⟩ := ih hs₁
      refine ⟨s', hs', ?_⟩
      rw [SessionRegistry.replayOps, List.foldl_append, ← hdisk]
      exact hrest

theorem rehydrateOps_of_load {path : Path} {c : Str} {es : List (Str × QoS)}
    (hload : loadSubs r.disk path = .ok (c, identity, es)) :
    r.rehydrateOps declare acl scope path =
      SessionRegistry.replayOps declare acl scope identity r.heap.length
        { r with heap := r.heap ++ [r.restoredSession path c identity] } es := by
  rw [SessionRegistry.rehydrateOps, hload]

/-- **The file operations of `rehydrate_one`**, one after the other, are what it does
to the disk. -/
theorem rehydrateOne_ops {r r' : SessionRegistry} {path : Path} {c : Str}
    (h : r.rehydrateOne declare acl scope path = .ok (r', c)) :
    r'.disk = (r.rehydrateOps declare acl scope path).foldl FileOp.apply r.disk := by
  obtain ⟨⟨clientId, identity, es⟩, hload, _⟩ := bind_eq_ok.mp h
  have hstart : ({ r with heap := r.heap ++ [r.restoredSession path clientId identity] } :
      SessionRegistry).heap[r.heap.length]? = some (r.restoredSession path clientId identity) :=
    List.getElem?_concat_length
  obtain ⟨s, hs, hdisk⟩ := replayOps_disk declare acl scope identity es hstart
  rw [rehydrateOne_of_load declare acl scope hload rfl rfl hs] at h
  cases h
  rw [rehydrateOps_of_load declare acl scope identity hload]
  exact hdisk

/-! ## What a restart makes of a file, under any name -/

theorem replayAll_mirrors : ∀ (es : List (Str × QoS)) {r : SessionRegistry} {s : SessionState}
    {m : AList fun _ : Str => QoS}, r.heap[a]? = some s → Mirrors s.inner.subs m →
      ∃ s', (es.foldl (SessionRegistry.replaySub declare acl scope identity a) r).heap[a]? =
        some s' ∧
        Mirrors s'.inner.subs
          (Keyed.insertAll m (es.filter fun e => reactivates declare acl scope identity e.1)) := by
  intro es
  induction es with
  | nil => exact fun hs hm => ⟨_, hs, hm⟩
  | cons e es ih =>
      intro r s m hs hm
      rw [List.foldl_cons, List.filter_cons]
      cases hr : reactivates declare acl scope identity e.1 with
      | false =>
          rw [replaySub_of_not declare acl scope r hr]
          exact ih hs hm
      | true =>
          rw [replaySub_of_reactivates declare acl scope hr hs]
          refine ih (Cells.set_self hs) fun f => ?_
          show ((s.inner.subs.insert e.1 ⟨e.2, r.tasks⟩).lookup f).map SubEntry.qos = _
          rw [Keyed.lookup_insert, Keyed.lookup_insert]
          split
          · rfl
          · exact hm f

/-- A file that loads gives a registered session with the filters reactivated. -/
theorem rehydrateOne_subs {path : Path} {c : Str} {es : List (Str × QoS)}
    (hload : loadSubs r.disk path = .ok (c, identity, es)) :
    ∃ r' s, r.rehydrateOne declare acl scope path = .ok (r', c) ∧ r'.registered c = some s ∧
      Mirrors s.inner.subs
        (Keyed.insertAll ∅ (es.filter fun e => reactivates declare acl scope identity e.1)) := by
  have hstart : ({ r with heap := r.heap ++ [r.restoredSession path c identity] } :
      SessionRegistry).heap[r.heap.length]? = some (r.restoredSession path c identity) :=
    List.getElem?_concat_length
  obtain ⟨s, hs, hm⟩ := replayAll_mirrors declare acl scope identity es hstart
    (m := ∅) (fun f => rfl)
  generalize hfold : es.foldl (SessionRegistry.replaySub declare acl scope identity r.heap.length)
    { r with heap := r.heap ++ [r.restoredSession path c identity] } = r₂ at hs
  refine ⟨_, s, rehydrateOne_of_load declare acl scope hload rfl hfold hs, ?_, hm⟩
  · exact Option.bind_eq_some_iff.mpr ⟨r.heap.length, AList.lookup_insert _, hs⟩

end

/-! ## What survives a stop -/

/-- An entry is due: a valid filter, permitted for the identity. -/
structure Due (acl : Acl) (scope identity : Str) (e : Str × QoS) : Prop where
  permitted : acl.maySubscribe identity e.1 = true
  valid : ∃ ke, filterToKeyexpr e.1 scope = .ok ke

/-- What a stop must leave of a file that held `x`: whatever is left loads, and every
entry that is due is in it, so that a restart brings it back. -/
structure Survives [HashOrder] (acl : Acl) (scope : Str) (path : Path) (x : LoadedSubs) (d : Disk) :
    Prop where
  loads : ∀ b, d.lookup path = some b → ∃ es, loadSubs d path = .ok (x.1, x.2.1, es)
  entries : ∀ e ∈ x.2.2, Due acl scope x.2.1 e →
    ∃ es, loadSubs d path = .ok (x.1, x.2.1, es) ∧ e ∈ es
  restored : ∀ e ∈ x.2.2, Due acl scope x.2.1 e → ∀ (r : SessionRegistry) (declare : Str → Bool),
    r.disk = d → (∀ ke, declare ke = true) →
      ∃ r' s, r.rehydrateOne declare acl scope path = .ok (r', x.1) ∧ r'.registered x.1 = some s ∧
        (s.inner.subs.lookup e.1).map SubEntry.qos = some e.2

/-- At most one entry is due, and the bus accepts it. -/
def OneDue (declare : Str → Bool) (acl : Acl) (scope : Str) (x : LoadedSubs) : Prop :=
  ∀ e ∈ x.2.2, Due acl scope x.2.1 e →
    reactivates declare acl scope x.2.1 e.1 = true ∧ ∀ e' ∈ x.2.2, Due acl scope x.2.1 e' → e' = e

/-- What is left at each stop when at most one entry is due. -/
def Left (acl : Acl) (scope : Str) (path : Path) (x : LoadedSubs) (d : Disk) : Prop :=
  (∃ es, loadSubs d path = .ok (x.1, x.2.1, es) ∧ (∀ e ∈ es, e ∈ x.2.2) ∧
    ∀ e ∈ x.2.2, Due acl scope x.2.1 e → e ∈ es) ∨
  (d.lookup path = none ∧ ∀ e ∈ x.2.2, ¬ Due acl scope x.2.1 e)

section
variable {declare : Str → Bool} {acl : Acl} {scope identity : Str} {path : Path} {x : LoadedSubs}
  {d : Disk} {e : Str × QoS}

theorem due_of_reactivates (h : reactivates declare acl scope identity e.1 = true) :
    Due acl scope identity e := by
  rw [reactivates, Bool.and_eq_true] at h
  obtain ⟨hacl, hke⟩ := h
  cases hk : filterToKeyexpr e.1 scope with
  | error err =>
      rw [hk] at hke
      cases hke
  | ok ke => exact ⟨hacl, ke, hk⟩

theorem Due.reactivates (h : Due acl scope identity e) (hdecl : ∀ ke, declare ke = true) :
    reactivates declare acl scope identity e.1 = true := by
  obtain ⟨ke, hke⟩ := h.valid
  rw [Entmoot.reactivates, h.permitted, hke]
  exact hdecl ke

theorem survives_of_left [HashOrder] (hone : OneDue declare acl scope x)
    (h : Left acl scope path x d) : Survives acl scope path x d := by
  rcases h with ⟨es, hload, hsub, hall⟩ | ⟨hnone, hno⟩
  · refine ⟨fun _ _ => ⟨es, hload⟩, fun e he hdue => ⟨es, hload, hall e he hdue⟩, ?_⟩
    rintro e he hdue r declare' rfl hdecl
    obtain ⟨r', s, hrun, hreg, hm⟩ := rehydrateOne_subs declare' acl scope x.2.1 hload
    refine ⟨r', s, hrun, hreg, ?_⟩
    rw [hm e.1]
    refine Keyed.lookup_insertAll_of_unique ?_ fun q hq => ?_
    · exact List.mem_filter.mpr ⟨hall e he hdue, hdue.reactivates hdecl⟩
    · -- another entry for the same filter would be due as well
      obtain ⟨hmem, _⟩ := List.mem_filter.mp hq
      have heq := (hone e he hdue).2 (e.1, q) (hsub _ hmem) ⟨hdue.permitted, hdue.valid⟩
      exact congrArg Prod.snd heq
  · refine ⟨fun b hb => ?_, fun e he hdue => absurd hdue (hno e he),
      fun e he hdue => absurd hdue (hno e he)⟩
    rw [hnone] at hb
    cases hb

/-! ## The session on the way -/

/-- The session while the entries of `x` are replayed. -/
structure Rebuilding (path : Path) (x : LoadedSubs) (s : SessionState) : Prop where
  clientId : s.clientId = x.1
  subsPath : s.subsPath = some path
  identity : s.inner.identity = x.2.1
  subs : ∀ e ∈ SessionState.subEntries s.inner.subs, e ∈ x.2.2

variable {s : SessionState}

theorem mem_subEntries_insert {subs : AList fun _ : Str => SubEntry} {f f' : Str} {q q' : QoS}
    {t : Task} : (f', q') ∈ SessionState.subEntries (subs.insert f ⟨q, t⟩) ↔
      f' = f ∧ q' = q ∨ f' ≠ f ∧ (f', q') ∈ SessionState.subEntries subs := by
  rw [mem_subEntries, mem_subEntries, Keyed.lookup_insert]
  by_cases hf : f' = f
  · rw [if_pos hf]
    constructor
    · rintro ⟨t', ht'⟩
      cases ht'
      exact .inl ⟨hf, rfl⟩
    · rintro (⟨_, rfl⟩ | ⟨hne, _⟩)
      · exact ⟨t, rfl⟩
      · exact absurd hf hne
  · rw [if_neg hf]
    constructor
    · exact fun h => .inr ⟨hf, h⟩
    · rintro (⟨heq, _⟩ | ⟨_, h⟩)
      · exact absurd heq hf
      · exact h

section
variable [HashOrder]

theorem Rebuilding.insertSub (h : Rebuilding path x s) (he : e ∈ x.2.2) (d : Disk) (t : Task) :
    Rebuilding path x (s.insertSub d e.1 e.2 t).1 where
  clientId := h.clientId
  subsPath := h.subsPath
  identity := h.identity
  subs := by
    rintro ⟨f, q⟩ hf
    rcases mem_subEntries_insert.mp hf with ⟨rfl, rfl⟩ | ⟨_, hf⟩
    · exact he
    · exact h.subs _ hf

theorem Rebuilding.ops_nil (h : Rebuilding path x s)
    (hnil : SessionState.subEntries s.inner.subs = []) :
    s.persistSubsOps = [.remove path] := by
  have horder : HashOrder.order (SessionState.subEntries s.inner.subs) = [] := by
    rw [hnil]
    exact List.perm_nil.mp (HashOrder.perm _)
  simp only [SessionState.persistSubsOps, h.subsPath, horder, saveSubsOps, if_true]

theorem Rebuilding.ops_cons (h : Rebuilding path x s) (hfit : SubsFit x.1 x.2.1 x.2.2)
    (hne : SessionState.subEntries s.inner.subs ≠ []) :
    ∃ es, es.Perm (SessionState.subEntries s.inner.subs) ∧ SubsFit x.1 x.2.1 es ∧
      s.persistSubsOps = [.write (withExtension path "subs.tmp".toList) (subsBytes x.1 x.2.1 es),
        .rename (withExtension path "subs.tmp".toList) path] := by
  have hperm : (HashOrder.order (SessionState.subEntries s.inner.subs)).Perm
      (SessionState.subEntries s.inner.subs) := HashOrder.perm _
  have hfits : SubsFit x.1 x.2.1 (HashOrder.order (SessionState.subEntries s.inner.subs)) :=
    ⟨hfit.clientId, hfit.identity, fun e he => hfit.entries e (h.subs e (hperm.mem_iff.mp he))⟩
  have hnil : HashOrder.order (SessionState.subEntries s.inner.subs) ≠ [] := by
    intro hnil
    rw [hnil] at hperm
    exact hne (List.nil_perm.mp hperm)
  refine ⟨_, hperm, hfits, ?_⟩
  simp only [SessionState.persistSubsOps, h.subsPath, h.clientId, h.identity, saveSubsOps,
    if_neg hnil, writeChunk_of_fits _ hfits.clientId, writeChunk_of_fits _ hfits.identity,
    writeSubs_of_fits _ hfits.entries, bind, Except.bind, pure, Except.pure]
  rfl

end

/-! ## The disk on the way -/

theorem Left.write (h : Left acl scope path x d) (b : Bytes) :
    Left acl scope path x (d.write (withExtension path "subs.tmp".toList) b) := by
  have hsame : (d.write (withExtension path "subs.tmp".toList) b).lookup path = d.lookup path :=
    AList.lookup_insert_ne (withExtension_ne path).symm
  rw [Left, loadSubs_congr hsame, hsame]
  exact h

theorem left_rename {es : List (Str × QoS)} (hfit : SubsFit x.1 x.2.1 es)
    (hsub : ∀ e ∈ es, e ∈ x.2.2) (hall : ∀ e ∈ x.2.2, Due acl scope x.2.1 e → e ∈ es) :
    Left acl scope path x ((d.write (withExtension path "subs.tmp".toList)
      (subsBytes x.1 x.2.1 es)).rename (withExtension path "subs.tmp".toList) path) := by
  refine .inl ⟨es, loadSubs_subsBytes hfit ?_, hsub, hall⟩
  rw [lookup_rename, if_pos rfl]

theorem left_remove (hno : ∀ e ∈ x.2.2, ¬ Due acl scope x.2.1 e) :
    Left acl scope path x (d.remove path) := by
  refine .inr ⟨?_, hno⟩
  rw [Disk.remove, Keyed.lookup_erase, if_pos rfl]

variable [HashOrder]

theorem Rebuilding.always_left (h : Rebuilding path x s) (hfit : SubsFit x.1 x.2.1 x.2.2)
    (hall : ∀ e ∈ x.2.2, Due acl scope x.2.1 e → e ∈ SessionState.subEntries s.inner.subs)
    (hleft : Left acl scope path x d) {rest : List FileOp}
    (hrest : Left acl scope path x (s.persistSubs d) →
      Run.Always fileStep (Left acl scope path x) (s.persistSubs d) rest) :
    Run.Always fileStep (Left acl scope path x) d (s.persistSubsOps ++ rest) := by
  by_cases hnil : SessionState.subEntries s.inner.subs = []
  · have hno : ∀ e ∈ x.2.2, ¬ Due acl scope x.2.1 e := by
      intro e he hdue
      have hmem := hall e he hdue
      rw [hnil] at hmem
      cases hmem
    have hremoved : Left acl scope path x (d.remove path) := left_remove hno
    rw [persistSubs_ops, h.ops_nil hnil] at hrest
    rw [h.ops_nil hnil, List.cons_append, Run.always_cons]
    refine ⟨hleft, fun d' hd' => ?_⟩
    cases hd'
    exact hrest hremoved
  · obtain ⟨es, hperm, hes, hops⟩ := h.ops_cons hfit hnil
    have hrenamed : Left acl scope path x ((d.write (withExtension path "subs.tmp".toList)
        (subsBytes x.1 x.2.1 es)).rename (withExtension path "subs.tmp".toList) path) :=
      left_rename hes (fun e he => h.subs e (hperm.mem_iff.mp he))
        fun e he hdue => hperm.mem_iff.mpr (hall e he hdue)
    rw [persistSubs_ops, hops] at hrest
    rw [hops, List.cons_append, List.cons_append, Run.always_cons]
    refine ⟨hleft, fun d₁ hd₁ => ?_⟩
    cases hd₁
    rw [Run.always_cons]
    refine ⟨hleft.write _, fun d₂ hd₂ => ?_⟩
    cases hd₂
    exact hrest hrenamed

/-- **One due entry survives every stop**: the entries before it change nothing, and
once it is replayed it is in whatever is written. -/
theorem replay_left (hfit : SubsFit x.1 x.2.1 x.2.2)
    (hone : OneDue declare acl scope x) {a : Addr} :
      ∀ (todo : List (Str × QoS)) {r : SessionRegistry}
      {s : SessionState}, (∀ e ∈ todo, e ∈ x.2.2) → r.heap[a]? = some s → Rebuilding path x s →
      (∀ e ∈ x.2.2, Due acl scope x.2.1 e → e ∈ todo ∨ e ∈ SessionState.subEntries s.inner.subs) →
      Left acl scope path x r.disk →
        Run.Always fileStep (Left acl scope path x) r.disk
          (r.replayOps declare acl scope x.2.1 a todo) := by
  intro todo
  induction todo with
  | nil =>
      intro r s _ hs h hall hleft
      rw [SessionRegistry.replayOps, hs]
      have hdue := fun e he hd => (hall e he hd).resolve_left List.not_mem_nil
      have halways := h.always_left hfit hdue hleft Run.always_nil.mpr
      rwa [List.append_nil] at halways
  | cons e todo ih =>
      intro r s htodo hs h hall hleft
      have he : e ∈ x.2.2 := htodo e List.mem_cons_self
      have hrest : ∀ e ∈ todo, e ∈ x.2.2 := fun e he => htodo e (List.mem_cons_of_mem _ he)
      rw [SessionRegistry.replayOps]
      cases hr : reactivates declare acl scope x.2.1 e.1 with
      | false =>
          rw [replaySub_of_not declare acl scope r hr,
            replaySubOps_of_not declare acl scope x.2.1 r hr, List.nil_append]
          refine ih hrest hs h (fun e' he' hdue => ?_) hleft
          rcases hall e' he' hdue with hmem | hmem
          · refine .inl ((List.mem_cons.mp hmem).resolve_left ?_)
            rintro rfl
            rw [(hone e' he' hdue).1] at hr
            cases hr
          · exact .inr hmem
      | true =>
          rw [replaySub_of_reactivates declare acl scope hr hs,
            replaySubOps_of_reactivates declare acl scope x.2.1 hr hs]
          have hnew := h.insertSub he r.disk r.tasks
          have hdue : ∀ e' ∈ x.2.2, Due acl scope x.2.1 e' →
              e' ∈ SessionState.subEntries (s.insertSub r.disk e.1 e.2 r.tasks).1.inner.subs := by
            intro e' he' hdue'
            rw [(hone e he (due_of_reactivates hr)).2 e' he' hdue']
            exact mem_subEntries_insert.mpr (.inl ⟨rfl, rfl⟩)
          refine hnew.always_left hfit hdue hleft fun hleft' => ?_
          exact ih hrest (Cells.set_self hs) hnew (fun e' he' hd => .inr (hdue e' he' hd)) hleft'

/-- The first entry reactivated is alone in the file after it; without any, the file
is removed. -/
theorem first_persist {K : Disk → Prop} (hfit : SubsFit x.1 x.2.1 x.2.2) {a : Addr} :
    ∀ (todo : List (Str × QoS)) {r : SessionRegistry} {s : SessionState}, (∀ e ∈ todo, e ∈ x.2.2) →
      r.heap[a]? = some s → Rebuilding path x s → SessionState.subEntries s.inner.subs = [] →
      Run.Always fileStep K r.disk (r.replayOps declare acl scope x.2.1 a todo) →
        (∃ e ∈ todo, reactivates declare acl scope x.2.1 e.1 = true ∧
          ∃ d, K d ∧ d.lookup path = some (subsBytes x.1 x.2.1 [e])) ∨
        ∃ d, K d ∧ d.lookup path = none := by
  intro todo
  induction todo with
  | nil =>
      intro r s _ hs h hnil halways
      rw [SessionRegistry.replayOps, hs] at halways
      dsimp only at halways
      rw [h.ops_nil hnil, Run.always_cons] at halways
      refine .inr ⟨r.disk.remove path, Run.always_nil.mp (halways.2 _ rfl), ?_⟩
      rw [Disk.remove, Keyed.lookup_erase, if_pos rfl]
  | cons e todo ih =>
      intro r s htodo hs h hnil halways
      rw [SessionRegistry.replayOps] at halways
      cases hr : reactivates declare acl scope x.2.1 e.1 with
      | false =>
          rw [replaySub_of_not declare acl scope r hr,
            replaySubOps_of_not declare acl scope x.2.1 r hr, List.nil_append] at halways
          rcases ih (fun e he => htodo e (List.mem_cons_of_mem _ he)) hs h hnil halways with
            ⟨e', he', hfound⟩ | hgone
          · exact .inl ⟨e', List.mem_cons_of_mem _ he', hfound⟩
          · exact .inr hgone
      | true =>
          rw [replaySubOps_of_reactivates declare acl scope x.2.1 hr hs] at halways
          have hentries : SessionState.subEntries
              (s.insertSub r.disk e.1 e.2 r.tasks).1.inner.subs = [e] := by
            show SessionState.subEntries (s.inner.subs.insert e.1 ⟨e.2, r.tasks⟩) = [e]
            rw [SessionState.subEntries, AList.entries_insert, subEntries_eq_nil.mp hnil]
            rfl
          have hnew := h.insertSub (htodo e List.mem_cons_self) r.disk r.tasks
          obtain ⟨es, hperm, _, hwrite⟩ :=
            hnew.ops_cons hfit (by rw [hentries]; exact List.cons_ne_nil _ _)
          rw [hentries] at hperm
          rw [hwrite, List.perm_singleton.mp hperm, List.cons_append, List.cons_append,
            Run.always_cons] at halways
          have hrenamed := ((Run.always_cons.mp (halways.2 _ rfl)).2 _ rfl)
          refine .inl ⟨e, List.mem_cons_self, hr, _, hrenamed [] _ List.nil_prefix rfl, ?_⟩
          exact (lookup_rename _ _ _ _ _).trans (if_pos rfl)

/-- **Rehydration survives every stop** exactly if at most one entry of the file is
due, and the bus accepts it. -/
theorem crash_safe_iff (declare : Str → Bool) (acl : Acl) (scope : Str) (r : SessionRegistry)
    (path : Path) (x : LoadedSubs) (hload : loadSubs r.disk path = .ok x) :
    Run.Always fileStep (Survives acl scope path x) r.disk (r.rehydrateOps declare acl scope path) ↔
      OneDue declare acl scope x := by
  obtain ⟨c, identity, es⟩ := x
  have hfit : SubsFit c identity es := loadSubs_fits hload
  have hstart : ({ r with heap := r.heap ++ [r.restoredSession path c identity] } :
      SessionRegistry).heap[r.heap.length]? = some (r.restoredSession path c identity) :=
    List.getElem?_concat_length
  have hnil : SessionState.subEntries (r.restoredSession path c identity).inner.subs = [] := rfl
  have hrebuild : Rebuilding path (c, identity, es) (r.restoredSession path c identity) := by
    refine ⟨rfl, rfl, rfl, fun e he => ?_⟩
    rw [hnil] at he
    cases he
  rw [rehydrateOps_of_load declare acl scope identity hload]
  constructor
  · intro halways e he hdue
    rcases first_persist hfit es (fun _ h => h) hstart hrebuild hnil halways with
      ⟨e₀, he₀, hr, d, hd, hfile⟩ | ⟨d, hd, hnone⟩
    · -- the file holds the first entry alone, and must hold all that are due
      have hfit₀ : SubsFit c identity [e₀] := by
        refine ⟨hfit.clientId, hfit.identity, fun e' he' => ?_⟩
        rw [List.mem_singleton.mp he']
        exact hfit.entries e₀ he₀
      have halone : ∀ e' ∈ es, Due acl scope identity e' → e' = e₀ := by
        intro e' he' hdue'
        obtain ⟨es', hes', hmem⟩ := hd.entries e' he' hdue'
        cases (loadSubs_subsBytes hfit₀ hfile).symm.trans hes'
        exact List.mem_singleton.mp hmem
      rw [halone e he hdue]
      exact ⟨hr, fun e' he' hdue' => (halone e' he' hdue')⟩
    · obtain ⟨es', hes', _⟩ := hd.entries e he hdue
      have hsome := loadSubs_isSome hes'
      rw [hnone] at hsome
      cases hsome
  · intro hone
    have hleft : Left acl scope path (c, identity, es) r.disk :=
      .inl ⟨es, hload, fun _ h => h, fun _ h _ => h⟩
    exact (replay_left hfit hone es (fun _ h => h) hstart hrebuild (fun _ h _ => .inl h) hleft).mono
      fun _ h => survives_of_left hone h

end

/-- A client's subscription file, and the broker that finds it. -/
def devSubs (filters : List (Str × QoS)) : LoadedSubs := ("dev".toList, "dev".toList, filters)

def devRegistry (filters : List (Str × QoS)) : SessionRegistry :=
  .new 10 none true ((∅ : Disk).insert (subsFile "dev".toList)
    (subsBytes "dev".toList "dev".toList filters))

theorem devRegistry_loads {filters : List (Str × QoS)} (h : ∀ e ∈ filters, Fits (asBytes e.1)) :
    loadSubs (devRegistry filters).disk (subsFile "dev".toList) = .ok (devSubs filters) :=
  loadSubs_subsBytes ⟨by decide, by decide, h⟩ (AList.lookup_insert _)

/-- With one filter the file is safe. -/
theorem one_filter_survives :
    Run.Always fileStep (@Survives .asStored (.new [] .allow) [] (subsFile "dev".toList)
        (devSubs [("kiln".toList, .atLeastOnce)]))
      (devRegistry [("kiln".toList, .atLeastOnce)]).disk
      (@SessionRegistry.rehydrateOps .asStored (fun _ => true) (.new [] .allow) []
        (devRegistry [("kiln".toList, .atLeastOnce)]) (subsFile "dev".toList)) := by
  refine (@crash_safe_iff .asStored (fun _ => true) (.new [] .allow) []
    (devRegistry [("kiln".toList, .atLeastOnce)]) (subsFile "dev".toList)
    (devSubs [("kiln".toList, .atLeastOnce)]) (devRegistry_loads (by decide))).mpr ?_
  intro e he _
  rw [List.mem_singleton.mp he]
  exact ⟨rfl, fun e' he' _ => List.mem_singleton.mp he'⟩

/-- With two, a stop after the first is subscribed loses the second. -/
theorem second_filter_is_lost :
    ¬ Run.Always fileStep (@Survives .asStored (.new [] .allow) [] (subsFile "dev".toList)
        (devSubs [("kiln".toList, .atLeastOnce), ("oven".toList, .atLeastOnce)]))
      (devRegistry [("kiln".toList, .atLeastOnce), ("oven".toList, .atLeastOnce)]).disk
      (@SessionRegistry.rehydrateOps .asStored (fun _ => true) (.new [] .allow) []
        (devRegistry [("kiln".toList, .atLeastOnce), ("oven".toList, .atLeastOnce)])
        (subsFile "dev".toList)) := by
  intro h
  obtain ⟨rest, hops⟩ : ∃ rest, @SessionRegistry.rehydrateOps .asStored (fun _ => true)
      (.new [] .allow) []
        (devRegistry [("kiln".toList, .atLeastOnce), ("oven".toList, .atLeastOnce)])
      (subsFile "dev".toList) =
        .write (subsTmp "dev".toList)
          (subsBytes "dev".toList "dev".toList [("kiln".toList, .atLeastOnce)]) ::
        .rename (subsTmp "dev".toList) (subsFile "dev".toList) :: rest :=
    ⟨_, (@rehydrateOps_of_load .asStored _ _ _ _ _ _ _ _ (devRegistry_loads (by decide))).trans rfl⟩
  rw [hops, Run.always_cons] at h
  obtain ⟨_, hentries, _⟩ := (Run.always_cons.mp (h.2 _ rfl)).2 _ rfl [] _ List.nil_prefix rfl
  obtain ⟨es, hes, hmem⟩ := hentries ("oven".toList, .atLeastOnce)
    (List.mem_cons_of_mem _ List.mem_cons_self) ⟨rfl, _, rfl⟩
  have hload : loadSubs (((devRegistry
      [("kiln".toList, .atLeastOnce), ("oven".toList, .atLeastOnce)]).disk.write
        (subsTmp "dev".toList)
        (subsBytes "dev".toList "dev".toList [("kiln".toList, .atLeastOnce)])).rename
      (subsTmp "dev".toList) (subsFile "dev".toList)) (subsFile "dev".toList) =
      .ok (devSubs [("kiln".toList, .atLeastOnce)]) :=
    loadSubs_subsBytes ⟨by decide, by decide, by decide⟩ (by rw [lookup_rename, if_pos rfl])
  cases hload.symm.trans hes
  revert hmem
  decide

end Entmoot
