/-
# `Entmoot.Reconcile` — a restart on the program's files, whatever is in them

`rehydrate` (`crates/entmoot-node/src/session.rs` 180–249) takes whatever it finds: the files
may be damaged, or carry other names than their client ids.  Each `.subs` file that loads
becomes a session with those of its filters that the ACL permits to the identity in the file,
and the file is then written anew, so that a filter an ACL change dropped does not come back
at the next start.  A file that does not load stays as it is.

A save that fails is only logged, and the old file stays.  The names are therefore those the
program gives its files and a file system takes (`OwnNames`); file operations succeed.

The scan is an induction on the files done so far (`Reconciled`): those hold what their
sessions have, the others are untouched.
-/
import Entmoot.FileNames
import Entmoot.Restart

namespace Entmoot

/-! ## What a save touches -/

theorem withExtension_tmp (p : Path) :
    ∃ q : Path, withExtension p "subs.tmp".toList = q ++ '.' :: "tmp".toList := by
  have htwo : ∀ before : Str, before ++ '.' :: "subs.tmp".toList =
      (before ++ ".subs".toList) ++ '.' :: "tmp".toList := by
    intro before
    rw [List.append_assoc]
    rfl
  rw [withExtension]
  split
  · exact ⟨_, htwo _⟩
  · exact ⟨_, htwo _⟩

/-- The name of a subscription file. -/
def IsSubs (p : Path) : Prop := extension p = some "subs".toList

theorem IsSubs.ne_tmp {p : Path} (h : IsSubs p) (path : Path) :
    p ≠ withExtension path "subs.tmp".toList := by
  rintro rfl
  obtain ⟨q, hq⟩ := withExtension_tmp path
  rw [IsSubs, hq] at h
  exact extension_tmp q h

section
variable [HashOrder] {s : SessionState} {d : Disk} {path : Path}

/-- A session whose entries fit writes them, or removes its file. -/
theorem persistSubs_lookup (hpath : s.subsPath = some path)
    (hfit : SubsFit s.clientId s.inner.identity
      (HashOrder.order (SessionState.subEntries s.inner.subs)))
    {p : Path} (hp : IsSubs p) : (s.persistSubs d).lookup p =
      if p = path then
        if HashOrder.order (SessionState.subEntries s.inner.subs) = [] then none
        else some (subsBytes s.clientId s.inner.identity
          (HashOrder.order (SessionState.subEntries s.inner.subs)))
      else d.lookup p := by
  have hsave : saveSubs d path s.clientId s.inner.identity
      (HashOrder.order (SessionState.subEntries s.inner.subs)) =
      .ok (if HashOrder.order (SessionState.subEntries s.inner.subs) = [] then d.remove path
        else (d.write (withExtension path "subs.tmp".toList) (subsBytes s.clientId s.inner.identity
          (HashOrder.order (SessionState.subEntries s.inner.subs)))).rename
            (withExtension path "subs.tmp".toList) path) := by
    rw [saveSubs]
    split
    · rfl
    · simp only [writeChunk_of_fits _ hfit.clientId, writeChunk_of_fits _ hfit.identity,
        writeSubs_of_fits _ hfit.entries, bind, Except.bind, pure, Except.pure]
      rfl
  simp only [SessionState.persistSubs, hpath, hsave]
  by_cases hnil : HashOrder.order (SessionState.subEntries s.inner.subs) = []
  · rw [if_pos hnil, if_pos hnil, Disk.remove, Keyed.lookup_erase]
  · rw [if_neg hnil, if_neg hnil, lookup_rename, if_neg (hp.ne_tmp path)]

end

/-! ## One file -/

section
variable [HashOrder] (declare : Str → Bool) (acl : Acl) (scope : Str)

/-- The subscriptions of a session come from the file and are still permitted. -/
def Revived (es : List (Str × QoS)) (s : SessionState) : Prop :=
  ∀ f e, s.inner.subs.lookup f = some e → (f, e.qos) ∈ es ∧
    reactivates declare acl scope s.inner.identity f = true

/-- From `r₀` to `r` the session of the file `path` was made at the end of the heap. -/
structure Reviving (path : Path) (c identity : Str) (es : List (Str × QoS))
    (r₀ r : SessionRegistry) : Prop where
  sessions : r.sessions = r₀.sessions
  length : r.heap.length = r₀.heap.length + 1
  heap : ∀ (b : Addr) s, r.heap[b]? = some s → b ≠ r₀.heap.length → r₀.heap[b]? = some s
  session : ∃ s, r.heap[r₀.heap.length]? = some s ∧ s.clientId = c ∧ s.subsPath = some path ∧
    s.inner.identity = identity ∧ Revived declare acl scope es s
  files : ∀ p, IsSubs p → p ≠ path → r.disk.lookup p = r₀.disk.lookup p

variable {declare acl scope} {path : Path} {c identity : Str} {es : List (Str × QoS)}
  {r₀ r : SessionRegistry}

theorem Revived.fits {s : SessionState} (h : Revived declare acl scope es s)
    (hfit : SubsFit c identity es) :
    SubsFit c identity (HashOrder.order (SessionState.subEntries s.inner.subs)) where
  clientId := hfit.clientId
  identity := hfit.identity
  entries := by
    intro e he
    rw [(HashOrder.perm _).mem_iff] at he
    obtain ⟨t, ht⟩ := mem_subEntries.mp he
    exact hfit.entries _ (h e.1 _ ht).1

theorem Reviving.replaySub (h : Reviving declare acl scope path c identity es r₀ r)
    (hfit : SubsFit c identity es) {e : Str × QoS} (he : e ∈ es) :
    Reviving declare acl scope path c identity es r₀
      (r.replaySub declare acl scope identity r₀.heap.length e) := by
  obtain ⟨s, hs, hcid, hpath, hid, hrev⟩ := h.session
  cases hr : reactivates declare acl scope identity e.1 with
  | false =>
      rw [replaySub_of_not declare acl scope r hr]
      exact h
  | true =>
      have hrev' : Revived declare acl scope es (s.insertSub r.disk e.1 e.2 r.tasks).1 := by
        intro f t ht
        have ht : (s.inner.subs.insert e.1 ⟨e.2, r.tasks⟩).lookup f = some t := ht
        rw [Keyed.lookup_insert] at ht
        split at ht
        · next hf =>
          cases ht
          subst hf
          exact ⟨he, hid.symm ▸ hr⟩
        · exact hrev f t ht
      rw [replaySub_of_reactivates declare acl scope hr hs]
      exact {
        sessions := h.sessions
        length := List.length_set.trans h.length
        heap := by
          intro b t ht hb
          have ht : (r.heap.set r₀.heap.length _)[b]? = some t := ht
          rw [List.getElem?_set_ne (Ne.symm hb)] at ht
          exact h.heap b t ht hb
        session := ⟨_, Cells.set_self hs, hcid, hpath, hid, hrev'⟩
        files := by
          intro p hp hne
          have hfits := hrev'.fits hfit
          rw [← show (s.insertSub r.disk e.1 e.2 r.tasks).1.clientId = c from hcid,
            ← show (s.insertSub r.disk e.1 e.2 r.tasks).1.inner.identity = identity from hid]
            at hfits
          have hlookup := persistSubs_lookup (s := (s.insertSub r.disk e.1 e.2 r.tasks).1)
            (d := r.disk) hpath hfits hp
          rw [if_neg hne] at hlookup
          exact hlookup.trans (h.files p hp hne) }

theorem Reviving.replayAll (hfit : SubsFit c identity es) (rest : List (Str × QoS)) :
    ∀ {r : SessionRegistry}, (∀ e ∈ rest, e ∈ es) →
      Reviving declare acl scope path c identity es r₀ r →
      Reviving declare acl scope path c identity es r₀
        (rest.foldl (SessionRegistry.replaySub declare acl scope identity r₀.heap.length) r) := by
  induction rest with
  | nil => exact fun _ h => h
  | cons e rest ih =>
      intro r hrest h
      obtain ⟨he, hrest⟩ := List.forall_mem_cons.mp hrest
      exact ih hrest (h.replaySub hfit he)

variable (declare acl scope) in
/-- `rehydrate_one` on a file that loads, whatever it is called. -/
theorem rehydrateOne_revives {r : SessionRegistry}
    (hload : loadSubs r.disk path = .ok (c, identity, es)) :
    ∃ r₁ s, Reviving declare acl scope path c identity es r r₁ ∧ r₁.heap[r.heap.length]? = some s ∧
      r.rehydrateOne declare acl scope path = .ok ({ r₁ with
        disk := s.persistSubs r₁.disk
        sessions := r₁.sessions.insert c r.heap.length }, c) := by
  let s₀ := SessionState.new r.disk c r.maxQueue r.slowGrace (r.queuePath c) (some path)
  let s₁ := { s₀ with inner := { s₀.inner with identity := identity } }
  have hstart : Reviving declare acl scope path c identity es r
      { r with heap := r.heap ++ [s₁] } := {
    sessions := rfl
    length := by
      show (r.heap ++ [s₁]).length = _
      rw [List.length_append, List.length_singleton]
    heap := by
      intro b s hs hb
      rcases Cells.concat_cases hs with hold | ⟨heq, -⟩
      · exact hold
      · exact absurd heq hb
    session := ⟨s₁, List.getElem?_concat_length, rfl, rfl, rfl, fun f e he => (by cases he)⟩
    files := fun _ _ _ => rfl }
  have hall := hstart.replayAll (loadSubs_fits hload) es fun _ he => he
  generalize hfold : es.foldl (SessionRegistry.replaySub declare acl scope identity r.heap.length)
    { r with heap := r.heap ++ [s₁] } = r₁ at hall
  obtain ⟨s, hs, -⟩ := hall.session
  exact ⟨r₁, s, hall, hs, rehydrateOne_of_load declare acl scope hload rfl hfold hs⟩

/-! ## The scan -/

variable (declare acl scope) in
/-- After the files `done` of a directory that first held `d₀`. -/
structure Reconciled (d₀ : Disk) (done : List Path) (r : SessionRegistry) : Prop where
  sessions : ∀ (a : Addr) s, r.heap[a]? = some s → ∃ p es, IsSubs p ∧
    loadSubs d₀ p = .ok (s.clientId, s.inner.identity, es) ∧ Revived declare acl scope es s
  /-- what is in the files done is in force -/
  written : ∀ p ∈ done, ∀ c i es, loadSubs r.disk p = .ok (c, i, es) →
    ∀ e ∈ es, reactivates declare acl scope i e.1 = true
  waiting : ∀ p, IsSubs p → p ∉ done ∨ (∃ err, loadSubs d₀ p = .error err) →
    r.disk.lookup p = d₀.lookup p

theorem Reconciled.step {d₀ : Disk} {done : List Path} (h : Reconciled declare acl scope d₀ done r)
    (hdone : ∀ p ∈ done, IsSubs p) (hpath : IsSubs path) (hnew : path ∉ done) :
    Reconciled declare acl scope d₀ (path :: done) (r.rehydrateStep declare acl scope path) := by
  have hsame : loadSubs r.disk path = loadSubs d₀ path :=
    loadSubs_congr (h.waiting path hpath (.inl hnew))
  cases hload : loadSubs d₀ path with
  | error err =>
      have hload' := hsame.trans hload
      have hstep : r.rehydrateStep declare acl scope path = r := by
        simp only [SessionRegistry.rehydrateStep, SessionRegistry.rehydrateOne, hload', bind,
          Except.bind]
      rw [hstep]
      refine ⟨h.sessions, fun p hp c i es hok => ?_, fun p hsubs hp =>
        h.waiting p hsubs (hp.imp_left ?_)⟩
      · rcases List.mem_cons.mp hp with rfl | hold
        · rw [hload'] at hok
          cases hok
        · exact h.written p hold c i es hok
      · exact fun hp hold => hp (List.mem_cons_of_mem _ hold)
  | ok x =>
      obtain ⟨c, identity, es⟩ := x
      obtain ⟨r₁, s, hrev, hs, hone⟩ :=
        rehydrateOne_revives declare acl scope (hsame.trans hload)
      obtain ⟨t, ht, hcid, hsp, hid, hrevived⟩ := hrev.session
      rw [hs] at ht
      cases ht
      have hfit := hrevived.fits (loadSubs_fits hload)
      rw [← hcid, ← hid] at hfit
      have hlookup := fun {p} hp => persistSubs_lookup (p := p) (d := r₁.disk) hsp hfit hp
      -- the other files
      have hother : ∀ p, IsSubs p → p ≠ path →
          (s.persistSubs r₁.disk).lookup p = r.disk.lookup p := by
        intro p hp hne
        rw [hlookup hp, if_neg hne]
        exact hrev.files p hp hne
      have hstep : r.rehydrateStep declare acl scope path = { r₁ with
          disk := s.persistSubs r₁.disk
          sessions := r₁.sessions.insert c r.heap.length } := by
        rw [SessionRegistry.rehydrateStep, hone]
      rw [hstep]
      refine ⟨fun a u hu => ?_, fun p hp c' i es' hok => ?_, fun p hsubs hp => ?_⟩
      · by_cases ha : a = r.heap.length
        · subst ha
          have hu : r₁.heap[r.heap.length]? = some u := hu
          rw [hs] at hu
          cases hu
          exact ⟨path, es, hpath, by rw [hcid, hid]; exact hload, hrevived⟩
        · exact h.sessions a u (hrev.heap a u hu ha)
      · have hok : loadSubs (s.persistSubs r₁.disk) p = .ok (c', i, es') := hok
        by_cases hpp : p = path
        · subst hpp
          have hcontent := hlookup hpath
          rw [if_pos rfl] at hcontent
          split at hcontent
          · have hsome := loadSubs_isSome hok
            rw [hcontent] at hsome
            cases hsome
          · rw [loadSubs_subsBytes hfit hcontent] at hok
            cases hok
            intro e he
            rw [(HashOrder.perm _).mem_iff] at he
            obtain ⟨t, ht⟩ := mem_subEntries.mp he
            exact (hrevived e.1 _ ht).2
        · have hold : p ∈ done := (List.mem_cons.mp hp).resolve_left hpp
          rw [loadSubs_congr (hother p (hdone p hold) hpp)] at hok
          exact h.written p hold c' i es' hok
      · have hne : p ≠ path := by
          rintro rfl
          rcases hp with hp | ⟨err, herr⟩
          · exact hp List.mem_cons_self
          · rw [hload] at herr
            cases herr
        have hwait : p ∉ done ∨ ∃ err, loadSubs d₀ p = .error err :=
          hp.imp_left fun hp hold => hp (List.mem_cons_of_mem _ hold)
        exact (hother p hsubs hne).trans (h.waiting p hsubs hwait)

theorem Reconciled.steps {d₀ : Disk} (ps : List Path) : ∀ {done : List Path} {r : SessionRegistry},
    Reconciled declare acl scope d₀ done r → (∀ p ∈ done, IsSubs p) →
      (∀ p ∈ ps, IsSubs p) → ps.Nodup →
      (∀ p ∈ ps, p ∉ done) →
      Reconciled declare acl scope d₀ (ps.reverse ++ done)
        (ps.foldl (SessionRegistry.rehydrateStep declare acl scope) r) := by
  induction ps with
  | nil => exact fun h _ _ _ _ => h
  | cons p ps ih =>
      intro done r h hdone hps hnodup hnew
      obtain ⟨hp, hps⟩ := List.forall_mem_cons.mp hps
      obtain ⟨hfresh, hnodup⟩ := List.nodup_cons.mp hnodup
      obtain ⟨hnp, hnps⟩ := List.forall_mem_cons.mp hnew
      have hnext := ih (h.step hdone hp hnp) (List.forall_mem_cons.mpr ⟨hp, hdone⟩) hps hnodup ?_
      · rw [List.foldl_cons, List.reverse_cons, List.append_assoc]
        exact hnext
      · intro q hq hmem
        rcases List.mem_cons.mp hmem with rfl | hold
        · exact hfresh hq
        · exact hnps q hq hold

/-- An id whose state files have names a file system takes. -/
def Nameable (c : Str) : Prop := c ≠ [] ∧ ∀ p ∈ stateFiles c, (asBytes p).length ≤ nameMax

instance (c : Str) : Decidable (Nameable c) := inferInstanceAs (Decidable (_ ∧ _))

/-- Every subscription file has the name the program gives to some client's. -/
def OwnNames (d : Disk) : Prop :=
  ∀ p, IsSubs p → (d.lookup p).isSome → ∃ c, Nameable c ∧ p = subsFile c

omit [HashOrder] in
/-- The scan makes no subscription file that was not there. -/
theorem Reconciled.old {d₀ : Disk} {done : List Path} (h : Reconciled declare acl scope d₀ done r)
    (hdone : ∀ p, IsSubs p → (d₀.lookup p).isSome → p ∈ done)
    (hthere : ∀ p ∈ done, (d₀.lookup p).isSome) {p : Path} (hp : IsSubs p)
    (hsome : (r.disk.lookup p).isSome) : p ∈ done ∧ (d₀.lookup p).isSome := by
  by_cases hmem : p ∈ done
  · exact ⟨hmem, hthere p hmem⟩
  · rw [h.waiting p hp (.inl hmem)] at hsome
    exact ⟨hdone p hp hsome, hsome⟩

variable (declare acl scope) in
/-- **A restart brings back nothing that is not permitted**, whatever is in the files and
under any ACL.  Every session it makes comes of a file that loads, with that file's client id
and identity, and of its entries only those the ACL permits to that identity; the names of
the files stay the program's own; whatever subscription file loads afterwards holds only
permitted entries, so that a dropped filter stays dropped; and a file that does not load is
left as it was. -/
theorem rehydrate_reconciles (maxQueue : Nat) (slowGrace : Option Duration) {d : Disk}
    (hown : OwnNames d) :
    let r := (SessionRegistry.new maxQueue slowGrace true d).rehydrate declare acl scope
    (∀ (a : Addr) s, r.heap[a]? = some s → ∃ c es, Nameable c ∧
        loadSubs d (subsFile c) = .ok (s.clientId, s.inner.identity, es) ∧
        Revived declare acl scope es s) ∧
      OwnNames r.disk ∧
      (∀ p c i es, IsSubs p → loadSubs r.disk p = .ok (c, i, es) →
        ∀ e ∈ es, reactivates declare acl scope i e.1 = true) ∧
      ∀ p err, IsSubs p → loadSubs d p = .error err → r.disk.lookup p = d.lookup p := by
  have hstart : Reconciled declare acl scope d [] (SessionRegistry.new maxQueue slowGrace true d) :=
    ⟨fun _ _ hs => (by cases hs), fun _ hp => (by cases hp), fun _ _ _ => rfl⟩
  have hsubs : ∀ p ∈ SessionRegistry.subsFiles d, IsSubs p := fun p hp => (mem_subsFiles.mp hp).2
  have hall := hstart.steps (SessionRegistry.subsFiles d) (fun _ hp => (by cases hp)) hsubs
    (subsFiles_nodup d) fun _ _ hp => (by cases hp)
  rw [List.append_nil] at hall
  have hdone : ∀ p, IsSubs p → (d.lookup p).isSome → p ∈ (SessionRegistry.subsFiles d).reverse :=
    fun p hp hsome => List.mem_reverse.mpr (mem_subsFiles.mpr ⟨hsome, hp⟩)
  have hthere : ∀ p ∈ (SessionRegistry.subsFiles d).reverse, (d.lookup p).isSome :=
    fun p hp => (mem_subsFiles.mp (List.mem_reverse.mp hp)).1
  refine ⟨fun a s hs => ?_, fun p hp hsome => ?_, fun p c i es hp hok => ?_,
    fun p err hp herr => hall.waiting p hp (.inr ⟨err, herr⟩)⟩
  · obtain ⟨p, es, hp, hload, hrevived⟩ := hall.sessions a s hs
    obtain ⟨c, hc, rfl⟩ := hown p hp (loadSubs_isSome hload)
    exact ⟨c, es, hc, hload, hrevived⟩
  · exact hown p hp (hall.old hdone hthere hp hsome).2
  · exact hall.written p (hall.old hdone hthere hp (loadSubs_isSome hok)).1 c i es hok

end

/-- An empty queue file, and a subscription file with two entries. -/
def leftBehind : Disk :=
  ((∅ : Disk).write (queueFile "dev".toList) []).write (subsFile "dev".toList)
    (subsBytes "dev".toList "plc".toList [("kiln".toList, .atLeastOnce), ("#".toList, .atMostOnce)])

theorem leftBehind_own : OwnNames leftBehind := by
  intro p hp hsome
  rw [leftBehind, Disk.write, Keyed.lookup_insert] at hsome
  split at hsome
  · next hsubs => exact ⟨"dev".toList, by decide, hsubs⟩
  · rw [Disk.write, Keyed.lookup_insert] at hsome
    split at hsome
    · next hqueue => exact absurd (hqueue ▸ hp) (extension_queueFile _)
    · cases hsome

/-- The operator's rule covers one of them. -/
def kilnOnly : Acl := ⟨[⟨"plc".toList, [], ["kiln".toList]⟩], false⟩

def reconciled : SessionRegistry :=
  @SessionRegistry.rehydrate .asStored (fun _ => true) kilnOnly [] (.new 10 none true leftBehind)

theorem denied_filter_is_dropped :
    OwnNames reconciled.disk ∧
      loadSubs reconciled.disk (subsFile "dev".toList) =
        .ok ("dev".toList, "plc".toList, [("kiln".toList, .atLeastOnce)]) ∧
      reactivates (fun _ => true) kilnOnly [] "plc".toList "kiln".toList = true := by
  obtain ⟨-, hown, hwritten, -⟩ :=
    @rehydrate_reconciles .asStored (fun _ => true) kilnOnly [] 10 none _ leftBehind_own
  have hcontent : reconciled.disk.lookup (subsFile "dev".toList) =
      some (subsBytes "dev".toList "plc".toList [("kiln".toList, .atLeastOnce)]) := by
    rfl
  have hload := loadSubs_subsBytes ⟨by decide, by decide, by decide⟩ hcontent
  exact ⟨hown, hload,
    hwritten _ _ _ _ (extension_subsFile (List.cons_ne_nil _ _)) hload _ List.mem_cons_self⟩

end Entmoot
