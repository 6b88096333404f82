/-
# `Entmoot.Discard` — a clean attach against the session it replaces

`attach` with cleanSession=1 on a registered client id kicks the old connection,
aborts the old session's tasks, removes both state files and enters a new session
without file paths.  The session it replaces keeps its own paths.  An aborted task
only stops at its next await, and the old connection's handler only looks at its
kick between two packets, so `deliver`, `insert_sub` and `remove_sub` calls on the
replaced session may still be on their way.

`DiscardWorld` runs one such attach, section by section, against any number of
these calls.  A save happens under the session lock and is visible from its rename
on, so it is one step.  The files stay away exactly as long as no such call writes
one after the attach removed it (`Timely`, `discarded_for_good`); a delivery that
saw no sink before the attach began is enough to bring the queue file back
(`late_delivery_restores_queue`).
-/
import Entmoot.Restart

namespace Entmoot

/-! ## The system -/

/-- Where the clean attach stands: the section that comes next. -/
inductive CleanPc where
  | kick
  | abort
  | removeQueue
  | removeSubs
  | insert
  /-- registry lock released, about to run `attach_conn` -/
  | attachConn (a : Addr)
  | done (a : Addr)
  deriving DecidableEq, Repr

namespace CleanPc

/-- The queue file has been removed. -/
def QueueRemoved : CleanPc → Prop
  | .kick | .abort | .removeQueue => False
  | _ => True

/-- The subscription file has been removed. -/
def SubsRemoved : CleanPc → Prop
  | .kick | .abort | .removeQueue | .removeSubs => False
  | _ => True

/-- The new session, once it is made. -/
def session? : CleanPc → Option Addr
  | .attachConn a | .done a => some a
  | _ => none

end CleanPc

structure DiscardWorld where
  clientId : Str
  identity : Str
  sink : Sender
  kick : Notify
  /-- the session being replaced -/
  old : Addr
  reg : SessionRegistry
  pc : CleanPc
  /-- `deliver` calls in progress, with the session they are on -/
  calls : List (Addr × SessionState.DeliverCall)
  /-- what a later attach with cleanSession=0 returned -/
  later : Option AttachOutcome

inductive DiscardAction where
  /-- the next section of the clean attach -/
  | attach
  /-- a forwarding task of the session at `a` calls `deliver` -/
  | call (a : Addr) (m : Msg) (qos : QoS)
  | deliver (i : Nat) (r : SessionState.SendResult) (now : Instant)
  /-- an aborted task reaches an await -/
  | cancel (i : Nat)
  | insertSub (a : Addr) (filter : Str) (qos : QoS)
  | removeSub (a : Addr) (filter : Str)
  /-- the end of a connection of the session at `a` -/
  | detach (a : Addr) (epoch : Nat) (now : Instant)
  /-- a later connection with cleanSession=0 -/
  | reattach (identity : Str) (sink : Sender) (kick : Notify)

namespace DiscardWorld

/-- A clean attach about to begin. -/
def init (clientId identity : Str) (sink : Sender) (kick : Notify) (old : Addr)
    (reg : SessionRegistry) (calls : List SessionState.DeliverCall) : DiscardWorld :=
  ⟨clientId, identity, sink, kick, old, reg, .kick, calls.map fun c => (old, c), none⟩

/-- The sections of `attach`, in the order of the source. -/
def attachStep [HashOrder] (w : DiscardWorld) : Option DiscardWorld :=
  match w.pc with
  | .kick =>
      w.reg.heap[w.old]?.map fun s =>
        { w with reg := w.reg.setSession w.old s.kickCurrent.1, pc := .abort }
  | .abort =>
      w.reg.heap[w.old]?.map fun s =>
        { w with reg := w.reg.setSession w.old s.abortSubs.1, pc := .removeQueue }
  | .removeQueue =>
      let d := match w.reg.queuePath w.clientId with
        | some p => w.reg.disk.remove p
        | none => w.reg.disk
      some { w with reg := { w.reg with disk := d }, pc := .removeSubs }
  | .removeSubs =>
      let d := match w.reg.subsPath w.clientId with
        | some p => w.reg.disk.remove p
        | none => w.reg.disk
      some { w with reg := { w.reg with disk := d }, pc := .insert }
  | .insert =>
      let n := w.reg.addSession w.clientId none none
      some { w with reg := n.1, pc := .attachConn n.2 }
  | .attachConn a =>
      some { w with reg := (w.reg.attachConnAt a w.identity w.sink w.kick).1, pc := .done a }
  | .done _ => none

/-- The replaced session, and the new one once it is attached to. -/
def active (w : DiscardWorld) (a : Addr) : Bool := a = w.old || w.pc = .done a

def AllDone (w : DiscardWorld) : Prop := ∀ c ∈ w.calls, ∃ d, c.2.pc = .done d

instance (w : DiscardWorld) : Decidable w.AllDone :=
  decidable_of_iff (∀ c ∈ w.calls, (match c.2.pc with | .done _ => true | _ => false) = true) <| by
    refine forall₂_congr fun c _ => ?_
    cases c.2.pc <;> simp

/-- The attach has returned, and every call in progress on the replaced session too. -/
def Finished (w : DiscardWorld) : Prop := (∃ a, w.pc = .done a) ∧ w.AllDone

instance (w : DiscardWorld) : Decidable w.Finished :=
  decidable_of_iff ((match w.pc with | .done _ => true | _ => false) = true ∧ w.AllDone) <| by
    rw [Finished]
    cases w.pc <;> simp

def step [HashOrder] (w : DiscardWorld) (act : DiscardAction) : Option DiscardWorld :=
  if w.later.isSome then none
  else match act with
  | .attach => w.attachStep
  | .call a m qos =>
      if w.active a then some { w with calls := w.calls ++ [(a, ⟨m, qos, .readSink⟩)] } else none
  | .deliver i r now =>
      match w.calls[i]? with
      | none => none
      | some (a, c) =>
          match w.reg.heap[a]? with
          | none => none
          | some s =>
              (s.deliverStep w.reg.disk c r now).map fun o =>
                { w with
                  reg := { w.reg.setSession a o.session with disk := o.disk }
                  calls := w.calls.set i (a, o.call) }
  | .cancel i =>
      match w.calls[i]? with
      | some (_, ⟨_, _, .sending _ _⟩) => some { w with calls := w.calls.eraseIdx i }
      | _ => none
  | .insertSub a filter qos =>
      if w.active a then
        w.reg.heap[a]?.map fun s =>
          let n := s.insertSub w.reg.disk filter qos w.reg.tasks
          { w with reg := { w.reg.setSession a n.1 with disk := n.2.1, tasks := w.reg.tasks + 1 } }
      else none
  | .removeSub a filter =>
      if w.active a then some { w with reg := w.reg.removeSub a filter } else none
  | .detach a epoch now =>
      -- connections of the replaced session came with cleanSession=0
      if w.active a then some { w with reg := w.reg.detach a epoch (a ≠ w.old) now } else none
  | .reattach identity sink kick =>
      if w.Finished then
        let att := w.reg.attach w.clientId identity false sink kick
        some { w with reg := att.registry, later := some att.outcome }
      else none

/-! ## What a clean attach promises -/

/-- A registry with a persistent session for the client id. -/
structure Ready (clientId : Str) (old : Addr) (reg : SessionRegistry) : Prop where
  nonempty : clientId ≠ []
  queueDir : reg.queueDir = true
  named : Named reg.disk
  registered : reg.sessions.lookup clientId = some old
  session : ∃ s, reg.heap[old]? = some s ∧ s.clientId = clientId ∧
    s.queuePath = some (queueFile clientId) ∧ s.subsPath = some (subsFile clientId)

/-- No state is left of the client id, for a restart or for a later connection. -/
structure Discarded [HashOrder] (w : DiscardWorld) : Prop where
  files : w.later = none → w.Finished →
    w.reg.disk.lookup (queueFile w.clientId) = none ∧
      w.reg.disk.lookup (subsFile w.clientId) = none
  restart : w.later = none → w.Finished →
    ∀ (declare : Str → Bool) (acl : Acl) (scope : Str) (maxQueue : Nat)
      (slowGrace : Option Duration),
      ((SessionRegistry.new maxQueue slowGrace true w.reg.disk).rehydrate declare acl
        scope).sessions.lookup w.clientId = none
  reattach : ∀ o, w.later = some o → o.sessionPresent = false ∧ o.backlog = []

/-- A step that does not bring state of the client id back: after the queue file
was removed no delivery queues on the replaced session, after the subscription
file was removed no subscription is added to it and none removed that leaves
others, and the later connection finds no live session of the client id. -/
def Timely (w : DiscardWorld) : DiscardAction → Prop
  | .deliver i _ _ =>
      w.pc.QueueRemoved → ∀ c s, w.calls[i]? = some (w.old, c) → w.reg.heap[w.old]? = some s →
        c.pc = .queueing → s.inner.sink.isSome
  | .insertSub a _ _ => w.pc.SubsRemoved → a ≠ w.old
  | .removeSub a filter =>
      w.pc.SubsRemoved → a = w.old → ∀ s, w.reg.heap[w.old]? = some s →
        (s.inner.subs.erase filter).entries = []
  | .reattach _ _ _ => w.reg.sessions.lookup w.clientId = none
  | _ => True

/-! ## What the sections write -/

/-- A session of the same client id with the same files. -/
structure SamePaths (s s' : SessionState) : Prop where
  clientId : s'.clientId = s.clientId
  queuePath : s'.queuePath = s.queuePath
  subsPath : s'.subsPath = s.subsPath

theorem SamePaths.of_kept {s s' : SessionState} (h : SameKept s s') : SamePaths s s' :=
  ⟨h.clientId, h.queuePath, h.subsPath⟩

theorem SamePaths.deliverStep {s : SessionState} {d : Disk} {c : SessionState.DeliverCall}
    {r : SessionState.SendResult} {now : Instant} {o : SessionState.DeliverStep}
    (h : s.deliverStep d c r now = some o) : SamePaths s o.session := by
  cases SessionState.deliverStep_section h with
  | live hpc hsink => exact .of_kept (.of_noted (s.noted_publishFor c.msg c.qos))
  | evict hpc => exact .of_kept (.of_noted (s.noted_evictSlow _ now))
  | clear hpc => exact .of_kept (.of_noted (s.noted_clearSink _ now))
  | drop hpc _ _ | offline hpc _ _ | sent hpc | timeout hpc _ | closed hpc | retry hpc _
  | queue hpc _ =>
      exact ⟨rfl, rfl, rfl⟩

theorem deliverStep_disk {s : SessionState} {d : Disk} {c : SessionState.DeliverCall}
    {r : SessionState.SendResult} {now : Instant} {o : SessionState.DeliverStep}
    (h : s.deliverStep d c r now = some o) :
    o.disk = d ∨ c.pc = .queueing ∧ s.inner.sink.isSome = false ∧
      o.disk = (s.pushQueue c.msg).persistQueue d := by
  cases SessionState.deliverStep_section h with
  | queue hpc hsink => exact .inr ⟨hpc, by rw [hsink]; rfl, rfl⟩
  | live hpc _ | drop hpc _ _ | offline hpc _ _ | sent hpc | timeout hpc _ | closed hpc | evict hpc
  | clear hpc | retry hpc _ => exact .inl rfl

/-- A write of the queue file of `c`, or of nothing. -/
structure QueueWritten (c : Str) (d d' : Disk) : Prop where
  subs : d'.lookup (subsFile c) = d.lookup (subsFile c)
  named : Named d → Named d'

theorem QueueWritten.remove (c : Str) (d : Disk) : QueueWritten c d (d.remove (queueFile c)) where
  subs := by rw [Disk.remove, Keyed.lookup_erase, if_neg (queueFile_ne_subsFile c c).symm]
  named := by
    intro hn p c' i es hext hload
    refine hn p c' i es hext ?_
    have hp : p ≠ queueFile c := fun h => extension_queueFile c (h ▸ hext)
    rw [← hload, loadSubs_congr]
    rw [Disk.remove, Keyed.lookup_erase, if_neg hp]

theorem QueueWritten.persistQueue {c : Str} {s : SessionState} (hc : c ≠ [])
    (hp : s.queuePath = some (queueFile c)) (d : Disk) : QueueWritten c d (s.persistQueue d) := by
  simp only [SessionState.persistQueue, hp, saveQueue, withExtension_queueFile hc, bind,
    Except.bind, pure, Except.pure]
  cases writeQueue queueMagic s.inner.queue with
  | error e => exact ⟨rfl, id⟩
  | ok out =>
      refine ⟨?_, fun hn p c' i es hext hload => ?_⟩
      · show ((d.write (queueTmp c) out).rename (queueTmp c) (queueFile c)).lookup _ = _
        rw [lookup_rename, if_neg (queueFile_ne_subsFile c c).symm]
        exact if_neg (subsFile_ne_tmp c _)
      · have hne : p ≠ queueFile c := fun h => extension_queueFile c (h ▸ hext)
        by_cases htmp : p = queueTmp c
        · have hsome := loadSubs_isSome hload
          change (((d.write (queueTmp c) out).rename (queueTmp c) (queueFile c)).lookup p).isSome
            at hsome
          rw [lookup_rename, if_neg hne, if_pos htmp] at hsome
          cases hsome
        · refine hn p c' i es hext ?_
          rw [← hload]
          refine (loadSubs_congr ?_).symm
          show ((d.write (queueTmp c) out).rename (queueTmp c) (queueFile c)).lookup p = d.lookup p
          rw [lookup_rename, if_neg hne, if_neg htmp]

theorem attachConn_without_files [HashOrder] {s : SessionState} (hq : s.queuePath = none)
    (hp : s.subsPath = none) (d : Disk) (identity : Str) (sink : Sender) (kick : Notify) :
    SamePaths s (s.attachConn d identity sink kick).session ∧
      (s.attachConn d identity sink kick).disk = d := by
  have hset : ∀ t : SessionState, t.subsPath = none →
      SamePaths t (t.setIdentity d identity).1 ∧ (t.setIdentity d identity).2 = d := by
    intro t ht
    rw [SessionState.setIdentity]
    split
    · refine ⟨⟨rfl, rfl, rfl⟩, ?_⟩
      simp only [SessionState.persistSubs, ht, ite_self]
    · exact ⟨⟨rfl, rfl, rfl⟩, rfl⟩
  obtain ⟨hsame, hdisk⟩ := hset (s.installConn sink kick) hp
  refine ⟨⟨hsame.clientId, hsame.queuePath, hsame.subsPath⟩, ?_⟩
  have hqueue : ((s.installConn sink kick).setIdentity d identity).1.queuePath = none :=
    hsame.queuePath.trans hq
  simp only [SessionState.attachConn, SessionState.attachConnLocked, SessionState.discardQueueFile,
    hqueue, hdisk]

/-! ## The invariant -/

/-- What a session says about its files: the replaced one has both, another none. -/
def Files (w : DiscardWorld) (a : Addr) (s : SessionState) : Prop :=
  if a = w.old then
    s.clientId = w.clientId ∧ s.queuePath = some (queueFile w.clientId) ∧
      s.subsPath = some (subsFile w.clientId)
  else s.queuePath = none ∧ s.subsPath = none

theorem Files.own {w : DiscardWorld} {s : SessionState} (h : w.Files w.old s) :
    s.clientId = w.clientId ∧ s.queuePath = some (queueFile w.clientId) ∧
      s.subsPath = some (subsFile w.clientId) := by
  rw [Files, if_pos rfl] at h
  exact h

theorem files_of_ne {w : DiscardWorld} {a : Addr} {s : SessionState} (ha : a ≠ w.old) :
    w.Files a s ↔ s.queuePath = none ∧ s.subsPath = none := by
  rw [Files, if_neg ha]

theorem Files.same {w : DiscardWorld} {a : Addr} {s s' : SessionState} (h : w.Files a s)
    (hs : SamePaths s s') : w.Files a s' := by
  rw [Files] at h ⊢
  split
  · next ha =>
    rw [if_pos ha] at h
    rw [hs.clientId, hs.queuePath, hs.subsPath]
    exact h
  · next ha =>
    rw [if_neg ha] at h
    rw [hs.queuePath, hs.subsPath]
    exact h

/-- What the attach has removed stays removed. -/
structure Inv (w : DiscardWorld) : Prop where
  nonempty : w.clientId ≠ []
  queueDir : w.reg.queueDir = true
  named : Named w.reg.disk
  old : ∃ s, w.reg.heap[w.old]? = some s ∧ w.Files w.old s
  new : ∀ a, w.pc.session? = some a → a ≠ w.old ∧ ∃ s, w.reg.heap[a]? = some s ∧ w.Files a s
  calls : ∀ x ∈ w.calls, x.1 = w.old ∨ w.pc = .done x.1
  queue : w.pc.QueueRemoved → w.reg.disk.lookup (queueFile w.clientId) = none
  subs : w.pc.SubsRemoved → w.reg.disk.lookup (subsFile w.clientId) = none

theorem Ready.inv {clientId : Str} {old : Addr} {reg : SessionRegistry}
    (h : Ready clientId old reg) (identity : Str) (sink : Sender) (kick : Notify)
    (calls : List SessionState.DeliverCall) :
    Inv (init clientId identity sink kick old reg calls) where
  nonempty := h.nonempty
  queueDir := h.queueDir
  named := h.named
  old := by
    obtain ⟨s, hs, hfiles⟩ := h.session
    exact ⟨s, hs, by rw [Files, if_pos rfl]; exact hfiles⟩
  new := fun a ha => nomatch ha
  calls := by
    intro x hx
    obtain ⟨c, _, rfl⟩ := List.mem_map.mp hx
    exact .inl rfl
  queue := fun h => h.elim
  subs := fun h => h.elim

variable {w w' : DiscardWorld} {a : Addr} {s s' : SessionState}

theorem Inv.active (h : Inv w) (ha : a = w.old ∨ w.pc = .done a) :
    ∃ s, w.reg.heap[a]? = some s ∧ w.Files a s := by
  rcases ha with rfl | hpc
  · exact h.old
  · exact (h.new a (by rw [hpc]; rfl)).2

/-- A section on one session: it keeps its paths, and writes no file of the client
id that was removed. -/
theorem Inv.write (h : Inv w) (hs : w.reg.heap[a]? = some s) (hsame : SamePaths s s')
    (hfiles : w.Files a s) {r : SessionRegistry} (hdir : r.queueDir = w.reg.queueDir)
    (hheap : r.heap = w.reg.heap.set a s') (hnamed : Named r.disk)
    (hq : w.pc.QueueRemoved → r.disk.lookup (queueFile w.clientId) = none)
    (hsub : w.pc.SubsRemoved → r.disk.lookup (subsFile w.clientId) = none)
    {calls : List (Addr × SessionState.DeliverCall)}
    (hcalls : ∀ x ∈ calls, x ∈ w.calls ∨ x.1 = w.old ∨ w.pc = .done x.1) :
    Inv { w with reg := r, calls := calls } := by
  have hcell : ∀ b, (∃ t, w.reg.heap[b]? = some t ∧ w.Files b t) →
      ∃ t, r.heap[b]? = some t ∧ w.Files b t := by
    rintro b ⟨t, ht, hft⟩
    rw [hheap]
    by_cases hab : a = b
    · subst hab
      exact ⟨s', Cells.set_self hs, hfiles.same hsame⟩
    · exact ⟨t, by rw [List.getElem?_set_ne hab, ht], hft⟩
  exact {
    nonempty := h.nonempty
    queueDir := hdir.trans h.queueDir
    named := hnamed
    old := hcell w.old h.old
    new := fun b hb => ⟨(h.new b hb).1, hcell b (h.new b hb).2⟩
    calls := by
      intro x hx
      rcases hcalls x hx with hx | hx
      · exact h.calls x hx
      · exact hx
    queue := hq
    subs := hsub }

theorem Inv.quiet (h : Inv w) (hs : w.reg.heap[a]? = some s) (hsame : SamePaths s s')
    (hfiles : w.Files a s) {r : SessionRegistry} (hdir : r.queueDir = w.reg.queueDir)
    (hheap : r.heap = w.reg.heap.set a s') (hdisk : r.disk = w.reg.disk) :
    Inv { w with reg := r } := by
  refine h.write hs hsame hfiles hdir hheap ?_ ?_ ?_ fun x hx => .inl hx
  · rw [hdisk]
    exact h.named
  · rw [hdisk]
    exact h.queue
  · rw [hdisk]
    exact h.subs

theorem Inv.advance (h : Inv w) {pc : CleanPc} (hnew : pc.session? = w.pc.session?)
    (hcalls : ∀ a, w.pc ≠ .done a) (hq : pc.QueueRemoved → w.pc.QueueRemoved)
    (hsub : pc.SubsRemoved → w.pc.SubsRemoved) : Inv { w with pc := pc } where
  nonempty := h.nonempty
  queueDir := h.queueDir
  named := h.named
  old := h.old
  new := fun a ha => h.new a (hnew.symm.trans ha)
  calls := fun x hx => (h.calls x hx).imp_right fun hd => absurd hd (hcalls x.1)
  queue := fun hr => h.queue (hq hr)
  subs := fun hr => h.subs (hsub hr)

section
variable [HashOrder]

theorem Inv.attachStep (h : Inv w) (hstep : w.attachStep = some w') : Inv w' := by
  have hqp : w.reg.queuePath w.clientId = some (queueFile w.clientId) := by
    rw [SessionRegistry.queuePath, h.queueDir, if_pos rfl]
  have hsp : w.reg.subsPath w.clientId = some (subsFile w.clientId) := by
    rw [SessionRegistry.subsPath, h.queueDir, if_pos rfl]
  obtain ⟨s, hs, hfiles⟩ := h.old
  cases hpc : w.pc with
  | kick =>
      simp only [DiscardWorld.attachStep, hpc, hs, Option.map_some] at hstep
      cases hstep
      have hsame : SamePaths s s.kickCurrent.1 := by
        rw [SessionState.kickCurrent]
        split <;> exact ⟨rfl, rfl, rfl⟩
      have hset := h.quiet (r := w.reg.setSession w.old s.kickCurrent.1) hs hsame hfiles rfl rfl rfl
      refine hset.advance ?_ ?_ ?_ ?_ <;> simp [hpc, CleanPc.session?, CleanPc.QueueRemoved,
        CleanPc.SubsRemoved]
  | abort =>
      simp only [DiscardWorld.attachStep, hpc, hs, Option.map_some] at hstep
      cases hstep
      have hsame : SamePaths s s.abortSubs.1 := ⟨rfl, rfl, rfl⟩
      have hset := h.quiet (r := w.reg.setSession w.old s.abortSubs.1) hs hsame hfiles rfl rfl rfl
      refine hset.advance ?_ ?_ ?_ ?_ <;> simp [hpc, CleanPc.session?, CleanPc.QueueRemoved,
        CleanPc.SubsRemoved]
  | removeQueue =>
      simp only [DiscardWorld.attachStep, hpc, hqp] at hstep
      cases hstep
      have hwritten := QueueWritten.remove w.clientId w.reg.disk
      exact {
        nonempty := h.nonempty
        queueDir := h.queueDir
        named := hwritten.named h.named
        old := ⟨s, hs, hfiles⟩
        new := by
          intro a ha
          cases ha
        calls := fun x hx => (h.calls x hx).imp_right fun hd => by simp [hpc] at hd
        queue := fun _ => by rw [Disk.remove, Keyed.lookup_erase, if_pos rfl]
        subs := fun hr => hr.elim }
  | removeSubs =>
      simp only [DiscardWorld.attachStep, hpc, hsp] at hstep
      cases hstep
      have hwritten := SubsWritten.remove w.clientId w.reg.disk
      exact {
        nonempty := h.nonempty
        queueDir := h.queueDir
        named := hwritten.named h.named
        old := ⟨s, hs, hfiles⟩
        new := by
          intro a ha
          cases ha
        calls := fun x hx => (h.calls x hx).imp_right fun hd => by simp [hpc] at hd
        queue := fun _ => hwritten.queue.trans (h.queue (by rw [hpc]; trivial))
        subs := fun _ => by rw [Disk.remove, Keyed.lookup_erase, if_pos rfl] }
  | insert =>
      simp only [DiscardWorld.attachStep, hpc] at hstep
      cases hstep
      obtain ⟨hlt, _⟩ := List.getElem?_eq_some_iff.mp hs
      exact {
        nonempty := h.nonempty
        queueDir := h.queueDir
        named := h.named
        old := ⟨s, Cells.append_of_some hs, hfiles⟩
        new := by
          intro a ha
          cases ha
          have hne : w.reg.heap.length ≠ w.old := Nat.ne_of_gt hlt
          exact ⟨hne, _, List.getElem?_concat_length, (files_of_ne hne).mpr ⟨rfl, rfl⟩⟩
        calls := fun x hx => (h.calls x hx).imp_right fun hd => by simp [hpc] at hd
        queue := fun _ => h.queue (by rw [hpc]; trivial)
        subs := fun _ => h.subs (by rw [hpc]; trivial) }
  | attachConn a =>
      simp only [DiscardWorld.attachStep, hpc] at hstep
      cases hstep
      obtain ⟨hne, t, ht, hft⟩ := h.new a (by rw [hpc]; rfl)
      obtain ⟨hq, hp⟩ := (files_of_ne hne).mp hft
      obtain ⟨hsame, hdisk⟩ := attachConn_without_files hq hp w.reg.disk w.identity w.sink w.kick
      simp only [SessionRegistry.attachConnAt, ht]
      have hset := h.quiet (r := { w.reg.setSession a
        (t.attachConn w.reg.disk w.identity w.sink w.kick).session with
          disk := (t.attachConn w.reg.disk w.identity w.sink w.kick).disk }) ht hsame
            hft rfl rfl hdisk
      refine hset.advance ?_ ?_ ?_ ?_ <;> simp [hpc, CleanPc.session?, CleanPc.QueueRemoved,
        CleanPc.SubsRemoved]
  | done a =>
      simp only [DiscardWorld.attachStep, hpc] at hstep
      cases hstep

/-- `persist_subs` on a session whose subscription file was removed: it must not
have any to write. -/
theorem Inv.persistSubs (h : Inv w) (hfiles : w.Files a s')
    (hempty : w.pc.SubsRemoved → a = w.old → s'.inner.subs.entries = []) :
    Named (s'.persistSubs w.reg.disk) ∧
      (w.pc.QueueRemoved → (s'.persistSubs w.reg.disk).lookup (queueFile w.clientId) = none) ∧
      (w.pc.SubsRemoved → (s'.persistSubs w.reg.disk).lookup (subsFile w.clientId) = none) := by
  by_cases ha : a = w.old
  · subst ha
    obtain ⟨hcid, _, hp⟩ := hfiles.own
    have hwritten := SubsWritten.persistSubs h.nonempty hcid hp w.reg.disk
    refine ⟨hwritten.named h.named, fun hr => hwritten.queue.trans (h.queue hr), fun hr => ?_⟩
    have horder : HashOrder.order (SessionState.subEntries s'.inner.subs) = [] := by
      have hperm := HashOrder.perm (SessionState.subEntries s'.inner.subs)
      rw [subEntries_eq_nil.mpr (hempty hr rfl)] at hperm ⊢
      exact List.perm_nil.mp hperm
    simp only [SessionState.persistSubs, hp, horder, saveSubs, if_true]
    rw [Disk.remove, Keyed.lookup_erase, if_pos rfl]
  · have hdisk : s'.persistSubs w.reg.disk = w.reg.disk := by
      simp only [SessionState.persistSubs, ((files_of_ne ha).mp hfiles).2]
    rw [hdisk]
    exact ⟨h.named, h.queue, h.subs⟩

omit [HashOrder] in
theorem Inv.deliverStep (h : Inv w) {c : SessionState.DeliverCall} {r : SessionState.SendResult}
    {now : Instant} {o : SessionState.DeliverStep} (hfiles : w.Files a s)
    (ho : s.deliverStep w.reg.disk c r now = some o)
    (hsink : w.pc.QueueRemoved → a = w.old → c.pc = .queueing → s.inner.sink.isSome) :
    Named o.disk ∧ (w.pc.QueueRemoved → o.disk.lookup (queueFile w.clientId) = none) ∧
      (w.pc.SubsRemoved → o.disk.lookup (subsFile w.clientId) = none) := by
  rcases deliverStep_disk ho with hdisk | ⟨hpc, hnone, hdisk⟩
  · rw [hdisk]
    exact ⟨h.named, h.queue, h.subs⟩
  · by_cases ha : a = w.old
    · subst ha
      have hkept : ¬ w.pc.QueueRemoved := by
        intro hr
        rw [hsink hr rfl hpc] at hnone
        cases hnone
      have hpath : (s.pushQueue c.msg).queuePath = some (queueFile w.clientId) := hfiles.own.2.1
      have hwritten := QueueWritten.persistQueue h.nonempty hpath w.reg.disk
      rw [hdisk]
      exact ⟨hwritten.named h.named, fun hr => absurd hr hkept,
        fun hr => hwritten.subs.trans (h.subs hr)⟩
    · have hpath : (s.pushQueue c.msg).queuePath = none := ((files_of_ne ha).mp hfiles).1
      rw [hdisk, SessionState.persistQueue, hpath]
      exact ⟨h.named, h.queue, h.subs⟩

omit [HashOrder] in
/-- The end of a connection: of the replaced session it is only noted, of the new
one there are no files to discard. -/
theorem Inv.detach (h : Inv w) (hact : a = w.old ∨ w.pc = .done a) (epoch : Nat) (now : Instant) :
    Inv { w with reg := w.reg.detach a epoch (a ≠ w.old) now } := by
  obtain ⟨s, hs, hfiles⟩ := h.active hact
  have hsame : SamePaths s (s.detachConn epoch now).1 :=
    .of_kept (.of_noted (s.noted_detachConn epoch now))
  have hset := h.quiet (r := w.reg.setSession a (s.detachConn epoch now).1) hs hsame
    hfiles rfl rfl rfl
  by_cases heff : ((s.detachConn epoch now).2 && decide (a ≠ w.old)) = true
  · have hne : a ≠ w.old := of_decide_eq_true ((Bool.and_eq_true _ _).mp heff).2
    obtain ⟨hq, hp⟩ := (files_of_ne hne).mp (hfiles.same hsame)
    have hs₁ : (w.reg.setSession a (s.detachConn epoch now).1).heap[a]? =
        some (s.detachConn epoch now).1 := Cells.set_self hs
    -- the rest of `detach`: nothing to discard, and the map entry goes if it is its own
    have hrest : ∃ m, w.reg.detach a epoch (a ≠ w.old) now =
        { (w.reg.setSession a (s.detachConn epoch now).1).setSession a
            (s.detachConn epoch now).1.abortSubs.1 with sessions := m } := by
      have hdisk : (s.detachConn epoch now).1.abortSubs.1.discardStateFiles w.reg.disk =
          w.reg.disk := by
        have hq' : (s.detachConn epoch now).1.abortSubs.1.queuePath = none := hq
        have hp' : (s.detachConn epoch now).1.abortSubs.1.subsPath = none := hp
        simp only [SessionState.discardStateFiles, SessionState.discardSubsFile,
          SessionState.discardQueueFile, hq', hp']
      have hdiscard : (w.reg.setSession a (s.detachConn epoch now).1).discardAt a =
          (w.reg.setSession a (s.detachConn epoch now).1).setSession a
            (s.detachConn epoch now).1.abortSubs.1 := by
        simp only [SessionRegistry.discardAt, hs₁]
        show ({ (w.reg.setSession a (s.detachConn epoch now).1).setSession a
          (s.detachConn epoch now).1.abortSubs.1 with
            disk := (s.detachConn epoch now).1.abortSubs.1.discardStateFiles w.reg.disk } :
              SessionRegistry) = _
        rw [hdisk]
        rfl
      simp only [SessionRegistry.detach, hs, heff, if_true, hdiscard, SessionRegistry.removeOwn]
      split
      · exact ⟨_, rfl⟩
      · split
        · exact ⟨_, rfl⟩
        · exact ⟨_, rfl⟩
    obtain ⟨m, hm⟩ := hrest
    rw [hm]
    have hsame' : SamePaths (s.detachConn epoch now).1 (s.detachConn epoch now).1.abortSubs.1 :=
      ⟨rfl, rfl, rfl⟩
    exact hset.quiet hs₁ hsame' (hfiles.same hsame) rfl rfl rfl
  · have hreg : w.reg.detach a epoch (a ≠ w.old) now =
        w.reg.setSession a (s.detachConn epoch now).1 := by
      simp only [SessionRegistry.detach, hs]
      exact if_neg heff
    rw [hreg]
    exact hset

theorem Inv.step {act : DiscardAction} (h : Inv w) (ht : w.Timely act)
    (hstep : w.step act = some w') (hlater : w'.later = none) : Inv w' := by
  rw [DiscardWorld.step.eq_def] at hstep
  split at hstep
  · cases hstep
  cases act with
  | attach => exact h.attachStep hstep
  | call a m qos =>
      dsimp only at hstep
      split at hstep <;> cases hstep
      next hact =>
      have hact' : a = w.old ∨ w.pc = .done a := by simpa [DiscardWorld.active] using hact
      refine { h with calls := ?_ }
      intro x hx
      rcases List.mem_append.mp hx with hx | hx
      · exact h.calls x hx
      · rw [List.mem_singleton.mp hx]
        exact hact'
  | deliver i r now =>
      dsimp only at hstep
      split at hstep
      · cases hstep
      · next a c hi =>
        split at hstep
        · cases hstep
        · next s hs =>
          obtain ⟨o, ho, rfl⟩ := Option.map_eq_some_iff.mp hstep
          have hact := h.calls _ (List.mem_of_getElem? hi)
          obtain ⟨s', hs', hfiles⟩ := h.active hact
          rw [hs] at hs'
          cases hs'
          have hcalls : ∀ x ∈ w.calls.set i (a, o.call),
              x ∈ w.calls ∨ x.1 = w.old ∨ w.pc = .done x.1 := by
            intro x hx
            rcases List.mem_or_eq_of_mem_set hx with hx | rfl
            · exact .inl hx
            · exact .inr hact
          obtain ⟨hnamed, hq, hsub⟩ := h.deliverStep hfiles ho fun hr ha => by
            subst ha
            exact ht hr c s hi hs
          exact h.write (r := { w.reg.setSession a o.session with disk := o.disk }) hs
            (.deliverStep ho)
            hfiles rfl rfl hnamed hq hsub hcalls
  | cancel i =>
      dsimp only at hstep
      split at hstep <;> cases hstep
      exact { h with calls := fun x hx => h.calls x (List.mem_of_mem_eraseIdx hx) }
  | insertSub a filter qos =>
      dsimp only at hstep
      split at hstep
      · next hact =>
        obtain ⟨s, hs, hfiles⟩ := h.active (by simpa [DiscardWorld.active] using hact)
        simp only [hs, Option.map_some] at hstep
        cases hstep
        have hsame : SamePaths s (s.insertSub w.reg.disk filter qos w.reg.tasks).1 :=
          ⟨rfl, rfl, rfl⟩
        obtain ⟨hnamed, hq, hsub⟩ :=
          h.persistSubs (hfiles.same hsame) fun hr ha => absurd ha (ht hr)
        exact h.write
          (r := { w.reg.setSession a (s.insertSub w.reg.disk filter qos w.reg.tasks).1 with
            disk := (s.insertSub w.reg.disk filter qos w.reg.tasks).2.1, tasks := w.reg.tasks + 1 })
          hs hsame hfiles rfl rfl hnamed hq hsub fun x hx => .inl hx
      · cases hstep
  | removeSub a filter =>
      dsimp only at hstep
      split at hstep <;> cases hstep
      next hact =>
      obtain ⟨s, hs, hfiles⟩ := h.active (by simpa [DiscardWorld.active] using hact)
      have hsame : SamePaths s (s.removeSub w.reg.disk filter).1 := ⟨rfl, rfl, rfl⟩
      obtain ⟨hnamed, hq, hsub⟩ := h.persistSubs (hfiles.same hsame) fun hr ha => by
        subst ha
        exact ht hr rfl s hs
      simp only [SessionRegistry.removeSub, hs]
      exact h.write
        (r := { w.reg.setSession a (s.removeSub w.reg.disk filter).1 with
          disk := (s.removeSub w.reg.disk filter).2.1 })
        hs hsame hfiles rfl rfl hnamed hq hsub fun x hx => .inl hx
  | detach a epoch now =>
      dsimp only at hstep
      split at hstep <;> cases hstep
      next hact => exact h.detach (by simpa [DiscardWorld.active] using hact) epoch now
  | reattach identity sink kick =>
      dsimp only at hstep
      split at hstep <;> cases hstep
      cases hlater

/-- Only a later connection with cleanSession=0 is recorded, once everything has
finished. -/
theorem step_later {act : DiscardAction} {o : AttachOutcome} (hstep : w.step act = some w')
    (ho : w'.later = some o) :
    w.later = none ∧ w.Finished ∧ ∃ identity sink kick, act = .reattach identity sink kick ∧
      o = (w.reg.attach w.clientId identity false sink kick).outcome := by
  rw [DiscardWorld.step.eq_def] at hstep
  split at hstep
  · cases hstep
  · next hlater =>
    have hnone : w.later = none := Option.not_isSome_iff_eq_none.mp hlater
    have hkept : w.later ≠ some o := by
      rw [hnone]
      exact Option.some_ne_none o |>.symm
    refine ⟨hnone, ?_⟩
    cases act with
    | attach =>
        simp only [DiscardWorld.attachStep] at hstep
        split at hstep
        · obtain ⟨s, _, rfl⟩ := Option.map_eq_some_iff.mp hstep
          exact absurd ho hkept
        · obtain ⟨s, _, rfl⟩ := Option.map_eq_some_iff.mp hstep
          exact absurd ho hkept
        · cases hstep
          exact absurd ho hkept
        · cases hstep
          exact absurd ho hkept
        · cases hstep
          exact absurd ho hkept
        · cases hstep
          exact absurd ho hkept
        · cases hstep
    | deliver i r now =>
        dsimp only at hstep
        split at hstep
        · cases hstep
        · split at hstep
          · cases hstep
          · obtain ⟨s, _, rfl⟩ := Option.map_eq_some_iff.mp hstep
            exact absurd ho hkept
    | cancel i =>
        dsimp only at hstep
        split at hstep
        · cases hstep
          exact absurd ho hkept
        · cases hstep
    | insertSub a filter qos =>
        dsimp only at hstep
        split at hstep
        · obtain ⟨s, _, rfl⟩ := Option.map_eq_some_iff.mp hstep
          exact absurd ho hkept
        · cases hstep
    | call a m qos | removeSub a filter | detach a epoch now =>
        dsimp only at hstep
        split at hstep
        · cases hstep
          exact absurd ho hkept
        · cases hstep
    | reattach identity sink kick =>
        dsimp only at hstep
        split at hstep
        · next hfin =>
          cases hstep
          cases ho
          exact ⟨hfin, identity, sink, kick, rfl, rfl⟩
        · cases hstep

omit [HashOrder] in
theorem initialQueue_none {d : Disk} {p : Path} (h : d.lookup p = none) (maxQueue : Nat) :
    SessionState.initialQueue d maxQueue (some p) = [] := by
  by_cases hmax : maxQueue = 0
  · simp only [SessionState.initialQueue, loadQueue, if_pos hmax]
  · simp only [SessionState.initialQueue, loadQueue, if_neg hmax, Disk.read, h, bind, Except.bind]

theorem Inv.reattach (h : Inv w) (hfin : w.Finished)
    (hnone : w.reg.sessions.lookup w.clientId = none) (identity : Str) (sink : Sender)
    (kick : Notify) :
    (w.reg.attach w.clientId identity false sink kick).outcome.sessionPresent = false ∧
      (w.reg.attach w.clientId identity false sink kick).outcome.backlog = [] := by
  obtain ⟨⟨a, hpc⟩, _⟩ := hfin
  have hq := h.queue (by rw [hpc]; trivial)
  have hsub := h.subs (by rw [hpc]; trivial)
  obtain ⟨hpresent, hback, _⟩ :=
    SessionRegistry.attach_unregistered hnone h.queueDir identity sink kick
  rw [hpresent, hback, hq, hsub]
  exact ⟨rfl, initialQueue_none hq _⟩

/-- **In a run whose steps are all timely, a clean attach discards the state of its
client id for good**: once all calls have finished there are no state files, a
restart restores nothing, and a later connection finds nothing. -/
theorem discarded_for_good {clientId identity : Str} {sink : Sender} {kick : Notify} {old : Addr}
    {reg : SessionRegistry} {calls : List SessionState.DeliverCall} {acts : List DiscardAction}
    {w : DiscardWorld} (hready : Ready clientId old reg)
    (htimely : Run.Meets step Timely (init clientId identity sink kick old reg calls) acts)
    (hrun : Run.exec step (init clientId identity sink kick old reg calls) acts = some w) :
    w.Discarded := by
  have hall : (w.later = none → Inv w) ∧
      ∀ o, w.later = some o → o.sessionPresent = false ∧ o.backlog = [] := by
    refine Run.exec_invariant_of_meets (P := Timely)
      (I := fun w => (w.later = none → Inv w) ∧
        ∀ o, w.later = some o → o.sessionPresent = false ∧ o.backlog = []) ?_ acts ?_ htimely hrun
    · rintro w act w' ⟨hinv, _⟩ ht hstep
      constructor
      · intro hlater
        have hbefore : w.later = none := by
          rw [DiscardWorld.step.eq_def] at hstep
          split at hstep
          · cases hstep
          · next h => exact Option.not_isSome_iff_eq_none.mp h
        exact (hinv hbefore).step ht hstep hlater
      · intro o ho
        obtain ⟨hbefore, hfin, identity', sink', kick', rfl, rfl⟩ := step_later hstep ho
        exact (hinv hbefore).reattach hfin ht identity' sink' kick'
    · exact ⟨fun _ => hready.inv identity sink kick calls, fun o ho => nomatch ho⟩
  obtain ⟨hinv, hlater⟩ := hall
  refine ⟨fun hnone hfin => ?_, fun hnone hfin declare acl scope maxQueue slowGrace => ?_, hlater⟩
  · obtain ⟨⟨a, hpc⟩, _⟩ := hfin
    exact ⟨(hinv hnone).queue (by rw [hpc]; trivial), (hinv hnone).subs (by rw [hpc]; trivial)⟩
  · obtain ⟨⟨a, hpc⟩, _⟩ := hfin
    have hnamed : Named (SessionRegistry.new maxQueue slowGrace true w.reg.disk).disk :=
      (hinv hnone).named
    have hsub : (SessionRegistry.new maxQueue slowGrace true w.reg.disk).disk.lookup
        (subsFile w.clientId) = none := (hinv hnone).subs (by rw [hpc]; trivial)
    exact (rehydrate_elsewhere declare acl scope hnamed hsub).sessions

/-- Left alone, the sections are `attach` with cleanSession=1. -/
theorem sections_eq_attach {clientId identity : Str} {sink : Sender} {kick : Notify} {old : Addr}
    {reg : SessionRegistry} (hready : Ready clientId old reg) :
    ∃ w, Run.exec step (init clientId identity sink kick old reg []) (List.replicate 6 .attach) =
        some w ∧ w.reg = (reg.attach clientId identity true sink kick).registry ∧ w.Finished := by
  obtain ⟨s, hs, _⟩ := hready.session
  have hs₁ : (reg.heap.set old s.kickCurrent.1)[old]? = some s.kickCurrent.1 := Cells.set_self hs
  have hdir := hready.queueDir
  let n := ((reg.setSession old s.kickCurrent.1.abortSubs.1).removeState clientId).addSession
    clientId none none
  refine ⟨⟨clientId, identity, sink, kick, old, (n.1.attachConnAt n.2 identity sink kick).1,
    .done n.2, [], none⟩, ?_, ?_, ⟨n.2, rfl⟩, fun c hc => absurd hc List.not_mem_nil⟩
  · simp only [List.replicate, Run.exec, step, attachStep, init, List.map_nil, hs, hs₁,
      Option.map_some, Option.bind_some, Option.isSome_none, Bool.false_eq_true, if_false,
        SessionRegistry.setSession,
      List.set_set, SessionRegistry.queuePath, SessionRegistry.subsPath, hdir, if_true]
    simp only [n, SessionRegistry.removeState, SessionRegistry.setSession,
      SessionRegistry.queuePath,
      SessionRegistry.subsPath, hdir, if_true]
  · simp only [SessionRegistry.attach, SessionRegistry.attachLookup, hready.registered, hs]
    rfl

end

/-! ## The two outcomes -/

/-- A registry whose one session is persistent and offline. -/
def offline : SessionRegistry :=
  let att := @SessionRegistry.attach .asStored (.new 10 none true ∅) "dev".toList [] false ⟨0⟩ ⟨0⟩
  att.registry.detach att.outcome.session att.outcome.epoch false 0

theorem offline_ready : Ready "dev".toList 0 offline where
  nonempty := by decide
  queueDir := rfl
  named := by
    intro p c i es _ hload
    have hsome : (offline.disk.lookup p).isSome := loadSubs_isSome hload
    have hnone : offline.disk.lookup p = none := rfl
    exact absurd hsome (by rw [hnone]; decide)
  registered := rfl
  session := ⟨_, rfl, rfl, rfl, rfl⟩

/-- A delivery about to queue, having seen no sink. -/
def late : SessionState.DeliverCall := ⟨("kiln".toList, [57]), .atLeastOnce, .queueing⟩

/-- The delivery queues before the attach removes the files: nothing comes back. -/
theorem early_delivery_is_discarded :
    ∃ w, Run.exec (@step .asStored) (init "dev".toList [] ⟨1⟩ ⟨1⟩ 0 offline [late])
        (.deliver 0 .ok 0 :: List.replicate 6 .attach ++ [.detach 1 1 5, .reattach [] ⟨2⟩ ⟨2⟩]) =
          some w ∧
      w.later.isSome ∧ @Discarded .asStored w := by
  refine ⟨_, rfl, rfl, ?_⟩
  refine @discarded_for_good .asStored "dev".toList [] ⟨1⟩ ⟨1⟩ 0 offline [late]
    (.deliver 0 .ok 0 :: List.replicate 6 .attach ++ [.detach 1 1 5, .reattach [] ⟨2⟩ ⟨2⟩]) _
    offline_ready ?_ rfl
  refine .cons rfl (fun h => h.elim) ?_
  refine .cons rfl trivial <| .cons rfl trivial <| .cons rfl trivial <| .cons rfl trivial ?_
  refine .cons rfl trivial <| .cons rfl trivial <| .cons rfl trivial ?_
  exact .cons rfl rfl trivial

/-- The delivery queues after the attach removed the files: the queue file is back. -/
theorem late_delivery_restores_queue :
    ¬ ∀ (_ : HashOrder) (clientId identity : Str) (sink : Sender) (kick : Notify) (old : Addr)
      (reg : SessionRegistry) (calls : List SessionState.DeliverCall) (acts : List DiscardAction)
      (w : DiscardWorld), Ready clientId old reg →
      Run.exec step (init clientId identity sink kick old reg calls) acts = some w →
        w.Discarded := by
  intro h
  obtain ⟨hfiles, _, _⟩ := h .asStored "dev".toList [] ⟨1⟩ ⟨1⟩ 0 offline [late]
    (List.replicate 6 .attach ++ [.deliver 0 .ok 0]) _ offline_ready rfl
  have hdone : ∀ x ∈ [((0 : Addr), { late with pc := .done .queued })],
      ∃ d, (x.2 : SessionState.DeliverCall).pc = .done d := by
    intro x hx
    rw [List.mem_singleton.mp hx]
    exact ⟨_, rfl⟩
  obtain ⟨hqueue, _⟩ := hfiles rfl ⟨⟨_, rfl⟩, hdone⟩
  exact nomatch hqueue

end DiscardWorld

end Entmoot
