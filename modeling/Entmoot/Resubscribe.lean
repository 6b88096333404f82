/-
# `Entmoot.Resubscribe` — a filter subscribed to again

`activate_subscription` declares a new subscriber for the filter, spawns the task
that forwards its samples, and lets `insert_sub` abort the task the filter had
before.  The abort takes effect at an await of the old task: in `recv_async`, or
in a send that blocks inside `deliver`.  With the task go the message it is
delivering and the samples its subscriber still buffers.

The world is one session and the forwarding tasks of one filter, in any number,
under any interleaving of samples, task steps, SUBSCRIBEs, and connections coming
and going.  A sample counts as kept while a task that has not stopped has it, or
once `deliver` is through with it.  A sample published after the new declaration
is handed to the new subscriber too, and that task has it or has delivered it
(`Inv.shared`); an older one is not, and is lost with the old task
(`old_sample_is_lost`).  Nothing is lost exactly in the runs where each sample a task
gives up was delivered, or came after the declaration of another subscriber that has
not stopped (`resubscribe_iff`).
-/
import Entmoot.Session
import Entmoot.Topic
import Entmoot.Lib.Cells
import Entmoot.Lib.Custody
import Entmoot.Lib.Run

namespace Entmoot

open SessionState (DeliverCall DeliverStep SendResult)

/-! ## Forwarding tasks -/

inductive TaskPhase where
  | running
  /-- `abort` was called, and takes effect at an await -/
  | aborted
  /-- dropped, and its subscriber with it -/
  | stopped
  deriving DecidableEq, Repr

/-- A forwarding task and its subscriber; samples go by their number. -/
structure Forward where
  granted : QoS
  phase : TaskPhase
  /-- the samples the bus has handed to the subscriber -/
  handed : List Nat
  /-- those of them in its buffer, oldest first -/
  buffer : List Nat
  /-- the one the task is delivering -/
  current : Option (Nat × DeliverCall)
  deriving DecidableEq, Repr

namespace Forward

/-- A subscriber just declared. -/
def start (granted : QoS) : Forward := ⟨granted, .running, [], [], none⟩

/-- `JoinHandle::abort`. -/
def abort (f : Forward) : Forward :=
  { f with phase := if f.phase = .running then .aborted else f.phase }

/-- The bus hands the subscriber a sample, if it is still declared. -/
def take (n : Nat) (f : Forward) : Forward :=
  if f.phase = .stopped then f
  else { f with handed := f.handed ++ [n], buffer := f.buffer ++ [n] }

/-- Waiting in `recv_async`, or for room in the channel. -/
def atAwait (f : Forward) : Bool :=
  match f.current with
  | none => true
  | some (_, c) =>
    match c.pc with
    | .sending _ _ => true
    | _ => false

/-- The samples the task and its subscriber have. -/
def held (f : Forward) : List Nat := (f.current.map Prod.fst).toList ++ f.buffer

theorem abort_stopped (f : Forward) : f.abort.phase = .stopped ↔ f.phase = .stopped := by
  rw [abort]
  cases f.phase <;> simp

theorem take_phase (n : Nat) (f : Forward) : (f.take n).phase = f.phase := by
  rw [take]
  split <;> rfl

theorem take_held {n : Nat} {f : Forward} (h : f.phase ≠ .stopped) :
    (f.take n).held = f.held ++ [n] := by
  rw [take, if_neg h]
  exact (List.append_assoc _ _ _).symm

theorem take_handed {n : Nat} {f : Forward} (h : f.phase ≠ .stopped) :
    (f.take n).handed = f.handed ++ [n] := by
  rw [take, if_neg h]

theorem take_stopped {n : Nat} {f : Forward} (h : f.phase = .stopped) : f.take n = f := if_pos h

end Forward

/-! ## The system -/

structure ResubWorld where
  session : SessionState
  disk : Disk
  /-- the samples the bus had for the filter: key and payload -/
  samples : List (Str × Bytes)
  forwards : List Forward
  /-- tasks spawned and not yet inserted -/
  spawned : List Task
  /-- the deliveries completed: by which task, of which sample, and how -/
  log : List (Task × Nat × Delivery)

inductive ResubAction where
  /-- the bus has a sample for the subscribers of the filter -/
  | sample (key : Str) (payload : Bytes)
  /-- SUBSCRIBE: the subscriber declared, its task spawned -/
  | declare (granted : QoS)
  /-- SUBSCRIBE: `insert_sub` with the task spawned -/
  | insert (i : Task)
  /-- task `i` receives the next sample -/
  | recv (i : Task)
  /-- the next section of task `i`'s `deliver` -/
  | run (i : Task) (r : SendResult) (now : Instant)
  /-- the abort of task `i` takes effect -/
  | stop (i : Task)
  | attach (identity : Str) (sink : Sender) (kick : Notify)
  | detach (epoch : Nat) (now : Instant)

namespace ResubWorld

/-- A new session, without subscriptions. -/
def init (d : Disk) (clientId : Str) (maxQueue : Nat) (slowGrace : Option Duration)
    (queuePath subsPath : Option Path) : ResubWorld :=
  ⟨.new d clientId maxQueue slowGrace queuePath subsPath, d, [], [], [], []⟩

/-- The tasks after `abort` was called on the one that was replaced. -/
def abortTask (fs : List Forward) : Option Task → List Forward
  | none => fs
  | some i =>
    match fs[i]? with
    | none => fs
    | some f => fs.set i f.abort

/-- A task with a sample in hand after a section of its `deliver`. -/
def afterRun (f : Forward) (n : Nat) (c : DeliverCall) : Forward :=
  match c.pc with
  | .done _ => { f with current := none }
  | _ => { f with current := some (n, c) }

/-- What the section adds to the deliveries completed. -/
def completed (i : Task) (n : Nat) (c : DeliverCall) : List (Task × Nat × Delivery) :=
  match c.pc with
  | .done r => [(i, n, r)]
  | _ => []

/-- A task takes sample `n` out of the buffer; one that is no MQTT topic is skipped. -/
def received (scope : Str) (f : Forward) (n : Nat) (rest : List Nat) (s : Str × Bytes) : Forward :=
  match keyexprToTopic s.1 scope with
  | none => { f with buffer := rest }
  | some t => { f with buffer := rest, current := some (n, ⟨(t, s.2), f.granted, .readSink⟩) }

def step [HashOrder] (filter scope : Str) (w : ResubWorld) : ResubAction → Option ResubWorld
  | .sample key payload =>
      some { w with
        samples := w.samples ++ [(key, payload)]
        forwards := w.forwards.map (Forward.take w.samples.length) }
  | .declare granted =>
      match filterToKeyexpr filter scope with
      | .error _ => none
      | .ok _ =>
        some { w with
          forwards := w.forwards ++ [.start granted], spawned := w.spawned ++ [w.forwards.length] }
  | .insert i =>
      if i ∈ w.spawned then
        w.forwards[i]?.map fun f =>
          let r := w.session.insertSub w.disk filter f.granted i
          { w with
            session := r.1, disk := r.2.1, forwards := abortTask w.forwards r.2.2
            spawned := w.spawned.erase i }
      else none
  | .recv i =>
      w.forwards[i]?.bind fun f =>
        if f.phase = .stopped ∨ f.current.isSome then none
        else
          match f.buffer with
          | [] => none
          | n :: rest =>
            w.samples[n]?.map fun s =>
              { w with forwards := w.forwards.set i (received scope f n rest s) }
  | .run i r now =>
      w.forwards[i]?.bind fun f =>
        if f.phase = .stopped then none
        else
          f.current.bind fun cur =>
            (w.session.deliverStep w.disk cur.2 r now).map fun o =>
              { w with
                session := o.session, disk := o.disk
                forwards := w.forwards.set i (afterRun f cur.1 o.call)
                log := w.log ++ completed i cur.1 o.call }
  | .stop i =>
      w.forwards[i]?.bind fun f =>
        if f.phase = .aborted ∧ f.atAwait then
          some { w with
            forwards := w.forwards.set i { f with phase := .stopped, buffer := []
                                                  current := none } }
        else none
  | .attach identity sink kick =>
      let a := w.session.attachConn w.disk identity sink kick
      some { w with session := a.session, disk := a.disk }
  | .detach epoch now => some { w with session := (w.session.detachConn epoch now).1 }

/-! ## Samples in custody -/

/-- The tasks as holders of samples; a sample is done when a `deliver` of it is. -/
def custody (w : ResubWorld) : Custody Task Nat where
  handed n := ∃ (i : Task) (f : Forward), w.forwards[i]? = some f ∧ n ∈ f.handed
  holds i n := ∃ f : Forward, w.forwards[i]? = some f ∧ f.phase ≠ .stopped ∧ n ∈ f.held
  done n := ∃ i r, (i, n, r) ∈ w.log

/-- Every sample handed to a subscriber was delivered, or a task is still at it. -/
def Kept (w : ResubWorld) : Prop := w.custody.Kept

/-- The samples task `j` gives up in a step: all it has when it stops, and one it skips. -/
def GivesUp (scope : Str) (w : ResubWorld) (j : Task) (n : Nat) : ResubAction → Prop
  | .stop i => j = i ∧ ∃ f, w.forwards[i]? = some f ∧ f.phase = .aborted ∧ f.atAwait ∧ n ∈ f.held
  | .recv i => j = i ∧ ∃ f rest s, w.forwards[i]? = some f ∧ f.phase ≠ .stopped ∧
      f.current = none ∧ f.buffer = n :: rest ∧ w.samples[n]? = some s ∧
      keyexprToTopic s.1 scope = none
  | _ => False

/-- The sample is no MQTT topic, so that tasks skip it. -/
def NoTopic (scope : Str) (w : ResubWorld) (n : Nat) : Prop :=
  ∃ s, w.samples[n]? = some s ∧ keyexprToTopic s.1 scope = none

/-- The bus handed the sample to another subscriber too, declared before it came; its task
has not stopped, and has not skipped it. -/
def AlsoHanded (scope : Str) (w : ResubWorld) (j : Task) (n : Nat) : Prop :=
  ∃ (k : Task) (f : Forward), k ≠ j ∧ w.forwards[k]? = some f ∧ f.phase ≠ .stopped ∧ n ∈ f.handed ∧
    (NoTopic scope w n → n ∈ f.held)

/-- Each sample given up was delivered, or another subscriber was handed it too. -/
def Covered (scope : Str) (w : ResubWorld) (act : ResubAction) : Prop :=
  ∀ j n, GivesUp scope w j n act → (∃ i r, (i, n, r) ∈ w.log) ∨ AlsoHanded scope w j n

/-! ## What a task's step does with its samples -/

variable {scope : Str} {w w' : ResubWorld} {i : Task} {f f' : Forward} {n : Nat}
  {drops : Task → Nat → Prop}

/-- One task goes on: what it had it still has, or it is done, or it is dropped. -/
theorem moved_set (hf : w.forwards[i]? = some f) (hw : w'.forwards = w.forwards.set i f')
    (hhanded : f'.handed = f.handed) (hlive : f'.phase ≠ .stopped → f.phase ≠ .stopped)
    (hlog : ∀ e ∈ w.log, e ∈ w'.log) (hsub : ∀ n ∈ f'.held, n ∈ f.held)
    (hheld : f.phase ≠ .stopped → ∀ n ∈ f.held,
      f'.phase ≠ .stopped ∧ n ∈ f'.held ∨ w'.custody.done n ∨ drops i n)
    (hdrops : ∀ j n, drops j n → j = i ∧ n ∈ f.handed ∧ (f'.phase = .stopped ∨ n ∉ f'.held) ∧
      w'.log = w.log) : w.custody.Moved w'.custody drops := by
  have hself : w'.forwards[i]? = some f' := by
    rw [hw]
    exact Cells.set_self hf
  have hother : ∀ j, j ≠ i → w'.forwards[j]? = w.forwards[j]? := by
    intro j hj
    rw [hw, List.getElem?_set_ne hj.symm]
  have hholds : ∀ j n, w'.custody.holds j n → w.custody.holds j n := by
    rintro j n ⟨g, hg, hphase, hn⟩
    by_cases hj : j = i
    · subst hj
      rw [hself] at hg
      cases hg
      exact ⟨f, hf, hlive hphase, hsub n hn⟩
    · rw [hother j hj] at hg
      exact ⟨g, hg, hphase, hn⟩
  constructor
  · rintro n ⟨j, g, hg, hn⟩
    by_cases hj : j = i
    · subst hj
      rw [hself] at hg
      cases hg
      exact .inl ⟨j, f, hf, hhanded ▸ hn⟩
    · rw [hother j hj] at hg
      exact .inl ⟨j, g, hg, hn⟩
  · rintro n ⟨j, r, hr⟩
    exact ⟨j, r, hlog _ hr⟩
  · rintro j n ⟨g, hg, hphase, hn⟩
    by_cases hj : j = i
    · subst hj
      rw [hf] at hg
      cases hg
      rcases hheld hphase n hn with ⟨hphase', hn'⟩ | hdone | hdrop
      · exact .inl ⟨f', hself, hphase', hn'⟩
      · exact .inr (.inl hdone)
      · exact .inr (.inr hdrop)
    · exact .inl ⟨g, (hother j hj).trans hg, hphase, hn⟩
  · intro j n hdrop
    obtain ⟨rfl, hn, _⟩ := hdrops j n hdrop
    exact ⟨j, f', hself, hhanded ▸ hn⟩
  · intro j n hdrop
    obtain ⟨rfl, _, hgone, hsame⟩ := hdrops j n hdrop
    refine ⟨?_, ?_, fun k => hholds k n⟩
    · rintro ⟨g, hg, hphase, hn⟩
      rw [hself] at hg
      cases hg
      rcases hgone with hgone | hgone
      · exact hphase hgone
      · exact hgone hn
    · rintro ⟨k, r, hr⟩
      exact ⟨k, r, hsame ▸ hr⟩
  · intro j k n hj hk
    exact (hdrops j n hj).1.trans (hdrops k n hk).1.symm

theorem moved_same (hf : w'.forwards = w.forwards) (hlog : w'.log = w.log) :
    w.custody.Moved w'.custody fun _ _ => False := by
  have hc : w'.custody = w.custody := by
    simp only [custody, hf, hlog]
  rw [hc]
  exact .refl _

/-! ## What every reachable state keeps -/

structure ForwardOk (scope : Str) (w : ResubWorld) (i : Task) (f : Forward) : Prop where
  known : ∀ n ∈ f.handed, n < w.samples.length
  nodup : f.held.Nodup
  held : ∀ n ∈ f.held, n ∈ f.handed
  /-- before it stops, a task has, has delivered or has skipped what it was handed -/
  served : f.phase ≠ .stopped → ∀ n ∈ f.handed, n ∈ f.held ∨ (∃ r, (i, n, r) ∈ w.log) ∨
    NoTopic scope w n

def Inv (scope : Str) (w : ResubWorld) : Prop :=
  ∀ i f, w.forwards[i]? = some f → ForwardOk scope w i f

theorem ForwardOk.mono (h : ForwardOk scope w i f) (hs : w.samples <+: w'.samples)
    (hlog : ∀ e ∈ w.log, e ∈ w'.log) : ForwardOk scope w' i f where
  known := fun n hn => Nat.lt_of_lt_of_le (h.known n hn) hs.length_le
  nodup := h.nodup
  held := h.held
  served := by
    intro hphase n hn
    rcases h.served hphase n hn with hheld | ⟨r, hr⟩ | ⟨s, hsample, hskip⟩
    · exact .inl hheld
    · exact .inr (.inl ⟨r, hlog _ hr⟩)
    · obtain ⟨rest, hrest⟩ := hs
      exact .inr (.inr ⟨s, hrest ▸ Cells.append_of_some hsample, hskip⟩)

theorem Inv.set (h : Inv scope w) (hw : w'.forwards = w.forwards.set i f')
    (hs : w'.samples = w.samples) (hlog : ∀ e ∈ w.log, e ∈ w'.log)
    (hok : ForwardOk scope w' i f') : Inv scope w' := by
  intro j g hg
  rw [hw] at hg
  rcases Cells.set_cases hg with ⟨_, hg⟩ | ⟨rfl, rfl⟩
  · exact (h j g hg).mono (hs ▸ List.prefix_rfl) hlog
  · exact hok

theorem Inv.same (h : Inv scope w) (hf : w'.forwards = w.forwards) (hs : w'.samples = w.samples)
    (hlog : w'.log = w.log) : Inv scope w' := by
  intro j g hg
  rw [hf] at hg
  exact (h j g hg).mono (hs ▸ List.prefix_rfl) (fun e he => hlog ▸ he)

/-- A sample handed to a task that has not stopped, nor skipped it: delivered, or the task
has it. -/
theorem Inv.shared (h : Inv scope w) (hf : w.forwards[i]? = some f) (hphase : f.phase ≠ .stopped)
    (hn : n ∈ f.handed) (hskip : NoTopic scope w n → n ∈ f.held) :
    w.custody.done n ∨ w.custody.holds i n := by
  rcases (h i f hf).served hphase n hn with hheld | ⟨r, hr⟩ | hno
  · exact .inr ⟨f, hf, hphase, hheld⟩
  · exact .inl ⟨i, r, hr⟩
  · exact .inr ⟨f, hf, hphase, hskip hno⟩

/-- What is handed out twice is in custody: the condition is the one custody asks for. -/
theorem Inv.covered_iff (h : Inv scope w) {act : ResubAction} :
    (w.custody.Covered fun j n => GivesUp scope w j n act) ↔ Covered scope w act := by
  constructor
  · intro hcov j m hgives
    rcases hcov j m hgives with hdone | ⟨k, hk, f, hf, hphase, hm⟩
    · exact .inl hdone
    · exact .inr ⟨k, f, hk, hf, hphase, (h k f hf).held m hm, fun _ => hm⟩
  · intro hcov j m hgives
    rcases hcov j m hgives with hdone | ⟨k, f, hk, hf, hphase, hm, hskip⟩
    · exact .inl hdone
    · exact (h.shared hf hphase hm hskip).imp_right fun hholds => ⟨k, hk, hholds⟩

/-! ## The steps -/

/-- What a step has to do: keep the invariant and account for every sample. -/
structure StepOk (scope : Str) (w w' : ResubWorld) (act : ResubAction) : Prop where
  inv : Inv scope w'
  moved : w.custody.Moved w'.custody fun j n => GivesUp scope w j n act

theorem Inv.sample (h : Inv scope w) (key : Str) (payload : Bytes) :
    StepOk scope w { w with
      samples := w.samples ++ [(key, payload)]
      forwards := w.forwards.map (Forward.take w.samples.length) } (.sample key payload) := by
  have hcell : ∀ {j : Task} {g : Forward},
      (w.forwards.map (Forward.take w.samples.length))[j]? = some g →
        ∃ f, w.forwards[j]? = some f ∧ f.take w.samples.length = g := by
    intro j g hg
    rw [List.getElem?_map, Option.map_eq_some_iff] at hg
    exact hg
  have htaken : ∀ {j : Task} {f : Forward}, w.forwards[j]? = some f →
      (w.forwards.map (Forward.take w.samples.length))[j]? = some (f.take w.samples.length) := by
    intro j f hf
    rw [List.getElem?_map, hf]
    rfl
  refine ⟨?_, ?_⟩
  · intro j g hg
    obtain ⟨f, hf, rfl⟩ := hcell hg
    have hold := h j f hf
    have hmore : ForwardOk scope { w with samples := w.samples ++ [(key, payload)] } j f :=
      hold.mono (List.prefix_append _ _) (fun _ he => he)
    suffices hok : ForwardOk scope { w with samples := w.samples ++ [(key, payload)] } j
        (f.take w.samples.length) from hok.mono List.prefix_rfl (fun _ he => he)
    by_cases hphase : f.phase = .stopped
    · rw [Forward.take_stopped hphase]
      exact hmore
    · constructor
      · intro n hn
        rw [Forward.take_handed hphase, List.mem_append, List.mem_singleton] at hn
        rw [List.length_append, List.length_singleton]
        rcases hn with hn | rfl
        · exact Nat.lt_succ_of_lt (hold.known n hn)
        · exact Nat.lt_succ_self _
      · rw [Forward.take_held hphase, List.nodup_append]
        refine ⟨hold.nodup, List.nodup_singleton _, fun a ha b hb hab => ?_⟩
        have hlt := hold.known a (hold.held a ha)
        rw [hab, List.mem_singleton.mp hb] at hlt
        exact Nat.lt_irrefl _ hlt
      · intro n hn
        rw [Forward.take_held hphase, List.mem_append] at hn
        rw [Forward.take_handed hphase, List.mem_append]
        exact hn.imp_left (hold.held n)
      · intro _ n hn
        rw [Forward.take_handed hphase, List.mem_append] at hn
        rw [Forward.take_held hphase, List.mem_append]
        rcases hn with hn | hn
        · rcases hmore.served hphase n hn with hheld | hrest
          · exact .inl (.inl hheld)
          · exact .inr hrest
        · exact .inl (.inr hn)
  · constructor
    · rintro n ⟨j, g, hg, hn⟩
      obtain ⟨f, hf, rfl⟩ := hcell hg
      by_cases hphase : f.phase = .stopped
      · rw [Forward.take_stopped hphase] at hn
        exact .inl ⟨j, f, hf, hn⟩
      · rw [Forward.take_handed hphase, List.mem_append] at hn
        rcases hn with hn | hn
        · exact .inl ⟨j, f, hf, hn⟩
        · refine .inr ⟨j, f.take w.samples.length, htaken hf, ?_, ?_⟩
          · rw [Forward.take_phase]
            exact hphase
          · rw [Forward.take_held hphase]
            exact List.mem_append_right _ hn
    · exact fun _ hn => hn
    · rintro j n ⟨f, hf, hphase, hn⟩
      refine .inl ⟨f.take w.samples.length, htaken hf, ?_, ?_⟩
      · rw [Forward.take_phase]
        exact hphase
      · rw [Forward.take_held hphase]
        exact List.mem_append_left _ hn
    · exact fun _ _ hdrop => hdrop.elim
    · exact fun _ _ hdrop => hdrop.elim
    · exact fun _ _ _ hdrop => hdrop.elim

theorem Inv.declare (h : Inv scope w) (granted : QoS) :
    StepOk scope w { w with
      forwards := w.forwards ++ [.start granted], spawned := w.spawned ++ [w.forwards.length] }
      (.declare granted) := by
  refine ⟨?_, ?_⟩
  · intro j g hg
    rcases Cells.concat_cases hg with hg | ⟨_, rfl⟩
    · exact (h j g hg).mono List.prefix_rfl (fun _ he => he)
    · exact ⟨fun _ hn => absurd hn List.not_mem_nil, List.nodup_nil,
        fun _ hn => absurd hn List.not_mem_nil, fun _ _ hn => absurd hn List.not_mem_nil⟩
  · constructor
    · rintro n ⟨j, g, hg, hn⟩
      rcases Cells.concat_cases hg with hg | ⟨_, rfl⟩
      · exact .inl ⟨j, g, hg, hn⟩
      · exact absurd hn List.not_mem_nil
    · exact fun _ hn => hn
    · rintro j n ⟨f, hf, hphase, hn⟩
      exact .inl ⟨f, Cells.append_of_some hf, hphase, hn⟩
    · exact fun _ _ hdrop => hdrop.elim
    · exact fun _ _ hdrop => hdrop.elim
    · exact fun _ _ _ hdrop => hdrop.elim

theorem Inv.insert (h : Inv scope w) (s : SessionState) (d : Disk) (old : Option Task)
    (spawned : List Task) (i : Task) :
    StepOk scope w { w with
      session := s, disk := d, forwards := abortTask w.forwards old, spawned := spawned }
      (.insert i) := by
  have hsame : abortTask w.forwards old = w.forwards ∨ ∃ j f, w.forwards[j]? = some f ∧
      abortTask w.forwards old = w.forwards.set j f.abort := by
    cases old with
    | none => exact .inl rfl
    | some j =>
        rw [abortTask]
        cases hf : w.forwards[j]? with
        | none => exact .inl rfl
        | some f => exact .inr ⟨j, f, hf, rfl⟩
  rcases hsame with hsame | ⟨j, f, hf, hset⟩
  · exact ⟨h.same hsame rfl rfl, moved_same hsame rfl⟩
  · have hold := h j f hf
    have hlive : ∀ {g : Forward}, g.abort.phase ≠ .stopped ↔ g.phase ≠ .stopped :=
      fun {g} => not_congr g.abort_stopped
    refine ⟨h.set hset rfl (fun _ he => he) ?_, moved_set hf hset rfl hlive.mp (fun _ he => he)
      (fun _ hn => hn) (fun hphase n hn => .inl ⟨hlive.mpr hphase, hn⟩)
      (fun _ _ hdrop => hdrop.elim)⟩
    exact ⟨hold.known, hold.nodup, hold.held, fun hphase => hold.served (hlive.mp hphase)⟩

theorem Inv.recv (h : Inv scope w) {s : Str × Bytes} {rest : List Nat}
    (hf : w.forwards[i]? = some f) (hphase : f.phase ≠ .stopped) (hcur : f.current = none)
    (hbuf : f.buffer = n :: rest) (hs : w.samples[n]? = some s) :
    StepOk scope w { w with forwards := w.forwards.set i (received scope f n rest s) }
      (.recv i) := by
  have hold := h i f hf
  have hheld : f.held = n :: rest := by
    rw [Forward.held, hcur, hbuf]
    rfl
  have hnodup := hold.nodup
  rw [hheld, List.nodup_cons] at hnodup
  cases ht : keyexprToTopic s.1 scope with
  | none =>
      have hrecv : received scope f n rest s = { f with buffer := rest } := by
        rw [received, ht]
      have hheld' : (received scope f n rest s).held = rest := by
        rw [hrecv, Forward.held, hcur]
        rfl
      refine ⟨h.set rfl rfl (fun _ he => he) ?_, moved_set hf rfl ?_ ?_ (fun _ he => he) ?_ ?_ ?_⟩
      · constructor
        · rw [hrecv]
          exact hold.known
        · rw [hheld']
          exact hnodup.2
        · rw [hheld', hrecv]
          intro m hm
          exact hold.held m (hheld ▸ List.mem_cons_of_mem n hm)
        · rw [hheld', hrecv]
          intro _ m hm
          rcases hold.served hphase m hm with hm | hrest
          · rw [hheld, List.mem_cons] at hm
            rcases hm with rfl | hm
            · exact .inr (.inr ⟨s, hs, ht⟩)
            · exact .inl hm
          · exact .inr hrest
      · rw [hrecv]
      · rw [hrecv]
        exact id
      · rw [hheld', hheld]
        exact fun m hm => List.mem_cons_of_mem n hm
      · rw [hheld', hheld]
        intro _ m hm
        rcases List.mem_cons.mp hm with rfl | hm
        · exact .inr (.inr ⟨rfl, f, rest, s, hf, hphase, hcur, hbuf, hs, ht⟩)
        · rw [hrecv]
          exact .inl ⟨hphase, hm⟩
      · rintro j m ⟨rfl, g, rest', _, hg, _, _, hbuf', _⟩
        rw [hf] at hg
        cases hg
        rw [hbuf, List.cons.injEq] at hbuf'
        obtain ⟨rfl, rfl⟩ := hbuf'
        refine ⟨rfl, hold.held n (hheld ▸ List.mem_cons_self), .inr ?_, rfl⟩
        rw [hheld']
        exact hnodup.1
  | some t =>
      have hrecv : received scope f n rest s =
          { f with buffer := rest, current := some (n, ⟨(t, s.2), f.granted, .readSink⟩) } := by
        rw [received, ht]
      have hheld' : (received scope f n rest s).held = f.held := by
        rw [hrecv, hheld]
        rfl
      refine ⟨h.set rfl rfl (fun _ he => he) ?_, moved_set hf rfl ?_ ?_ (fun _ he => he) ?_ ?_ ?_⟩
      · constructor
        · rw [hrecv]
          exact hold.known
        · rw [hheld']
          exact hold.nodup
        · rw [hheld', hrecv]
          exact hold.held
        · rw [hheld', hrecv]
          exact hold.served
      · rw [hrecv]
      · rw [hrecv]
        exact id
      · rw [hheld']
        exact fun _ hm => hm
      · rw [hheld', hrecv]
        exact fun _ m hm => .inl ⟨hphase, hm⟩
      · rintro j m ⟨_, g, rest', s', hg, _, _, hbuf', hs', ht'⟩
        rw [hf] at hg
        cases hg
        rw [hbuf, List.cons.injEq] at hbuf'
        obtain ⟨rfl, _⟩ := hbuf'
        rw [hs] at hs'
        cases hs'
        rw [ht] at ht'
        cases ht'

/-- One section of a delivery: only a `deliver` that is done lets go of the sample. -/
theorem Inv.run (h : Inv scope w) {c c' : DeliverCall} (hf : w.forwards[i]? = some f)
    (hphase : f.phase ≠ .stopped) (hcur : f.current = some (n, c)) (s : SessionState) (d : Disk)
    (r : SendResult) (now : Instant) :
    StepOk scope w { w with
      session := s, disk := d, forwards := w.forwards.set i (afterRun f n c')
      log := w.log ++ completed i n c' } (.run i r now) := by
  have hold := h i f hf
  have hheld : f.held = n :: f.buffer := by
    rw [Forward.held, hcur]
    rfl
  have hgrow : ∀ e ∈ w.log, e ∈ w.log ++ completed i n c' := fun _ he => List.mem_append_left _ he
  have hfields : (afterRun f n c').handed = f.handed ∧ (afterRun f n c').phase = f.phase := by
    rw [afterRun]
    split <;> exact ⟨rfl, rfl⟩
  -- what it had is still in hand, but for the sample of a delivery that is done
  have hafter : (∃ q, c'.pc = .done q ∧ (afterRun f n c').held = f.buffer ∧
      (i, n, q) ∈ w.log ++ completed i n c') ∨ (afterRun f n c').held = f.held := by
    rw [afterRun, completed]
    split
    · next q hpc =>
      exact .inl ⟨q, hpc, rfl, List.mem_append_right _ List.mem_cons_self⟩
    · rw [hheld]
      exact .inr rfl
  have hsub : ∀ m ∈ (afterRun f n c').held, m ∈ f.held := by
    intro m hm
    rcases hafter with ⟨_, _, hheld', _⟩ | hheld'
    · rw [hheld'] at hm
      exact hheld ▸ List.mem_cons_of_mem n hm
    · exact hheld' ▸ hm
  have hkeeps : ∀ m ∈ f.held, m ∈ (afterRun f n c').held ∨
      ∃ q, (i, m, q) ∈ w.log ++ completed i n c' := by
    intro m hm
    rcases hafter with ⟨q, _, hheld', hlog⟩ | hheld'
    · rw [hheld, List.mem_cons] at hm
      rcases hm with rfl | hm
      · exact .inr ⟨q, hlog⟩
      · exact .inl (hheld' ▸ hm)
    · exact .inl (hheld'.symm ▸ hm)
  refine ⟨h.set rfl rfl hgrow ?_, moved_set hf rfl hfields.1 ?_ hgrow hsub ?_
    (fun _ _ hdrop => hdrop.elim)⟩
  · constructor
    · rw [hfields.1]
      exact hold.known
    · rcases hafter with ⟨_, _, hheld', _⟩ | hheld'
      · have hnodup := hold.nodup
        rw [hheld, List.nodup_cons] at hnodup
        rw [hheld']
        exact hnodup.2
      · rw [hheld']
        exact hold.nodup
    · intro m hm
      rw [hfields.1]
      exact hold.held m (hsub m hm)
    · rw [hfields.1, hfields.2]
      intro _ m hm
      rcases hold.served hphase m hm with hm | ⟨q, hq⟩ | hskip
      · rcases hkeeps m hm with hm | hq
        · exact .inl hm
        · exact .inr (.inl hq)
      · exact .inr (.inl ⟨q, hgrow _ hq⟩)
      · exact .inr (.inr hskip)
  · rw [hfields.2]
    exact id
  · rw [hfields.2]
    intro _ m hm
    rcases hkeeps m hm with hm | ⟨q, hq⟩
    · exact .inl ⟨hphase, hm⟩
    · exact .inr (.inl ⟨i, q, hq⟩)

theorem Inv.stop (h : Inv scope w) (hf : w.forwards[i]? = some f) (hphase : f.phase = .aborted)
    (hawait : f.atAwait) :
    StepOk scope w { w with
      forwards := w.forwards.set i { f with phase := .stopped, buffer := [], current := none } }
      (.stop i) := by
  have hold := h i f hf
  have hnone :
      ∀ m, m ∉ ({ f with phase := .stopped, buffer := [], current := none } : Forward).held :=
    fun _ => List.not_mem_nil
  refine ⟨h.set rfl rfl (fun _ he => he) ?_, moved_set hf rfl rfl ?_ (fun _ he => he) ?_ ?_ ?_⟩
  · exact ⟨hold.known, List.nodup_nil, fun m hm => absurd hm (hnone m),
      fun hlive => absurd rfl hlive⟩
  · exact fun hlive => absurd rfl hlive
  · exact fun m hm => absurd hm (hnone m)
  · exact fun _ m hm => .inr (.inr ⟨rfl, f, hf, hphase, hawait, hm⟩)
  · rintro j m ⟨rfl, g, hg, _, _, hm⟩
    rw [hf] at hg
    cases hg
    exact ⟨rfl, hold.held m hm, .inl rfl, rfl⟩

section

variable [HashOrder] {filter : Str} {act : ResubAction}

/-- **Every step accounts for every sample.** -/
theorem Inv.stepOk (h : Inv scope w) (hs : step filter scope w act = some w') :
    StepOk scope w w' act := by
  cases act with
  | sample key payload =>
      cases hs
      exact h.sample key payload
  | declare granted =>
      simp only [ResubWorld.step] at hs
      split at hs
      · cases hs
      · cases hs
        exact h.declare granted
  | insert i =>
      simp only [ResubWorld.step] at hs
      split at hs
      · obtain ⟨f, _, rfl⟩ := Option.map_eq_some_iff.mp hs
        exact h.insert _ _ _ _ i
      · cases hs
  | recv i =>
      obtain ⟨f, hf, hs⟩ := Option.bind_eq_some_iff.mp hs
      split at hs
      · cases hs
      · next hready =>
        obtain ⟨hphase, hcur⟩ := not_or.mp hready
        split at hs
        · cases hs
        · next n rest hbuf =>
          obtain ⟨s, hsample, rfl⟩ := Option.map_eq_some_iff.mp hs
          exact h.recv hf hphase (Option.not_isSome_iff_eq_none.mp hcur) hbuf hsample
  | run i r now =>
      obtain ⟨f, hf, hs⟩ := Option.bind_eq_some_iff.mp hs
      split at hs
      · cases hs
      · next hphase =>
        obtain ⟨⟨n, c⟩, hcur, hs⟩ := Option.bind_eq_some_iff.mp hs
        obtain ⟨o, _, rfl⟩ := Option.map_eq_some_iff.mp hs
        exact h.run hf hphase hcur _ _ r now
  | stop i =>
      obtain ⟨f, hf, hs⟩ := Option.bind_eq_some_iff.mp hs
      split at hs
      · next hready =>
        cases hs
        exact h.stop hf hready.1 hready.2
      · cases hs
  | attach identity sink kick =>
      cases hs
      exact ⟨h.same rfl rfl rfl, moved_same rfl rfl⟩
  | detach epoch now =>
      cases hs
      exact ⟨h.same rfl rfl rfl, moved_same rfl rfl⟩

theorem enabled_of_givesUp {j : Task} (hgives : GivesUp scope w j n act) :
    (step filter scope w act).isSome := by
  cases act with
  | recv i =>
      obtain ⟨_, f, rest, s, hf, hphase, hcur, hbuf, hs, _⟩ := hgives
      simp only [ResubWorld.step, hf, Option.bind_some, hcur, hbuf, hs, Option.isSome_none,
        Bool.false_eq_true, or_false, if_neg hphase, Option.map_some, Option.isSome_some]
  | stop i =>
      obtain ⟨_, f, hf, hphase, hawait, _⟩ := hgives
      simp only [ResubWorld.step, hf, Option.bind_some, hphase, hawait, and_self, if_true,
        Option.isSome_some]
  | sample _ _ | declare _ | insert _ | run _ _ _ | attach _ _ _ | detach _ _ => exact hgives.elim

theorem Inv.kept_iff (h : Inv scope w) (hk : w.Kept) :
    (∀ w', step filter scope w act = some w' → w'.Kept) ↔ Covered scope w act := by
  constructor
  · intro hnext j m hgives
    obtain ⟨w', hw'⟩ : ∃ w', step filter scope w act = some w' :=
      Option.isSome_iff_exists.mp (enabled_of_givesUp hgives)
    exact h.covered_iff.mp (((h.stepOk hw').moved.kept_iff hk).mp (hnext w' hw')) j m hgives
  · intro hcov w' hw'
    exact ((h.stepOk hw').moved.kept_iff hk).mpr (h.covered_iff.mpr hcov)

theorem Inv.covered (h : Inv scope w ∧ w.Kept) (hcov : Covered scope w act)
    (hstep : step filter scope w act = some w') : Inv scope w' ∧ w'.Kept :=
  ⟨(h.1.stepOk hstep).inv, (h.1.kept_iff h.2).mpr hcov w' hstep⟩

/-! ## Runs -/

variable (filter scope : Str) (d : Disk) (clientId : Str) (maxQueue : Nat)
  (slowGrace : Option Duration) (queuePath subsPath : Option Path)

omit [HashOrder] in
theorem init_kept : Inv scope (init d clientId maxQueue slowGrace queuePath subsPath) ∧
    (init d clientId maxQueue slowGrace queuePath subsPath).Kept := by
  constructor
  · intro i f hf
    cases hf
  · rintro n ⟨i, f, hf, _⟩
    cases hf

/-- **Re-subscribing loses nothing** in a run exactly if every sample given up in it,
by a task that stops or one that skips it, was delivered before, or came after the
declaration of another subscriber whose task has neither stopped nor skipped it. -/
theorem resubscribe_iff (acts : List ResubAction) :
    Run.Always (step filter scope) Kept
        (init d clientId maxQueue slowGrace queuePath subsPath) acts ↔
      Run.Meets (step filter scope) (Covered scope)
        (init d clientId maxQueue slowGrace queuePath subsPath) acts := by
  have hinit := init_kept scope d clientId maxQueue slowGrace queuePath subsPath
  rw [Run.always_iff, and_iff_right hinit.2]
  exact Run.meets_congr (I := fun w => Inv scope w ∧ w.Kept) (fun w act hw => hw.1.kept_iff hw.2)
    (fun w act w' hw hcov hs => Inv.covered hw hcov hs) acts hinit

/-- When the tasks of such a run have nothing left, all samples handed out are delivered. -/
theorem delivered_of_idle {acts : List ResubAction}
    (hcov : Run.Meets (step filter scope) (Covered scope)
      (init d clientId maxQueue slowGrace queuePath subsPath) acts)
    (hrun : Run.exec (step filter scope)
      (init d clientId maxQueue slowGrace queuePath subsPath) acts = some w)
    (hidle : ∀ f ∈ w.forwards, f.phase = .stopped ∨ f.held = []) (hf : f ∈ w.forwards)
    (hn : n ∈ f.handed) : ∃ i r, (i, n, r) ∈ w.log := by
  have hkept : w.Kept := (Run.exec_invariant_of_meets (I := fun w => Inv scope w ∧ w.Kept)
    (fun w act w' hw hcov hs => Inv.covered hw hcov hs) acts
    (init_kept scope d clientId maxQueue slowGrace queuePath subsPath) hcov hrun).2
  refine hkept.done_of_idle ?_ n ?_
  · rintro i m ⟨g, hg, hphase, hm⟩
    rcases hidle g (List.mem_of_getElem? hg) with hstop | hnil
    · exact hphase hstop
    · rw [hnil] at hm
      cases hm
  · obtain ⟨i, hi⟩ := List.mem_iff_getElem?.mp hf
    exact ⟨i, f, hi, hn⟩

end

/-- A sample comes, then the client subscribes again, and the old task stops first. -/
def resubscribeActs : List ResubAction :=
  [.declare .atLeastOnce, .insert 0, .sample "kiln".toList [57], .declare .atLeastOnce, .insert 1,
    .stop 0]

/-- The sample was handed to the old subscriber only, and goes with it. -/
theorem old_sample_is_lost :
    ¬ Run.Always (@step .asStored "kiln".toList []) Kept (init ∅ "dev".toList 10 none none none)
        resubscribeActs := by
  intro h
  obtain ⟨w, hrun, hforwards, hlog⟩ : ∃ w, Run.exec (@step .asStored "kiln".toList [])
      (init ∅ "dev".toList 10 none none none) resubscribeActs = some w ∧
      w.forwards = [⟨.atLeastOnce, .stopped, [0], [], none⟩, .start .atLeastOnce] ∧ w.log = [] :=
    ⟨_, rfl, rfl, rfl⟩
  rcases h _ w List.prefix_rfl hrun 0 ⟨0, _, by rw [hforwards]; rfl, List.mem_cons_self⟩ with
    ⟨i, r, hr⟩ | ⟨i, f, hf, hphase, hn⟩
  · rw [hlog] at hr
    cases hr
  · rw [hforwards] at hf
    rcases List.mem_pair.mp (List.mem_of_getElem? hf) with rfl | rfl
    · exact hphase rfl
    · cases hn

end ResubWorld

end Entmoot
