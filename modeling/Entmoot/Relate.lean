/-
# `Entmoot.Relate` — interleaved calls and the sequential run they stand for

Each call takes effect at one of its steps: an attach when it connects, a detach
and a sweep when they begin.  `Rel` relates the world to the registry after the
calls that have taken effect, one after the other: what a call that has taken
effect has still to do (a file to remove, an entry to drop), what an attach that
has not yet connected has done already (a session kicked and rid of its
subscriptions, its files removed, a new one entered), and where each call stands.

Here are the steps that change only the world: those with nothing to show for it
in the sequential run (`Rel.quiet`), a call made, a session made, an entry dropped.
-/
import Entmoot.RaceSteps

namespace Entmoot

open DiscardWorld (SamePaths)

/-! ## New sessions -/

namespace SessionRegistry

variable {r r' : SessionRegistry} {c : Str} {clean : Bool}

/-- The session an attach makes where there is none. -/
def fresh (r : SessionRegistry) (c : Str) (clean : Bool) : SessionState :=
  .new r.disk c r.maxQueue r.slowGrace (if clean then none else r.file c .queue)
    (if clean then none else r.file c .subs)

theorem fresh_congr (h : SameConfig r r')
    (hq : clean = false → r'.state c .queue = r.state c .queue) :
      r'.fresh c clean = r.fresh c clean := by
  rw [fresh, fresh, h.maxQueue, h.slowGrace, h.file, h.file]
  cases clean with
  | true => rfl
  | false =>
      have hqueue : SessionState.initialQueue r'.disk r.maxQueue (r.file c .queue) =
          SessionState.initialQueue r.disk r.maxQueue (r.file c .queue) := by
        have hq := hq rfl
        rw [state, state, h.file] at hq
        cases hp : r.file c .queue with
        | none => rfl
        | some p =>
            rw [hp] at hq
            have hlookup : r'.disk.lookup p = r.disk.lookup p := hq
            have hread : r'.disk.read p = r.disk.read p := by
              rw [Disk.read, Disk.read, hlookup]
            simp only [SessionState.initialQueue, loadQueue, hread]
      simp only [SessionState.new, Bool.false_eq_true, if_false, hqueue]

/-- The registered session of `c` has no subscriptions. -/
def NoSubs (r : SessionRegistry) (c : Str) : Prop :=
  ∀ a s, r.sessions.lookup c = some a → r.heap[a]? = some s → s.inner.subs = ∅

/-- The session at `a` is one of `c`, and one without files if its connection is clean. -/
def Handle (r : SessionRegistry) (c : Str) (a : Addr) (clean : Bool) : Prop :=
  ∃ s, r.heap[a]? = some s ∧ s.clientId = c ∧ (clean → ∀ k, s.file k = none)

theorem Handle.lt {a : Addr} (h : r.Handle c a clean) : a < r.heap.length := by
  obtain ⟨s, hs, -⟩ := h
  exact (List.getElem?_eq_some_iff.mp hs).1

theorem Handle.keeps {a : Addr} (h : r.Handle c a clean) (hk : Keeps r r') :
    r'.Handle c a clean := by
  obtain ⟨s, hs, hcid, hfile⟩ := h
  obtain ⟨s', hs', hp⟩ := hk.heap a s hs
  exact ⟨s', hs', hp.clientId.trans hcid, fun hclean k =>
    (SessionState.file_eq hp k).trans (hfile hclean k)⟩

end SessionRegistry

/-! ## Calls and what they have still to do -/

namespace RacePc

/-- What the call returns, once it has taken effect. -/
def effect : RacePc → Option (Option AttachOutcome)
  | .discardQueue o => some (some o)
  | .ending _ _ | .unregister _ | .sweeping _ _ _ => some none
  | .returned o => some o
  | _ => none

end RacePc

def RaceOp.clean : RaceOp → Bool
  | .attach _ clean _ _ | .detach _ _ clean _ => clean
  | .sweep _ _ => false

namespace RaceWorld

/-- Some call has still to remove this file of `c`. -/
def Due (c : Str) (w : RaceWorld) (k : FileKind) : Prop :=
  w.Has fun x => ∃ a ∈ x.pc.files k, ∃ s, w.reg.heap[a]? = some s ∧ w.reg.Owns c k s

theorem due_queue {c : Str} {w : RaceWorld} : Due c w .queue ↔ QueueDue c w := by
  refine exists_congr fun x => and_congr_right' (exists_congr fun a => and_congr_right' ?_)
  refine exists_congr fun s => ?_
  constructor
  · rintro ⟨hs, p, hp, hc⟩
    exact ⟨p, hs, hp, hc⟩
  · rintro ⟨p, hs, hp, hc⟩
    exact ⟨hs, p, hp, hc⟩

theorem due_subs {c : Str} {w : RaceWorld} : Due c w .subs ↔ SubsDue c w := by
  refine exists_congr fun x => and_congr_right' (exists_congr fun a => and_congr_right' ?_)
  refine exists_congr fun s => ?_
  constructor
  · rintro ⟨hs, p, hp, hc⟩
    exact ⟨p, hs, hp, hc⟩
  · rintro ⟨p, hs, hp, hc⟩
    exact ⟨hs, p, hp, hc⟩

/-! ## The relation -/

/-- What is true of a call at each place, in the registry `r` and in `σ`. -/
def PcOk (c : Str) (r σ : SessionRegistry) (clean : Bool) : RacePc → Prop
  | .start => True
  | .kick a | .abort a => clean = true ∧ r.sessions.lookup c = some a
  | .removeQueue => clean = true ∧ r.NoSubs c
  | .removeSubs => clean = true ∧ r.NoSubs c ∧ r.state c .queue = none
  | .makeClean => clean = true ∧ r.NoSubs c ∧ ∀ k, r.state c k = none
  | .queueExists => clean = false ∧ r.sessions.lookup c = none
  | .subsExists => clean = false ∧ r.sessions.lookup c = none ∧ σ.state c .queue = none
  | .load p => clean = false ∧ r.sessions.lookup c = none ∧
      p = ((σ.state c .queue).isSome || (σ.state c .subs).isSome)
  | .attachConn a p made => a < r.heap.length ∧ (made = false → p = true ∧ clean = false) ∧
      (clean = true → p = false) ∧ (a < σ.heap.length → p = true)
  | .discardQueue o => σ.Handle c o.session clean
  | .ending _ a | .unregister a => σ.Handle c a true
  | .sweeping _ a rest => ∀ b ∈ a :: rest, b < σ.heap.length ∧ σ.sessions.lookup c ≠ some b
  | .returned o => ∀ o', o = some o' → σ.Handle c o'.session clean

structure CallOk (c : Str) (r σ : SessionRegistry) (x : RaceCall) : Prop where
  op : ∀ a epoch clean now, x.op = .detach a epoch clean now → σ.Handle c a clean
  pc : PcOk c r σ x.op.clean x.pc

/-- A call has made the session of `c` and no call has connected to it yet. -/
structure Unborn (c : Str) (w : RaceWorld) (σ : SessionRegistry) (clean present : Bool) : Prop where
  entry : w.reg.sessions.lookup c = some σ.heap.length
  length : w.reg.heap.length = σ.heap.length + 1
  cell : w.reg.heap[σ.heap.length]? = some (σ.fresh c clean)
  found : present = (!clean && ((σ.state c .queue).isSome || (σ.state c .subs).isSome))
  free : clean = false → σ.sessions.lookup c = none
  clear : clean = true → ∀ k, w.reg.state c k = none
  made : ∀ x ∈ w.calls, ∀ p, x.pc = .attachConn σ.heap.length p true →
    x.op.clean = clean ∧ p = present
  maker : w.Has fun x => x.pc = .attachConn σ.heap.length present true

/-- The session of `c` and its files are what they should be, but for files a call
has still to remove. -/
structure Settled (c : Str) (w : RaceWorld) (σ : SessionRegistry) : Prop where
  cell : ∀ a, σ.sessions.lookup c = some a → w.reg.heap[a]? = σ.heap[a]?
  files : ∀ k, w.reg.state c k = σ.state c k ∨ Due c w k

/-- The world, and the registry after the calls that have taken effect. -/
structure Rel (c : Str) (w : RaceWorld) (σ : SessionRegistry) : Prop where
  config : SameConfig σ w.reg
  tidy : σ.Tidy
  core : ∀ (a : Addr) t, σ.heap[a]? = some t → ∃ s, w.reg.heap[a]? = some s ∧ s.core = t.core
  size : w.reg.heap.length = σ.heap.length ∨ ∃ clean p, Unborn c w σ clean p
  mapped : ∀ a, σ.sessions.lookup c = some a →
    w.reg.sessions.lookup c = some a ∨ ∃ p, Unborn c w σ true p
  known : ∀ a, w.reg.sessions.lookup c = some a → a < σ.heap.length →
    σ.sessions.lookup c = some a ∨ w.Ends a
  ended : ∀ a, w.Ends a → σ.sessions.lookup c ≠ some a
  settled : w.Has (fun x => x.pc.replaces) ∨ (∃ p, Unborn c w σ true p) ∨ Settled c w σ
  due : ∀ k, Due c w k → σ.state c k = none
  dueSubs : Due c w .subs → σ.NoSubs c
  lock : ∀ i x, w.calls[i]? = some x → x.pc.locked → w.lock = some i
  calls : ∀ x ∈ w.calls, CallOk c w.reg σ x
  held : ∀ k ∈ w.held, σ.Handle c k.1 k.2.2

section
variable {c : Str} {w : RaceWorld} {σ : SessionRegistry} {i : Nat} {x : RaceCall} {n : Section}

theorem PcOk.files_lt {r : SessionRegistry} {clean : Bool} {pc : RacePc} (h : PcOk c r σ clean pc)
    (k : FileKind) {a : Addr} (ha : a ∈ pc.files k) : a < σ.heap.length := by
  cases pc with
  | discardQueue o =>
      cases k with
      | queue =>
          rw [List.mem_singleton.mp ha]
          exact SessionRegistry.Handle.lt h
      | subs => cases ha
  | ending st b =>
      have hb : a = b := by
        cases k with
        | queue =>
            cases st with
            | abort | queue => exact List.mem_singleton.mp ha
            | subs => cases ha
        | subs => exact List.mem_singleton.mp ha
      rw [hb]
      exact SessionRegistry.Handle.lt h
  | sweeping st b rest =>
      have hb : a ∈ b :: rest := by
        cases k with
        | queue =>
            cases st with
            | abort | queue => exact ha
            | subs => exact List.mem_cons_of_mem _ ha
        | subs => exact ha
      exact (h a hb).1
  | _ => cases k <;> cases ha

theorem Rel.lt (h : Rel c w σ) {a : Addr} (ha : a < σ.heap.length) : a < w.reg.heap.length := by
  obtain ⟨s, hs, -⟩ := h.core a _ (List.getElem?_eq_getElem ha)
  exact (List.getElem?_eq_some_iff.mp hs).1

/-- What is due after a step was due before, or is so by what the step left to do. -/
theorem Rel.due_of_after (h : Rel c w σ) (hk : Keeps w.reg n.reg) {k : FileKind}
    (hd : Due c (w.after i x n) k) :
    (∃ a ∈ n.pc.files k, ∃ s, n.reg.heap[a]? = some s ∧ n.reg.Owns c k s) ∨ Due c w k := by
  rcases Has.of_after hd with hself | ⟨y, hy, a, ha, s', hs', ho⟩
  · exact .inl hself
  · have hlt := h.lt ((h.calls y hy).pc.files_lt k ha)
    obtain ⟨s'', hs'', hp⟩ := hk.heap a _ (List.getElem?_eq_getElem hlt)
    have heq : s'' = s' := Option.some.inj (hs''.symm.trans hs')
    rw [heq] at hp
    exact .inr ⟨y, hy, a, ha, _, List.getElem?_eq_getElem hlt,
      (SessionRegistry.Owns.congr hp).mp ((hk.owns c k s').mp ho)⟩

theorem Due.after {k : FileKind} (hd : Due c w k) (hk : Keeps w.reg n.reg)
    (hx : w.calls[i]? = some x) (hfiles : ∀ a ∈ x.pc.files k, a ∈ n.pc.files k ∨
      ∀ s, w.reg.heap[a]? = some s → ¬ w.reg.Owns c k s) : Due c (w.after i x n) k := by
  have hkeep : ∀ (a : Addr) s, w.reg.heap[a]? = some s → w.reg.Owns c k s →
      ∃ s', n.reg.heap[a]? = some s' ∧ n.reg.Owns c k s' := by
    intro a s hs ho
    obtain ⟨s', hs', hp⟩ := hk.heap a s hs
    exact ⟨s', hs', (hk.owns c k s').mpr ((SessionRegistry.Owns.congr hp).mpr ho)⟩
  obtain ⟨y, hy, a, ha, s, hs, ho⟩ := hd
  obtain ⟨j, hj⟩ := List.mem_iff_getElem?.mp hy
  obtain ⟨s', hs', ho'⟩ := hkeep a s hs ho
  by_cases hji : j = i
  · subst hji
    rw [hx] at hj
    cases hj
    rcases hfiles a ha with hstill | hnot
    · exact ⟨_, self_mem_after hx, a, hstill, s', hs', ho'⟩
    · exact absurd ho (hnot s hs)
  · exact ⟨y, other_mem_after hji hj, a, ha, s', hs', ho'⟩

theorem Rel.due_of_idle (h : Rel c w σ) (hk : Keeps w.reg n.reg) {k : FileKind}
    (hnone : n.pc.files k = []) (hd : Due c (w.after i x n) k) : Due c w k := by
  rcases h.due_of_after hk hd with ⟨a, ha, -⟩ | hold
  · rw [hnone] at ha
    cases ha
  · exact hold

theorem Due.after_idle {k : FileKind} (hd : Due c w k) (hk : Keeps w.reg n.reg)
    (hx : w.calls[i]? = some x) (hnone : x.pc.files k = []) : Due c (w.after i x n) k := by
  refine hd.after hk hx fun a ha => ?_
  rw [hnone] at ha
  cases ha

theorem Rel.core_eq (h : Rel c w σ) {a : Addr} {s t : SessionState} (hs : w.reg.heap[a]? = some s)
    (ht : σ.heap[a]? = some t) : s.core = t.core := by
  obtain ⟨s', hs', hcore⟩ := h.core a t ht
  have heq : s = s' := Option.some.inj (hs.symm.trans hs')
  rw [heq]
  exact hcore

/-! ## Steps that have no effect yet, or no more -/

/-- A step that neither makes a session nor takes effect. -/
structure Quiet (c : Str) (w : RaceWorld) (σ : SessionRegistry) (i : Nat) (x : RaceCall)
    (n : Section) : Prop where
  config : SameConfig w.reg n.reg
  entry : n.reg.sessions.lookup c = w.reg.sessions.lookup c
  length : n.reg.heap.length = w.reg.heap.length
  touched : ∀ (a : Addr) s, w.reg.heap[a]? = some s → ∃ s', n.reg.heap[a]? = some s' ∧ Touched s s'
  fewer : ∀ k, n.reg.state c k = w.reg.state c k ∨ n.reg.state c k = none
  ends : n.pc.ends = x.pc.ends
  replaces : x.pc.replaces → n.pc.replaces
  files : ∀ k, n.pc.files k ⊆ x.pc.files k
  connects : ∀ a p m, x.pc ≠ .attachConn a p m
  makes : ∀ a p, n.pc ≠ .attachConn a p true
  lock : ∀ j, j ≠ i → w.lock = some j → n.lock = some j
  locked : n.pc.locked → n.lock = some i
  settled : n.pc.replaces ∨ (∀ a, σ.sessions.lookup c = some a → n.reg.heap[a]? = w.reg.heap[a]?) ∧
    ∀ k, n.reg.state c k = none ∧ Due c w k ∨
      n.reg.state c k = w.reg.state c k ∧ (Due c w k → Due c (w.after i x n) k)
  ok : PcOk c n.reg σ x.op.clean n.pc

theorem Quiet.keeps (hq : Quiet c w σ i x n) : Keeps w.reg n.reg :=
  { hq.config with
    heap := by
      intro a s hs
      obtain ⟨s', hs', ht⟩ := hq.touched a s hs
      exact ⟨s', hs', samePaths_of_core ht.core⟩ }

theorem Quiet.noSubs (hq : Quiet c w σ i x n) (h : w.reg.NoSubs c) : n.reg.NoSubs c := by
  intro a s' ha hs'
  rw [hq.entry] at ha
  obtain ⟨hlt, _⟩ := List.getElem?_eq_some_iff.mp hs'
  rw [hq.length] at hlt
  obtain ⟨t, ht, htouch⟩ := hq.touched a _ (List.getElem?_eq_getElem hlt)
  rw [hs'] at ht
  cases ht
  rcases htouch.subs with hsame | hnone
  · rw [hsame]
    exact h a _ ha (List.getElem?_eq_getElem hlt)
  · exact hnone

theorem Quiet.none (hq : Quiet c w σ i x n) {k : FileKind} (h : w.reg.state c k = none) :
    n.reg.state c k = none := by
  rcases hq.fewer k with hsame | hnone
  · exact hsame.trans h
  · exact hnone

theorem Quiet.due_self (hq : Quiet c w σ i x n) (h : Rel c w σ) (hx : w.calls[i]? = some x)
    {k : FileKind} {a : Addr} {s' : SessionState} (ha : a ∈ n.pc.files k)
    (hs' : n.reg.heap[a]? = some s') (ho : n.reg.Owns c k s') : Due c w k := by
  have hmem := List.mem_of_getElem? hx
  have hlt := h.lt ((h.calls x hmem).pc.files_lt k (hq.files k ha))
  obtain ⟨t, ht, htouch⟩ := hq.touched a _ (List.getElem?_eq_getElem hlt)
  rw [hs'] at ht
  cases ht
  exact ⟨x, hmem, a, hq.files k ha, _, List.getElem?_eq_getElem hlt,
    (SessionRegistry.Owns.congr (samePaths_of_core htouch.core)).mp ((hq.config.owns c k s').mp ho)⟩

theorem Quiet.pcOk (hq : Quiet c w σ i x n) {clean : Bool} {pc : RacePc}
    (h : PcOk c w.reg σ clean pc) : PcOk c n.reg σ clean pc := by
  cases pc with
  | kick a | abort a => exact ⟨h.1, hq.entry.trans h.2⟩
  | removeQueue => exact ⟨h.1, hq.noSubs h.2⟩
  | removeSubs => exact ⟨h.1, hq.noSubs h.2.1, hq.none h.2.2⟩
  | makeClean => exact ⟨h.1, hq.noSubs h.2.1, fun k => hq.none (h.2.2 k)⟩
  | queueExists => exact ⟨h.1, hq.entry.trans h.2⟩
  | subsExists | load _ => exact ⟨h.1, hq.entry.trans h.2.1, h.2.2⟩
  | attachConn a p m => exact ⟨hq.length.symm ▸ h.1, h.2⟩
  | start | discardQueue _ | ending _ _ | unregister _ | sweeping _ _ _ | returned _ => exact h

theorem Unborn.quiet {clean p : Bool} (h : Unborn c w σ clean p) (hx : w.calls[i]? = some x)
    (hq : Quiet c w σ i x n) : Unborn c (w.after i x n) σ clean p where
  entry := hq.entry.trans h.entry
  length := hq.length.trans h.length
  cell := by
    obtain ⟨s', hs', ht⟩ := hq.touched _ _ h.cell
    have heq : s' = σ.fresh c clean := Touched.new_eq ht
    rw [← heq]
    exact hs'
  found := h.found
  free := h.free
  clear := fun hclean k => hq.none (h.clear hclean k)
  made := by
    intro y hy p' hpc
    rcases mem_after hy with ⟨j, -, hj⟩ | rfl
    · exact h.made y (List.mem_of_getElem? hj) p' hpc
    · exact absurd hpc (hq.makes _ _)
  maker := Has.after h.maker hx fun hpc => absurd hpc (hq.connects _ _ _)

/-- **A quiet step** keeps the relation. -/
theorem Rel.quiet (h : Rel c w σ) (hx : w.calls[i]? = some x) (hq : Quiet c w σ i x n) :
    Rel c (w.after i x n) σ where
  config := h.config.trans hq.config
  tidy := h.tidy
  core := by
    intro a t ht
    obtain ⟨s, hs, hcore⟩ := h.core a t ht
    obtain ⟨s', hs', htouch⟩ := hq.touched a s hs
    exact ⟨s', hs', htouch.core.trans hcore⟩
  size := by
    rcases h.size with hlen | ⟨clean, p, hu⟩
    · exact .inl (hq.length.trans hlen)
    · exact .inr ⟨clean, p, hu.quiet hx hq⟩
  mapped := by
    intro a ha
    rcases h.mapped a ha with hw | ⟨p, hu⟩
    · exact .inl (hq.entry.trans hw)
    · exact .inr ⟨p, hu.quiet hx hq⟩
  known := by
    intro a ha hlt
    exact (h.known a (hq.entry.symm.trans ha) hlt).imp_right (ends_after_iff hx hq.ends a).mpr
  ended := fun a ha => h.ended a ((ends_after_iff hx hq.ends a).mp ha)
  settled := by
    rcases h.settled with hrep | ⟨p, hu⟩ | hset
    · exact .inl (Has.after hrep hx hq.replaces)
    · exact .inr (.inl ⟨p, hu.quiet hx hq⟩)
    · rcases hq.settled with hrep | ⟨hcell, hfiles⟩
      · exact .inl ⟨_, self_mem_after hx, hrep⟩
      · refine .inr (.inr ⟨fun a ha => (hcell a ha).trans (hset.cell a ha), fun k => ?_⟩)
        rcases hfiles k with ⟨hnone, hdue⟩ | ⟨hsame, hkeep⟩
        · exact .inl (hnone.trans (h.due k hdue).symm)
        · exact (hset.files k).imp hsame.trans hkeep
  due := by
    intro k hd
    rcases h.due_of_after hq.keeps hd with ⟨a, ha, s', hs', ho⟩ | hold
    · exact h.due k (hq.due_self h hx ha hs' ho)
    · exact h.due k hold
  dueSubs := by
    intro hd
    rcases h.due_of_after hq.keeps hd with ⟨a, ha, s', hs', ho⟩ | hold
    · exact h.dueSubs (hq.due_self h hx ha hs' ho)
    · exact h.dueSubs hold
  lock := by
    intro j y hy hlocked
    rcases after_calls hy with ⟨hne, hj⟩ | ⟨rfl, rfl⟩
    · exact hq.lock j hne (h.lock j y hj hlocked)
    · exact hq.locked hlocked
  calls := by
    intro y hy
    rcases mem_after hy with ⟨j, -, hj⟩ | rfl
    · have hok := h.calls y (List.mem_of_getElem? hj)
      exact ⟨hok.op, hq.pcOk hok.pc⟩
    · exact ⟨(h.calls x (List.mem_of_getElem? hx)).op, hq.ok⟩
  held := h.held

/-! ### Under the registry lock -/

theorem Quiet.still (hconf : SameConfig w.reg n.reg) (hheap : n.reg.heap = w.reg.heap)
    (hentry : n.reg.sessions.lookup c = w.reg.sessions.lookup c)
    (hstate : ∀ k, n.reg.state c k = w.reg.state c k) (hends : n.pc.ends = x.pc.ends)
    (hrep : x.pc.replaces → n.pc.replaces) (hfiles : ∀ k, x.pc.files k = [] ∧ n.pc.files k = [])
    (hconnects : ∀ a p m, x.pc ≠ .attachConn a p m) (hmakes : ∀ a p, n.pc ≠ .attachConn a p true)
    (hlock : ∀ j, j ≠ i → w.lock = some j → n.lock = some j)
    (hlocked : n.pc.locked → n.lock = some i) (hx : w.calls[i]? = some x)
    (hok : PcOk c n.reg σ x.op.clean n.pc) : Quiet c w σ i x n where
  config := hconf
  entry := hentry
  length := by rw [hheap]
  touched := fun a s hs => ⟨s, by rw [hheap]; exact hs, .refl s⟩
  fewer := fun k => .inl (hstate k)
  ends := hends
  replaces := hrep
  files := fun k a ha => by
    rw [(hfiles k).2] at ha
    cases ha
  connects := hconnects
  makes := hmakes
  lock := hlock
  locked := hlocked
  settled := by
    refine .inr ⟨fun a _ => by rw [hheap], fun k => .inr ⟨hstate k, fun hd => ?_⟩⟩
    refine hd.after (.of_heap hconf hheap) hx fun a ha => ?_
    rw [(hfiles k).1] at ha
    cases ha
  ok := hok

theorem Quiet.replacing {a : Addr} {s s' : SessionState} (hs : w.reg.heap[a]? = some s)
    (ht : Touched s s') (hreg : n.reg = w.reg.setSession a s') (hends : n.pc.ends = x.pc.ends)
    (hrep : n.pc.replaces) (hfiles : ∀ k, n.pc.files k = [])
    (hconnects : ∀ a p m, x.pc ≠ .attachConn a p m) (hmakes : ∀ a p, n.pc ≠ .attachConn a p true)
    (hlock : n.lock = w.lock) (hlocked : w.lock = some i)
    (hok : PcOk c n.reg σ x.op.clean n.pc) : Quiet c w σ i x n where
  config := hreg ▸ ⟨rfl, rfl, rfl⟩
  entry := by rw [hreg]; rfl
  length := by rw [hreg]; exact List.length_set
  touched := by
    intro b t htb
    rw [hreg]
    by_cases hab : a = b
    · subst hab
      rw [hs] at htb
      cases htb
      exact ⟨s', Cells.set_self hs, ht⟩
    · exact ⟨t, (List.getElem?_set_ne hab).trans htb, .refl t⟩
  fewer := fun k => .inl (by rw [hreg]; rfl)
  ends := hends
  replaces := fun _ => hrep
  files := fun k a ha => by
    rw [hfiles k] at ha
    cases ha
  connects := hconnects
  makes := hmakes
  lock := fun j _ hj => hlock.trans hj
  locked := fun _ => hlock.trans hlocked
  settled := .inl hrep
  ok := hok

theorem Quiet.removing {k : FileKind} (hreg : n.reg = w.reg.removeFile (w.reg.file c k))
    (hends : n.pc.ends = x.pc.ends) (hrep : n.pc.replaces) (hfiles : ∀ k, n.pc.files k = [])
    (hconnects : ∀ a p m, x.pc ≠ .attachConn a p m) (hmakes : ∀ a p, n.pc ≠ .attachConn a p true)
    (hlock : n.lock = w.lock) (hlocked : w.lock = some i)
    (hok : PcOk c n.reg σ x.op.clean n.pc) : Quiet c w σ i x n where
  config := hreg ▸ (w.reg.sameConfig_removeFile _).1
  entry := by rw [hreg, (w.reg.sameConfig_removeFile _).2.2]
  length := by rw [hreg, (w.reg.sameConfig_removeFile _).2.1]
  touched := fun a s hs => ⟨s, by rw [hreg, (w.reg.sameConfig_removeFile _).2.1]; exact hs, .refl s⟩
  fewer := by
    intro k'
    rw [hreg, SessionRegistry.state_removeFile]
    split
    · exact .inr rfl
    · exact .inl rfl
  ends := hends
  replaces := fun _ => hrep
  files := fun k a ha => by
    rw [hfiles k] at ha
    cases ha
  connects := hconnects
  makes := hmakes
  lock := fun j _ hj => hlock.trans hj
  locked := fun _ => hlock.trans hlocked
  settled := .inl hrep
  ok := hok

/-- While a call with the lock finds no session there is none, and nothing is being replaced. -/
theorem Rel.looking (h : Rel c w σ) (hx : w.calls[i]? = some x) (hlocked : x.pc.locked)
    (hrep : x.pc.replaces = false) (hnone : w.reg.sessions.lookup c = none) :
    σ.sessions.lookup c = none ∧ Settled c w σ := by
  have hunborn : ∀ clean p, ¬ Unborn c w σ clean p := by
    intro clean p hu
    rw [hu.entry] at hnone
    cases hnone
  constructor
  · cases ha : σ.sessions.lookup c with
    | none => rfl
    | some a =>
        rcases h.mapped a ha with hw | ⟨p, hu⟩
        · rw [hnone] at hw
          cases hw
        · exact absurd hu (hunborn _ _)
  · rcases h.settled with ⟨y, hy, hyrep⟩ | ⟨p, hu⟩ | hset
    · -- only the holder of the lock replaces
      obtain ⟨j, hj⟩ := List.mem_iff_getElem?.mp hy
      have hlock :=
        (h.lock j y hj (RacePc.locked_of_replaces hyrep)).symm.trans (h.lock i x hx hlocked)
      cases hlock
      rw [hx] at hj
      cases hj
      rw [hrep] at hyrep
      cases hyrep
    · exact absurd hu (hunborn _ _)
    · exact hset

/-! ### Cleaning up -/

theorem PcOk.cleaning {r r' : SessionRegistry} {clean : Bool} {st : Cleanup} {a : Addr}
    {pc pc' : RacePc} (h : PcOk c r σ clean pc) (hpc : Cleaning st a pc pc') :
      PcOk c r' σ clean pc' := by
  cases hpc with
  | endAbort | endQueue | endSubs => exact h
  | sweepAbort | sweepQueue => exact h
  | sweepSubs _ rest =>
      cases rest with
      | nil => exact fun o ho => by cases ho
      | cons b rest => exact fun b' hb' => h b' (List.mem_cons_of_mem _ hb')
  | backlog o =>
      intro o' ho'
      cases ho'
      exact h

/-- A session is only rid of its subscriptions once it is no longer the session of `c`. -/
theorem Rel.not_registered {st : Cleanup} {a : Addr} {pc' : RacePc} (h : Rel c w σ)
    (hx : w.calls[i]? = some x) (hpc : Cleaning st a x.pc pc') :
    st ≠ .abort ∨ σ.sessions.lookup c ≠ some a := by
  have hmem := List.mem_of_getElem? hx
  have hok := (h.calls x hmem).pc
  obtain ⟨op, pc, before⟩ := x
  cases hpc with
  | endAbort => exact .inr (h.ended a ⟨_, hmem, rfl⟩)
  | sweepAbort rest => exact .inr (hok a List.mem_cons_self).2
  | endQueue | endSubs | sweepQueue | sweepSubs | backlog => exact .inl fun h => by cases h

/-- **A step of a cleanup** is quiet. -/
theorem Quiet.cleaning {st : Cleanup} {a : Addr} {s : SessionState} {pc' : RacePc} (h : Rel c w σ)
    (ht : w.reg.Tidy) (hx : w.calls[i]? = some x) (hpc : Cleaning st a x.pc pc')
    (hs : w.reg.heap[a]? = some s) : Quiet c w σ i x ⟨w.reg.cleanup a s st, w.lock, pc'⟩ := by
  obtain ⟨hconf, hmap⟩ := sameConfig_cleanup (r := w.reg) a s st
  obtain ⟨s', hheap, htouch⟩ := cleanup_heap hs st
  obtain ⟨hrep, hunlocked, hconnects, hmakes⟩ := hpc.free
  have hstate := cleanup_state ht hs st c
  have htouched : ∀ (b : Addr) t, w.reg.heap[b]? = some t →
      ∃ t', (w.reg.cleanup a s st).heap[b]? = some t' ∧ Touched t t' := by
    intro b t htb
    rw [hheap]
    by_cases hab : a = b
    · subst hab
      rw [hs] at htb
      cases htb
      exact ⟨s', Cells.set_self hs, htouch⟩
    · exact ⟨t, (List.getElem?_set_ne hab).trans htb, .refl t⟩
  have hkeeps : Keeps w.reg (w.reg.cleanup a s st) :=
    .set hconf hs (samePaths_of_core htouch.core) hheap
  exact {
    config := hconf
    entry := by rw [hmap]
    length := by rw [hheap]; exact List.length_set
    touched := htouched
    fewer := by
      intro k
      rw [hstate k]
      split
      · exact .inr rfl
      · exact .inl rfl
    ends := hpc.ends
    replaces := fun h => by rw [hrep] at h; cases h
    files := by
      intro k b hb
      rw [hpc.files k]
      split
      · exact List.mem_cons_of_mem _ hb
      · exact hb
    connects := hconnects
    makes := fun b p => hmakes b p true
    lock := fun _ _ hj => hj
    locked := fun h => by rw [hunlocked] at h; cases h
    settled := by
      refine .inr ⟨fun b hb => ?_, fun k => ?_⟩
      · rcases h.not_registered hx hpc with hst | hne
        · cases st with
          | abort => exact absurd rfl hst
          | queue | subs => rfl
        · rw [hheap]
          exact List.getElem?_set_ne fun hab : a = b => hne (hab ▸ hb)
      · rw [hstate k]
        by_cases hgone : st.file = some k ∧ w.reg.Owns c k s
        · rw [if_pos hgone]
          refine .inl ⟨rfl, x, List.mem_of_getElem? hx, a, ?_, s, hs, hgone.2⟩
          rw [hpc.files k, if_pos hgone.1]
          exact List.mem_cons_self
        · rw [if_neg hgone]
          refine .inr ⟨rfl, fun hd => hd.after hkeeps hx fun b hb => ?_⟩
          rw [hpc.files k] at hb
          split at hb
          · next hfile =>
            rcases List.mem_cons.mp hb with rfl | hb
            · refine .inr fun t htb ho => hgone ⟨hfile, ?_⟩
              rw [hs] at htb
              cases htb
              exact ho
            · exact .inl hb
          · exact .inl hb
    ok := (h.calls x (List.mem_of_getElem? hx)).pc.cleaning hpc }

/-! ## Calls made -/

/-- A call that is not under the registry lock minds a change of the registry only by
the sessions there are. -/
theorem PcOk.of_free {r r' : SessionRegistry} {clean : Bool} {pc : RacePc} (h : PcOk c r σ clean pc)
    (hfree : pc.locked = false) (hle : r.heap.length ≤ r'.heap.length) : PcOk c r' σ clean pc := by
  cases pc with
  | attachConn a p m => exact ⟨Nat.lt_of_lt_of_le h.1 hle, h.2⟩
  | start | discardQueue _ | ending _ _ | unregister _ | sweeping _ _ _ | returned _ => exact h
  | _ => cases hfree

theorem Rel.handle (h : Rel c w σ) {a : Addr} {epoch : Nat} {clean : Bool}
    (hc : (a, epoch, clean) ∈ w.connections) : σ.Handle c a clean := by
  rcases List.mem_append.mp hc with hheld | hcalls
  · exact h.held _ hheld
  · obtain ⟨y, hy, hconn⟩ := List.mem_filterMap.mp hcalls
    have hok := (h.calls y hy).pc
    obtain ⟨op, pc, before⟩ := y
    cases op with
    | attach identity clean' sink kick =>
        cases pc with
        | returned o =>
            cases o with
            | some o =>
                cases hconn
                exact hok o rfl
            | none => cases hconn
        | _ => cases hconn
    | detach _ _ _ _ => cases hconn
    | sweep _ _ => cases hconn

/-- **A call is made**: nothing has happened yet. -/
theorem Rel.invoke (h : Rel c w σ) {op : RaceOp} (hop : w.mayCall op) (before : List Nat) :
    Rel c { w with calls := w.calls ++ [⟨op, .start, before⟩] } σ := by
  have hhas : ∀ q : RaceCall → Prop, ¬ q ⟨op, .start, before⟩ →
      (({ w with calls := w.calls ++ [⟨op, .start, before⟩] } : RaceWorld).Has q ↔ w.Has q) := by
    intro q hq
    constructor
    · rintro ⟨y, hy, hqy⟩
      rcases List.mem_append.mp hy with hy | hy
      · exact ⟨y, hy, hqy⟩
      · rw [List.mem_singleton.mp hy] at hqy
        exact absurd hqy hq
    · rintro ⟨y, hy, hqy⟩
      exact ⟨y, List.mem_append_left _ hy, hqy⟩
  have hends : ∀ a, ({ w with calls := w.calls ++ [⟨op, .start, before⟩] } : RaceWorld).Ends a ↔
      w.Ends a := fun a => hhas _ fun h => by cases h
  have hdue : ∀ k, Due c { w with calls := w.calls ++ [⟨op, .start, before⟩] } k ↔ Due c w k := by
    intro k
    refine hhas _ ?_
    rintro ⟨a, ha, -⟩
    cases k <;> cases ha
  have hunborn : ∀ clean p, Unborn c w σ clean p →
      Unborn c { w with calls := w.calls ++ [⟨op, .start, before⟩] } σ clean p := by
    intro clean p hu
    exact {
      hu with
      made := by
        intro y hy p' hpc
        rcases List.mem_append.mp hy with hy | hy
        · exact hu.made y hy p' hpc
        · rw [List.mem_singleton.mp hy] at hpc
          cases hpc
      maker := (hhas _ fun h => by cases h).mpr hu.maker }
  exact {
    config := h.config
    tidy := h.tidy
    core := h.core
    size := h.size.imp_right (Exists.imp fun clean => Exists.imp fun p => hunborn clean p)
    mapped := fun a ha => (h.mapped a ha).imp_right (Exists.imp fun p => hunborn true p)
    known := fun a ha hlt => (h.known a ha hlt).imp_right (hends a).mpr
    ended := fun a ha => h.ended a ((hends a).mp ha)
    settled := by
      rcases h.settled with hrep | ⟨p, hu⟩ | hset
      · exact .inl ((hhas _ fun h => by cases h).mpr hrep)
      · exact .inr (.inl ⟨p, hunborn true p hu⟩)
      · exact .inr (.inr ⟨hset.cell, fun k => (hset.files k).imp_right (hdue k).mpr⟩)
    due := fun k hd => h.due k ((hdue k).mp hd)
    dueSubs := fun hd => h.dueSubs ((hdue .subs).mp hd)
    lock := by
      intro j y hy hlocked
      rcases Cells.concat_cases hy with hy | ⟨-, rfl⟩
      · exact h.lock j y hy hlocked
      · cases hlocked
    calls := by
      intro y hy
      rcases List.mem_append.mp hy with hy | hy
      · exact h.calls y hy
      · rw [List.mem_singleton.mp hy]
        refine ⟨fun a epoch clean now hdetach => ?_, trivial⟩
        have hdetach : op = .detach a epoch clean now := hdetach
        subst hdetach
        exact h.handle (of_decide_eq_true hop)
    held := h.held }

/-! ## Sessions made -/

/-- Only one call is under the registry lock. -/
theorem Rel.alone (h : Rel c w σ) (hx : w.calls[i]? = some x) (hlocked : x.pc.locked) {j : Nat}
    {y : RaceCall} (hne : j ≠ i) (hj : w.calls[j]? = some y) : y.pc.locked = false := by
  cases hy : y.pc.locked with
  | false => rfl
  | true =>
      have heq := (h.lock j y hj hy).symm.trans (h.lock i x hx hlocked)
      exact absurd (Option.some.inj heq) hne

theorem Rel.none_connecting (h : Rel c w σ) (hx : w.calls[i]? = some x) (hlocked : x.pc.locked)
    (hd : ¬ Doomed c (w.after i x n)) (hlen : n.reg.heap.length = w.reg.heap.length + 1)
    (hentry : n.reg.sessions.lookup c = some w.reg.heap.length) :
    ∀ y ∈ w.calls, ∀ a p m, y.pc ≠ .attachConn a p m := by
  intro y hy a p m hya
  obtain ⟨j, hj⟩ := List.mem_iff_getElem?.mp hy
  have hne : j ≠ i := by
    rintro rfl
    rw [hx] at hj
    cases hj
    rw [hya] at hlocked
    cases hlocked
  have hok := (h.calls y hy).pc
  rw [hya] at hok
  have hlt : a < w.reg.heap.length := hok.1
  refine hd ⟨y, other_mem_after hne hj, a, p, m, hya, ?_, .inl fun ha => ?_⟩
  · show a < n.reg.heap.length
    rw [hlen]
    exact Nat.lt_succ_of_lt hlt
  · have heq := hentry.symm.trans ha
    cases heq
    exact Nat.lt_irrefl _ hlt

/-- **An attach makes a session**: it is the one the attach will get from a
sequential call, when it connects. -/
theorem Rel.create (h : Rel c w σ) (hx : w.calls[i]? = some x) (hlocked : x.pc.locked)
    (clean : Bool) {p : Bool} (hd : ¬ Doomed c (w.after i x n))
    (hreg : n.reg = (w.reg.addSession c (if clean then none else w.reg.file c .queue)
      (if clean then none else w.reg.file c .subs)).1)
    (hpc : n.pc = .attachConn w.reg.heap.length p true)
    (hclean : x.op.clean = clean)
    (hp : p = (!clean && ((σ.state c .queue).isSome || (σ.state c .subs).isSome)))
    (hfresh : w.reg.fresh c clean = σ.fresh c clean)
    (hnone : clean = false → σ.sessions.lookup c = none ∧ Settled c w σ)
    (hclear : clean = true → ∀ k, w.reg.state c k = none) : Rel c (w.after i x n) σ := by
  have hheap : n.reg.heap = w.reg.heap ++ [w.reg.fresh c clean] := by
    rw [hreg]
    rfl
  have hlen : n.reg.heap.length = w.reg.heap.length + 1 := by
    rw [hheap]
    exact List.length_append
  have hentry : n.reg.sessions.lookup c = some w.reg.heap.length := by
    rw [hreg]
    exact AList.lookup_insert _
  have hkeeps : Keeps w.reg n.reg := by
    refine .concat ?_ hheap
    rw [hreg]
    exact ⟨rfl, rfl, rfl⟩
  have hstate : ∀ k, n.reg.state c k = w.reg.state c k := by
    intro k
    rw [hreg]
    rfl
  have hconnects := h.none_connecting hx hlocked hd hlen hentry
  have hsize : w.reg.heap.length = σ.heap.length := by
    rcases h.size with hlen | ⟨_, _, hu⟩
    · exact hlen
    · obtain ⟨y, hy, hya⟩ := hu.maker
      exact absurd hya (hconnects y hy _ _ _)
  have hends : ∀ a, (w.after i x n).Ends a → w.Ends a := by
    intro a ha
    rcases ha.of_after with hself | hold
    · rw [hpc] at hself
      cases hself
    · exact hold
  have hdue : ∀ k, Due c (w.after i x n) k → Due c w k := by
    refine fun k => h.due_of_idle hkeeps ?_
    rw [hpc]
    cases k <;> rfl
  have hu : Unborn c (w.after i x n) σ clean p := {
    entry := by
      rw [← hsize]
      exact hentry
    length := by
      rw [← hsize]
      exact hlen
    cell := by
      rw [← hsize, ← hfresh]
      show n.reg.heap[w.reg.heap.length]? = _
      rw [hheap]
      exact List.getElem?_concat_length
    found := hp
    free := fun hc => (hnone hc).1
    clear := fun hc k => (hstate k).trans (hclear hc k)
    made := by
      intro y hy p' hya
      rcases mem_after hy with ⟨j, -, hj⟩ | rfl
      · exact absurd hya (hconnects y (List.mem_of_getElem? hj) _ _ _)
      · have hya' : n.pc = _ := hya
        rw [hpc] at hya'
        obtain ⟨-, rfl, -⟩ := RacePc.attachConn.inj hya'
        exact ⟨hclean, rfl⟩
    maker := ⟨_, self_mem_after hx, by rw [← hsize]; exact hpc⟩ }
  exact {
    config := h.config.trans hkeeps.toSameConfig
    tidy := h.tidy
    core := by
      intro a t ht
      obtain ⟨s, hs, hcore⟩ := h.core a t ht
      refine ⟨s, ?_, hcore⟩
      show n.reg.heap[a]? = some s
      rw [hheap]
      exact Cells.append_of_some hs
    size := .inr ⟨clean, p, hu⟩
    mapped := by
      intro a ha
      cases clean with
      | true => exact .inr ⟨p, hu⟩
      | false =>
          rw [(hnone rfl).1] at ha
          cases ha
    known := by
      intro a ha hlt
      have heq := hentry.symm.trans ha
      cases heq
      rw [hsize] at hlt
      exact absurd hlt (Nat.lt_irrefl _)
    ended := fun a ha => h.ended a (hends a ha)
    settled := by
      cases clean with
      | true => exact .inr (.inl ⟨p, hu⟩)
      | false =>
          obtain ⟨hfree, hset⟩ := hnone rfl
          refine .inr (.inr ⟨fun a ha => ?_, fun k => ?_⟩)
          · rw [hfree] at ha
            cases ha
          · exact (hset.files k).imp (hstate k).trans fun hk =>
              hk.after_idle hkeeps hx (RacePc.files_of_locked hlocked k)
    due := fun k hk => h.due k (hdue k hk)
    dueSubs := fun hk => h.dueSubs (hdue .subs hk)
    lock := by
      intro j y hy hyl
      rcases after_calls hy with ⟨hne, hj⟩ | ⟨-, rfl⟩
      · rw [h.alone hx hlocked hne hj] at hyl
        cases hyl
      · have hnl : n.pc.locked = true := hyl
        rw [hpc] at hnl
        cases hnl
    calls := by
      intro y hy
      rcases mem_after hy with ⟨j, hne, hj⟩ | rfl
      · have hok := h.calls y (List.mem_of_getElem? hj)
        exact ⟨hok.op, hok.pc.of_free (h.alone hx hlocked hne hj)
          (by show _ ≤ n.reg.heap.length; omega)⟩
      · refine ⟨(h.calls x (List.mem_of_getElem? hx)).op, ?_⟩
        show PcOk c n.reg σ x.op.clean n.pc
        rw [hpc]
        refine ⟨?_, fun hm => (by cases hm), fun hc => ?_, fun hlt => ?_⟩
        · rw [hlen]
          exact Nat.lt_succ_self _
        · rw [hp, ← hclean, hc]
          rfl
        · rw [hsize] at hlt
          exact absurd hlt (Nat.lt_irrefl _)
    held := h.held }

/-! ## Sessions unregistered -/

theorem Rel.free (h : Rel c w σ) (hlock : w.lock = none) : ∀ y ∈ w.calls, y.pc.locked = false := by
  intro y hy
  obtain ⟨j, hj⟩ := List.mem_iff_getElem?.mp hy
  cases hlocked : y.pc.locked with
  | false => rfl
  | true =>
      have heq := h.lock j y hj hlocked
      rw [hlock] at heq
      cases heq

/-- **A detach takes its entry away**: in the sequential run it went when the detach began. -/
theorem Rel.unregister (h : Rel c w σ) (ht : w.reg.Tidy) (hx : w.calls[i]? = some x) {a : Addr}
    (hpc : x.pc = .unregister a) (hlock : w.lock = none) :
    Rel c (w.after i x ⟨w.reg.removeOwn a, none, .returned none⟩) σ := by
  have hmem := List.mem_of_getElem? hx
  have hends : w.Ends a := by
    refine ⟨x, hmem, ?_⟩
    show x.pc.ends = some a
    rw [hpc]
    rfl
  have hlt : a < σ.heap.length := by
    have hok := (h.calls x hmem).pc
    rw [hpc] at hok
    exact SessionRegistry.Handle.lt hok
  obtain ⟨m, hm, hlookup⟩ := ht.removeOwn a
  rw [hm]
  -- the entry that goes is not the one of the sequential run, nor of a session just made
  have hkept : ∀ b, b ≠ a → w.reg.sessions.lookup c = some b → m.lookup c = some b := by
    intro b hne hb
    rw [hlookup, if_neg fun ha => hne (Option.some.inj (hb.symm.trans ha))]
    exact hb
  have hback : ∀ b, m.lookup c = some b → b ≠ a ∧ w.reg.sessions.lookup c = some b := by
    intro b hb
    rw [hlookup] at hb
    split at hb
    · cases hb
    · next hne =>
      refine ⟨?_, hb⟩
      rintro rfl
      exact hne hb
  have hends_of : ∀ b, (w.after i x ⟨{ w.reg with sessions := m }, none, .returned none⟩).Ends b →
      w.Ends b := by
    intro b hb
    rcases hb.of_after with hself | hold
    · cases hself
    · exact hold
  have hends_iff : ∀ b, b ≠ a →
      ((w.after i x ⟨{ w.reg with sessions := m }, none, .returned none⟩).Ends b ↔ w.Ends b) := by
    intro b hne
    refine ⟨hends_of b, fun hb => Has.after hb hx fun hself => ?_⟩
    rw [hpc] at hself
    exact absurd (Option.some.inj hself).symm hne
  have hkeeps : Keeps w.reg { w.reg with sessions := m } := .of_heap ⟨rfl, rfl, rfl⟩ rfl
  have hdue : ∀ k, Due c (w.after i x ⟨{ w.reg with sessions := m }, none, .returned none⟩) k ↔
      Due c w k := by
    intro k
    have hnone : x.pc.files k = [] := by
      rw [hpc]
      cases k <;> rfl
    exact ⟨h.due_of_idle hkeeps (by cases k <;> rfl), fun hd => hd.after_idle hkeeps hx hnone⟩
  have hunborn : ∀ clean p, Unborn c w σ clean p →
      Unborn c (w.after i x ⟨{ w.reg with sessions := m }, none, .returned none⟩) σ clean p := by
    intro clean p hu
    exact {
      hu with
      entry := hkept _ (Nat.ne_of_gt hlt) hu.entry
      made := by
        intro y hy p' hya
        rcases mem_after hy with ⟨j, -, hj⟩ | rfl
        · exact hu.made y (List.mem_of_getElem? hj) p' hya
        · cases hya
      maker := Has.after hu.maker hx fun hself => by rw [hpc] at hself; cases hself }
  exact {
    config := ⟨h.config.maxQueue, h.config.slowGrace, h.config.queueDir⟩
    tidy := h.tidy
    core := h.core
    size := h.size.imp_right (Exists.imp fun clean => Exists.imp fun p => hunborn clean p)
    mapped := by
      intro b hb
      rcases h.mapped b hb with hw | ⟨p, hu⟩
      · refine .inl (hkept b ?_ hw)
        rintro rfl
        exact h.ended b hends hb
      · exact .inr ⟨p, hunborn true p hu⟩
    known := by
      intro b hb hlt
      obtain ⟨hne, hw⟩ := hback b hb
      exact (h.known b hw hlt).imp_right (hends_iff b hne).mpr
    ended := fun b hb => h.ended b (hends_of b hb)
    settled := by
      rcases h.settled with hrep | ⟨p, hu⟩ | hset
      · exact .inl (Has.after hrep hx fun hself => by rw [hpc] at hself; cases hself)
      · exact .inr (.inl ⟨p, hunborn true p hu⟩)
      · exact .inr (.inr ⟨hset.cell, fun k => (hset.files k).imp_right (hdue k).mpr⟩)
    due := fun k hd => h.due k ((hdue k).mp hd)
    dueSubs := fun hd => h.dueSubs ((hdue .subs).mp hd)
    lock := by
      intro j y hy hyl
      rcases after_calls hy with ⟨-, hj⟩ | ⟨-, rfl⟩
      · rw [h.free hlock y (List.mem_of_getElem? hj)] at hyl
        cases hyl
      · cases hyl
    calls := by
      intro y hy
      rcases mem_after hy with ⟨j, -, hj⟩ | rfl
      · have hy := List.mem_of_getElem? hj
        have hok := h.calls y hy
        exact ⟨hok.op, hok.pc.of_free (h.free hlock y hy) (Nat.le_refl _)⟩
      · exact ⟨(h.calls x hmem).op, fun o ho => by cases ho⟩
    held := h.held }

end

end RaceWorld

end Entmoot
