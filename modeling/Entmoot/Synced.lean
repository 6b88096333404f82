/-
# `Entmoot.Synced` — a server's sessions and files, over any operations

A server runs completed operations one after the other on its registered
sessions, each client id under whatever identity the connection proved, each
`detach` with the session, epoch and flag of its own `attach`.  Started on an
empty directory it keeps every registered session in step with its files and has
no other files (`Synced`, `Server.synced_exec`).

Every operation concerns one client id (`OnlySession`) and leaves it either with
a session in step (`Synced.install`) or with neither session nor files
(`Synced.drop`).
-/
import Entmoot.InStep
import Entmoot.Registry
import Entmoot.Lib.Run
import Entmoot.Lib.Cells

namespace Entmoot

/-! ## Servers and operations -/

structure Server where
  reg : SessionRegistry
  /-- the session, epoch and flag of every attach so far -/
  attaches : List (Addr × Nat × Bool)

inductive Op where
  | attach (clientId identity : Str) (clean : Bool) (sink : Sender) (kick : Notify)
  | activate (clientId filter : Str) (granted : QoS)
  | removeSub (clientId filter : Str)
  | deliver (clientId : Str) (m : Msg) (qos : QoS) (send : SessionState.SendResult) (now : Instant)
  /-- the end of the connection of attach number `i` -/
  | detach (i : Nat) (now : Instant)
  | sweep (expiry : Duration) (now : Instant)
  deriving DecidableEq, Repr

/-- A client id as `serve` passes it on, never empty, with an identity it comes under, and
texts that fit a chunk. -/
def Op.Fits (ident : Str → Str → Prop) : Op → Prop
  | .attach clientId identity _ _ _ =>
      clientId ≠ [] ∧ ident clientId identity ∧ Entmoot.Fits (asBytes clientId) ∧
        Entmoot.Fits (asBytes identity)
  | .activate _ filter _ => Entmoot.Fits (asBytes filter)
  | .deliver _ m _ _ _ => MsgFits m
  | _ => True

namespace Server

def start (maxQueue : Nat) (slowGrace : Option Duration) : Server :=
  ⟨.new maxQueue slowGrace true ∅, []⟩

/-- One operation; a subscription that is refused leaves everything as it was. -/
def step [HashOrder] (declare : Str → Bool) (scope : Str) (sv : Server) : Op → Option Server
  | .attach clientId identity clean sink kick =>
      let att := sv.reg.attach clientId identity clean sink kick
      some ⟨att.registry, sv.attaches ++ [(att.outcome.session, att.outcome.epoch, clean)]⟩
  | .activate clientId filter granted =>
      match sv.reg.sessions.lookup clientId with
      | none => none
      | some a =>
          match sv.reg.activateSubscription declare scope a filter granted with
          | .ok reg => some { sv with reg := reg }
          | .error _ => some sv
  | .removeSub clientId filter =>
      match sv.reg.sessions.lookup clientId with
      | none => none
      | some a => some { sv with reg := sv.reg.removeSub a filter }
  | .deliver clientId m qos send now =>
      match sv.reg.sessions.lookup clientId with
      | none => none
      | some a => some { sv with reg := sv.reg.deliver a m qos send now }
  | .detach i now =>
      match sv.attaches[i]? with
      | none => none
      | some (a, epoch, clean) => some { sv with reg := sv.reg.detach a epoch clean now }
  | .sweep expiry now => some { sv with reg := sv.reg.sweep expiry now }

end Server

/-! ## The registry -/

/-- The flag of the attach that made the session at an address: the first to
return it. -/
def madeClean (attaches : List (Addr × Nat × Bool)) (a : Addr) : Option Bool :=
  (attaches.find? fun x => x.1 = a).map fun x => x.2.2

theorem madeClean_append {attaches : List (Addr × Nat × Bool)} {a : Addr} {clean : Bool}
    (h : madeClean attaches a = some clean) (extra : List (Addr × Nat × Bool)) :
    madeClean (attaches ++ extra) a = some clean := by
  obtain ⟨x, hx, rfl⟩ := Option.map_eq_some_iff.mp h
  rw [madeClean, List.find?_append, hx]
  rfl

theorem madeClean_new {attaches : List (Addr × Nat × Bool)} {a : Addr}
    (h : ∀ x ∈ attaches, x.1 ≠ a) (e : Nat) (clean : Bool) :
    madeClean (attaches ++ [(a, e, clean)]) a = some clean := by
  have hnone : (attaches.find? fun x => x.1 = a) = none := by
    rw [List.find?_eq_none]
    intro x hx
    simpa using h x hx
  rw [madeClean, List.find?_append, hnone]
  simp

/-- Every registered session is in step, and there are no other files. -/
structure Synced (ident : Str → Str → Prop) (scope : Str) (bound : Nat) (r : SessionRegistry)
    (attaches : List (Addr × Nat × Bool)) : Prop where
  queueDir : r.queueDir = true
  maxQueue : r.maxQueue = bound
  registered : ∀ c a, r.sessions.lookup c = some a →
    ∃ s, r.heap[a]? = some s ∧ InStep ident scope bound r.disk c s ∧
      (s.queuePath = none → madeClean attaches a = some true)
  gone : ∀ c, r.sessions.lookup c = none →
    r.disk.lookup (queueFile c) = none ∧ r.disk.lookup (subsFile c) = none
  named : ∀ p, (r.disk.lookup p).isSome → ∃ c, p = queueFile c ∨ p = subsFile c
  /-- a session a cleanSession=1 attach was given has no files -/
  clean : ∀ x ∈ attaches, ∃ s, r.heap[x.1]? = some s ∧
    (x.2.2 = true → s.queuePath = none ∧ s.subsPath = none)

section
variable {ident : Str → Str → Prop} {scope : Str} {bound : Nat} {r r' : SessionRegistry}
  {attaches : List (Addr × Nat × Bool)} {c : Str} {a : Addr} {s s' : SessionState}

/-- What a step on the session of one client id leaves alone. -/
structure OnlySession (c : Str) (r r' : SessionRegistry) : Prop where
  queueDir : r'.queueDir = r.queueDir
  maxQueue : r'.maxQueue = r.maxQueue
  heap : ∀ (b : Addr) (s : SessionState), r.heap[b]? = some s → s.clientId ≠ c →
    r'.heap[b]? = some s
  paths : ∀ (b : Addr) (s : SessionState), r.heap[b]? = some s →
    ∃ s', r'.heap[b]? = some s' ∧ s'.queuePath = s.queuePath ∧ s'.subsPath = s.subsPath
  files : OnlyFiles c r.disk r'.disk

theorem Synced.others (h : Synced ident scope bound r attaches) (ho : OnlySession c r r') {c' : Str}
    {a' : Addr} (hc : c' ≠ c) (ha : r.sessions.lookup c' = some a') :
    ∃ s, r'.heap[a']? = some s ∧ InStep ident scope bound r'.disk c' s ∧
      (s.queuePath = none → madeClean attaches a' = some true) := by
  obtain ⟨s, hs, hin, hmade⟩ := h.registered c' a' ha
  refine ⟨s, ho.heap a' s hs ?_, hin.frame ho.files hc, hmade⟩
  rw [hin.clientId]
  exact hc

theorem Synced.cleanAfter (h : Synced ident scope bound r attaches) (ho : OnlySession c r r') :
    ∀ x ∈ attaches, ∃ s, r'.heap[x.1]? = some s ∧
      (x.2.2 = true → s.queuePath = none ∧ s.subsPath = none) := by
  intro x hx
  obtain ⟨s, hs, hpaths⟩ := h.clean x hx
  obtain ⟨s', hs', hq, hp⟩ := ho.paths x.1 s hs
  exact ⟨s', hs', fun hcl => ⟨hq.trans (hpaths hcl).1, hp.trans (hpaths hcl).2⟩⟩

theorem Synced.namedAfter (h : Synced ident scope bound r attaches) (ho : OnlySession c r r') :
    ∀ p, (r'.disk.lookup p).isSome → ∃ c, p = queueFile c ∨ p = subsFile c := by
  intro p hp
  rcases ho.files.fresh p hp with hp | hp
  · exact h.named p hp
  · exact ⟨c, hp⟩

/-- A step after which the client id has a session in step; `extra` are the
attaches that returned it. -/
theorem Synced.install (h : Synced ident scope bound r attaches) (ho : OnlySession c r r')
    (hlook : ∀ c', r'.sessions.lookup c' = if c' = c then some a else r.sessions.lookup c')
    (hs : r'.heap[a]? = some s) (hin : InStep ident scope bound r'.disk c s)
    {extra : List (Addr × Nat × Bool)}
    (hextra : ∀ x ∈ extra, x.1 = a ∧ (x.2.2 = true → s.queuePath = none ∧ s.subsPath = none))
    (hmade : s.queuePath = none → madeClean (attaches ++ extra) a = some true) :
    Synced ident scope bound r' (attaches ++ extra) where
  queueDir := ho.queueDir.trans h.queueDir
  maxQueue := ho.maxQueue.trans h.maxQueue
  registered := by
    intro c' a' ha
    rw [hlook] at ha
    split at ha
    · next heq =>
      cases ha
      rw [heq]
      exact ⟨s, hs, hin, hmade⟩
    · next hne =>
      obtain ⟨t, ht, hin', hmade'⟩ := h.others ho hne ha
      exact ⟨t, ht, hin', fun hq => madeClean_append (hmade' hq) extra⟩
  gone := by
    intro c' hc'
    rw [hlook] at hc'
    split at hc'
    · cases hc'
    · next hne =>
      obtain ⟨hq, hsub⟩ := h.gone c' hc'
      exact ⟨(ho.files.queue c' hne).trans hq, (ho.files.subs c' hne).trans hsub⟩
  named := h.namedAfter ho
  clean := by
    intro x hx
    rcases List.mem_append.mp hx with hx | hx
    · exact h.cleanAfter ho x hx
    · obtain ⟨rfl, hpaths⟩ := hextra x hx
      exact ⟨s, hs, hpaths⟩

/-- A step after which the client id has no session and no files. -/
theorem Synced.drop (h : Synced ident scope bound r attaches) (ho : OnlySession c r r')
    (hlook : ∀ c', r'.sessions.lookup c' = if c' = c then none else r.sessions.lookup c')
    (hq : r'.disk.lookup (queueFile c) = none) (hsub : r'.disk.lookup (subsFile c) = none) :
    Synced ident scope bound r' attaches where
  queueDir := ho.queueDir.trans h.queueDir
  maxQueue := ho.maxQueue.trans h.maxQueue
  registered := by
    intro c' a' ha
    rw [hlook] at ha
    split at ha
    · cases ha
    · next hne => exact h.others ho hne ha
  gone := by
    intro c' hc'
    rw [hlook] at hc'
    split at hc'
    · next heq =>
      rw [heq]
      exact ⟨hq, hsub⟩
    · next hne =>
      obtain ⟨hq', hsub'⟩ := h.gone c' hc'
      exact ⟨(ho.files.queue c' hne).trans hq', (ho.files.subs c' hne).trans hsub'⟩
  named := h.namedAfter ho
  clean := h.cleanAfter ho

theorem OnlySession.set (hs : r.heap[a]? = some s) (hc : s.clientId = c)
    (hq : s'.queuePath = s.queuePath) (hp : s'.subsPath = s.subsPath) {d : Disk} {n : Nat}
    (hd : OnlyFiles c r.disk d) :
    OnlySession c r { r.setSession a s' with disk := d, tasks := n } where
  queueDir := rfl
  maxQueue := rfl
  heap := by
    intro b t ht hne
    show (r.heap.set a s')[b]? = some t
    rw [List.getElem?_set_ne ?_, ht]
    rintro rfl
    rw [hs] at ht
    cases ht
    exact hne hc
  paths := by
    intro b t ht
    show ∃ t', (r.heap.set a s')[b]? = some t' ∧ _
    by_cases hab : a = b
    · subst hab
      rw [hs] at ht
      cases ht
      exact ⟨s', Cells.set_self hs, hq, hp⟩
    · exact ⟨t, by rw [List.getElem?_set_ne hab, ht], rfl, rfl⟩
  files := hd

/-- The registered session replaced by one that is in step again. -/
theorem Synced.update (h : Synced ident scope bound r attaches) (ha : r.sessions.lookup c = some a)
    (hs : r.heap[a]? = some s) (hq : s'.queuePath = s.queuePath) (hp : s'.subsPath = s.subsPath)
    {d : Disk} (n : Nat) (hin : InStep ident scope bound d c s' ∧ OnlyFiles c r.disk d) :
    Synced ident scope bound { r.setSession a s' with disk := d, tasks := n } attaches := by
  obtain ⟨t, ht, hold, hmade⟩ := h.registered c a ha
  rw [hs] at ht
  cases ht
  rw [← List.append_nil attaches] at hmade ⊢
  refine h.install (.set hs hold.clientId hq hp hin.2) ?_ (Cells.set_self hs) hin.1
    (fun _ hx => absurd hx List.not_mem_nil) fun hnone => hmade (hq.symm.trans hnone)
  intro c'
  show r.sessions.lookup c' = _
  split
  · next heq => rw [heq, ha]
  · rfl

/-- A session changed in nothing that matters, or not registered. -/
theorem Synced.retouch (h : Synced ident scope bound r attaches) (hs : r.heap[a]? = some s)
    (hsame : SameKept s s' ∨ (∀ c, r.sessions.lookup c ≠ some a) ∧
      s'.queuePath = s.queuePath ∧ s'.subsPath = s.subsPath) :
    Synced ident scope bound (r.setSession a s') attaches where
  queueDir := h.queueDir
  maxQueue := h.maxQueue
  registered := by
    intro c b hb
    obtain ⟨t, ht, hin, hmade⟩ := h.registered c b hb
    show ∃ t', (r.heap.set a s')[b]? = some t' ∧ _
    by_cases hab : a = b
    · subst hab
      rw [hs] at ht
      cases ht
      rcases hsame with hsame | ⟨hnone, _⟩
      · exact ⟨s', Cells.set_self hs, hin.same hsame,
          fun hq => hmade (hsame.queuePath.symm.trans hq)⟩
      · exact absurd hb (hnone c)
    · exact ⟨t, by rw [List.getElem?_set_ne hab, ht], hin, hmade⟩
  gone := h.gone
  named := h.named
  clean := by
    intro x hx
    obtain ⟨t, ht, hpaths⟩ := h.clean x hx
    show ∃ t', (r.heap.set a s')[x.1]? = some t' ∧ _
    by_cases hab : a = x.1
    · rw [← hab] at ht ⊢
      rw [hs] at ht
      cases ht
      have hqp : s'.queuePath = s.queuePath ∧ s'.subsPath = s.subsPath := by
        rcases hsame with hsame | ⟨_, hqp⟩
        · exact ⟨hsame.queuePath, hsame.subsPath⟩
        · exact hqp
      exact ⟨s', Cells.set_self hs, fun hcl =>
        ⟨hqp.1.trans (hpaths hcl).1, hqp.2.trans (hpaths hcl).2⟩⟩
    · exact ⟨t, by rw [List.getElem?_set_ne hab, ht], hpaths⟩

/-! ## The operations of the registry -/

section
variable [HashOrder]

omit [HashOrder] in
/-- Any step that writes one session, its files and its map entry. -/
theorem OnlySession.withSessions {s s' : SessionState} (hs : r.heap[a]? = some s)
    (hc : s.clientId = c) (hq : s'.queuePath = s.queuePath) (hp : s'.subsPath = s.subsPath)
    {d : Disk} (hd : OnlyFiles c r.disk d) (m : AList fun _ : Str => Addr) :
    OnlySession c r { r.setSession a s' with sessions := m, disk := d } :=
  let h := OnlySession.set hs hc hq hp hd (n := r.tasks)
  ⟨rfl, rfl, h.heap, h.paths, hd⟩

theorem Synced.attach_resume (h : Synced ident scope bound r attaches)
    (ha : r.sessions.lookup c = some a) {identity : Str} (hid : ident c identity)
    (hfits : Fits (asBytes identity)) (sink : Sender) (kick : Notify) :
    let att := r.attach c identity false sink kick
    Synced ident scope bound att.registry
      (attaches ++ [(att.outcome.session, att.outcome.epoch, false)]) := by
  obtain ⟨s, hs, hin, hmade⟩ := h.registered c a ha
  have hconn := hin.attachConn hid hfits sink kick
  obtain ⟨hq, hp⟩ := s.attachConn_paths r.disk identity sink kick
  have hreg : r.attach c identity false sink kick =
      { registry :=
          { r.setSession a (s.attachConn r.disk identity sink kick).session with
            sessions := r.sessions.insert c a
            disk := (s.attachConn r.disk identity sink kick).disk }
        outcome :=
          ⟨a, true, (s.attachConn r.disk identity sink kick).epoch,
            (s.attachConn r.disk identity sink kick).backlog⟩
        notified := (s.attachConn r.disk identity sink kick).notified.toList } := by
    simp only [SessionRegistry.attach, SessionRegistry.attachLookup, ha,
      SessionRegistry.attachConnAt,
      hs]
    rfl
  rw [hreg]
  have ho := OnlySession.withSessions hs hin.clientId hq hp hconn.2 (r.sessions.insert c a)
  refine h.install ho (fun c' => Keyed.lookup_insert _ _ _ _) (Cells.set_self hs) hconn.1 ?_ ?_
  · intro x hx
    rw [List.mem_singleton.mp hx]
    exact ⟨rfl, fun hcl => nomatch hcl⟩
  · exact fun hnone => madeClean_append (hmade (hq.symm.trans hnone)) _

theorem Synced.attach_new (h : Synced ident scope bound r attaches) (ho : OnlySession c r r')
    (hc : c ≠ []) {identity : Str} (hid : ident c identity)
    (hfits : Fits (asBytes c) ∧ Fits (asBytes identity))
    (hqf : r'.disk.lookup (queueFile c) = none) (hsf : r'.disk.lookup (subsFile c) = none)
    (hlook : ∀ c', c' ≠ c → r'.sessions.lookup c' = r.sessions.lookup c')
    {qp sp : Option Path} (clean : Bool)
    (hpaths : qp = some (queueFile c) ∧ sp = some (subsFile c) ∧ clean = false ∨
      qp = none ∧ sp = none ∧ clean = true)
    (sink : Sender) (kick : Notify) :
    let n := r'.addSession c qp sp
    let att := n.1.attachConnAt n.2 identity sink kick
    Synced ident scope bound att.1 (attaches ++ [(n.2, att.2.1, clean)]) := by
  have hmax : r'.maxQueue = bound := ho.maxQueue.trans h.maxQueue
  have hpaths' : qp = some (queueFile c) ∧ sp = some (subsFile c) ∨ qp = none ∧ sp = none := by
    rcases hpaths with ⟨hq, hp, _⟩ | ⟨hq, hp, _⟩
    · exact .inl ⟨hq, hp⟩
    · exact .inr ⟨hq, hp⟩
  have hcreated := @InStep.created ident scope bound _ c _ identity hc hid hfits hqf hsf _ _ hpaths'
    r'.slowGrace sink kick
  rw [← hmax] at hcreated
  obtain ⟨hin, honly, hq, hp⟩ := hcreated
  let s₀ := SessionState.new r'.disk c r'.maxQueue r'.slowGrace qp sp
  have hs₀ : (r'.heap ++ [s₀])[r'.heap.length]? = some s₀ := List.getElem?_concat_length
  have hreg : (r'.addSession c qp sp).1.attachConnAt (r'.addSession c qp sp).2 identity sink kick =
      ({ (r'.addSession c qp sp).1.setSession r'.heap.length
            (s₀.attachConn r'.disk identity sink kick).session with
          disk := (s₀.attachConn r'.disk identity sink kick).disk },
        (s₀.attachConn r'.disk identity sink kick).epoch,
        (s₀.attachConn r'.disk identity sink kick).backlog,
        (s₀.attachConn r'.disk identity sink kick).notified) := by
    simp only [SessionRegistry.attachConnAt, SessionRegistry.addSession]
    rw [hs₀]
  simp only [hreg]
  have hne : ∀ {b : Addr} {t : SessionState}, r'.heap[b]? = some t → r'.heap.length ≠ b := by
    intro b t ht
    obtain ⟨hlt, _⟩ := List.getElem?_eq_some_iff.mp ht
    exact Nat.ne_of_gt hlt
  have ho' : OnlySession c r
      { (r'.addSession c qp sp).1.setSession r'.heap.length
            (s₀.attachConn r'.disk identity sink kick).session with
          disk := (s₀.attachConn r'.disk identity sink kick).disk } := {
    queueDir := ho.queueDir
    maxQueue := ho.maxQueue
    heap := by
      intro b t ht hcid
      have ht' := ho.heap b t ht hcid
      show ((r'.heap ++ [s₀]).set _ _)[b]? = some t
      rw [List.getElem?_set_ne (hne ht'), Cells.append_of_some ht']
    paths := by
      intro b t ht
      obtain ⟨t', ht', hpaths⟩ := ho.paths b t ht
      refine ⟨t', ?_, hpaths⟩
      show ((r'.heap ++ [s₀]).set _ _)[b]? = some t'
      rw [List.getElem?_set_ne (hne ht'), Cells.append_of_some ht']
    files := ho.files.trans honly }
  have hnew : ∀ x ∈ attaches, x.1 ≠ r'.heap.length := by
    intro x hx
    obtain ⟨t, ht, _⟩ := h.cleanAfter ho x hx
    exact (hne ht).symm
  refine h.install ho' (a := r'.heap.length) ?_ (Cells.set_self hs₀) (hmax ▸ hin) ?_ ?_
  · intro c'
    show (r'.sessions.insert c r'.heap.length).lookup c' = _
    rw [Keyed.lookup_insert]
    split
    · rfl
    · next hne' => exact hlook c' hne'
  · intro x hx
    rw [List.mem_singleton.mp hx]
    refine ⟨rfl, fun hcl => ?_⟩
    rcases hpaths with ⟨_, _, hcl'⟩ | ⟨hqp, hsp, _⟩
    · rw [hcl'] at hcl
      cases hcl
    · exact ⟨hq.trans hqp, hp.trans hsp⟩
  · intro hnone
    refine (madeClean_new hnew _ _).trans ?_
    rcases hpaths with ⟨hqp, _, _⟩ | ⟨_, _, rfl⟩
    · rw [hq, hqp] at hnone
      cases hnone
    · rfl

omit [HashOrder] in
theorem OnlySession.refl (c : Str) (r : SessionRegistry) : OnlySession c r r :=
  ⟨rfl, rfl, fun _ _ h _ => h, fun _ s h => ⟨s, h, rfl, rfl⟩, .refl c r.disk⟩

omit [HashOrder] in
theorem OnlySession.removeState (ho : OnlySession c r r') (hdir : r'.queueDir = true) :
    OnlySession c r (r'.removeState c) ∧
      (r'.removeState c).disk.lookup (queueFile c) = none ∧
      (r'.removeState c).disk.lookup (subsFile c) = none := by
  have heq : r'.removeState c =
      { r' with disk := (r'.disk.remove (queueFile c)).remove (subsFile c) } := by
    simp only [SessionRegistry.removeState, SessionRegistry.queuePath, SessionRegistry.subsPath,
      hdir, if_true]
  rw [heq]
  refine ⟨⟨ho.queueDir, ho.maxQueue, ho.heap, ho.paths, ?_⟩, ?_, ?_⟩
  · exact ho.files.trans ((OnlyFiles.removeQueue c _).trans (.removeSubs c _))
  · show ((r'.disk.remove (queueFile c)).remove (subsFile c)).lookup _ = none
    rw [Disk.remove, Keyed.lookup_erase, if_neg (queueFile_ne_subsFile c c), Disk.remove,
      Keyed.lookup_erase, if_pos rfl]
  · show ((r'.disk.remove (queueFile c)).remove (subsFile c)).lookup _ = none
    rw [Disk.remove, Keyed.lookup_erase, if_pos rfl]

theorem Synced.attach (h : Synced ident scope bound r attaches) (hc : c ≠ []) {identity : Str}
    (hid : ident c identity) (hfits : Fits (asBytes c) ∧ Fits (asBytes identity)) (clean : Bool)
    (sink : Sender) (kick : Notify) :
    let att := r.attach c identity clean sink kick
    Synced ident scope bound att.registry
      (attaches ++ [(att.outcome.session, att.outcome.epoch, clean)]) := by
  cases ha : r.sessions.lookup c with
  | some a =>
      cases clean with
      | false => exact h.attach_resume ha hid hfits.2 sink kick
      | true =>
          obtain ⟨s, hs, hin, _⟩ := h.registered c a ha
          have hold : OnlySession c r (r.setSession a s.kickCurrent.1.abortSubs.1) := by
            have hkick : s.kickCurrent.1.abortSubs.1.queuePath = s.queuePath ∧
                s.kickCurrent.1.abortSubs.1.subsPath = s.subsPath := by
              simp only [SessionState.kickCurrent, SessionState.abortSubs]
              split <;> exact ⟨rfl, rfl⟩
            exact OnlySession.withSessions hs hin.clientId hkick.1 hkick.2 (.refl c _) r.sessions
          obtain ⟨ho, hqf, hsf⟩ := hold.removeState h.queueDir
          have hnew :=
            h.attach_new ho hc hid hfits hqf hsf (fun _ _ => rfl) true (.inr ⟨rfl, rfl, rfl⟩) sink
            kick
          simp only [SessionRegistry.attach, SessionRegistry.attachLookup, ha, hs]
          exact hnew
  | none =>
      cases clean with
      | false =>
          obtain ⟨hqf, hsf⟩ := h.gone c ha
          have hpaths : r.queuePath c = some (queueFile c) ∧ r.subsPath c = some (subsFile c) := by
            simp only [SessionRegistry.queuePath, SessionRegistry.subsPath, h.queueDir, if_true,
              and_self]
          have hnew := h.attach_new (.refl c r) hc hid hfits hqf hsf (fun _ _ => rfl) false
            (.inl ⟨hpaths.1, hpaths.2, rfl⟩) sink kick
          simp only [SessionRegistry.attach, SessionRegistry.attachLookup, ha]
          exact hnew
      | true =>
          obtain ⟨ho, hqf, hsf⟩ := (OnlySession.refl c r).removeState h.queueDir
          have hnew :=
            h.attach_new ho hc hid hfits hqf hsf (fun _ _ => rfl) true (.inr ⟨rfl, rfl, rfl⟩) sink
            kick
          simp only [SessionRegistry.attach, SessionRegistry.attachLookup, ha]
          exact hnew

theorem Synced.activate (h : Synced ident scope bound r attaches) (declare : Str → Bool)
    (ha : r.sessions.lookup c = some a) {f : Str} (hf : Fits (asBytes f)) {q : QoS}
    (hr : r.activateSubscription declare scope a f q = .ok r') :
    Synced ident scope bound r' attaches := by
  obtain ⟨s, hs, hin, _⟩ := h.registered c a ha
  rw [SessionRegistry.activateSubscription] at hr
  cases hke : filterToKeyexpr f scope with
  | error e =>
      rw [hke] at hr
      cases hr
  | ok ke =>
      rw [hke] at hr
      dsimp only at hr
      split at hr
      · simp only [hs] at hr
        cases hr
        have hq : (s.insertSub r.disk f q r.tasks).1.queuePath = s.queuePath := rfl
        have hp : (s.insertSub r.disk f q r.tasks).1.subsPath = s.subsPath := rfl
        exact h.update ha hs hq hp _ (hin.insertSub q r.tasks hf hke)
      · cases hr

theorem Synced.removeSub (h : Synced ident scope bound r attaches)
    (ha : r.sessions.lookup c = some a) (f : Str) :
    Synced ident scope bound (r.removeSub a f) attaches := by
  obtain ⟨s, hs, hin, _⟩ := h.registered c a ha
  have hq : (s.removeSub r.disk f).1.queuePath = s.queuePath := rfl
  have hp : (s.removeSub r.disk f).1.subsPath = s.subsPath := rfl
  simp only [SessionRegistry.removeSub, hs]
  exact h.update ha hs hq hp r.tasks (hin.removeSub f)

omit [HashOrder] in
theorem Synced.deliver (h : Synced ident scope bound r attaches)
    (ha : r.sessions.lookup c = some a) {m : Msg} (hm : MsgFits m) (q : QoS)
    (send : SessionState.SendResult) (now : Instant) :
    Synced ident scope bound (r.deliver a m q send now) attaches := by
  obtain ⟨s, hs, hin, _⟩ := h.registered c a ha
  obtain ⟨hq, hp⟩ := SessionState.deliver_paths s r.disk m q send now
  simp only [SessionRegistry.deliver, hs]
  exact h.update ha hs hq hp r.tasks (hin.deliver hm q send now)

/-! ## Sessions that end -/

omit [HashOrder] in
theorem Synced.sessions (h : Synced ident scope bound r attaches) {m : AList fun _ : Str => Addr}
    (hm : ∀ c, m.lookup c = r.sessions.lookup c) :
    Synced ident scope bound { r with sessions := m } attaches where
  queueDir := h.queueDir
  maxQueue := h.maxQueue
  registered := fun c a ha => h.registered c a ((hm c).symm.trans ha)
  gone := fun c hc => h.gone c ((hm c).symm.trans hc)
  named := h.named
  clean := h.clean

omit [HashOrder] in
theorem Synced.discard (h : Synced ident scope bound r attaches)
    (ha : r.sessions.lookup c = some a) :
    Synced ident scope bound { r.discardAt a with sessions := r.sessions.erase c } attaches := by
  obtain ⟨s, hs, hin, _⟩ := h.registered c a ha
  have hfiles : FilesMatch r.disk c s := hin.files
  obtain ⟨honly, hqf, hsf⟩ := hfiles.discard
  have hreg : { r.discardAt a with sessions := r.sessions.erase c } =
      { r.setSession a s.abortSubs.1 with
        sessions := r.sessions.erase c, disk := s.discardStateFiles r.disk } := by
    simp only [SessionRegistry.discardAt, hs]
    rfl
  rw [hreg]
  have hq : s.abortSubs.1.queuePath = s.queuePath := rfl
  have hp : s.abortSubs.1.subsPath = s.subsPath := rfl
  exact h.drop (.withSessions hs hin.clientId hq hp honly _) (fun c' => Keyed.lookup_erase _ _ _)
    hqf hsf

omit [HashOrder] in
/-- The second half of `sweep`, for the sessions it found expired. -/
theorem Synced.discardAll : ∀ {gone : List (Str × Addr)} {r : SessionRegistry}
    {m : AList fun _ : Str => Addr}, Synced ident scope bound r attaches →
    (gone.map Prod.fst).Nodup → (∀ e ∈ gone, r.sessions.lookup e.1 = some e.2) →
    (∀ c, m.lookup c = if c ∈ gone.map Prod.fst then none else r.sessions.lookup c) →
    Synced ident scope bound
      (gone.foldl (fun r e => r.discardAt e.2) { r with sessions := m }) attaches
  | [], r, m, h, _, _, hm => h.sessions fun c => (hm c).trans (if_neg List.not_mem_nil)
  | e :: gone, r, m, h, hnd, hlook, hm => by
      rw [List.map_cons, List.nodup_cons] at hnd
      have he : r.sessions.lookup e.1 = some e.2 := hlook e List.mem_cons_self
      have hfirst := h.discard he
      have hlook' : ∀ e' ∈ gone, (r.sessions.erase e.1).lookup e'.1 = some e'.2 := by
        intro e' he'
        have hne : e'.1 ≠ e.1 := fun heq => hnd.1 (heq ▸ List.mem_map_of_mem he')
        rw [Keyed.lookup_erase, if_neg hne]
        exact hlook e' (List.mem_cons_of_mem _ he')
      have hm' : ∀ c, m.lookup c =
          if c ∈ gone.map Prod.fst then none else (r.sessions.erase e.1).lookup c := by
        intro c
        rw [hm c, Keyed.lookup_erase]
        have hmem : c ∈ (e :: gone).map Prod.fst ↔ c = e.1 ∨ c ∈ gone.map Prod.fst := by
          rw [List.map_cons, List.mem_cons]
        by_cases hin : c ∈ gone.map Prod.fst
        · rw [if_pos hin, if_pos (hmem.mpr (.inr hin))]
        · by_cases hc : c = e.1
          · rw [if_neg hin, if_pos hc, if_pos (hmem.mpr (.inl hc))]
          · rw [if_neg hin, if_neg hc, if_neg fun h => (hmem.mp h).elim hc hin]
      have hrest := Synced.discardAll hfirst hnd.2 hlook' hm'
      have hcomm : ({ r with sessions := m } : SessionRegistry).discardAt e.2 =
          { r.discardAt e.2 with sessions := m } := by
        simp only [SessionRegistry.discardAt]
        split <;> rfl
      rw [List.foldl_cons, hcomm]
      exact hrest

omit [HashOrder] in
theorem Synced.sweep (h : Synced ident scope bound r attaches) (expiry : Duration) (now : Instant) :
    Synced ident scope bound (r.sweep expiry now) attaches := by
  rw [SessionRegistry.sweep]
  have hmem : ∀ c, c ∈ ((Keyed.pairs r.sessions).filter fun e =>
      r.expiredAt expiry now e.2).map Prod.fst ↔
      ∃ a, r.sessions.lookup c = some a ∧ r.expiredAt expiry now a = true := by
    intro c
    simp only [List.mem_map, List.mem_filter]
    constructor
    · rintro ⟨⟨c', a⟩, ⟨hin, hexp⟩, rfl⟩
      exact ⟨a, Keyed.mem_pairs.mp hin, hexp⟩
    · rintro ⟨a, ha, hexp⟩
      exact ⟨(c, a), ⟨Keyed.mem_pairs.mpr ha, hexp⟩, rfl⟩
  refine h.discardAll ?_ ?_ ?_
  · exact (Keyed.pairs_nodup r.sessions).sublist (List.filter_sublist.map Prod.fst)
  · intro e he
    exact Keyed.mem_pairs.mp (List.mem_filter.mp he).1
  · intro c
    rw [Keyed.lookup_retain]
    split
    · next hc =>
      obtain ⟨a, ha, hexp⟩ := (hmem c).mp hc
      simp [ha, hexp]
    · next hc =>
      cases ha : r.sessions.lookup c with
      | none => rfl
      | some a =>
          have hexp : r.expiredAt expiry now a = false := by
            by_contra hexp
            exact hc ((hmem c).mpr ⟨a, ha, by simpa using hexp⟩)
          simp [hexp]

omit [HashOrder] in
theorem Synced.detach (h : Synced ident scope bound r attaches) {e : Nat} {clean : Bool}
    (hmem : (a, e, clean) ∈ attaches) (now : Instant) :
    Synced ident scope bound (r.detach a e clean now) attaches := by
  obtain ⟨s, hs, hpaths⟩ := h.clean _ hmem
  have hsame := SameKept.of_noted (s.noted_detachConn e now)
  have hset := h.retouch hs (.inl hsame)
  have hs₁ : (r.setSession a (s.detachConn e now).1).heap[a]? = some (s.detachConn e now).1 :=
    Cells.set_self hs
  simp only [SessionRegistry.detach, hs]
  split
  · next heff =>
    have hcl : clean = true := ((Bool.and_eq_true _ _).mp heff).2
    obtain ⟨hq, hp⟩ := hpaths hcl
    generalize r.setSession a (s.detachConn e now).1 = r₁ at hset hs₁ ⊢
    generalize (s.detachConn e now).1 = s₁ at hsame hs₁
    -- a session of a cleanSession=1 attach has no files to discard
    have hdiscard : r₁.discardAt a = r₁.setSession a s₁.abortSubs.1 := by
      simp only [SessionRegistry.discardAt, hs₁, SessionState.abortSubs,
        SessionState.discardStateFiles, SessionState.discardSubsFile, SessionState.discardQueueFile,
        hsame.queuePath, hsame.subsPath, hq, hp]
      rfl
    by_cases hown : r₁.sessions.lookup s₁.clientId = some a
    · have hdrop := hset.discard hown
      have hremove : (r₁.discardAt a).removeOwn a =
          { r₁.discardAt a with sessions := r₁.sessions.erase s₁.clientId } := by
        have hs₂ : (r₁.discardAt a).heap[a]? = some s₁.abortSubs.1 := by
          rw [hdiscard]
          exact Cells.set_self hs₁
        have hmap : (r₁.discardAt a).sessions = r₁.sessions := by
          rw [hdiscard]
          rfl
        have hown' : (r₁.discardAt a).sessions.lookup s₁.abortSubs.1.clientId = some a := by
          rw [hmap]
          exact hown
        simp only [SessionRegistry.removeOwn, hs₂]
        rw [if_pos hown', hmap]
        rfl
      rw [hremove]
      exact hdrop
    · have hnone : ∀ c, r₁.sessions.lookup c ≠ some a := by
        intro c hc
        obtain ⟨t, ht, hin, _⟩ := hset.registered c a hc
        rw [hs₁] at ht
        cases ht
        rw [hin.clientId] at hown
        exact hown hc
      have hkeep : (r₁.discardAt a).removeOwn a = r₁.setSession a s₁.abortSubs.1 := by
        rw [hdiscard]
        have hs₂ : (r₁.setSession a s₁.abortSubs.1).heap[a]? = some s₁.abortSubs.1 :=
          Cells.set_self hs₁
        simp only [SessionRegistry.removeOwn, hs₂]
        exact if_neg (hnone _)
      rw [hkeep]
      exact hset.retouch hs₁ (.inr ⟨hnone, rfl, rfl⟩)
  · exact hset

end

/-! ## Runs -/

theorem Synced.start (ident : Str → Str → Prop) (scope : Str) (maxQueue : Nat)
    (slowGrace : Option Duration) :
    Synced ident scope maxQueue (Server.start maxQueue slowGrace).reg
      (Server.start maxQueue slowGrace).attaches where
  queueDir := rfl
  maxQueue := rfl
  registered := fun c a ha => by simp [Server.start, SessionRegistry.new] at ha
  gone := fun c _ => ⟨rfl, rfl⟩
  named := fun p hp => by simp [Server.start, SessionRegistry.new] at hp
  clean := fun x hx => absurd hx List.not_mem_nil

namespace Server

variable [HashOrder]

/-- One operation keeps every session in step with its files. -/
theorem synced_step {declare : Str → Bool} {sv sv' : Server} {op : Op}
    (h : Synced ident scope bound sv.reg sv.attaches) (hfits : op.Fits ident)
    (hstep : step declare scope sv op = some sv') :
    Synced ident scope bound sv'.reg sv'.attaches := by
  cases op with
  | attach clientId identity clean sink kick =>
      cases hstep
      exact h.attach hfits.1 hfits.2.1 hfits.2.2 clean sink kick
  | activate clientId filter granted =>
      simp only [step] at hstep
      split at hstep
      · cases hstep
      · next a ha =>
        split at hstep
        · next reg hreg =>
          cases hstep
          exact h.activate declare ha hfits hreg
        · cases hstep
          exact h
  | removeSub clientId filter =>
      simp only [step] at hstep
      split at hstep
      · cases hstep
      · next a ha =>
        cases hstep
        exact h.removeSub ha filter
  | deliver clientId m qos send now =>
      simp only [step] at hstep
      split at hstep
      · cases hstep
      · next a ha =>
        cases hstep
        exact h.deliver ha hfits qos send now
  | detach i now =>
      simp only [step] at hstep
      split at hstep
      · cases hstep
      · next a e clean hi =>
        cases hstep
        exact h.detach (List.mem_of_getElem? hi) now
  | sweep expiry now =>
      cases hstep
      exact h.sweep expiry now

/-- Any run from an empty directory leaves every session in step with its files. -/
theorem synced_exec {declare : Str → Bool} {maxQueue : Nat} {slowGrace : Option Duration}
    {ops : List Op} {sv : Server} (hfits : ∀ op ∈ ops, op.Fits ident)
    (hrun : Run.exec (step declare scope) (start maxQueue slowGrace) ops = some sv) :
    Synced ident scope maxQueue sv.reg sv.attaches := by
  have hmeets : ∀ (ops : List Op) (sv : Server), (∀ op ∈ ops, op.Fits ident) →
      Run.Meets (step declare scope) (fun _ op => op.Fits ident) sv ops := by
    intro ops
    induction ops with
    | nil => exact fun _ _ => trivial
    | cons op ops ih =>
        exact fun _ hops => ⟨hops op List.mem_cons_self,
          fun t _ => ih t fun op' hop' => hops op' (List.mem_cons_of_mem _ hop')⟩
  exact Run.exec_invariant_of_meets (I := fun sv => Synced ident scope maxQueue sv.reg sv.attaches)
    (fun _ _ _ h hop hstep => synced_step h hop hstep) ops (.start ident scope maxQueue slowGrace)
    (hmeets ops _ hfits) hrun

end Server

end

end Entmoot
