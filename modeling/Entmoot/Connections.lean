/-
# `Entmoot.Connections` — the limit on open connections

`spawn_client` (`crates/entmoot-node/src/lib.rs` 337–359) counts a connection with
`fetch_add`, compares the number it got with `max_connections`, and spawns the task or
drops the stream; the `ConnGuard` it made in between takes the connection off the count
whenever it is dropped.  The plain and the TLS listener call it at the same time as tasks
end, so these are separate steps.

The count is that of the guards (`Counting`), so it never wraps and comes back to what is
open; never more than `max_connections` tasks serve a client, also while others are being
turned away; and a connection is turned away exactly if that many guards were out when it
was counted (`connections_capped`).
-/
import Entmoot.Lib.Cells
import Entmoot.Lib.Run
import Entmoot.Lib.Turnstile

namespace Entmoot

/-! ## The steps -/

inductive ClientPhase where
  /-- counted, not compared yet -/
  | counted
  /-- over the limit, its guard not dropped yet -/
  | rejecting
  | rejected
  /-- the task runs, in `serve` -/
  | serving
  | ended
  deriving DecidableEq, Repr

/-- Whether its `ConnGuard` is alive. -/
def ClientPhase.guarded : ClientPhase → Bool
  | .counted | .rejecting | .serving => true
  | .rejected | .ended => false

/-- A call of `spawn_client`, with its local `count`. -/
structure SpawnedClient where
  count : Nat
  phase : ClientPhase
  deriving DecidableEq, Repr

/-- What the comparison decided. -/
structure SpawnedClient.Decided (maxConnections : Nat) (c : SpawnedClient) : Prop where
  admitted : c.phase = .serving ∨ c.phase = .ended → c.count ≤ maxConnections
  refused : c.phase = .rejecting ∨ c.phase = .rejected → maxConnections < c.count

structure ConnWorld where
  connCount : Nat
  clients : List SpawnedClient
  deriving DecidableEq, Repr

inductive ConnAction where
  | accept
  /-- the comparison in call `i` -/
  | compare (i : Nat)
  /-- the guard of call `i` dropped -/
  | dropGuard (i : Nat)
  deriving DecidableEq, Repr

/-- The values of a `usize`. -/
def usizeSize : Nat := UInt64.size

namespace ConnWorld

def init : ConnWorld := ⟨0, []⟩

/-- How many guards are alive, each with its reference to the broker. -/
def guards (w : ConnWorld) : Nat := w.clients.countP fun c => c.phase.guarded

def serving (w : ConnWorld) : Nat := w.clients.countP fun c => c.phase = .serving

/-- `fetch_add(1) + 1` -/
def nextCount (w : ConnWorld) : Nat := (w.connCount + 1) % usizeSize

def step (maxConnections : Nat) (w : ConnWorld) : ConnAction → Option ConnWorld
  | .accept =>
      -- `Arc::clone` aborts the process before there are more references than `isize::MAX`
      if w.guards < usizeSize / 2 then
        some ⟨w.nextCount, w.clients ++ [⟨w.nextCount, .counted⟩]⟩
      else none
  | .compare i =>
      match w.clients[i]? with
      | some ⟨count, .counted⟩ =>
          some { w with
            clients := w.clients.set i ⟨count, if count > maxConnections then .rejecting
              else .serving⟩ }
      | _ => none
  | .dropGuard i =>
      let connCount := (w.connCount + (usizeSize - 1)) % usizeSize
      match w.clients[i]? with
      | some ⟨count, .rejecting⟩ => some ⟨connCount, w.clients.set i ⟨count, .rejected⟩⟩
      | some ⟨count, .serving⟩ => some ⟨connCount, w.clients.set i ⟨count, .ended⟩⟩
      | _ => none

/-! ## One step -/

variable {maxConnections : Nat} {w w' : ConnWorld} {a : ConnAction}

/-- A connection is counted, one is compared, or one gives up its guard. -/
theorem step_cases (h : step maxConnections w a = some w') :
    (a = .accept ∧ w.guards < usizeSize / 2 ∧
      w' = ⟨w.nextCount, w.clients ++ [⟨w.nextCount, .counted⟩]⟩) ∨
    (∃ i count phase, a = .compare i ∧ w.clients[i]? = some ⟨count, .counted⟩ ∧
      (maxConnections < count ∧ phase = .rejecting ∨ count ≤ maxConnections ∧ phase = .serving) ∧
      w' = { w with clients := w.clients.set i ⟨count, phase⟩ }) ∨
    ∃ i count before after, a = .dropGuard i ∧ w.clients[i]? = some ⟨count, before⟩ ∧
      (before = .rejecting ∧ after = .rejected ∨ before = .serving ∧ after = .ended) ∧
      w' = ⟨(w.connCount + (usizeSize - 1)) % usizeSize, w.clients.set i ⟨count, after⟩⟩ := by
  cases a with
  | accept =>
      simp only [step] at h
      split at h
      · next hroom => exact .inl ⟨rfl, hroom, (Option.some.inj h).symm⟩
      · cases h
  | compare i =>
      simp only [step] at h
      split at h
      · next count hc =>
        refine .inr (.inl ⟨i, count, _, rfl, hc, ?_, (Option.some.inj h).symm⟩)
        by_cases hover : count > maxConnections
        · exact .inl ⟨hover, if_pos hover⟩
        · exact .inr ⟨Nat.le_of_not_lt hover, if_neg hover⟩
      · cases h
  | dropGuard i =>
      simp only [step] at h
      split at h
      · next count hc =>
        exact .inr (.inr ⟨i, count, _, _, rfl, hc, .inl ⟨rfl, rfl⟩, (Option.some.inj h).symm⟩)
      · next count hc =>
        exact .inr (.inr ⟨i, count, _, _, rfl, hc, .inr ⟨rfl, rfl⟩, (Option.some.inj h).symm⟩)
      · cases h

/-! ## The count -/

/-- The counter stands at the number of guards, and the numbers given out are ranked. -/
structure Counting (maxConnections : Nat) (w : ConnWorld) : Prop where
  count : w.connCount = w.guards
  room : w.guards ≤ usizeSize / 2
  ranked : Turnstile.Ranked 0 ((w.clients.filter fun c => c.phase.guarded).map SpawnedClient.count)
  decided : ∀ c ∈ w.clients, SpawnedClient.Decided maxConnections c

theorem guards_eq (w : ConnWorld) :
    w.guards = ((w.clients.filter fun c => c.phase.guarded).map SpawnedClient.count).length := by
  rw [guards, List.countP_eq_length_filter, List.length_map]

theorem guards_set {i : Nat} {c : SpawnedClient} (hc : w.clients[i]? = some c)
    (c' : SpawnedClient) (n : Nat) :
    (ConnWorld.mk n (w.clients.set i c')).guards + (if c.phase.guarded then 1 else 0) =
      w.guards + if c'.phase.guarded then 1 else 0 := by
  obtain ⟨hlt, hget⟩ := List.getElem?_eq_some_iff.mp hc
  have hpos : c.phase.guarded = true → 0 < w.guards :=
    fun hg => List.countP_pos_iff.mpr ⟨c, List.mem_of_getElem? hc, hg⟩
  have hset := List.countP_set (p := fun c : SpawnedClient => c.phase.guarded) (a := c') hlt
  rw [hget] at hset
  show (w.clients.set i c').countP _ + _ = _
  rw [hset]
  show w.guards - _ + _ + _ = _
  by_cases hg : c.phase.guarded = true
  · have := hpos hg
    rw [if_pos hg]
    omega
  · rw [if_neg hg]
    omega

/-- A client that stays where it is or moves on keeps what was decided of the others. -/
theorem decided_set {i : Nat} {c : SpawnedClient}
    (h : ∀ c ∈ w.clients, SpawnedClient.Decided maxConnections c)
    (hc : SpawnedClient.Decided maxConnections c) :
    ∀ c' ∈ w.clients.set i c, SpawnedClient.Decided maxConnections c' := by
  intro c' hc'
  rcases List.mem_or_eq_of_mem_set hc' with hold | rfl
  · exact h c' hold
  · exact hc

theorem Counting.init (maxConnections : Nat) : Counting maxConnections init :=
  ⟨rfl, Nat.zero_le _, trivial, fun _ hc => absurd hc List.not_mem_nil⟩

theorem Counting.nextCount (h : Counting maxConnections w) : w.nextCount = w.guards + 1 := by
  have hroom := h.room
  rw [ConnWorld.nextCount, h.count]
  refine Nat.mod_eq_of_lt ?_
  rw [usizeSize, UInt64.size] at hroom ⊢
  omega

theorem Counting.step (h : Counting maxConnections w) (hstep : step maxConnections w a = some w') :
    Counting maxConnections w' := by
  rcases step_cases hstep with ⟨-, hroom, rfl⟩ | ⟨i, count, phase, -, hc, hphase, rfl⟩ |
    ⟨i, count, before, after, -, hc, hphase, rfl⟩
  · -- one more guard, with the next number
    have hguards : (ConnWorld.mk w.nextCount (w.clients ++ [⟨w.nextCount, .counted⟩])).guards =
        w.guards + 1 := by
      show (w.clients ++ [_]).countP _ = _
      rw [List.countP_append]
      rfl
    refine ⟨?_, ?_, ?_, fun c hmem => ?_⟩
    · rw [hguards]
      exact h.nextCount
    · rw [hguards]
      exact hroom
    · show Turnstile.Ranked 0 (((w.clients ++ [_]).filter _).map _)
      rw [List.filter_append, List.map_append]
      refine h.ranked.concat ?_
      rw [← guards_eq]
      show 0 + w.guards < w.nextCount
      rw [h.nextCount]
      omega
    · rcases List.mem_append.mp hmem with hold | hnew
      · exact h.decided c hold
      · cases List.mem_singleton.mp hnew
        exact ⟨fun hp => (by rcases hp with hp | hp <;> cases hp), fun hp =>
          (by rcases hp with hp | hp <;> cases hp)⟩
  · -- the same guards
    have hguarded : phase.guarded = true := by
      rcases hphase with ⟨-, rfl⟩ | ⟨-, rfl⟩ <;> rfl
    have hguards := guards_set hc ⟨count, phase⟩ w.connCount
    dsimp only at hguards
    rw [hguarded] at hguards
    have hsame := Nat.add_right_cancel hguards
    refine ⟨h.count.trans hsame.symm, hsame.symm ▸ h.room, ?_, decided_set h.decided ?_⟩
    · show Turnstile.Ranked 0 (((w.clients.set i _).filter _).map _)
      rw [Turnstile.numbers_stay (p := fun c : SpawnedClient => c.phase.guarded)
        (b := ⟨count, phase⟩) hc
        hguarded rfl]
      exact h.ranked
    · rcases hphase with ⟨hover, rfl⟩ | ⟨hunder, rfl⟩
      · exact ⟨fun hp => (by rcases hp with hp | hp <;> cases hp), fun _ => hover⟩
      · exact ⟨fun _ => hunder, fun hp => (by rcases hp with hp | hp <;> cases hp)⟩
  · -- one guard less
    have hdecided := h.decided _ (List.mem_of_getElem? hc)
    have hbefore : before.guarded = true := by
      rcases hphase with ⟨rfl, -⟩ | ⟨rfl, -⟩ <;> rfl
    have hafter : after.guarded = false := by
      rcases hphase with ⟨-, rfl⟩ | ⟨-, rfl⟩ <;> rfl
    have hguards := guards_set hc ⟨count, after⟩ ((w.connCount + (usizeSize - 1)) % usizeSize)
    dsimp only at hguards
    rw [hbefore, hafter, if_pos rfl, if_neg Bool.false_ne_true, Nat.add_zero] at hguards
    have hroom := h.room
    refine ⟨?_, Nat.le_trans (Nat.le_of_lt (Nat.lt_of_succ_le (Nat.le_of_eq hguards))) hroom, ?_,
      decided_set h.decided ?_⟩
    · show (w.connCount + (usizeSize - 1)) % usizeSize = _
      generalize ConnWorld.guards _ = left at hguards ⊢
      rw [usizeSize, UInt64.size] at hroom ⊢
      rw [h.count]
      omega
    · show Turnstile.Ranked 0 (((w.clients.set i _).filter _).map _)
      exact h.ranked.sublist
        ((Turnstile.filter_leave (p := fun c : SpawnedClient => c.phase.guarded)
          (b := ⟨count, after⟩)
          hafter).map _)
    · rcases hphase with ⟨rfl, rfl⟩ | ⟨rfl, rfl⟩
      · exact ⟨fun hp => (by rcases hp with hp | hp <;> cases hp), fun _ =>
          hdecided.refused (.inl rfl)⟩
      · exact ⟨fun _ => hdecided.admitted (.inl rfl), fun hp =>
          (by rcases hp with hp | hp <;> cases hp)⟩

/-! ## Runs -/

theorem step_kept (hstep : step maxConnections w a = some w') {i : Nat} {c : SpawnedClient}
    (hc : w.clients[i]? = some c) : ∃ c', w'.clients[i]? = some c' ∧ c'.count = c.count := by
  have hset : ∀ {j : Nat} {d d' : SpawnedClient}, w.clients[j]? = some d → d'.count = d.count →
      ∃ c', (w.clients.set j d')[i]? = some c' ∧ c'.count = c.count := by
    intro j d d' hd hcount
    by_cases hij : j = i
    · subst hij
      rw [hd] at hc
      cases hc
      exact ⟨d', Cells.set_self hd, hcount⟩
    · rw [List.getElem?_set_ne hij]
      exact ⟨c, hc, rfl⟩
  rcases step_cases hstep with ⟨-, -, rfl⟩ | ⟨j, count, phase, -, hd, -, rfl⟩ |
    ⟨j, count, before, after, -, hd, -, rfl⟩
  · exact ⟨c, Cells.append_of_some hc, rfl⟩
  · exact hset hd rfl
  · exact hset hd rfl

theorem Counting.exec {as : List ConnAction} (h : Counting maxConnections w)
    (hrun : Run.exec (ConnWorld.step maxConnections) w as = some w') : Counting maxConnections w' :=
  Run.exec_invariant (fun _ _ _ hI hstep => hI.step hstep) as h hrun

theorem exec_kept {as : List ConnAction}
    (hrun : Run.exec (step maxConnections) w as = some w') {i : Nat} {c : SpawnedClient}
    (hc : w.clients[i]? = some c) :
    ∃ c', w'.clients[i]? = some c' ∧ c'.count = c.count :=
  Run.exec_invariant (I := fun w => ∃ c', w.clients[i]? = some c' ∧ c'.count = c.count)
    (fun _ _ _ hI hstep => by
      obtain ⟨c', hc', hcount⟩ := hI
      obtain ⟨c'', hc'', hcount'⟩ := step_kept hstep hc'
      exact ⟨c'', hc'', hcount'.trans hcount⟩) as ⟨c, hc, rfl⟩ hrun

theorem Counting.serving_le (h : Counting maxConnections w) : w.serving ≤ maxConnections := by
  let numbers := (w.clients.filter fun c => c.phase = .serving).map SpawnedClient.count
  have hsub :
      numbers.Sublist ((w.clients.filter fun c => c.phase.guarded).map SpawnedClient.count) := by
    refine (List.monotone_filter_right w.clients fun c hc => ?_).map _
    rw [of_decide_eq_true hc]
    rfl
  have hle : ∀ n ∈ numbers, n ≤ maxConnections := by
    intro n hn
    obtain ⟨c, hc, rfl⟩ := List.mem_map.mp hn
    obtain ⟨hmem, hserving⟩ := List.mem_filter.mp hc
    exact (h.decided c hmem).admitted (.inl (of_decide_eq_true hserving))
  have hlen := (h.ranked.sublist hsub).length_le hle (Nat.zero_le _)
  rw [Nat.zero_add, List.length_map] at hlen
  rw [serving, List.countP_eq_length_filter]
  exact hlen

/-- **The limit on connections holds at every moment.**  In every run of calls of
`spawn_client` and of tasks that end, the counter is the number of guards, at most
`max_connections` tasks are in `serve`, and each connection that was served or turned
away was so by how many guards were out when it was counted. -/
theorem connections_capped {as : List ConnAction}
    (hrun : Run.exec (step maxConnections) init as = some w) :
    w.connCount = w.guards ∧ w.serving ≤ maxConnections ∧
      ∀ pre post u, as = pre ++ .accept :: post → Run.exec (step maxConnections) init pre = some u →
        ∃ c, w.clients[u.clients.length]? = some c ∧
          (c.phase = .serving ∨ c.phase = .ended → u.guards < maxConnections) ∧
          (c.phase = .rejecting ∨ c.phase = .rejected → maxConnections ≤ u.guards) := by
  have hcounting := (Counting.init maxConnections).exec hrun
  refine ⟨hcounting.count, hcounting.serving_le, fun pre post u has hu => ?_⟩
  rw [has, Run.exec_append] at hrun
  obtain ⟨u', hu', hrest⟩ := hrun
  rw [hu] at hu'
  cases hu'
  obtain ⟨v, hv, hrest⟩ := Run.exec_cons.mp hrest
  -- the number it was given
  have hnew : v.clients[u.clients.length]? = some ⟨u.guards + 1, .counted⟩ := by
    rcases step_cases hv with ⟨-, -, rfl⟩ | ⟨i, _, _, hne, -⟩ | ⟨i, _, _, _, hne, -⟩
    · show (u.clients ++ [_])[u.clients.length]? = _
      rw [List.getElem?_concat_length, ((Counting.init maxConnections).exec hu).nextCount]
    · cases hne
    · cases hne
  obtain ⟨c, hc, hcount⟩ := exec_kept hrest hnew
  have hdecided := hcounting.decided c (List.mem_of_getElem? hc)
  dsimp only at hcount
  refine ⟨c, hc, fun hp => ?_, fun hp => ?_⟩
  · have := hdecided.admitted hp
    omega
  · have := hdecided.refused hp
    omega

/-- Two clients come at once where one is allowed, and the later one is turned away. -/
theorem one_of_two_is_served :
    ∃ w, Run.exec (step 1) init [.accept, .accept, .compare 1, .compare 0, .dropGuard 1] = some w ∧
      w.connCount = w.guards ∧ w.serving ≤ 1 ∧
      ∃ c, w.clients[1]? = some c ∧ (c.phase = .serving ∨ c.phase = .ended → 1 < 1) ∧
        (c.phase = .rejecting ∨ c.phase = .rejected → 1 ≤ 1) := by
  obtain ⟨w, hrun⟩ :
      ∃ w, Run.exec (step 1) init [.accept, .accept, .compare 1, .compare 0, .dropGuard 1] =
      some w := ⟨_, rfl⟩
  obtain ⟨hcount, hserving, haccepted⟩ := connections_capped hrun
  exact ⟨w, hrun, hcount, hserving, haccepted [.accept] _ _ rfl rfl⟩

end ConnWorld

end Entmoot
