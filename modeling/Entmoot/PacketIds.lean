/-
# `Entmoot.PacketIds` — packet ids under concurrent callers

`next_pkid` (`crates/entmoot-node/src/session.rs` 374–381) is a loop over `fetch_add` on
a 16-bit counter; delivery tasks, the backlog and retained messages of one session all
run it.  In `PkidWorld` each `fetch_add` is one step of one of its callers, between
which the others may take as many as they like, also around the 0.

The ids handed out are those of a wrapping counter without its 0 (`Lib.Wrap`), whoever
they go to, so that 65535 in a row are distinct (`packet_ids`).
-/
import Entmoot.Lib.Cells
import Entmoot.Lib.Run
import Entmoot.Lib.Wrap
import Entmoot.Session

namespace Entmoot

/-- A caller inside `next_pkid`, or back with an id. -/
inductive PkidCall where
  | running
  | returned (id : UInt16)
  deriving DecidableEq, Repr

structure PkidWorld where
  session : SessionState
  calls : List PkidCall
  /-- who got which id, in the order of the increments that returned them -/
  log : List (Nat × UInt16)

inductive PkidAction where
  | call
  /-- the next `fetch_add` of caller `i` -/
  | fetchAdd (i : Nat)
  deriving DecidableEq, Repr

/-- `fetch_add(1)` on the counter. -/
def SessionState.fetchAddPkid (s : SessionState) : SessionState × UInt16 :=
  ({ s with pkid := s.pkid + 1 }, s.pkid)

namespace PkidWorld

def init (s : SessionState) : PkidWorld := ⟨s, [], []⟩

def step (w : PkidWorld) : PkidAction → Option PkidWorld
  | .call => some { w with calls := w.calls ++ [.running] }
  | .fetchAdd i =>
      match w.calls[i]? with
      | some .running =>
          let out := w.session.fetchAddPkid
          if out.2 ≠ 0 then
            some ⟨out.1, w.calls.set i (.returned out.2), w.log ++ [(i, out.2)]⟩
          else some { w with session := out.1 }  -- pkid 0 is invalid, once more
      | _ => none

/-! ## One step -/

variable {w w' : PkidWorld} {a : PkidAction} {i : Nat}

/-- A call begins, an increment hands out an id, or it passes the 0. -/
theorem step_cases (h : step w a = some w') :
    w' = { w with calls := w.calls ++ [.running] } ∨
    (∃ i, w.calls[i]? = some .running ∧ w.session.pkid ≠ 0 ∧
      w' = ⟨w.session.fetchAddPkid.1, w.calls.set i (.returned w.session.pkid),
        w.log ++ [(i, w.session.pkid)]⟩) ∨
    w.session.pkid = 0 ∧ w' = { w with session := w.session.fetchAddPkid.1 } := by
  cases a with
  | call => exact .inl (Option.some.inj h).symm
  | fetchAdd i =>
      simp only [step] at h
      split at h
      · next hrun =>
        split at h
        · next hne => exact .inr (.inl ⟨i, hrun, hne, (Option.some.inj h).symm⟩)
        · next hzero => exact .inr (.inr ⟨not_not.mp hzero, (Option.some.inj h).symm⟩)
      · cases h

theorem step_fetchAdd (hrun : w.calls[i]? = some .running) (hne : w.session.pkid ≠ 0) :
    step w (.fetchAdd i) = some ⟨w.session.fetchAddPkid.1, w.calls.set i (.returned w.session.pkid),
      w.log ++ [(i, w.session.pkid)]⟩ := by
  simp only [step, hrun]
  exact if_pos hne

theorem step_fetchAdd_zero (hrun : w.calls[i]? = some .running) (hzero : w.session.pkid = 0) :
    step w (.fetchAdd i) = some { w with session := w.session.fetchAddPkid.1 } := by
  simp only [step, hrun]
  exact if_neg (not_not.mpr hzero)

/-! ## The ids handed out -/

/-- The ids are those of a counter that leaves out 0, and the counter stands at the next
of them, or at 0 with 1 to come. -/
structure Handed (b : Nat) (w : PkidWorld) : Prop where
  ids : ∀ (k : Nat) (e : Nat × UInt16), w.log[k]? = some e → e.2.toNat = Wrap.nth UInt16.size b k
  next : w.session.pkid.toNat = Wrap.nth UInt16.size b w.log.length ∨
    w.session.pkid = 0 ∧ Wrap.nth UInt16.size b w.log.length = 1

/-- The ids in the log are those the callers returned with. -/
structure Logged (w : PkidWorld) : Prop where
  returned : ∀ i id, (i, id) ∈ w.log ↔ w.calls[i]? = some (.returned id)

theorem Handed.init (s : SessionState) : Handed (s.pkid.toNat - 1) (init s) := by
  refine ⟨fun k e he => (by cases he), ?_⟩
  have hlt : s.pkid.toNat < UInt16.size := s.pkid.toNat_lt_size
  show s.pkid.toNat = 1 + (s.pkid.toNat - 1 + 0) % (UInt16.size - 1) ∨
    s.pkid = 0 ∧ 1 + (s.pkid.toNat - 1 + 0) % (UInt16.size - 1) = 1
  by_cases hzero : s.pkid = 0
  · rw [hzero]
    exact .inr ⟨rfl, rfl⟩
  · have hpos : s.pkid.toNat ≠ 0 := fun h => hzero (UInt16.toNat_inj.mp h)
    rw [Nat.mod_eq_of_lt (by omega)]
    exact .inl (by omega)

theorem succ_pkid {b k : Nat} {id : UInt16} (h : id.toNat = Wrap.nth UInt16.size b k) :
    (id + 1).toNat = Wrap.nth UInt16.size b (k + 1) ∨
      id + 1 = 0 ∧ Wrap.nth UInt16.size b (k + 1) = 1 := by
  have hadd : (id + 1).toNat = (id.toNat + 1) % UInt16.size := UInt16.toNat_add id 1
  rcases Wrap.succ_nth (m := UInt16.size) (b := b) (i := k) (by decide) with hnext | ⟨hlast, hone⟩
  · refine .inl ?_
    rw [hadd, h, hnext]
    exact Nat.mod_eq_of_lt (Wrap.nth_lt (by decide))
  · refine .inr ⟨UInt16.toNat_inj.mp ?_, hone⟩
    rw [hadd, h, hlast]
    rfl

theorem Handed.step {b : Nat} (hin : Handed b w) (h : step w a = some w') : Handed b w' := by
  rcases step_cases h with rfl | ⟨i, _, hne, rfl⟩ | ⟨hzero, rfl⟩
  · exact ⟨hin.ids, hin.next⟩
  · have hid : w.session.pkid.toNat = Wrap.nth UInt16.size b w.log.length :=
      hin.next.resolve_right fun hzero => hne hzero.1
    refine ⟨fun k e he => ?_, ?_⟩
    · rcases Cells.concat_cases he with he | ⟨rfl, rfl⟩
      · exact hin.ids k e he
      · exact hid
    · rw [List.length_append, List.length_singleton]
      exact succ_pkid hid
  · refine ⟨hin.ids, .inl ?_⟩
    rcases hin.next with hnext | ⟨_, hone⟩
    · rw [hzero] at hnext
      exact absurd hnext.symm (Nat.ne_of_gt Wrap.nth_pos)
    · rw [hone]
      show (w.session.pkid + 1).toNat = 1
      rw [hzero]
      rfl

theorem Logged.init (s : SessionState) : Logged (init s) :=
  ⟨fun _ _ => ⟨fun h => absurd h List.not_mem_nil, fun h => (by cases h)⟩⟩

theorem Logged.step (hin : Logged w) (h : step w a = some w') : Logged w' := by
  rcases step_cases h with rfl | ⟨i, hrun, _, rfl⟩ | ⟨_, rfl⟩
  · refine ⟨fun j id => (hin.returned j id).trans ?_⟩
    constructor
    · intro hj
      exact Cells.append_of_some hj
    · intro hj
      rcases Cells.concat_cases hj with hj | ⟨_, hnew⟩
      · exact hj
      · cases hnew
  · refine ⟨fun j id => ?_⟩
    rw [List.mem_append, List.mem_singleton, Prod.mk.injEq]
    by_cases hj : j = i
    · -- a caller still inside was not in the log
      subst hj
      have hlt := (List.getElem?_eq_some_iff.mp hrun).1
      rw [List.getElem?_set_self hlt, hin.returned, hrun]
      constructor
      · rintro (h | ⟨_, rfl⟩)
        · cases h
        · rfl
      · intro h
        cases h
        exact .inr ⟨rfl, rfl⟩
    · rw [List.getElem?_set_ne fun h => hj h.symm, ← hin.returned]
      exact ⟨fun h => h.resolve_right fun hnew => hj hnew.1, .inl⟩
  · exact ⟨hin.returned⟩

/-! ## Whole calls and whole runs -/

/-- A caller that nobody disturbs is back after one increment, or after a second one if
it met the 0, and has done what `nextPkid` does. -/
theorem alone (hrun : w.calls[i]? = some .running) :
    ∃ n w', (n = 1 ∨ n = 2) ∧ Run.exec step w (List.replicate n (.fetchAdd i)) = some w' ∧
      w'.calls[i]? = some (.returned w.session.nextPkid.2) ∧ w'.session = w.session.nextPkid.1 := by
  by_cases hzero : w.session.pkid = 0
  · have hone : w.session.fetchAddPkid.1.pkid = 1 := by
      show w.session.pkid + 1 = 1
      rw [hzero]
      rfl
    have hfirst := step_fetchAdd_zero hrun hzero
    have hsecond := step_fetchAdd (w := { w with session := w.session.fetchAddPkid.1 }) hrun
      (by rw [hone]; decide)
    have hexec := Run.exec_cons.mpr ⟨_, hfirst, Run.exec_cons.mpr ⟨_, hsecond, Run.exec_nil _⟩⟩
    refine ⟨2, _, .inr rfl, hexec, ?_, ?_⟩
    · rw [SessionState.nextPkid, if_neg (not_not.mpr hzero)]
      exact (Cells.set_self hrun).trans (by rw [hone])
    · rw [SessionState.nextPkid, if_neg (not_not.mpr hzero)]
      simp only [SessionState.fetchAddPkid, hzero]
      rfl
  · refine ⟨1, _, .inl rfl, Run.exec_cons.mpr ⟨_, step_fetchAdd hrun hzero, rfl⟩, ?_, ?_⟩
    · rw [SessionState.nextPkid, if_pos hzero]
      exact Cells.set_self hrun
    · rw [SessionState.nextPkid, if_pos hzero]
      rfl

/-- **Packet ids.**  In every run: the log holds the ids the callers returned with; none
of them is 0; a caller that nobody disturbs is back after at most two increments; and of
the ids in the order of the increments that returned them, 65535 in a row are distinct. -/
theorem packet_ids {s : SessionState} {acts : List PkidAction} {w : PkidWorld}
    (h : Run.exec step (init s) acts = some w) :
    (∀ (i : Nat) (id : UInt16), (i, id) ∈ w.log ↔ w.calls[i]? = some (.returned id)) ∧
    (∀ (i : Nat) (id : UInt16), w.calls[i]? = some (.returned id) → id ≠ 0) ∧
    (∀ i : Nat, w.calls[i]? = some .running → ∃ (n : Nat) (w' : PkidWorld) (id : UInt16), n ≤ 2 ∧
      Run.exec step w (List.replicate n (.fetchAdd i)) = some w' ∧
        w'.calls[i]? = some (.returned id)) ∧
    ∀ row : List UInt16, row <:+: w.log.map Prod.snd → row.length ≤ 65535 → row.Nodup := by
  have hlogged : Logged w := Run.exec_invariant (fun _ _ _ hin hs => hin.step hs) acts (.init s) h
  have hhanded : Handed (s.pkid.toNat - 1) w :=
    Run.exec_invariant (fun _ _ _ hin hs => hin.step hs) acts (.init s) h
  refine ⟨hlogged.returned, ?_, ?_, ?_⟩
  · rintro i id hid rfl
    obtain ⟨k, hk⟩ := List.mem_iff_getElem?.mp ((hlogged.returned i 0).mpr hid)
    exact absurd (hhanded.ids k _ hk).symm (Nat.ne_of_gt Wrap.nth_pos)
  · intro i hrun
    obtain ⟨n, w', hn, hexec, hback, _⟩ := alone hrun
    exact ⟨n, w', _, by omega, hexec, hback⟩
  · intro row hrow hlen
    have hids : ∀ (k : Nat) (id : UInt16), (w.log.map Prod.snd)[k]? = some id →
        id.toNat = Wrap.nth UInt16.size (s.pkid.toNat - 1) k := by
      intro k id hk
      rw [List.getElem?_map] at hk
      obtain ⟨e, he, rfl⟩ := Option.map_eq_some_iff.mp hk
      exact hhanded.ids k e he
    exact Wrap.nodup_of_nth hids hrow hlen

/-- A session at the last id before the 0. -/
def lastSession : SessionState :=
  { SessionState.new ∅ "dev".toList 10 none none none with pkid := 65535 }

/-- Three callers, the second first; one of the others passes the 0. -/
def aroundZero : List PkidAction := [.call, .call, .fetchAdd 1, .fetchAdd 0, .call, .fetchAdd 2]

theorem packet_ids_around_zero :
    ∃ w, Run.exec step (init lastSession) aroundZero = some w ∧
      (∀ (i : Nat) (id : UInt16), (i, id) ∈ w.log ↔ w.calls[i]? = some (.returned id)) ∧
      (∀ (i : Nat) (id : UInt16), w.calls[i]? = some (.returned id) → id ≠ 0) ∧
      (∀ i : Nat, w.calls[i]? = some .running → ∃ (n : Nat) (w' : PkidWorld) (id : UInt16), n ≤ 2 ∧
        Run.exec step w (List.replicate n (.fetchAdd i)) = some w' ∧
        w'.calls[i]? = some (.returned id)) ∧
      ∀ row : List UInt16, row <:+: w.log.map Prod.snd → row.length ≤ 65535 → row.Nodup :=
  ⟨_, rfl, @packet_ids lastSession aroundZero _ rfl⟩

end PkidWorld

end Entmoot
