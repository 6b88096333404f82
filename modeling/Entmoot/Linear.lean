/-
# `Entmoot.Linear` — orderly calls take effect one at a time

Every orderly step keeps the relation to the sequential run, or dooms an attach
(`Rel.step`); the calls that have taken effect are put into a log as they do
(`Logged.after`).  A run whose calls have all returned was never doomed, so it is
the sequential run of its log (`orderly_is_linearizable`).
-/
import Entmoot.Effects

namespace Entmoot

namespace RaceWorld

section
variable [HashOrder] {c : Str} {w : RaceWorld} {σ : SessionRegistry} {i : Nat}
  {x : RaceCall} {n : Section}

/-! ## One step -/

/-- A step with no effect on the sequential run, or the one at which the call takes effect. -/
def Explained (c : Str) (w : RaceWorld) (σ : SessionRegistry) (i : Nat) (x : RaceCall)
    (n : Section) : Prop :=
  n.pc.effect = x.pc.effect ∧ Rel c (w.after i x n) σ ∨
    x.pc.effect = none ∧ n.pc.effect = some (RaceOp.run c σ x.op).2 ∧
      Rel c (w.after i x n) (RaceOp.run c σ x.op).1

/-- **Every orderly step** keeps the relation, unless it dooms an attach. -/
theorem Rel.step (h : Rel c w σ) (ht : w.reg.Tidy) (hc : c ≠ []) (hx : w.calls[i]? = some x)
    (ho : Orderly c w (.run i)) (hdid : Did c w.reg w.lock i x.op x.pc n)
    (hd : ¬ Doomed c (w.after i x n)) : Explained c w σ i x n := by
  have hmem := List.mem_of_getElem? hx
  have hok := (h.calls x hmem).pc
  have hlock := h.lock i x hx
  have hlive := ho x hx
  have hlooking := h.looking hx
  obtain ⟨op, pc, before⟩ := x
  cases hdid with
  | @find identity sink kick a hfree ha =>
      refine .inl ⟨rfl, h.quiet hx
        (.still ⟨rfl, rfl, rfl⟩ rfl ?_ (fun _ => rfl) rfl (fun h => by cases h)
        (fun k => ⟨by cases k <;> rfl, by cases k <;> rfl⟩) (fun _ _ _ h => by cases h)
        (fun _ _ h => by cases h) (fun j _ hj => ?_) (fun h => by cases h) hx ?_)⟩
      · exact (AList.lookup_insert _).trans ha.symm
      · rw [hfree] at hj
        cases hj
      · obtain ⟨s, hs, -⟩ := ht.entries c a ha
        exact ⟨(List.getElem?_eq_some_iff.mp hs).1, fun _ => ⟨rfl, rfl⟩, fun h =>
          (by cases h), fun _ => rfl⟩
  | replace hfree ha =>
      refine .inl ⟨rfl, h.quiet hx
        (.still ⟨rfl, rfl, rfl⟩ rfl rfl (fun _ => rfl) rfl (fun h => by cases h)
        (fun k => ⟨by cases k <;> rfl, by cases k <;> rfl⟩) (fun _ _ _ h => by cases h)
        (fun _ _ h => by cases h) (fun j _ hj => ?_) (fun _ => rfl) hx ⟨rfl, ha⟩)⟩
      rw [hfree] at hj
      cases hj
  | clear hfree ha =>
      refine .inl ⟨rfl, h.quiet hx
        (.still ⟨rfl, rfl, rfl⟩ rfl rfl (fun _ => rfl) rfl (fun h => by cases h)
        (fun k => ⟨by cases k <;> rfl, by cases k <;> rfl⟩) (fun _ _ _ h => by cases h)
        (fun _ _ h => by cases h) (fun j _ hj => ?_) (fun _ => rfl) hx ⟨rfl, fun b s hb => ?_⟩)⟩
      · rw [hfree] at hj
        cases hj
      · rw [ha] at hb
        cases hb
  | look hfree ha =>
      refine .inl ⟨rfl, h.quiet hx
        (.still ⟨rfl, rfl, rfl⟩ rfl rfl (fun _ => rfl) rfl (fun h => by cases h)
        (fun k => ⟨by cases k <;> rfl, by cases k <;> rfl⟩) (fun _ _ _ h => by cases h)
        (fun _ _ h => by cases h) (fun j _ hj => ?_) (fun _ => rfl) hx ⟨rfl, ha⟩)⟩
      rw [hfree] at hj
      cases hj
  | kick hs =>
      exact .inl ⟨rfl, h.quiet hx
        (.replacing hs (.kickCurrent _) rfl rfl rfl (fun k => by cases k <;> rfl)
        (fun _ _ _ h => by cases h) (fun _ _ h => by cases h) rfl (hlock rfl) hok)⟩
  | @abort op a s hs =>
      refine .inl ⟨rfl, h.quiet hx
        (.replacing hs (.abortSubs _) rfl rfl rfl (fun k => by cases k <;> rfl)
        (fun _ _ _ h => by cases h)
          (fun _ _ h => by cases h) rfl (hlock rfl) ⟨hok.1, fun b u hb hu => ?_⟩)⟩
      have hba : b = a := Option.some.inj (hb.symm.trans hok.2)
      subst hba
      have heq := (Cells.set_self hs).symm.trans hu
      cases heq
      rfl
  | removeQueue =>
      refine .inl ⟨rfl, h.quiet hx (.removing rfl rfl rfl (fun k => by cases k <;> rfl)
        (fun _ _ _ h => by cases h) (fun _ _ h => by cases h) rfl (hlock rfl) ⟨hok.1, ?_, ?_⟩)⟩
      · intro b u hb hu
        rw [(w.reg.sameConfig_removeFile _).2.2] at hb
        rw [(w.reg.sameConfig_removeFile _).2.1] at hu
        exact hok.2 b u hb hu
      · rw [SessionRegistry.state_removeFile, if_pos rfl]
  | removeSubs =>
      refine .inl ⟨rfl, h.quiet hx (.removing rfl rfl rfl (fun k => by cases k <;> rfl)
        (fun _ _ _ h => by cases h)
          (fun _ _ h => by cases h) rfl (hlock rfl) ⟨hok.1, ?_, fun k => ?_⟩)⟩
      · intro b u hb hu
        rw [(w.reg.sameConfig_removeFile _).2.2] at hb
        rw [(w.reg.sameConfig_removeFile _).2.1] at hu
        exact hok.2.1 b u hb hu
      · rw [SessionRegistry.state_removeFile]
        cases k with
        | queue =>
            rw [if_neg (fun h => by cases h)]
            exact hok.2.2
        | subs => rw [if_pos rfl]
  | makeClean =>
      refine .inl ⟨rfl, h.create hx rfl true hd rfl rfl hok.1 rfl ?_ (fun h => by cases h)
        fun _ => hok.2.2⟩
      exact SessionRegistry.fresh_congr h.config fun h => by cases h
  | foundQueue hq =>
      obtain ⟨-, hset⟩ := hlooking rfl rfl hok.2
      refine .inl ⟨rfl, h.quiet hx
        (.still ⟨rfl, rfl, rfl⟩ rfl rfl (fun _ => rfl) rfl (fun h => by cases h)
        (fun k => ⟨by cases k <;> rfl, by cases k <;> rfl⟩) (fun _ _ _ h => by cases h)
        (fun _ _ h => by cases h) (fun j _ hj => hj) (fun _ => hlock rfl) hx ⟨hok.1, hok.2, ?_⟩)⟩
      rcases hset.files .queue with hsame | hdue
      · rw [← hsame, hq]
        rfl
      · have hnone : w.reg.state c .queue = none := hlive (due_queue.mp hdue)
        rw [hnone] at hq
        cases hq
  | noQueue hq =>
      obtain ⟨-, hset⟩ := hlooking rfl rfl hok.2
      refine .inl ⟨rfl, h.quiet hx
        (.still ⟨rfl, rfl, rfl⟩ rfl rfl (fun _ => rfl) rfl (fun h => by cases h)
        (fun k => ⟨by cases k <;> rfl, by cases k <;> rfl⟩) (fun _ _ _ h => by cases h)
        (fun _ _ h => by cases h) (fun j _ hj => hj) (fun _ => hlock rfl) hx ⟨hok.1, hok.2, ?_⟩)⟩
      rcases hset.files .queue with hsame | hdue
      · exact hsame.symm.trans hq
      · exact h.due .queue hdue
  | subsExists =>
      obtain ⟨-, hset⟩ := hlooking rfl rfl hok.2.1
      refine .inl ⟨rfl, h.quiet hx
        (.still ⟨rfl, rfl, rfl⟩ rfl rfl (fun _ => rfl) rfl (fun h => by cases h)
        (fun k => ⟨by cases k <;> rfl, by cases k <;> rfl⟩) (fun _ _ _ h => by cases h)
        (fun _ _ h => by cases h) (fun j _ hj => hj) (fun _ => hlock rfl) hx ⟨hok.1, hok.2.1, ?_⟩)⟩
      rw [hok.2.2]
      rcases hset.files .subs with hsame | hdue
      · rw [hsame]
        rfl
      · rw [h.due .subs hdue, show w.reg.state c .subs = none from hlive (due_subs.mp hdue)]
        rfl
  | load p =>
      have hnone := hlooking rfl rfl hok.2.1
      refine .inl ⟨rfl, h.create hx rfl false hd rfl rfl hok.1 hok.2.2 ?_ (fun _ => hnone)
        fun h => by cases h⟩
      refine SessionRegistry.fresh_congr h.config fun _ => ?_
      rcases hnone.2.files .queue with hsame | hdue
      · exact hsame
      · rw [h.due .queue hdue]
        exact hlive (due_queue.mp hdue)
  | @attachConn identity clean sink kick a s p m hs =>
      obtain ⟨houtcome, hrel⟩ := h.attach ht hc hx rfl rfl hlive hs
      exact .inr ⟨rfl, congrArg (fun o => some (some o)) houtcome.symm, hrel⟩
  | clean hpc hs =>
      refine .inl ⟨?_, h.quiet hx (.cleaning h ht hx hpc hs)⟩
      cases hpc with
      | sweepSubs _ rest => cases rest <;> rfl
      | _ => rfl
  | @detach a epoch clean now s hs =>
      refine .inr ⟨rfl, ?_, h.detach hx rfl rfl hs⟩
      show RacePc.effect (if _ then _ else _) = some none
      split <;> rfl
  | unregister hfree => exact .inl ⟨rfl, h.unregister ht hx rfl hfree⟩
  | @sweep expiry now hfree =>
      refine .inr ⟨rfl, ?_, h.sweep ht hx rfl hfree⟩
      show RacePc.effect (SessionRegistry.sweepNext _) = some none
      cases w.reg.sweepGone expiry now <;> rfl

/-! ## The log of a run -/

/-- The calls that have taken effect, in that order, and what they did. -/
structure Logged (c : Str) (reg : SessionRegistry) (w : RaceWorld)
    (log : List (Nat × RaceOp × Option AttachOutcome)) (σ : SessionRegistry) : Prop where
  lin : History.Linearized (RaceOp.run c) w.Before reg log σ
  ids : ∀ j, j ∈ History.ids log ↔ ∃ x, w.calls[j]? = some x ∧ x.pc.effect.isSome
  entries : ∀ e ∈ log, ∃ x, w.calls[e.1]? = some x ∧ x.op = e.2.1 ∧ x.pc.effect = some e.2.2
  before : ∀ x ∈ w.calls, ∀ j ∈ x.before, ∃ y, w.calls[j]? = some y ∧ y.hasReturned

variable {reg : SessionRegistry} {log : List (Nat × RaceOp × Option AttachOutcome)}

omit [HashOrder] in
theorem effect_of_returned {y : RaceCall} (h : y.hasReturned) : y.pc.effect.isSome := by
  obtain ⟨op, pc, before⟩ := y
  cases pc with
  | returned o => rfl
  | _ => cases h

omit [HashOrder] in
theorem before_after (hx : w.calls[i]? = some x) (j k : Nat) :
    (w.after i x n).Before j k ↔ w.Before j k := by
  constructor
  · rintro ⟨y, hy, hj⟩
    rcases after_calls hy with ⟨-, hy⟩ | ⟨rfl, rfl⟩
    · exact ⟨y, hy, hj⟩
    · exact ⟨x, hx, hj⟩
  · rintro ⟨y, hy, hj⟩
    by_cases hki : k = i
    · subst hki
      rw [hx] at hy
      cases hy
      exact ⟨_, Cells.set_self hx, hj⟩
    · exact ⟨y, (List.getElem?_set_ne (Ne.symm hki)).trans hy, hj⟩

theorem Logged.invoke (h : Logged c reg w log σ) (op : RaceOp) :
    Logged c reg { w with calls := w.calls ++ [⟨op, .start, w.returnedCalls⟩] } log σ where
  lin := by
    refine h.lin.mono fun k hk j hj => ?_
    obtain ⟨y, hy, hjy⟩ := hj
    rcases Cells.concat_cases hy with hy | ⟨rfl, -⟩
    · exact ⟨y, hy, hjy⟩
    · obtain ⟨z, hz, -⟩ := (h.ids _).mp hk
      obtain ⟨hlt, -⟩ := List.getElem?_eq_some_iff.mp hz
      exact absurd hlt (Nat.lt_irrefl _)
  ids := by
    intro j
    rw [h.ids]
    constructor
    · rintro ⟨y, hy, he⟩
      exact ⟨y, Cells.append_of_some hy, he⟩
    · rintro ⟨y, hy, he⟩
      rcases Cells.concat_cases hy with hy | ⟨-, rfl⟩
      · exact ⟨y, hy, he⟩
      · cases he
  entries := by
    intro e he
    obtain ⟨y, hy, hop, heff⟩ := h.entries e he
    exact ⟨y, Cells.append_of_some hy, hop, heff⟩
  before := by
    intro y hy j hj
    rcases List.mem_append.mp hy with hy | hy
    · obtain ⟨z, hz, hret⟩ := h.before y hy j hj
      exact ⟨z, Cells.append_of_some hz, hret⟩
    · rw [List.mem_singleton.mp hy] at hj
      obtain ⟨hlt, hret⟩ := List.mem_filter.mp hj
      have hz := List.getElem?_eq_getElem (List.mem_range.mp hlt)
      rw [hz] at hret
      exact ⟨_, Cells.append_of_some hz, hret⟩

/-- **A call takes a step**: the log stays, or the call is put at its end. -/
theorem Logged.after (h : Logged c reg w log σ) (hx : w.calls[i]? = some x)
    (hdid : Did c w.reg w.lock i x.op x.pc n) (he : Explained c w σ i x n) :
    ∃ σ' log', Rel c (w.after i x n) σ' ∧ Logged c reg (w.after i x n) log' σ' := by
  have hself : (w.after i x n).calls[i]? = some { x with pc := n.pc } := Cells.set_self hx
  have hother : ∀ j y, j ≠ i → w.calls[j]? = some y → (w.after i x n).calls[j]? = some y :=
    fun j y hne hy => (List.getElem?_set_ne hne.symm).trans hy
  have hbefore : ∀ y ∈ (w.after i x n).calls, ∀ j ∈ y.before,
      ∃ z, (w.after i x n).calls[j]? = some z ∧ z.hasReturned := by
    have hkept : ∀ (j : Nat) (z : RaceCall), w.calls[j]? = some z → z.hasReturned →
        ∃ z : RaceCall, (w.after i x n).calls[j]? = some z ∧ z.hasReturned := by
      intro j z hz hret
      refine ⟨z, hother j z ?_ hz, hret⟩
      rintro rfl
      rw [hx] at hz
      cases hz
      cases hpc : x.pc with
      | returned o => exact hdid.not_returned o hpc
      | _ => simp [RaceCall.hasReturned, hpc] at hret
    intro y hy j hj
    rcases mem_after hy with ⟨l, -, hl⟩ | rfl
    · obtain ⟨z, hz, hret⟩ := h.before y (List.mem_of_getElem? hl) j hj
      exact hkept j z hz hret
    · obtain ⟨z, hz, hret⟩ := h.before x (List.mem_of_getElem? hx) j hj
      exact hkept j z hz hret
  have hlin : History.Linearized (RaceOp.run c) (w.after i x n).Before reg log σ :=
    h.lin.mono fun k _ j => (before_after hx j k).mp
  rcases he with ⟨heff, hrel⟩ | ⟨hnone, heff, hrel⟩
  · refine ⟨σ, log, hrel, hlin, fun j => ?_, fun e he => ?_, hbefore⟩
    · rw [h.ids]
      constructor
      · rintro ⟨y, hy, hye⟩
        by_cases hji : j = i
        · subst hji
          rw [hx] at hy
          cases hy
          exact ⟨_, hself, heff ▸ hye⟩
        · exact ⟨y, hother j y hji hy, hye⟩
      · rintro ⟨y, hy, hye⟩
        rcases after_calls hy with ⟨-, hy⟩ | ⟨rfl, rfl⟩
        · exact ⟨y, hy, hye⟩
        · exact ⟨x, hx, heff ▸ hye⟩
    · obtain ⟨y, hy, hop, hye⟩ := h.entries e he
      by_cases hji : e.1 = i
      · rw [hji] at hy ⊢
        rw [hx] at hy
        cases hy
        exact ⟨_, hself, hop, heff.trans hye⟩
      · exact ⟨y, hother _ y hji hy, hop, hye⟩
  · have hnew : i ∉ History.ids log := by
      intro hi
      obtain ⟨y, hy, hye⟩ := (h.ids i).mp hi
      rw [hx] at hy
      cases hy
      rw [hnone] at hye
      cases hye
    refine ⟨_, _, hrel, hlin.concat hnew x.op fun j hj => ?_, fun j => ?_, fun e he => ?_, hbefore⟩
    · obtain ⟨y, hy, hjy⟩ := (before_after hx j i).mp hj
      rw [hx] at hy
      cases hy
      obtain ⟨z, hz, hret⟩ := h.before x (List.mem_of_getElem? hx) j hjy
      exact (h.ids j).mpr ⟨z, hz, effect_of_returned hret⟩
    · rw [History.ids_concat, List.mem_append, List.mem_singleton, h.ids]
      constructor
      · rintro (⟨y, hy, hye⟩ | rfl)
        · refine ⟨y, hother j y ?_ hy, hye⟩
          rintro rfl
          exact hnew ((h.ids j).mpr ⟨y, hy, hye⟩)
        · exact ⟨_, hself, by rw [show RaceCall.pc _ = n.pc from rfl, heff]; rfl⟩
      · rintro ⟨y, hy, hye⟩
        rcases after_calls hy with ⟨-, hy⟩ | ⟨rfl, -⟩
        · exact .inl ⟨y, hy, hye⟩
        · exact .inr rfl
    · rcases List.mem_append.mp he with he | he
      · obtain ⟨y, hy, hop, hye⟩ := h.entries e he
        refine ⟨y, hother _ y ?_ hy, hop, hye⟩
        intro hei
        refine hnew ?_
        rw [← hei]
        exact (h.ids _).mpr ⟨y, hy, by rw [hye]; rfl⟩
      · rw [List.mem_singleton.mp he]
        exact ⟨_, hself, rfl, heff⟩

/-! ## Runs -/

/-- The run so far is explained by its log, unless it dooms an attach. -/
structure Inv (c : Str) (reg : SessionRegistry) (w : RaceWorld) : Prop where
  tidy : w.reg.Tidy
  explained : Doomed c w ∨ ∃ σ log, Rel c w σ ∧ Logged c reg w log σ

omit [HashOrder] in
theorem Steady.rel {held : List (Addr × Nat × Bool)} (h : Steady c reg held) :
    Rel c (init reg held) reg where
  config := ⟨rfl, rfl, rfl⟩
  tidy := h.tidy
  core := fun a t ht => ⟨t, ht, rfl⟩
  size := .inl rfl
  mapped := fun a ha => .inl ha
  known := fun a ha _ => .inl ha
  ended := by
    rintro a ⟨y, hy, -⟩
    cases hy
  settled := .inr (.inr ⟨fun _ _ => rfl, fun _ => .inl rfl⟩)
  due := by
    rintro k ⟨y, hy, -⟩
    cases hy
  dueSubs := by
    rintro ⟨y, hy, -⟩
    cases hy
  lock := fun j y hy => by cases hy
  calls := fun y hy => by cases hy
  held := by
    intro k hk
    obtain ⟨s, hs, hcid, hfile⟩ := h.held k hk
    refine ⟨s, hs, hcid, fun hclean k => ?_⟩
    cases k with
    | queue => exact (hfile hclean).1
    | subs => exact (hfile hclean).2

theorem Steady.inv {held : List (Addr × Nat × Bool)} (h : Steady c reg held) :
    Inv c reg (init reg held) where
  tidy := h.tidy
  explained := by
    refine .inr ⟨reg, [], h.rel, .nil reg, fun j => ?_, fun e he => (by cases he),
      fun y hy => by cases hy⟩
    constructor
    · exact fun hj => absurd hj List.not_mem_nil
    · rintro ⟨y, hy, -⟩
      cases hy

theorem Inv.step {act : RaceAction} {w' : RaceWorld} (hc : c ≠ []) (h : Inv c reg w)
    (ho : Orderly c w act) (hstep : step c w act = some w') : Inv c reg w' := by
  have htidy : w'.reg.Tidy := by
    rcases step_cases hstep with ⟨op, -, -, rfl⟩ | ⟨i, x, n, -, -, hdid, rfl⟩
    · exact h.tidy
    · exact hdid.tidy h.tidy
  refine ⟨htidy, ?_⟩
  rcases h.explained with hd | ⟨σ, log, hrel, hlog⟩
  · exact .inl (hd.step h.tidy ho hstep)
  · by_cases hd : Doomed c w'
    · exact .inl hd
    · refine .inr ?_
      rcases step_cases hstep with ⟨op, -, hop, rfl⟩ | ⟨i, x, n, rfl, hx, hdid, rfl⟩
      · exact ⟨σ, log, hrel.invoke hop _, hlog.invoke op⟩
      · exact hlog.after hx hdid (hrel.step h.tidy hc hx ho hdid hd)

omit [HashOrder] in
/-- With every call returned, nothing is left to do and both registries agree. -/
theorem Rel.sameFor (h : Rel c w σ) (ht : w.reg.Tidy) (hf : w.Finished) : w.reg.SameFor c σ := by
  have hpc : ∀ y ∈ w.calls, ∃ o, y.pc = .returned o := by
    intro y hy
    have hret := hf y hy
    obtain ⟨op, pc, before⟩ := y
    cases pc with
    | returned o => exact ⟨o, rfl⟩
    | _ => cases hret
  have hends : ∀ a, ¬ w.Ends a := by
    rintro a ⟨y, hy, he⟩
    obtain ⟨o, ho⟩ := hpc y hy
    rw [ho] at he
    cases he
  have hdue : ∀ k, ¬ Due c w k := by
    rintro k ⟨y, hy, a, ha, -⟩
    obtain ⟨o, ho⟩ := hpc y hy
    rw [ho] at ha
    cases k <;> cases ha
  have hunborn : ∀ cl p, ¬ Unborn c w σ cl p := by
    intro cl p hu
    obtain ⟨y, hy, hya⟩ := hu.maker
    obtain ⟨o, ho⟩ := hpc y hy
    rw [ho] at hya
    cases hya
  have hset : Settled c w σ := by
    rcases h.settled with ⟨y, hy, hrep⟩ | ⟨p, hu⟩ | hset
    · obtain ⟨o, ho⟩ := hpc y hy
      rw [ho] at hrep
      cases hrep
    · exact absurd hu (hunborn true p)
    · exact hset
  have hentry : w.reg.sessions.lookup c = σ.sessions.lookup c := by
    cases hb : σ.sessions.lookup c with
    | some a =>
        rcases h.mapped a hb with hw | ⟨p, hu⟩
        · exact hw
        · exact absurd hu (hunborn true p)
    | none =>
        cases ha : w.reg.sessions.lookup c with
        | none => rfl
        | some a =>
            obtain ⟨s, hs, -⟩ := ht.entries c a ha
            have hlt : a < σ.heap.length := by
              rcases h.size with hlen | ⟨cl, p, hu⟩
              · exact hlen ▸ (List.getElem?_eq_some_iff.mp hs).1
              · exact absurd hu (hunborn cl p)
            rcases h.known a ha hlt with hold | he
            · rw [hb] at hold
              cases hold
            · exact absurd he (hends a)
  have hfiles : ∀ k, w.reg.state c k = σ.state c k := fun k => (hset.files k).resolve_right (hdue k)
  refine ⟨hentry, ?_, hfiles .queue, hfiles .subs⟩
  rw [SessionRegistry.registered, SessionRegistry.registered, hentry]
  cases hb : σ.sessions.lookup c with
  | none => rfl
  | some a => exact hset.cell a hb

theorem last_registered {before : Nat → Nat → Prop} {j : Nat} {op : RaceOp} {o : AttachOutcome}
    (h : History.Linearized (RaceOp.run c) before reg log σ)
    (hlast : log.getLast? = some (j, op, some o)) :
    σ.sessions.lookup c = some o.session := by
  obtain ⟨rest, rfl⟩ := List.getLast?_eq_some_iff.mp hlast
  have hexec := h.exec
  rw [List.map_append] at hexec
  obtain ⟨r, -, hlastStep⟩ := Run.exec_concat.mp hexec
  rw [History.replay] at hlastStep
  split at hlastStep
  · next hres =>
    cases hlastStep
    cases op with
    | attach identity clean sink kick =>
        have hout : (r.attach c identity clean sink kick).outcome = o := Option.some.inj hres
        rw [← hout]
        exact r.attach_registers c identity clean sink kick
    | detach a epoch clean now => cases hres
    | sweep expiry now => cases hres
  · cases hlastStep

end

/-- **Orderly calls are linearizable**: in every run in which connections attach to
sessions that are there to stay, and an attach that looks at a state file finds none
that another call has still to remove, the calls return what they would one after the
other, in an order that respects the one they were made in, and leave what those leave. -/
theorem orderly_is_linearizable [HashOrder] {c : Str} {reg : SessionRegistry}
    {held : List (Addr × Nat × Bool)} {acts : List RaceAction} {w : RaceWorld}
    (hs : Steady c reg held) (hm : Run.Meets (step c) (Orderly c) (init reg held) acts)
    (hw : Run.exec (step c) (init reg held) acts = some w) (hf : w.Finished) :
      w.Linearizable c reg := by
  have hinv : Inv c reg w :=
    Run.exec_invariant_of_meets (fun _ _ _ h ho hstep => h.step hs.nonempty ho hstep)
      acts hs.inv hm hw
  obtain ⟨σ, log, hrel, hlog⟩ := hinv.explained.resolve_left hf.not_doomed
  have hsame := hrel.sameFor hinv.tidy hf
  have hall : ∀ j, j ∈ History.ids log ↔ j < w.calls.length := by
    intro j
    rw [hlog.ids]
    constructor
    · rintro ⟨y, hy, -⟩
      exact (List.getElem?_eq_some_iff.mp hy).1
    · intro hlt
      refine ⟨_, List.getElem?_eq_getElem hlt, effect_of_returned (hf _ (List.getElem_mem hlt))⟩
  refine ⟨log, σ, hlog.lin, hlog.lin.perm hall, fun e he => ?_, hsame, fun j op o hlast => ?_⟩
  · obtain ⟨y, hy, hop, heff⟩ := hlog.entries e he
    refine ⟨y, hy, hop, ?_⟩
    have hret := hf y (List.mem_of_getElem? hy)
    obtain ⟨op, pc, before⟩ := y
    cases pc with
    | returned o => exact congrArg RacePc.returned (Option.some.inj heff)
    | _ => cases hret
  · exact hsame.entry.trans (last_registered hlog.lin hlast)

/-! ## An orderly run -/

open DiscardWorld (offline)

/-- An attach and a sweep with each other's steps in between; the session is not expired. -/
def resumedActs : List RaceAction :=
  [.invoke (.attach [] false ⟨1⟩ ⟨1⟩), .invoke (.sweep 100 10), .run 0, .run 1, .run 0, .run 0]

theorem resumed_is_linearizable :
    ∃ w, Run.exec (@step .asStored "dev".toList) (init offline []) resumedActs =
    some w ∧ @Linearizable .asStored "dev".toList offline w := by
  obtain ⟨w, hw, hfin⟩ : ∃ w, Run.exec (@step .asStored "dev".toList)
      (init offline []) resumedActs =
      some w ∧ w.Finished := ⟨_, rfl, by decide⟩
  refine ⟨w, hw, @orderly_is_linearizable .asStored _ _ _ _ _ offline_steady ?_ hw hfin⟩
  refine .cons rfl trivial (.cons rfl trivial
    (.cons rfl ?_ (.cons rfl ?_ (.cons rfl ?_ (.cons rfl ?_ trivial)))))
  · intro x hx
    cases hx
    trivial
  · intro x hx
    cases hx
    trivial
  · intro x hx
    cases hx
    refine ⟨rfl, by decide, fun j y hne hy hpc => ?_⟩
    cases j with
    | zero => exact hne rfl
    | succ j =>
        cases j with
        | zero =>
            cases hy
            cases hpc
        | succ j => cases hy
  · intro x hx
    cases hx
    trivial

end RaceWorld

end Entmoot
