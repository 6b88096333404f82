/-
# `Entmoot.Cleanup` — what a connection does before it ends

Once `attach` was called a connection has three duties: to fire the Last Will unless
the client said DISCONNECT, to detach, and to publish its disconnect event.  They
come after `run`, whose errors `serve` catches, so whatever happens in the loop they
are done, once each (`run_ends`, `finish_ok`, `finish_error`).  But the CONNACK and
the backlog are sent before that, with `?`: if the writer is gone by then, `serve`
returns with none of them done.  So they are done exactly if the outbound channel
takes the CONNACK and the whole backlog (`cleanup_iff`).
-/
import Entmoot.Serve

namespace Entmoot

open Traced

/-! ## The duties, read off a trace -/

/-- The wills fired. -/
def fireWills (w : List ServeEffect) : List (Option LastWill) :=
  w.filterMap fun | .fireWill will => some will | _ => none

/-- The calls of `detach`. -/
def detaches (w : List ServeEffect) : List (Addr × Nat × Bool) :=
  w.filterMap fun | .detach a epoch clean => some (a, epoch, clean) | _ => none

/-- The disconnect events, with their key and reason. -/
def disconnects (w : List ServeEffect) : List (Str × Str) :=
  w.filterMap fun | .event ke (.disconnect reason) => some (ke, reason) | _ => none

/-- The calls of `attach`. -/
def attaches (w : List ServeEffect) : List (Str × Str × Bool) :=
  w.filterMap fun | .attach clientId identity clean => some (clientId, identity, clean) | _ => none

/-- A DISCONNECT was read. -/
def SaidDisconnect (w : List ServeEffect) : Prop := .received .disconnect ∈ w

instance (w : List ServeEffect) : Decidable (SaidDisconnect w) :=
  inferInstanceAs (Decidable (_ ∈ _))

/-- The three duties of the connection that attached, each done once. -/
structure CleanedUp (env : ServeEnv) (clientId identity : Str) (clean : Bool)
    (w : List ServeEffect) : Prop where
  will : ∃ c, env.first = .packet (.connect c) ∧
    fireWills w = if SaidDisconnect w then [] else [c.lastWill]
  detach : detaches w = [((env.attach clientId identity clean).session,
    (env.attach clientId identity clean).epoch, clean)]
  event : (disconnects w).map Prod.fst = [clientKey env.broker clientId]

/-! ## What the handlers leave alone -/

/-- An effect that is no duty, no attach and no DISCONNECT. -/
def ServeEffect.quiet : ServeEffect → Bool
  | .fireWill _ | .detach _ _ _ | .attach _ _ _ | .event _ (.disconnect _)
  | .received .disconnect => false
  | _ => true

section
variable (w w' : List ServeEffect)

theorem fireWills_append : fireWills (w ++ w') = fireWills w ++ fireWills w' :=
  List.filterMap_append ..

theorem detaches_append : detaches (w ++ w') = detaches w ++ detaches w' := List.filterMap_append ..

theorem disconnects_append : disconnects (w ++ w') = disconnects w ++ disconnects w' :=
  List.filterMap_append ..

theorem attaches_append : attaches (w ++ w') = attaches w ++ attaches w' := List.filterMap_append ..

end

theorem quiet_shows {w : List ServeEffect} (h : ∀ e ∈ w, e.quiet) :
    fireWills w = [] ∧ detaches w = [] ∧ disconnects w = [] ∧ attaches w = [] ∧
      ¬ SaidDisconnect w := by
  have hloud : ∀ e : ServeEffect, e.quiet = false → e ∉ w := fun e he hmem => by
    have hq := h e hmem
    rw [he] at hq
    cases hq
  refine ⟨?_, ?_, ?_, ?_, hloud _ rfl⟩
  · refine List.filterMap_eq_nil_iff.mpr fun e he => ?_
    split
    · exact absurd he (hloud _ rfl)
    · rfl
  · refine List.filterMap_eq_nil_iff.mpr fun e he => ?_
    split
    · exact absurd he (hloud _ rfl)
    · rfl
  · refine List.filterMap_eq_nil_iff.mpr fun e he => ?_
    split
    · exact absurd he (hloud _ rfl)
    · rfl
  · refine List.filterMap_eq_nil_iff.mpr fun e he => ?_
    split
    · exact absurd he (hloud _ rfl)
    · rfl

/-- The will kept, and only quiet effects. -/
def quiet : Frame ServeState ServeEffect where
  rel s w s' := s'.will = s.will ∧ ∀ e ∈ w, e.quiet
  nil _ := ⟨rfl, fun _ he => absurd he List.not_mem_nil⟩
  append := by
    rintro s t u w w' ⟨hwill, hw⟩ ⟨hwill', hw'⟩
    refine ⟨hwill'.trans hwill, fun e he => ?_⟩
    rcases List.mem_append.mp he with he | he
    · exact hw e he
    · exact hw' e he

theorem quiet_allows {e : ServeEffect} (h : e.quiet) : Allows quiet e :=
  fun _ => ⟨rfl, fun _ he => List.mem_singleton.mp he ▸ h⟩

theorem quiet_ofWill : OfWill quiet := fun _ _ h => ⟨h, fun _ he => absurd he List.not_mem_nil⟩

theorem quiet_handling : Handling quiet where
  state := quiet_ofWill
  publish _ := quiet_allows rfl
  bus _ := quiet_allows rfl
  activated _ _ := quiet_allows rfl
  removeSub _ := quiet_allows rfl
  subscribed _ _ _ := quiet_allows rfl
  unsubscribed _ _ := quiet_allows rfl

theorem quiet_send (p : Packet) : Within quiet (send p) :=
  within_send quiet_ofWill (quiet_allows rfl)

theorem quiet_sendBacklog (nextPkid : Nat → UInt16) (ms : List Msg) :
    Within quiet (sendBacklog nextPkid ms) :=
  within_sendBacklog quiet_ofWill (fun _ => quiet_allows rfl) nextPkid ms

namespace Client

variable (c : Client) (t : Turn)

theorem quiet_handlePublish (p : Publish) : Within quiet (c.handlePublish t p) := by
  refine .bind (within_require _ _) fun _ => ?_
  split
  · exact .fail _
  · exact .bind (within_onlyIf _ (c.within_forward t quiet_handling.bus p _)) fun _ =>
      within_acknowledge quiet_ofWill (fun _ => quiet_allows rfl) p

theorem quiet_handle {p : ClientPacket} (hp : p ≠ .disconnect) : Within quiet (c.handle t p) := by
  cases p with
  | publish p =>
      refine .bind (.attempt (c.quiet_handlePublish t p)) fun result => ?_
      cases result with
      | error e => exact .pure _
      | ok _ => exact .pure _
  | pubRel pkid =>
      exact .bind (.modifyState fun s => quiet_ofWill s _ rfl) fun _ => .bind (quiet_send _)
        fun _ => .pure _
  | subscribe pkid filters =>
      exact .bind (c.within_subscribeAll t quiet_handling filters 0) fun _ =>
        .bind (quiet_send _) fun _ => .bind (c.within_deliverAllRetained t quiet_handling _ 0)
          fun _ => .pure _
  | unsubscribe pkid topics =>
      exact .bind (c.within_unsubscribeAll quiet_handling topics) fun _ => .bind (quiet_send _)
        fun _ => .pure _
  | pingReq => exact .bind (quiet_send _) fun _ => .pure _
  | disconnect => exact absurd rfl hp
  | pubAck _ | pubRec _ | pubComp _ | connect _ | ofServer _ => exact .pure _

theorem handle_returns {p : ClientPacket} (hp : p ≠ .disconnect) :
    Returns (· ≠ .ok (some (.ok ()))) (c.handle t p) := by
  have herr : ∀ e : ServeError, (.error e : Except ServeError (Option (Except ServeError Unit))) ≠
      .ok (some (.ok ())) := fun _ h => nomatch h
  have hnone :
      (.ok none : Except ServeError (Option (Except ServeError Unit))) ≠ .ok (some (.ok ())) :=
    fun h => nomatch h
  cases p with
  | publish p =>
      refine .bind herr fun result => ?_
      cases result with
      | error e => exact .pure fun h => nomatch h
      | ok _ => exact .pure hnone
  | pubRel pkid => exact .bind herr fun _ => .bind herr fun _ => .pure hnone
  | subscribe pkid filters =>
      exact .bind herr fun _ => .bind herr fun _ => .bind herr fun _ => .pure hnone
  | unsubscribe pkid topics => exact .bind herr fun _ => .bind herr fun _ => .pure hnone
  | pingReq => exact .bind herr fun _ => .pure hnone
  | disconnect => exact absurd rfl hp
  | pubAck _ | pubRec _ | pubComp _ => exact .pure hnone
  | connect _ | ofServer _ => exact .pure fun h => nomatch h

/-- One turn: a DISCONNECT, or something quiet that does not end the loop well. -/
theorem turn_ends {s s' : ServeState} {w : List ServeEffect}
    {r : Except ServeError (Option (Except ServeError Unit))} (h : Ends (c.turn t) s r w s') :
    r = .ok (some (.ok ())) ∧ w = [.received .disconnect] ∨
      r ≠ .ok (some (.ok ())) ∧ quiet.rel s w s' := by
  rw [turn] at h
  cases hread : t.read with
  | packet p =>
      simp only [hread] at h
      by_cases hp : p = .disconnect
      · subst hp
        obtain ⟨w₁, rfl, hrest⟩ := ends_emit_bind.mp h
        have hdone := ends_modifyState_bind.mp hrest
        obtain ⟨rfl, rfl, _⟩ := ends_pure.mp hdone
        exact .inl ⟨rfl, rfl⟩
      · have hquiet : (ServeEffect.received p).quiet := by
          cases p with
          | disconnect => exact absurd rfl hp
          | publish _ | pubRel _ | subscribe _ _ | unsubscribe _ _ | pingReq | pubAck _ | pubRec _
          | pubComp _ | connect _ | ofServer _ => rfl
        have hwithin : Within quiet (do emit (.received p); c.handle t p) :=
          .bind (.emit (quiet_allows hquiet)) fun _ => c.quiet_handle t hp
        have hreturns : Returns (· ≠ .ok (some (.ok ()))) (do emit (.received p); c.handle t p) :=
          .bind (fun _ h => nomatch h) fun _ => c.handle_returns t hp
        exact .inr ⟨hreturns s r w s' h, hwithin s r w s' h⟩
  | failed | expired | kicked reason =>
      simp only [hread] at h
      obtain ⟨rfl, rfl, rfl⟩ := ends_pure.mp h
      exact .inr ⟨fun h => (by cases h), quiet.nil s'⟩

/-- The loop: it ends well with a DISCONNECT and in no other way. -/
theorem loop_ends : ∀ (ts : List Turn) {s s' : ServeState} {w : List ServeEffect}
    {r : Except ServeError (Except ServeError Unit)}, Ends (c.loop ts) s r w s' →
    r = .ok (.ok ()) ∧ (∃ w₀, w = w₀ ++ [.received .disconnect] ∧ ∀ e ∈ w₀, e.quiet) ∨
      r ≠ .ok (.ok ()) ∧ quiet.rel s w s' := by
  intro ts
  induction ts with
  | nil => exact fun h => absurd h not_ends_wait
  | cons t ts ih =>
      intro s s' w r h
      rcases ends_bind.mp h with ⟨e, he, rfl⟩ | ⟨out, w₁, u, w₂, hturn, hrest, rfl⟩
      · rcases c.turn_ends t he with ⟨hr, _⟩ | ⟨_, hq⟩
        · cases hr
        · exact .inr ⟨fun h => (by cases h), hq⟩
      · cases out with
        | some result =>
            obtain ⟨rfl, rfl, rfl⟩ := ends_pure.mp hrest
            rw [List.append_nil]
            rcases c.turn_ends t hturn with ⟨hr, rfl⟩ | ⟨hr, hq⟩
            · cases hr
              exact .inl ⟨rfl, [], rfl, fun _ he => absurd he List.not_mem_nil⟩
            · refine .inr ⟨fun h => hr ?_, hq⟩
              cases h
              rfl
        | none =>
            rcases c.turn_ends t hturn with ⟨hr, _⟩ | ⟨_, hq⟩
            · cases hr
            · rcases ih hrest with ⟨rfl, w₀, rfl, hw₀⟩ | ⟨hr, hq'⟩
              · refine .inl ⟨rfl, w₁ ++ w₀, (List.append_assoc _ _ _).symm, fun e he => ?_⟩
                rcases List.mem_append.mp he with he | he
                · exact hq.2 e he
                · exact hw₀ e he
              · exact .inr ⟨hr, quiet.append hq hq'⟩

/-- **The run of a connection**: it succeeds after a DISCONNECT, and otherwise fails
with the will untouched; none of the duties is done in it. -/
theorem run_ends {ts : List Turn} {s s' : ServeState} {w : List ServeEffect}
    {r : Except ServeError Unit} (h : Ends (c.run ts) s r w s') :
    r = .ok () ∧ (∃ w₀, w = w₀ ++ [.received .disconnect, .abortWriter] ∧ ∀ e ∈ w₀, e.quiet) ∨
      (∃ e, r = .error e) ∧ quiet.rel s w s' := by
  rcases ends_bind.mp h with ⟨e, he, rfl⟩ | ⟨result, w₁, u, w₂, hloop, hrest, rfl⟩
  · rcases c.loop_ends ts he with ⟨hr, _⟩ | ⟨_, hq⟩
    · cases hr
    · exact .inr ⟨⟨e, rfl⟩, hq⟩
  · obtain ⟨w₃, rfl, hyield⟩ := ends_emit_bind.mp hrest
    cases result with
    | ok _ =>
        obtain ⟨rfl, rfl, rfl⟩ := ends_pure.mp hyield
        rcases c.loop_ends ts hloop with ⟨_, w₀, rfl, hw₀⟩ | ⟨hr, _⟩
        · exact .inl ⟨rfl, w₀, List.append_assoc _ _ _, hw₀⟩
        · exact absurd rfl hr
    | error e =>
        obtain ⟨rfl, rfl, rfl⟩ := ends_fail.mp hyield
        rcases c.loop_ends ts hloop with ⟨hr, _⟩ | ⟨_, hq⟩
        · cases hr
        · exact .inr ⟨⟨e, rfl⟩, quiet.append hq ⟨rfl, fun x hx => List.mem_singleton.mp hx ▸ rfl⟩⟩

theorem publishWill_ends {now : SystemTime} {will : LastWill} {s s' : ServeState}
    {w : List ServeEffect} {r : Except ServeError Unit}
    (h : Ends (c.publishWill now will) s r w s') :
    r = .ok () ∧ ∀ e ∈ w, e.quiet := by
  have hput : ∀ {op : BusOp} {s s' : ServeState} {w : List ServeEffect}
    {r : Except ServeError Unit},
      Ends (emit (.bus op)) s r w s' → r = .ok () ∧ ∀ e ∈ w, e.quiet := by
    intro op s s' w r h
    obtain ⟨rfl, rfl, _⟩ := ends_emit.mp h
    exact ⟨rfl, fun e he => List.mem_singleton.mp he ▸ rfl⟩
  have hdone : ∀ {s s' : ServeState} {w : List ServeEffect} {r : Except ServeError Unit},
      Ends (pure () : ServeM Unit) s r w s' → r = .ok () ∧ ∀ e ∈ w, e.quiet := by
    intro s s' w r h
    obtain ⟨rfl, rfl, _⟩ := ends_pure.mp h
    exact ⟨rfl, fun e he => absurd he List.not_mem_nil⟩
  rw [publishWill] at h
  split at h
  · split at h
    · exact hdone h
    · obtain ⟨w₁, rfl, hrest⟩ := ends_emit_bind.mp h
      have hret : r = .ok () ∧ ∀ e ∈ w₁, e.quiet := by
        split at hrest
        · exact hput hrest
        · exact hdone hrest
      refine ⟨hret.1, fun e he => ?_⟩
      rcases List.mem_cons.mp he with rfl | he
      · rfl
      · exact hret.2 e he
  · exact hdone h

theorem fireWill_ends {now : SystemTime} {s s' : ServeState} {w : List ServeEffect}
    {r : Except ServeError Unit} (h : Ends (c.fireWill now) s r w s') :
    r = .ok () ∧ ∃ w₀, w = .fireWill s.will :: w₀ ∧ ∀ e ∈ w₀, e.quiet := by
  obtain ⟨w₀, rfl, hpub⟩ := ends_emit_bind.mp (ends_modifyState_bind.mp (ends_getState_bind.mp h))
  split at hpub
  · obtain ⟨rfl, rfl, _⟩ := ends_pure.mp hpub
    exact ⟨rfl, [], rfl, fun e he => absurd he List.not_mem_nil⟩
  · obtain ⟨hr, hquiet⟩ := c.publishWill_ends hpub
    exact ⟨hr, w₀, rfl, hquiet⟩

end Client

/-! ## Before the loop -/

theorem send_ends {p : Packet} {s s' : ServeState} {w : List ServeEffect}
    {r : Except ServeError Unit} (h : Ends (send p) s r w s') :
    s.room = 0 ∧ r = .error .writerClosed ∧ w = [] ∧ s' = s ∨
      ∃ n, s.room = n + 1 ∧ r = .ok () ∧ w = [.send p] ∧ s' = { s with room := n } := by
  have hroom := ends_getState_bind.mp h
  split at hroom
  · next hzero =>
    obtain ⟨rfl, rfl, rfl⟩ := ends_fail.mp hroom
    exact .inl ⟨hzero, rfl, rfl, rfl⟩
  · next n hsucc =>
    have hpush := ends_modifyState_bind.mp hroom
    obtain ⟨rfl, rfl, rfl⟩ := ends_emit.mp hpush
    exact .inr ⟨n, hsucc, rfl, rfl, rfl⟩

theorem takePkid_ends {nextPkid : Nat → UInt16} {s s' : ServeState} {w : List ServeEffect}
    {r : Except ServeError UInt16} (h : Ends (takePkid nextPkid) s r w s') :
    (∃ id, r = .ok id) ∧ s'.room = s.room := by
  have hdone := ends_modifyState_bind.mp (ends_getState_bind.mp h)
  obtain ⟨rfl, _, rfl⟩ := ends_pure.mp hdone
  exact ⟨⟨_, rfl⟩, rfl⟩

/-- The backlog goes through exactly if there is room for all of it. -/
theorem sendBacklog_ends {nextPkid : Nat → UInt16} : ∀ {ms : List Msg} {s s' : ServeState}
    {w : List ServeEffect} {r : Except ServeError Unit}, Ends (sendBacklog nextPkid ms) s r w s' →
    (r = .ok () ↔ ms.length ≤ s.room) := by
  intro ms
  induction ms with
  | nil =>
      intro s s' w r h
      exact ⟨fun _ => Nat.zero_le _, fun _ => (ends_pure.mp h).1⟩
  | cons m ms ih =>
      intro s s' w r h
      rcases ends_bind.mp h with ⟨e, he, _⟩ | ⟨_, w₁, u, w₂, htake, hsends, rfl⟩
      · obtain ⟨⟨_, hid⟩, _⟩ := takePkid_ends he
        cases hid
      · obtain ⟨_, hroom⟩ := takePkid_ends htake
        rcases ends_bind.mp hsends with ⟨e, he, rfl⟩ | ⟨_, w₃, v, w₄, hsend, hrest, rfl⟩
        · rcases send_ends he with ⟨hzero, _⟩ | ⟨n, _, hok, _⟩
          · constructor
            · intro hr
              cases hr
            · intro hle
              rw [← hroom, hzero] at hle
              exact absurd hle (Nat.not_succ_le_zero _)
          · cases hok
        · rcases send_ends hsend with ⟨_, hr, _⟩ | ⟨n, hn, _, _, rfl⟩
          · cases hr
          · rw [ih hrest, ← hroom, hn]
            exact Nat.succ_le_succ_iff.symm

/-! ## The whole connection -/

theorem finish_ok {env : ServeEnv} {c : Client} {att : AttachOutcome} {clean : Bool}
    {r : Except ServeError Unit} {s s' : ServeState} {w : List ServeEffect}
    (h : Ends (finish env c att clean (.ok ())) s r w s') :
    w = [.detach att.session att.epoch clean,
      .event (clientKey env.broker c.id) (.disconnect "clean".toList)] := by
  rcases ends_bind.mp h with ⟨e, he, _⟩ | ⟨_, w₁, t, w₂, hnone, hduties, rfl⟩
  · cases (ends_pure.mp he).1
  · obtain ⟨_, rfl, _⟩ := ends_pure.mp hnone
    obtain ⟨w₃, rfl, hevent⟩ := ends_emit_bind.mp hduties
    obtain ⟨w₄, rfl, hyield⟩ := ends_emit_bind.mp hevent
    obtain ⟨_, rfl, _⟩ := ends_pure.mp hyield
    rfl

theorem finish_error {env : ServeEnv} {c : Client} {att : AttachOutcome} {clean : Bool}
    {e : ServeError} {r : Except ServeError Unit} {s s' : ServeState} {w : List ServeEffect}
    (h : Ends (finish env c att clean (.error e)) s r w s') :
    ∃ w₀, (∀ e ∈ w₀, e.quiet) ∧ w = .fireWill s.will :: (w₀ ++ [.detach att.session att.epoch clean,
      .event (clientKey env.broker c.id) (.disconnect "abnormal".toList)]) := by
  rcases ends_bind.mp h with ⟨e, he, _⟩ | ⟨_, w₁, t, w₂, hfire, hduties, rfl⟩
  · cases (c.fireWill_ends he).1
  · obtain ⟨_, w₀, rfl, hquiet⟩ := c.fireWill_ends hfire
    obtain ⟨w₃, rfl, hevent⟩ := ends_emit_bind.mp hduties
    obtain ⟨w₄, rfl, hyield⟩ := ends_emit_bind.mp hevent
    obtain ⟨_, rfl, _⟩ := ends_fail.mp hyield
    exact ⟨w₀, hquiet, rfl⟩

/-- How `serve` goes on from `attach`: it returns early, or it does its duties. -/
theorem serveClient_ends {env : ServeEnv} {c : Connect} {identity : Str} {s s' : ServeState}
    {r : Except ServeError Unit} {w : List ServeEffect}
    (h : Ends (serveClient env c identity) s r w s') :
    let name := sessionName env c
    let att := env.attach name.1 identity name.2
    ∃ w₀ w₁, (∀ e ∈ w₀, e.quiet) ∧ (∀ e ∈ w₁, e.quiet) ∧
      (s.room ≤ att.backlog.length ∧ w = .attach name.1 identity name.2 :: w₀ ∨
        att.backlog.length < s.room ∧
          (w = .attach name.1 identity name.2 :: (w₀ ++ [.received .disconnect, .abortWriter,
              .detach att.session att.epoch name.2,
              .event (clientKey env.broker name.1) (.disconnect "clean".toList)]) ∨
            w = .attach name.1 identity name.2 :: (w₀ ++ .fireWill c.lastWill :: (w₁ ++
              [.detach att.session att.epoch name.2,
              .event (clientKey env.broker name.1) (.disconnect "abnormal".toList)])))) := by
  intro name att
  have hnil : ∀ e ∈ ([] : List ServeEffect), e.quiet := fun e he => absurd he List.not_mem_nil
  have happ : ∀ {w w' : List ServeEffect}, (∀ e ∈ w, e.quiet) → (∀ e ∈ w', e.quiet) →
      ∀ e ∈ w ++ w', e.quiet := fun h h' e he => (List.mem_append.mp he).elim (h e) (h' e)
  obtain ⟨w₁, rfl, h₁⟩ := ends_emit_bind.mp h
  rcases ends_bind.mp h₁ with ⟨e, he, rfl⟩ | ⟨_, wack, s₁, w₂, hack, h₂, rfl⟩
  · -- the CONNACK does not go through
    rcases send_ends he with ⟨hzero, _, rfl, _⟩ | ⟨n, _, hok, _⟩
    · exact ⟨[], [], hnil, hnil, .inl ⟨hzero ▸ Nat.zero_le _, rfl⟩⟩
    · cases hok
  · rcases send_ends hack with ⟨_, hr, _⟩ | ⟨n, hroom, _, rfl, rfl⟩
    · cases hr
    obtain ⟨w₃, rfl, h₃⟩ := ends_emit_bind.mp h₂
    have hstart : ∀ e ∈ [ServeEffect.send (.connAck att.sessionPresent),
        .event (clientKey env.broker name.1) (.connect env.peer name.2)], e.quiet := by
      intro e he
      rcases List.mem_cons.mp he with rfl | he
      · rfl
      · exact List.mem_singleton.mp he ▸ rfl
    rcases ends_bind.mp h₃ with ⟨e, he, rfl⟩ | ⟨_, wback, s₂, w₄, hback, h₄, rfl⟩
    · -- the backlog does not go through
      have hquiet := (quiet_sendBacklog env.nextPkid att.backlog _ _ _ _ he).2
      refine ⟨_, [], happ hstart hquiet, hnil, .inl ⟨?_, rfl⟩⟩
      rw [hroom]
      refine Nat.lt_of_not_le fun hle => ?_
      cases (sendBacklog_ends he).mpr hle
    · have hquiet := (quiet_sendBacklog env.nextPkid att.backlog _ _ _ _ hback).2
      have hlt : att.backlog.length < s.room := by
        rw [hroom]
        exact Nat.lt_succ_of_le ((sendBacklog_ends hback).mp rfl)
      have h₅ := ends_modifyState_bind.mp h₄
      obtain ⟨result, wrun, s₃, wfin, hrun, hfin, rfl⟩ := ends_attempt_bind.mp h₅
      rcases Client.run_ends _ hrun with ⟨rfl, w₆, rfl, hw₆⟩ | ⟨⟨e, rfl⟩, hwill, hw₆⟩
      · refine ⟨_, [], happ hstart (happ hquiet hw₆), hnil, .inr ⟨hlt, .inl ?_⟩⟩
        rw [finish_ok hfin]
        simp only [List.append_assoc, List.cons_append, List.nil_append]
        rfl
      · obtain ⟨w₅, hw₅, rfl⟩ := finish_error hfin
        refine ⟨_, w₅, happ hstart (happ hquiet hw₆), hw₅, .inr ⟨hlt, .inr ?_⟩⟩
        rw [hwill]
        simp only [List.append_assoc, List.cons_append, List.nil_append]
        rfl

/-- `serve` attaches only for a CONNECT it lets in, and then goes on as `serveClient`. -/
theorem serve_attached {env : ServeEnv} {s s' : ServeState} {r : Except ServeError Unit}
    {w : List ServeEffect} (h : Ends (serve env) s r w s') {clientId identity : Str} {clean : Bool}
    (hatt : .attach clientId identity clean ∈ w) :
    ∃ c identity', env.first = .packet (.connect c) ∧
      Ends (serveClient env c identity') s r w s' := by
  have hfail : ∀ e, Ends (fail e : ServeM Unit) s r w s' → False := by
    intro e h
    obtain ⟨_, rfl, _⟩ := ends_fail.mp h
    exact absurd hatt List.not_mem_nil
  have hrefuse : ∀ code, Ends (refuse env code) s r w s' → False := by
    intro code h
    have hwithin : Within quiet (refuse env code) :=
      .bind (within_require _ _) fun _ => .emit (quiet_allows rfl)
    exact absurd ((hwithin s r w s' h).2 _ hatt) (by simp [ServeEffect.quiet])
  cases hfirst : env.first with
  | timedOut | failed =>
      simp only [serve, hfirst] at h
      exact (hfail _ h).elim
  | packet p =>
      cases p with
      | connect c =>
          simp only [serve, hfirst] at h
          split at h
          · split at h
            · exact ⟨c, _, rfl, h⟩
            · exact (hrefuse _ h).elim
            · exact (hrefuse _ h).elim
          · exact (hrefuse _ h).elim
      | publish _ | pubAck _ | pubRec _ | pubRel _ | pubComp _ | subscribe _ _ | unsubscribe _ _
      | pingReq
      | disconnect | ofServer _ =>
          simp only [serve, hfirst] at h
          exact (hfail _ h).elim

theorem cleanedUp_of_disconnect {env : ServeEnv} {c : Connect} {identity clientId : Str}
    {clean : Bool} {w₀ : List ServeEffect} (hfirst : env.first = .packet (.connect c))
    (hw₀ : ∀ e ∈ w₀, e.quiet) :
    CleanedUp env clientId identity clean (.attach clientId identity clean ::
      (w₀ ++ [.received .disconnect, .abortWriter,
        .detach (env.attach clientId identity clean).session
          (env.attach clientId identity clean).epoch clean,
        .event (clientKey env.broker clientId) (.disconnect "clean".toList)])) := by
  obtain ⟨hf₀, hd₀, he₀, _, _⟩ := quiet_shows hw₀
  have hsaid : SaidDisconnect (.attach clientId identity clean ::
      (w₀ ++ [.received .disconnect, .abortWriter,
        .detach (env.attach clientId identity clean).session
          (env.attach clientId identity clean).epoch clean,
        .event (clientKey env.broker clientId) (.disconnect "clean".toList)])) :=
    List.mem_cons_of_mem _ (List.mem_append_right _ List.mem_cons_self)
  refine ⟨⟨c, hfirst, ?_⟩, ?_, ?_⟩
  · rw [if_pos hsaid]
    show fireWills (w₀ ++ _) = []
    rw [fireWills_append, hf₀]
    rfl
  · show detaches (w₀ ++ _) = _
    rw [detaches_append, hd₀]
    rfl
  · show (disconnects (w₀ ++ _)).map Prod.fst = _
    rw [disconnects_append, he₀]
    rfl

theorem cleanedUp_of_error {env : ServeEnv} {c : Connect} {identity clientId : Str} {clean : Bool}
    {w₀ w₁ : List ServeEffect} (hfirst : env.first = .packet (.connect c)) (hw₀ : ∀ e ∈ w₀, e.quiet)
    (hw₁ : ∀ e ∈ w₁, e.quiet) :
    CleanedUp env clientId identity clean (.attach clientId identity clean ::
      (w₀ ++ .fireWill c.lastWill :: (w₁ ++ [
        .detach (env.attach clientId identity clean).session
          (env.attach clientId identity clean).epoch clean,
        .event (clientKey env.broker clientId) (.disconnect "abnormal".toList)]))) := by
  obtain ⟨hf₀, hd₀, he₀, _, hs₀⟩ := quiet_shows hw₀
  obtain ⟨hf₁, hd₁, he₁, _, hs₁⟩ := quiet_shows hw₁
  have hsaid : ¬ SaidDisconnect (.attach clientId identity clean ::
      (w₀ ++ .fireWill c.lastWill :: (w₁ ++ [
        .detach (env.attach clientId identity clean).session
          (env.attach clientId identity clean).epoch clean,
        .event (clientKey env.broker clientId) (.disconnect "abnormal".toList)]))) := by
    intro hmem
    rcases List.mem_cons.mp hmem with h | hmem
    · cases h
    rcases List.mem_append.mp hmem with h | hmem
    · exact hs₀ h
    rcases List.mem_cons.mp hmem with h | hmem
    · cases h
    rcases List.mem_append.mp hmem with h | hmem
    · exact hs₁ h
    · simp at hmem
  refine ⟨⟨c, hfirst, ?_⟩, ?_, ?_⟩
  · rw [if_neg hsaid]
    show fireWills (w₀ ++ _) = _
    rw [fireWills_append, hf₀]
    show c.lastWill :: fireWills (w₁ ++ _) = _
    rw [fireWills_append, hf₁]
    rfl
  · show detaches (w₀ ++ _) = _
    rw [detaches_append, hd₀]
    show detaches (w₁ ++ _) = _
    rw [detaches_append, hd₁]
    rfl
  · show (disconnects (w₀ ++ _)).map Prod.fst = _
    rw [disconnects_append, he₀]
    show (disconnects (w₁ ++ _)).map Prod.fst = _
    rw [disconnects_append, he₁]
    rfl

/-- **Cleanup**: a connection that attached does its three duties, once each, exactly
if the outbound channel takes the CONNACK and the whole backlog. -/
theorem cleanup_iff (env : ServeEnv) (s s' : ServeState) (r : Except ServeError Unit)
    (w : List ServeEffect) (clientId identity : Str) (clean : Bool)
    (h : Ends (serve env) s r w s') (hatt : .attach clientId identity clean ∈ w) :
    CleanedUp env clientId identity clean w ↔
      (env.attach clientId identity clean).backlog.length < s.room := by
  obtain ⟨c, identity', hfirst, hserve⟩ := serve_attached h hatt
  obtain ⟨w₀, w₁, hw₀, hw₁, hcase⟩ := serveClient_ends hserve
  obtain ⟨_, hd₀, _, ha₀, _⟩ := quiet_shows hw₀
  obtain ⟨_, _, _, ha₁, _⟩ := quiet_shows hw₁
  have hmem : (clientId, identity, clean) ∈ attaches w := List.mem_filterMap.mpr ⟨_, hatt, rfl⟩
  have hname :
      (clientId, identity, clean) = ((sessionName env c).1, identity', (sessionName env c).2) := by
    refine List.mem_singleton.mp ?_
    rcases hcase with ⟨_, rfl⟩ | ⟨_, rfl | rfl⟩
    · change _ ∈ _ :: attaches w₀ at hmem
      rwa [ha₀] at hmem
    · change _ ∈ _ :: attaches (w₀ ++ _) at hmem
      rwa [attaches_append, ha₀] at hmem
    · change _ ∈ _ :: attaches (w₀ ++ .fireWill c.lastWill :: (w₁ ++ _)) at hmem
      rw [attaches_append, ha₀] at hmem
      change _ ∈ _ :: attaches (w₁ ++ _) at hmem
      rwa [attaches_append, ha₁] at hmem
  cases hname
  rcases hcase with ⟨hroom, rfl⟩ | ⟨hroom, rfl | rfl⟩
  · -- an early return: there is no detach
    constructor
    · intro hclean
      have hdetach := hclean.detach
      change detaches w₀ = _ at hdetach
      rw [hd₀] at hdetach
      cases hdetach
    · exact fun hlt => absurd hlt (Nat.not_lt.mpr hroom)
  · exact ⟨fun _ => hroom, fun _ => cleanedUp_of_disconnect hfirst hw₀⟩
  · exact ⟨fun _ => hroom, fun _ => cleanedUp_of_error hfirst hw₀ hw₁⟩

/-- A returning client with one message waiting for it; the loop reads `turns`. -/
def returning (turns : List Turn) : ServeEnv where
  broker := ⟨"n1".toList, [], .new [] .allow, 0, fun _ => 0⟩
  peer := "10.0.0.7:40000".toList
  certIdentity := none
  first := .packet (.connect
    ⟨60, "dev".toList, false, some ⟨"gone".toList, [57], .atMostOnce, false⟩, none⟩)
  admitted := true
  authenticate := fun _ => .ok []
  refusalSent := true
  nanos := 0
  attach := fun _ _ _ => ⟨0, true, 2, [("kiln".toList, [57])]⟩
  nextPkid := fun n => UInt16.ofNat (n + 1)
  turns := turns
  willTime := 0

/-- The connection breaks in the loop, after the backlog: the duties are done. -/
theorem broken_connection_is_cleaned_up :
    ∃ r w s', Ends (serve
      (returning [⟨.failed, true, true, true, fun _ _ => true, fun _ _ => [], 0, fun _ _ => 0⟩]))
        ⟨2, 0, none, []⟩ r w s' ∧
      CleanedUp
        (returning [⟨.failed, true, true, true, fun _ _ => true, fun _ _ => [], 0, fun _ _ => 0⟩])
        "dev".toList [] false w := by
  refine ⟨_, _, _, rfl, ?_⟩
  exact (cleanup_iff
    (returning [⟨.failed, true, true, true, fun _ _ => true, fun _ _ => [], 0, fun _ _ => 0⟩])
    ⟨2, 0, none, []⟩ _ _ _ "dev".toList [] false rfl List.mem_cons_self).mpr (by decide)

/-- It breaks between the CONNACK and the backlog: `serve` returns without a detach,
and neither the will nor the disconnect event goes out. -/
theorem broken_backlog_is_not_cleaned_up :
    ∃ w s', Ends (serve (returning [])) ⟨1, 0, none, []⟩ (.error .writerClosed) w s' ∧
      .attach "dev".toList [] false ∈ w ∧ fireWills w = [] ∧ detaches w = [] ∧ disconnects w = [] ∧
      ¬ CleanedUp (returning []) "dev".toList [] false w := by
  refine ⟨_, _, rfl, List.mem_cons_self, rfl, rfl, rfl, fun h => ?_⟩
  have hdetach := h.detach
  cases hdetach

end Entmoot
