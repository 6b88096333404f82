/-
# `Entmoot.Retention` — how long a node keeps the session of a client that left

A persistent session is kept when its client goes, and the sweeper discards it after
`session_expiry_secs` (`SessionRegistry::sweep`, run every `SWEEP_INTERVAL` by `run` in
`crates/entmoot-node/src/lib.rs`).  The clock is `offline_since`, which `attach_conn`,
`detach_conn`, `evict_slow` and `deliver` write, whoever calls them and in which order
(`Turns`).

Nothing but the sweeper takes such a session while its client stays away: it is in the
registry, its subscriptions forwarding, exactly until the first sweep that comes more than
the expiry after it went offline (`retained_until_expiry`).  And since a sweep leaves no
session that is overdue, none is offline for longer than the expiry and the time since the
last sweep together (`offline_at_most`).
-/
import Entmoot.Forwarders
import Entmoot.Calls

namespace Entmoot

/-- Who is connected to a session, and since when nobody is. -/
structure Presence where
  sink : Option Sender
  offlineSince : Option Instant

namespace SessionRegistry

/-! ## Presence -/

def presence (r : SessionRegistry) (a : Addr) : Option Presence :=
  (r.heap[a]?).map fun s => ⟨s.inner.sink, s.inner.offlineSince⟩

variable {r r' : SessionRegistry} {a b : Addr} {s s' : SessionState}

theorem presence_of_heap (h : r'.heap = r.heap) (b : Addr) : r'.presence b = r.presence b := by
  rw [presence, presence, h]

theorem presence_set (hs : r.heap[a]? = some s) (hheap : r'.heap = r.heap.set a s') (b : Addr) :
    r'.presence b = r.presence b ∨
      b = a ∧ r'.presence b = some ⟨s'.inner.sink, s'.inner.offlineSince⟩ := by
  rw [presence, presence, hheap]
  by_cases hb : a = b
  · subst hb
    rw [Cells.set_self hs]
    exact .inr ⟨rfl, rfl⟩
  · rw [List.getElem?_set_ne hb]
    exact .inl rfl

theorem presence_set_same (hs : r.heap[a]? = some s) (hheap : r'.heap = r.heap.set a s')
    (hsink : s'.inner.sink = s.inner.sink)
    (hoff : s'.inner.offlineSince = s.inner.offlineSince) (b : Addr) :
    r'.presence b = r.presence b := by
  rcases presence_set hs hheap b with hsame | ⟨rfl, hset⟩
  · exact hsame
  · rw [hset, presence, hs, Option.map_some, hsink, hoff]

theorem presence_concat (hheap : r'.heap = r.heap ++ [s]) (hsink : s.inner.sink = none)
    (hoff : s.inner.offlineSince = none) (b : Addr) :
    r'.presence b = r.presence b ∨ r.presence b = none ∧ r'.presence b = some ⟨none, none⟩ := by
  rw [presence, presence, hheap]
  cases hb : r.heap[b]? with
  | some t =>
      rw [Cells.append_of_some hb]
      exact .inl rfl
  | none =>
      cases hb' : (r.heap ++ [s])[b]? with
      | none => exact .inl rfl
      | some t =>
          rcases Cells.concat_cases hb' with hold | ⟨-, rfl⟩
          · rw [hb] at hold
            cases hold
          · rw [Option.map_some, hsink, hoff]
            exact .inr ⟨rfl, rfl⟩

theorem presence_discardAt (r : SessionRegistry) (a b : Addr) :
    (r.discardAt a).presence b = r.presence b := by
  rw [discardAt]
  cases hs : r.heap[a]? with
  | none => rfl
  | some s => exact @presence_set_same r _ a s s.abortSubs.1 hs rfl rfl rfl b

theorem presence_sweep (r : SessionRegistry) (expiry : Duration) (now : Instant) (b : Addr) :
    (r.sweep expiry now).presence b = r.presence b := by
  have hall : ∀ (gone : List (Str × Addr)) (r : SessionRegistry),
      (gone.foldl (fun r e => r.discardAt e.2) r).presence b = r.presence b := by
    intro gone
    induction gone with
    | nil => exact fun r => rfl
    | cons e gone ih => exact fun r => (ih _).trans (presence_discardAt r e.2 b)
  exact hall _ _

theorem presence_detach (r : SessionRegistry) (a : Addr) (epoch : Nat) (clean : Bool)
    (now : Instant) (b : Addr) :
    (r.detach a epoch clean now).presence b = r.presence b ∨
      b = a ∧ (r.detach a epoch clean now).presence b = some ⟨none, some now⟩ := by
  rw [detach]
  cases hs : r.heap[a]? with
  | none => exact .inl rfl
  | some s =>
      have hset : (r.setSession a (s.detachConn epoch now).1).presence b = r.presence b ∨
          b = a ∧ (r.setSession a (s.detachConn epoch now).1).presence b =
            some ⟨none, some now⟩ := by
        by_cases hepoch : s.inner.epoch ≠ epoch
        · refine .inl (presence_set_same hs rfl ?_ ?_ b) <;> rw [SessionState.detachConn,
            if_pos hepoch]
        · have hwritten :=
            @presence_set r (r.setSession a (s.detachConn epoch now).1) a s _ hs rfl b
          rw [SessionState.detachConn, if_neg hepoch] at hwritten ⊢
          exact hwritten
      have hleft : ∀ r : SessionRegistry, ((r.discardAt a).removeOwn a).presence b =
          r.presence b := by
        intro r
        rw [← presence_discardAt r a b, removeOwn]
        split
        · rfl
        · split
          · exact presence_of_heap rfl b
          · rfl
      dsimp only
      split
      · rw [hleft]
        exact hset
      · exact hset

theorem presence_attachLookup (r : SessionRegistry) (c : Str) (clean : Bool) (b : Addr) :
    (r.attachLookup c clean).registry.presence b = r.presence b ∨
      r.presence b = none ∧ (r.attachLookup c clean).registry.presence b = some ⟨none, none⟩ := by
  rw [attachLookup.eq_def]
  split
  · exact .inl rfl
  · next a _ =>
    split
    · exact .inl rfl
    · next existing hs =>
      -- the replaced session is only kicked
      have hkicked :
          ((r.setSession a existing.kickCurrent.1.abortSubs.1).removeState c).presence b =
          r.presence b := by
        refine presence_set_same hs rfl ?_ ?_ b
        · show existing.kickCurrent.1.inner.sink = _
          rw [SessionState.kickCurrent]
          split <;> rfl
        · show existing.kickCurrent.1.inner.offlineSince = _
          rw [SessionState.kickCurrent]
          split <;> rfl
      rw [← hkicked]
      exact presence_concat rfl rfl rfl b
  · exact presence_concat rfl rfl rfl b
  · exact presence_concat rfl rfl rfl b

theorem presence_attachConnAt [HashOrder] (r : SessionRegistry) (a : Addr) (identity : Str)
    (sink : Sender) (kick : Notify) (b : Addr) :
      (r.attachConnAt a identity sink kick).1.presence b = r.presence b ∨
      b = a ∧ (r.attachConnAt a identity sink kick).1.presence b = some ⟨some sink, none⟩ := by
  rw [attachConnAt]
  cases hs : r.heap[a]? with
  | none => exact .inl rfl
  | some s =>
      have hinner := s.attachConn_inner r.disk identity sink kick
      refine (presence_set hs rfl b).imp_right fun hset => ⟨hset.1, hset.2.trans ?_⟩
      rw [hinner]
      rfl

/-- A delivery finds the session connected and leaves it so, or finds that it is not any more. -/
theorem presence_deliver (r : SessionRegistry) (a : Addr) (m : Msg) (q : QoS)
    (send : SessionState.SendResult) (now : Instant) (b : Addr) :
      (r.deliver a m q send now).presence b = r.presence b ∨
      b = a ∧ (∃ tx t, r.presence b = some ⟨some tx, t⟩) ∧
        (r.deliver a m q send now).presence b = some ⟨none, some now⟩ := by
  rw [deliver]
  cases hs : r.heap[a]? with
  | none => exact .inl rfl
  | some s =>
      have hoffline : ∀ t : SessionState, (t.deliverOffline r.disk m q).session.inner.sink =
          t.inner.sink ∧
          (t.deliverOffline r.disk m q).session.inner.offlineSince = t.inner.offlineSince := by
        intro t
        rw [SessionState.deliverOffline]
        split <;> exact ⟨rfl, rfl⟩
      cases hsink : s.inner.sink with
      | none =>
          refine .inl (presence_set_same hs rfl ?_ ?_ b)
          · simp only [SessionState.deliver, hsink]
            exact (hoffline s).1.trans hsink
          · simp only [SessionState.deliver, hsink]
            exact (hoffline s).2
      | some tx =>
          have hpublish : (s.publishFor m q).1.inner = s.inner := by
            rw [SessionState.publishFor]
            split
            · show s.nextPkid.1.inner = s.inner
              rw [SessionState.nextPkid]
              split <;> rfl
            · rfl
          -- after a failed send the sink is gone, and the time is noted
          have hfailed : ∀ t : SessionState, t.inner.sink = some tx ∨
              t.inner.sink = none ∧ t.inner.offlineSince = some now →
              (t.clearSink tx now).inner.sink = none ∧
                (t.clearSink tx now).inner.offlineSince = some now := by
            intro t ht
            rw [SessionState.clearSink]
            rcases ht with ht | ⟨ht, hoff⟩
            · rw [if_pos ht]
              exact ⟨rfl, rfl⟩
            · rw [if_neg (by rw [ht]; exact fun h => (by cases h))]
              exact ⟨ht, hoff⟩
          have hlost : ∀ t : SessionState, (t.clearSink tx now).inner.sink = none ∧
                (t.clearSink tx now).inner.offlineSince = some now →
              ∀ r' : SessionRegistry,
                r'.heap = r.heap.set a ((t.clearSink tx now).deliverOffline r.disk m q).session →
                r'.presence b = r.presence b ∨ b = a ∧ (∃ tx t, r.presence b = some ⟨some tx, t⟩) ∧
                  r'.presence b = some ⟨none, some now⟩ := by
            intro t ht r' hheap
            refine (presence_set hs hheap b).imp_right fun hset =>
              ⟨hset.1, ⟨tx, s.inner.offlineSince, ?_⟩, ?_⟩
            · rw [hset.1, presence, hs, Option.map_some, hsink]
            · rw [hset.2, (hoffline _).1, (hoffline _).2, ht.1, ht.2]
          cases send with
          | ok =>
              refine .inl (presence_set_same hs rfl ?_ ?_ b)
              · simp only [SessionState.deliver, hsink, hpublish]
              · simp only [SessionState.deliver, hsink, hpublish]
          | closed =>
              refine hlost (s.publishFor m q).1 (hfailed _ (.inl ?_)) _ ?_
              · rw [hpublish, hsink]
              · simp only [SessionState.deliver, hsink]
                rfl
          | timeout =>
              refine hlost ((s.publishFor m q).1.evictSlow tx now).1 (hfailed _ (.inr ?_)) _ ?_
              · rw [SessionState.evictSlow, if_neg (by rw [hpublish, hsink]; exact fun h => h rfl)]
                exact ⟨rfl, rfl⟩
              · simp only [SessionState.deliver, hsink]
                rfl

theorem presence_removeSub [HashOrder] (r : SessionRegistry) (a : Addr) (f : Str) (b : Addr) :
    (r.removeSub a f).presence b = r.presence b := by
  rw [removeSub]
  cases hs : r.heap[a]? with
  | none => rfl
  | some s => exact @presence_set_same r _ a s (s.removeSub r.disk f).1 hs rfl rfl rfl b

end SessionRegistry

/-! ## The transitions -/

/-- What an operation may do to the presence of the session at an address. -/
inductive Turns (b : Addr) : TaskAction → Option Presence → Option Presence → Prop where
  | same (act : TaskAction) (p : Option Presence) : Turns b act p p
  | made (c : Str) (clean : Bool) : Turns b (.lookup c clean) none (some ⟨none, none⟩)
  | restored (path : Path) : Turns b (.rehydrate path) none (some ⟨none, none⟩)
  | online (identity : Str) (sink : Sender) (kick : Notify) (p : Option Presence) :
      Turns b (.connect b identity sink kick) p (some ⟨some sink, none⟩)
  | offline (epoch : Nat) (clean : Bool) (now : Instant) (p : Option Presence) :
      Turns b (.detach b epoch clean now) p (some ⟨none, some now⟩)
  | lost (m : Msg) (q : QoS) (send : SessionState.SendResult) (now : Instant) (tx : Sender)
      (t : Option Instant) :
      Turns b (.deliver b m q send now) (some ⟨some tx, t⟩) (some ⟨none, some now⟩)

/-- The time an operation reads. -/
def TaskAction.time : TaskAction → Option Instant
  | .detach _ _ _ now | .sweep _ now | .deliver _ _ _ _ now => some now
  | _ => none

namespace Turns

variable {b : Addr} {act : TaskAction} {p p' : Option Presence}

theorem dated (h : Turns b act p p') {t : Instant} (ht : p'.bind Presence.offlineSince = some t) :
    p.bind Presence.offlineSince = some t ∨ act.time = some t := by
  cases h with
  | same => exact .inl ht
  | made => cases ht
  | restored => cases ht
  | online => cases ht
  | offline => exact .inr ht
  | lost => exact .inr ht

theorem isSome (h : Turns b act p p') (hp : p.isSome) : p'.isSome := by
  cases h with
  | same => exact hp
  | _ => rfl

theorem sane (h : Turns b act p p') (hp : ∀ tx t, p = some ⟨some tx, t⟩ → t = none) :
    ∀ tx t, p' = some ⟨some tx, t⟩ → t = none := by
  intro tx t hp'
  cases h with
  | same => exact hp tx t hp'
  | made => cases hp'
  | restored => cases hp'
  | online =>
      cases hp'
      rfl
  | offline => cases hp'
  | lost => cases hp'

end Turns

namespace TaskWorld

section
variable [HashOrder] {declare : Str → Bool} {acl : Acl} {scope : Str} {w w' : TaskWorld}
  {act : TaskAction}

theorem presence_subscribe (w : TaskWorld) (a : Addr) (f : Str) (q : QoS) (b : Addr) :
    (w.subscribe declare scope a f q).registry.presence b = w.registry.presence b := by
  rcases w.subscribe_cases declare scope a f q with ⟨s, hs, -, hreg, -⟩ | ⟨hsame, -⟩
  · exact SessionRegistry.presence_set_same hs (congrArg SessionRegistry.heap hreg) rfl rfl b
  · rw [hsame]

theorem presence_rehydrateOne (w : TaskWorld) (path : Path) (c identity : Str)
    (filters : List (Str × QoS)) (b : Addr) :
    (w.rehydrateOne declare acl scope path c identity filters).registry.presence b =
      (w.revive path c identity).registry.presence b := by
  have hfold : ∀ (a : Addr) (es : List (Str × QoS)) (w : TaskWorld),
      (es.foldl (TaskWorld.replaySub declare acl scope identity a) w).registry.presence b =
        w.registry.presence b := by
    intro a es
    induction es with
    | nil => exact fun w => rfl
    | cons e es ih =>
        intro w
        refine (ih _).trans ?_
        rw [replaySub]
        split
        · exact presence_subscribe w a e.1 e.2 b
        · rfl
  rw [← hfold w.registry.heap.length filters (w.revive path c identity)]
  refine SessionRegistry.presence_of_heap ?_ b
  rw [rehydrateOne]
  dsimp only
  split <;> rfl

/-- **Every operation** makes one of these transitions, in every session. -/
theorem turns (hs : w.step declare acl scope act = some w') (b : Addr) :
    Turns b act (w.registry.presence b) (w'.registry.presence b) := by
  cases hs
  have hsame : ∀ {p p' : Option Presence}, p' = p → Turns b act p p' := by
    rintro p p' rfl
    exact .same act p'
  cases act with
  | lookup c clean =>
      rcases w.registry.presence_attachLookup c clean b with h | ⟨hnone, hnew⟩
      · exact hsame h
      · rw [hnone]
        exact hnew ▸ .made c clean
  | connect a identity sink kick =>
      rcases w.registry.presence_attachConnAt a identity sink kick b with h | ⟨rfl, hset⟩
      · exact hsame h
      · exact hset ▸ .online identity sink kick _
  | subscribe a f q => exact hsame (presence_subscribe w a f q b)
  | unsubscribe a f => exact hsame (w.registry.presence_removeSub a f b)
  | detach a epoch clean now =>
      rcases w.registry.presence_detach a epoch clean now b with h | ⟨rfl, hset⟩
      · exact hsame h
      · exact hset ▸ .offline epoch clean now _
  | sweep expiry now => exact hsame (w.registry.presence_sweep expiry now b)
  | deliver a m q send now =>
      rcases w.registry.presence_deliver a m q send now b with h | ⟨rfl, ⟨tx, t, hwas⟩, hset⟩
      · exact hsame h
      · rw [hwas]
        exact hset ▸ .lost m q send now tx t
  | rehydrate path =>
      rw [perform]
      split
      · next c identity filters _ =>
        rw [presence_rehydrateOne]
        have hrevived : (w.revive path c identity).registry.presence b = w.registry.presence b ∨
            _ :=
          SessionRegistry.presence_concat rfl rfl rfl b
        rcases hrevived with h | ⟨hnone, hnew⟩
        · exact hsame h
        · rw [hnone]
          exact hnew ▸ .restored path
      · exact .same _ _

/-- Only a session that was not there before is entered in the map. -/
theorem entered (hs : w.step declare acl scope act = some w') :
    (∀ c b, w'.registry.sessions.lookup c = some b → w.registry.sessions.lookup c = some b) ∨
      ∃ c₀ b₀, w.registry.presence b₀ = none ∧ (w'.registry.presence b₀).isSome ∧
        ∀ c b, w'.registry.sessions.lookup c = some b →
          w.registry.sessions.lookup c = some b ∨ c = c₀ ∧ b = b₀ := by
  cases hs
  have hinsert : ∀ {m : AList fun _ : Str => Addr} {c₀ c : Str}
      {b₀ b : Addr}, (m.insert c₀ b₀).lookup c = some b →
      m.lookup c = some b ∨ c = c₀ ∧ b = b₀ := by
    intro m c₀ c b₀ b h
    rw [Keyed.lookup_insert] at h
    split at h
    · next heq => exact .inr ⟨heq, (Option.some.inj h).symm⟩
    · exact .inl h
  have hfree : ∀ r : SessionRegistry, r.presence r.heap.length = none := by
    intro r
    rw [SessionRegistry.presence, List.getElem?_eq_none (Nat.le_refl _)]
    rfl
  cases act with
  | lookup c clean =>
      have hmade : ∀ (r : SessionRegistry) (qp sp : Option Path), r.sessions = w.registry.sessions →
          r.heap.length = w.registry.heap.length →
          ∃ c₀ b₀, w.registry.presence b₀ = none ∧ ((r.addSession c qp sp).1.presence b₀).isSome ∧
            ∀ c' b, (r.addSession c qp sp).1.sessions.lookup c' = some b →
              w.registry.sessions.lookup c' = some b ∨ c' = c₀ ∧ b = b₀ := by
        intro r qp sp hmap hlength
        refine ⟨c, r.heap.length, by rw [hlength]; exact hfree _, ?_, fun c' b hb =>
          hmap ▸ hinsert hb⟩
        rw [SessionRegistry.presence, SessionRegistry.addSession, List.getElem?_concat_length]
        rfl
      show (∀ c' b, (w.registry.attachLookup c clean).registry.sessions.lookup c' = some b → _) ∨
        ∃ c₀ b₀, _ ∧ ((w.registry.attachLookup c clean).registry.presence b₀).isSome ∧
          ∀ c' b, (w.registry.attachLookup c clean).registry.sessions.lookup c' = some b → _
      rw [SessionRegistry.attachLookup.eq_def]
      split
      · next hc =>
        refine .inl fun c' b hb => ?_
        rcases hinsert hb with hold | ⟨rfl, rfl⟩
        · exact hold
        · exact hc
      · split
        · exact .inl fun _ _ h => h
        · exact .inr (hmade _ none none rfl List.length_set)
      · exact .inr (hmade _ none none rfl rfl)
      · exact .inr (hmade _ _ _ rfl rfl)
  | connect a identity sink kick =>
      exact .inl (@Tended.attachConnAt (fun _ _ => False) _ w.registry a identity sink
        kick).sessions
  | subscribe a f q =>
      refine .inl fun c b hb => ?_
      rw [← (subscribe_elsewhere declare scope w a f q).1]
      exact hb
  | unsubscribe a f => exact .inl (@Tended.removeSub (fun _ _ => False) _ w.registry a f).sessions
  | detach a epoch clean now =>
      exact .inl (@Tended.detach (fun _ _ => False) w.registry a epoch clean now).sessions
  | sweep expiry now => exact .inl (@Tended.sweep (fun _ _ => False) w.registry expiry now).sessions
  | deliver a m q send now =>
      exact .inl (@Tended.deliver (fun _ _ => False) w.registry a m q send now).sessions
  | rehydrate path =>
      rw [perform]
      split
      · next c identity filters _ =>
        refine .inr ⟨c, w.registry.heap.length, hfree _, ?_, fun c' b hb => ?_⟩
        · rw [presence_rehydrateOne, SessionRegistry.presence, revive, List.getElem?_concat_length]
          rfl
        · rw [(w.rehydrateOne_elsewhere path c identity filters).1] at hb
          exact hinsert hb
      · exact .inl fun _ _ h => h

end

/-! ## One client per session -/

/-- Every session in the map is there, is one client's, and is not offline while somebody is
connected. -/
structure Sole (w : TaskWorld) : Prop where
  held : ∀ c a, w.registry.sessions.lookup c = some a → (w.registry.presence a).isSome
  once : ∀ c c' a, w.registry.sessions.lookup c = some a →
    w.registry.sessions.lookup c' = some a → c = c'
  sane : ∀ a tx t, w.registry.presence a = some ⟨some tx, t⟩ → t = none

section
variable [HashOrder] {declare : Str → Bool} {acl : Acl} {scope : Str} {w w' : TaskWorld}
  {act : TaskAction}

theorem Sole.step (h : Sole w) (hs : w.step declare acl scope act = some w') : Sole w' := by
  have hturns := turns hs
  refine ⟨fun c a hc => ?_, fun c c' a hc hc' => ?_, fun a => (hturns a).sane (h.sane a)⟩
  · rcases entered hs with hold | ⟨c₀, b₀, -, hthere, hnew⟩
    · exact (hturns a).isSome (h.held c a (hold c a hc))
    · rcases hnew c a hc with hc | ⟨rfl, rfl⟩
      · exact (hturns a).isSome (h.held c a hc)
      · exact hthere
  · rcases entered hs with hold | ⟨c₀, b₀, hfree, -, hnew⟩
    · exact h.once c c' a (hold c a hc) (hold c' a hc')
    · -- an address just made is nobody's yet
      have hnone : ∀ c'', w.registry.sessions.lookup c'' ≠ some b₀ := by
        intro c'' hc''
        have := h.held c'' b₀ hc''
        rw [hfree] at this
        cases this
      rcases hnew c a hc with hc | ⟨rfl, rfl⟩
      · rcases hnew c' a hc' with hc' | ⟨rfl, rfl⟩
        · exact h.once c c' a hc hc'
        · exact absurd hc (hnone c)
      · rcases hnew c' a hc' with hc' | ⟨rfl, -⟩
        · exact absurd hc' (hnone c')
        · rfl

end

/-! ## While the client stays away -/

/-- The operation is not one of a connection of `c`, nor one on the session at `a`. -/
def Undisturbed (c : Str) (a : Addr) (w : TaskWorld) : TaskAction → Prop
  | .lookup c' _ => c' ≠ c
  | .connect b _ _ _ => b ≠ a
  | .subscribe b _ _ => b ≠ a
  | .unsubscribe b _ => b ≠ a
  | .detach b _ _ _ => b ≠ a
  | .rehydrate path => ∀ c' identity filters, loadSubs w.registry.disk path =
      .ok (c', identity, filters) → c' ≠ c
  | _ => True

end TaskWorld

/-- A sweep for which a session offline since `since` is overdue. -/
def TaskAction.overdue (since : Instant) : TaskAction → Bool
  | .sweep expiry now => elapsed now since > expiry
  | _ => false

theorem SessionRegistry.expiredAt_of_presence {r : SessionRegistry} {a : Addr}
    {sink : Option Sender} {since : Instant} (h : r.presence a = some ⟨sink, some since⟩)
    (expiry : Duration) (now : Instant) :
    r.expiredAt expiry now a = decide (elapsed now since > expiry) := by
  obtain ⟨s, hs, hp⟩ := Option.map_eq_some_iff.mp h
  have hoff : s.inner.offlineSince = some since := (Presence.mk.inj hp).2
  simp only [expiredAt, hs, SessionState.expired, hoff]

namespace TaskWorld

section
variable [HashOrder] {declare : Str → Bool} {acl : Acl} {scope : Str} {w w' : TaskWorld}
  {act : TaskAction}
  {c : Str} {a : Addr} {since : Instant}

/-- The session of a client that is away. -/
def Away (a : Addr) (since : Instant) (w : TaskWorld) : Prop :=
  w.registry.presence a = some ⟨none, some since⟩

theorem Away.step (h : Away a since w) (hquiet : w.Undisturbed c a act)
    (hs : w.step declare acl scope act = some w') : Away a since w' := by
  have hturn := turns hs a
  rw [show w.registry.presence a = _ from h] at hturn
  generalize hp : w'.registry.presence a = p' at hturn
  cases hturn with
  | same => exact hp
  | online => exact absurd rfl hquiet
  | offline => exact absurd rfl hquiet

/-- Unless it is overdue, nothing takes it from the map or ends a subscription of it. -/
theorem Away.stays (h : Away a since w) (hquiet : w.Undisturbed c a act)
    (hsole : ∀ c', w.registry.sessions.lookup c' = some a → c' = c)
    (hdue : act.overdue since = false) (hs : w.step declare acl scope act = some w') :
    (w.registry.sessions.lookup c = some a → w'.registry.sessions.lookup c = some a) ∧
      ∀ f, w'.registry.seat (a, f) = w.registry.seat (a, f) := by
  cases hs
  cases act with
  | lookup c' clean =>
      have hother : ¬ (w.registry.sessions.lookup c' = some a ∧ clean = true) :=
        fun hc' => hquiet (hsole c' hc'.1)
      refine ⟨fun hc => SessionRegistry.lookup_attachLookup hc hother, fun f => ?_⟩
      refine (congrFun (w.registry.seat_attachLookup c' clean) (a, f)).trans ?_
      exact if_neg hother
  | connect b identity sink kick =>
      refine ⟨fun hc => ?_, fun f => congrFun (w.registry.seat_attachConnAt b identity sink kick)
        (a, f)⟩
      show (w.registry.attachConnAt b identity sink kick).1.sessions.lookup c = some a
      rw [SessionRegistry.attachConnAt]
      split <;> exact hc
  | subscribe b f q =>
      obtain ⟨hmap, hseat⟩ := subscribe_elsewhere declare scope w b f q
      refine ⟨fun hc => ?_, fun f' => hseat (a, f') (Ne.symm hquiet)⟩
      show (w.subscribe declare scope b f q).registry.sessions.lookup c = some a
      rw [hmap]
      exact hc
  | unsubscribe b f =>
      refine ⟨fun hc => ?_, fun f' => ?_⟩
      · show (w.registry.removeSub b f).sessions.lookup c = some a
        rw [SessionRegistry.removeSub]
        split <;> exact hc
      · refine (congrFun (w.registry.seat_removeSub b f) (a, f')).trans (if_neg fun heq => ?_)
        exact hquiet (Prod.mk.inj heq).1.symm
  | detach b epoch clean now =>
      rcases w.registry.seat_detach b epoch clean now with ⟨hseat, hmap, -⟩ | ⟨hseat, hmap, -⟩
      · refine ⟨fun hc => ?_, fun f => congrFun hseat (a, f)⟩
        show (w.registry.detach b epoch clean now).sessions.lookup c = some a
        rw [hmap]
        exact hc
      · exact ⟨hmap c a (Ne.symm hquiet), fun f =>
          (congrFun hseat (a, f)).trans (if_neg (Ne.symm hquiet))⟩
  | sweep expiry now =>
      have hlive : w.registry.expiredAt expiry now a = false :=
        (SessionRegistry.expiredAt_of_presence h expiry now).trans hdue
      refine ⟨fun hc => (w.registry.lookup_sweep expiry now c a).mpr ⟨hc, hlive⟩, fun f => ?_⟩
      refine (congrFun (w.registry.seat_sweep expiry now) (a, f)).trans (if_neg fun hgone => ?_)
      obtain ⟨e, he, hea⟩ := List.mem_map.mp hgone
      have hexpired : w.registry.expiredAt expiry now e.2 = true := (List.mem_filter.mp he).2
      rw [show e.2 = a from hea, hlive] at hexpired
      cases hexpired
  | deliver b m q send now =>
      refine ⟨fun hc => ?_, fun f => congrFun (w.registry.seat_deliver b m q send now) (a, f)⟩
      show (w.registry.deliver b m q send now).sessions.lookup c = some a
      rw [SessionRegistry.deliver]
      split <;> exact hc
  | rehydrate path =>
      rw [perform]
      split
      · next c' identity filters hload =>
        obtain ⟨hmap, hseat⟩ :=
          @rehydrateOne_elsewhere _ declare acl scope w path c' identity filters
        refine ⟨fun hc => ?_, fun f => hseat (a, f) fun ha => ?_⟩
        · rw [hmap, AList.lookup_insert_ne (Ne.symm (hquiet c' identity filters hload))]
          exact hc
        · change w.registry.presence a = some _ at h
          rw [show a = _ from ha, SessionRegistry.presence, List.getElem?_eq_none (Nat.le_refl _)]
            at h
          cases h
      · exact ⟨fun hc => hc, fun _ => rfl⟩

/-- A sweep takes one that is overdue, and ends its subscriptions. -/
theorem Away.leaves (h : Away a since w) (hdue : act.overdue since = true)
    (hs : w.step declare acl scope act = some w') :
    (∀ c', w'.registry.sessions.lookup c' ≠ some a) ∧
      ((∃ c', w.registry.sessions.lookup c' = some a) ∨ (∀ f, w.registry.seat (a, f) = none) →
        ∀ f, w'.registry.seat (a, f) = none) := by
  cases hs
  cases act with
  | sweep expiry now =>
      have hexpired : w.registry.expiredAt expiry now a = true :=
        (SessionRegistry.expiredAt_of_presence h expiry now).trans hdue
      refine ⟨fun c' hc' => ?_, fun hgone f => ?_⟩
      · have hlive := ((w.registry.lookup_sweep expiry now c' a).mp hc').2
        rw [hexpired] at hlive
        cases hlive
      · refine (congrFun (w.registry.seat_sweep expiry now) (a, f)).trans ?_
        split
        · rfl
        · next hkept =>
          rcases hgone with ⟨c', hc'⟩ | hnone
          · exact absurd (List.mem_map.mpr
              ⟨(c', a), List.mem_filter.mpr ⟨Keyed.mem_pairs.mpr hc', hexpired⟩, rfl⟩) hkept
          · exact hnone f
  | _ => cases hdue

/-- Taken from the map, with no subscription left. -/
structure Gone (a : Addr) (since : Instant) (w : TaskWorld) : Prop where
  away : Away a since w
  unmapped : ∀ c, w.registry.sessions.lookup c ≠ some a
  silent : ∀ f, w.registry.seat (a, f) = none

theorem Gone.step (h : Gone a since w) (hquiet : w.Undisturbed c a act)
    (hs : w.step declare acl scope act = some w') : Gone a since w' := by
  refine ⟨h.away.step hquiet hs, fun c' hc' => ?_, fun f => ?_⟩
  · rcases entered hs with hold | ⟨c₀, b₀, hfree, -, hnew⟩
    · exact h.unmapped c' (hold c' a hc')
    · rcases hnew c' a hc' with hc' | ⟨-, rfl⟩
      · exact h.unmapped c' hc'
      · have haway := h.away
        rw [Away, hfree] at haway
        cases haway
  · cases hdue : act.overdue since with
    | true => exact (h.away.leaves hdue hs).2 (.inr h.silent) f
    | false =>
        have hstays := h.away.stays hquiet (fun c' hc' => absurd hc' (h.unmapped c')) hdue hs
        exact (hstays.2 f).trans (h.silent f)

/-- Registered, with the subscriptions in `seat`. -/
structure Kept (c : Str) (a : Addr) (since : Instant) (seat : Str → Option Task) (w : TaskWorld) :
    Prop where
  sole : Sole w
  away : Away a since w
  mapped : w.registry.sessions.lookup c = some a
  seated : ∀ f, w.registry.seat (a, f) = seat f

/-- One step: the session stays as it is, or the sweep that finds it overdue takes it. -/
theorem Kept.step {seat : Str → Option Task} (h : Kept c a since seat w)
    (hquiet : w.Undisturbed c a act) (hs : w.step declare acl scope act = some w') :
    (act.overdue since = false ∧ Kept c a since seat w') ∨ act.overdue since = true ∧
      Gone a since w' := by
  have haway := h.away.step hquiet hs
  cases hdue : act.overdue since with
  | false =>
      have hstays := h.away.stays hquiet (fun c' hc' => h.sole.once c' c a hc' h.mapped) hdue hs
      exact .inl ⟨rfl, h.sole.step hs, haway, hstays.1 h.mapped, fun f =>
        (hstays.2 f).trans (h.seated f)⟩
  | true =>
      have hleaves := h.away.leaves hdue hs
      exact .inr ⟨rfl, haway, hleaves.1, hleaves.2 (.inl ⟨c, h.mapped⟩)⟩

/-! ## Runs -/

theorem Kept.exec {seat : Str → Option Task} : ∀ {acts : List TaskAction} {w w' : TaskWorld},
    Kept c a since seat w → Run.Meets (TaskWorld.step declare acl scope) (Undisturbed c a) w acts →
      Run.exec (TaskWorld.step declare acl scope) w acts = some w' →
      ((∀ act ∈ acts, act.overdue since = false) ∧ Kept c a since seat w') ∨
        (∃ act ∈ acts, act.overdue since = true) ∧ Gone a since w' := by
  intro acts
  induction acts with
  | nil =>
      intro w w' h _ hrun
      cases hrun
      exact .inl ⟨fun act hact => absurd hact List.not_mem_nil, h⟩
  | cons act acts ih =>
      intro w w' h hquiet hrun
      obtain ⟨t, ht, hrest⟩ := Run.exec_cons.mp hrun
      rcases h.step hquiet.head ht with ⟨hdue, hkept⟩ | ⟨hdue, hgone⟩
      · rcases ih hkept (hquiet.tail ht) hrest with ⟨hnone, hkept⟩ | ⟨⟨late, hmem, hlate⟩, hgone⟩
        · exact .inl ⟨List.forall_mem_cons.mpr ⟨hdue, hnone⟩, hkept⟩
        · exact .inr ⟨⟨late, List.mem_cons_of_mem act hmem, hlate⟩, hgone⟩
      · refine .inr ⟨⟨act, List.mem_cons_self, hdue⟩, ?_⟩
        exact Run.exec_invariant_of_meets (fun _ _ _ hg hq hs => hg.step hq hs) acts hgone
          (hquiet.tail ht) hrest

variable {maxQueue : Nat} {slowGrace : Option Duration} {queueDir : Bool} {disk : Disk}
  {before acts : List TaskAction} {w₀ : TaskWorld} {s : SessionState}

/-- No session in the map was overdue at `τ`. -/
def Swept (expiry : Duration) (τ : Instant) (w : TaskWorld) : Prop :=
  ∀ c a since, w.registry.sessions.lookup c = some a →
    (w.registry.presence a).bind Presence.offlineSince = some since → elapsed τ since ≤ expiry

theorem Swept.step {expiry : Duration} {τ : Instant} (h : Swept expiry τ w)
    (hclock : ∀ t, act.time = some t → τ ≤ t) (hs : w.step declare acl scope act = some w') :
    Swept expiry τ w' := by
  intro c a since hc hsince
  rcases (turns hs a).dated hsince with hold | htime
  · rcases entered hs with hmap | ⟨c₀, b₀, hfree, -, hnew⟩
    · exact h c a since (hmap c a hc) hold
    · rcases hnew c a hc with hc | ⟨-, rfl⟩
      · exact h c a since hc hold
      · rw [hfree] at hold
        cases hold
  · rw [elapsed, Nat.sub_eq_zero_of_le (hclock since htime)]
    exact Nat.zero_le expiry

/-- **No session is offline for much longer than the expiry.**  After a sweep, whatever
happened before it and happens after it: a session in the registry has been offline for no
longer than the expiry and the time since that sweep together.  So with a sweep in every
`SWEEP_INTERVAL` none outlives its expiry by more than the interval. -/
theorem offline_at_most {expiry interval : Duration} {τ now : Instant}
    (hrun : Run.exec (step declare acl scope) w₀ (before ++ .sweep expiry τ :: acts) = some w)
    (hclock : ∀ act ∈ acts, ∀ t, act.time = some t → τ ≤ t) (hnow : now ≤ τ + interval)
    (hc : w.registry.sessions.lookup c = some a) (hs : w.registry.heap[a]? = some s)
    (hoff : s.inner.offlineSince = some since) : elapsed now since ≤ expiry + interval := by
  obtain ⟨w₁, -, hrun⟩ := Run.exec_append.mp hrun
  obtain ⟨w₂, hsweep, hrun⟩ := Run.exec_cons.mp hrun
  have hfirst : Swept expiry τ w₂ := by
    cases hsweep
    intro c a since hc hsince
    obtain ⟨-, hlive⟩ := (w₁.registry.lookup_sweep expiry τ c a).mp hc
    rw [show (w₁.perform declare acl scope (.sweep expiry τ)).registry.presence a =
      w₁.registry.presence a from
      w₁.registry.presence_sweep expiry τ a] at hsince
    obtain ⟨p, hp, hsince⟩ := Option.bind_eq_some_iff.mp hsince
    obtain ⟨sink, off⟩ := p
    cases hsince
    rw [SessionRegistry.expiredAt_of_presence hp] at hlive
    exact Nat.le_of_not_lt (of_decide_eq_false hlive)
  have hlast : Swept expiry τ w := by
    have hsteps : ∀ {acts : List TaskAction} {w w' : TaskWorld}, Swept expiry τ w →
        (∀ act ∈ acts, ∀ t, act.time = some t → τ ≤ t) →
        Run.exec (step declare acl scope) w acts = some w' → Swept expiry τ w' := by
      intro acts
      induction acts with
      | nil =>
          intro w w' h _ hrun
          cases hrun
          exact h
      | cons act acts ih =>
          intro w w' h hclock hrun
          obtain ⟨t, ht, hrest⟩ := Run.exec_cons.mp hrun
          obtain ⟨hfirst, hclock⟩ := List.forall_mem_cons.mp hclock
          exact ih (h.step hfirst ht) hclock hrest
    exact hsteps hfirst hclock hrun
  have hsince : (w.registry.presence a).bind Presence.offlineSince = some since := by
    rw [SessionRegistry.presence, hs, Option.map_some, Option.bind_some, hoff]
  calc now - since ≤ τ + interval - since := Nat.sub_le_sub_right hnow since
    _ ≤ τ - since + interval := add_tsub_le_tsub_add
    _ ≤ expiry + interval := Nat.add_le_add_right (hlast c a since hc hsince) interval

end

/-- A client that subscribes, and goes at 100. -/
def visitor : List TaskAction :=
  [.lookup "dev".toList false, .connect 0 [] ⟨1⟩ ⟨1⟩, .subscribe 0 "kiln".toList .atLeastOnce,
    .detach 0 1 false 100]

theorem visitor_stays_ninety :
    ∃ w s, Run.exec (@step .asStored (fun _ => true) (.new [] .allow) [])
      (start (.new 10 none false ∅))
        (visitor ++ .sweep 60 120 :: [.lookup "oven".toList true]) = some w ∧
      w.registry.sessions.lookup "dev".toList = some 0 ∧ w.registry.heap[0]? = some s ∧
      s.inner.offlineSince = some 100 ∧ elapsed 150 100 ≤ 60 + 30 := by
  obtain ⟨w, hrun, hc, s, hs, hoff⟩ :
    ∃ w, Run.exec (@step .asStored (fun _ => true) (.new [] .allow) [])
      (start (.new 10 none false ∅))
        (visitor ++ .sweep 60 120 :: [.lookup "oven".toList true]) = some w ∧
      w.registry.sessions.lookup "dev".toList = some 0 ∧ ∃ s, w.registry.heap[0]? = some s ∧
      s.inner.offlineSince = some 100 := ⟨_, rfl, rfl, _, rfl, rfl⟩
  refine ⟨w, s, hrun, hc, hs, hoff, @offline_at_most .asStored _ _ _ _ _ _ _ _ _ _ _ _ _ _ _ hrun ?_
    ?_ hc hs hoff⟩
  · intro act hact t ht
    rw [List.mem_singleton.mp hact] at ht
    cases ht
  · decide

end TaskWorld

end Entmoot
