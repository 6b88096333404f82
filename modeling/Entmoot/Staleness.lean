/-
# `Entmoot.Staleness` — that no old value is handed out unmarked

`crates/entmoot-core/src/staleness.rs`, and `deliver_retained` and `flag_if_stale` of
`crates/entmoot-node/src/connection.rs`.  How old a retained value may be is a matter of
the first rule, in the order of the configuration, whose filter matches the topic
(`Bounds`); without one the bound of the node holds, and 0 is no bound at all.

What a connection owes its client of retained values is a list: turn by turn, filter by
filter as granted, entry by entry as the store yielded them, each with the clock that was
read after it was sent (`dues`).  A run of `serve` is `Marked` along that list: it sends
its entries one by one, and directly behind one that is as old as its bound by that clock
stands the note on `$meta`, with the age and the bound; no other note is put there.  A
connection's own writes never look like a note, since no topic translates into that
keyspace (`plain_other`).
-/
import Entmoot.Access
import Entmoot.Routing

namespace Entmoot

open Traced

/-! ## The policy -/

structure StalenessRule where
  filter : Str
  boundSecs : Nat
  deriving DecidableEq, Repr

structure StalenessPolicy where
  rules : List StalenessRule
  defaultSecs : Nat
  deriving DecidableEq, Repr

namespace StalenessPolicy

def new (rules : List StalenessRule) (defaultSecs : Nat) : StalenessPolicy := ⟨rules, defaultSecs⟩

def boundSecs (p : StalenessPolicy) (topicName : Str) : Nat :=
  ((p.rules.find? fun r => topicMatches r.filter topicName).map (·.boundSecs)).getD p.defaultSecs

/-- What bounds the age of a topic's value, rule by rule. -/
inductive Bounds (p : StalenessPolicy) (topicName : Str) : Nat → Prop
  | rule (before after : List StalenessRule) (r : StalenessRule)
      (hrules : p.rules = before ++ r :: after)
      (hbefore : ∀ x ∈ before, topicMatches x.filter topicName = false)
      (hr : topicMatches r.filter topicName = true) : Bounds p topicName r.boundSecs
  | default (hnone : ∀ r ∈ p.rules, topicMatches r.filter topicName = false) :
      Bounds p topicName p.defaultSecs

variable {p : StalenessPolicy} {topicName : Str}

theorem bounds_boundSecs (p : StalenessPolicy) (topicName : Str) :
    p.Bounds topicName (p.boundSecs topicName) := by
  rw [boundSecs]
  cases hfind : p.rules.find? fun r => topicMatches r.filter topicName with
  | none =>
      exact .default fun r hr => Bool.eq_false_iff.mpr (List.find?_eq_none.mp hfind r hr)
  | some r =>
      obtain ⟨hr, before, after, hrules, hbefore⟩ := List.find?_eq_some_iff_append.mp hfind
      exact .rule before after r hrules (fun x hx => by simpa using hbefore x hx) hr

theorem bounds_iff {bound : Nat} : p.Bounds topicName bound ↔ p.boundSecs topicName = bound := by
  constructor
  · intro h
    rw [boundSecs]
    cases h with
    | rule before after r hrules hbefore hr =>
        have hfind : p.rules.find? (fun r => topicMatches r.filter topicName) = some r :=
          List.find?_eq_some_iff_append.mpr
            ⟨hr, before, after, hrules, fun x hx => by simpa using hbefore x hx⟩
        rw [hfind]
        rfl
    | default hnone =>
        have hfind : p.rules.find? (fun r => topicMatches r.filter topicName) = none :=
          List.find?_eq_none.mpr fun r hr => Bool.eq_false_iff.mp (hnone r hr)
        rw [hfind]
        rfl
  · rintro rfl
    exact p.bounds_boundSecs topicName

/-- The value of a topic, written at that time, is as old as its bound or older. -/
def Stale (p : StalenessPolicy) (now : SystemTime) (e : RetainedEntry) (bound : Nat) : Prop :=
  p.Bounds e.1 bound ∧ bound ≠ 0 ∧ bound * 1000000000 ≤ (now - e.2.2).toNat

end StalenessPolicy

/-! ## Marked runs -/

/-- The text of a note, with the age of the value at that time. -/
def staleText (now : SystemTime) (e : RetainedEntry) (bound : Nat) : Bytes :=
  asBytes s!"stale=true age_secs={(now - e.2.2).toNat / 1000000000} bound_secs={bound}".toList

/-- Neither a retained message for the client nor a put into the `$meta` keyspace, lifecycle
events aside. -/
structure Other (scope : Str) (e : ServeEffect) : Prop where
  message : ∀ p, e = .send (.publish p) → p.retain = false
  note : ∀ ke text, e = .bus (.put ke text) → ¬ InKeyspace metaChunk scope ke

/-- The message carries the entry to the client. -/
structure Carries (p : Publish) (e : RetainedEntry) : Prop where
  retain : p.retain = true
  topic : p.topic = e.1
  payload : p.payload = e.2.1

/-- A retained value to be sent, and the clock read after it is. -/
abbrev SentAt := RetainedEntry × SystemTime

/-- A trace that sends the values due one by one, up to those left, with the stale ones
among them marked as stale, each right behind itself, and nothing else. -/
inductive Marked (policy : StalenessPolicy) (scope : Str) :
    List SentAt → List ServeEffect → List SentAt → Prop
  | nil (left : List SentAt) : Marked policy scope left [] left
  | other (e : ServeEffect) {due left : List SentAt} {w : List ServeEffect} (he : Other scope e)
      (hw : Marked policy scope due w left) : Marked policy scope due (e :: w) left
  | fresh (now : SystemTime) (e : RetainedEntry) (p : Publish) {due left : List SentAt}
      {w : List ServeEffect} (hp : Carries p e) (hfresh : ∀ bound, ¬ policy.Stale now e bound)
      (hw : Marked policy scope due w left) :
      Marked policy scope ((e, now) :: due) (.send (.publish p) :: w) left
  | stale (now : SystemTime) (e : RetainedEntry) (p : Publish) (bound : Nat)
      {due left : List SentAt}
      {w : List ServeEffect} (hp : Carries p e) (hstale : policy.Stale now e bound)
      (hw : Marked policy scope due w left) :
      Marked policy scope ((e, now) :: due) (.send (.publish p) ::
        .bus (.put (metaKeyexpr e.1 scope) (staleText now e bound)) :: w) left

namespace Marked

variable {policy : StalenessPolicy} {scope : Str} {due mid left : List SentAt}
  {w w' : List ServeEffect}

theorem append (hw : Marked policy scope due w mid) (hw' : Marked policy scope mid w' left) :
    Marked policy scope due (w ++ w') left := by
  induction hw with
  | nil _ => exact hw'
  | other e he _ ih => exact .other e he (ih hw')
  | fresh now e p hp hfresh _ ih => exact .fresh now e p hp hfresh (ih hw')
  | stale now e p bound hp hstale _ ih => exact .stale now e p bound hp hstale (ih hw')

theorem more (hw : Marked policy scope due w left) (later : List SentAt) :
    Marked policy scope (due ++ later) w (left ++ later) := by
  induction hw with
  | nil _ => exact .nil _
  | other e he _ ih => exact .other e he ih
  | fresh now e p hp hfresh _ ih => exact .fresh now e p hp hfresh ih
  | stale now e p bound hp hstale _ ih => exact .stale now e p bound hp hstale ih

theorem others (left : List SentAt) : ∀ {w : List ServeEffect}, (∀ e ∈ w, Other scope e) →
    Marked policy scope left w left := by
  intro w
  induction w with
  | nil => exact fun _ => .nil left
  | cons e w ih =>
      intro hw
      obtain ⟨he, hrest⟩ := List.forall_mem_cons.mp hw
      exact .other e he (ih hrest)

end Marked

/-- However the program ends, it sends what is due up to some place. -/
def SendsDue {α : Type} (policy : StalenessPolicy) (scope : Str) (due : List SentAt)
    (x : ServeM α) : Prop :=
  ∀ s r w s', Ends x s r w s' → ∃ left, Marked policy scope due w left

namespace SendsDue

variable {policy : StalenessPolicy} {scope : Str} {due : List SentAt} {α β : Type} {x : ServeM α}

theorem after {f : α → ServeM β} (hx : Within (every (Other scope)) x)
    (hf : ∀ a, SendsDue policy scope due (f a)) : SendsDue policy scope due (x >>= f) := by
  intro s r w s' h
  rcases ends_bind.mp h with ⟨_, hend, -⟩ | ⟨a, w₁, u, w₂, hfirst, hrest, rfl⟩
  · exact ⟨due, .others due (hx _ _ _ _ hend)⟩
  · obtain ⟨left, hmarked⟩ := hf a _ _ _ _ hrest
    exact ⟨left, (Marked.others due (hx _ _ _ _ hfirst)).append hmarked⟩

theorem before {f : α → ServeM β} (hx : SendsDue policy scope due x)
    (hf : ∀ a, Within (every (Other scope)) (f a)) : SendsDue policy scope due (x >>= f) := by
  intro s r w s' h
  rcases ends_bind.mp h with ⟨_, hend, -⟩ | ⟨a, w₁, u, w₂, hfirst, hrest, rfl⟩
  · exact hx _ _ _ _ hend
  · obtain ⟨left, hmarked⟩ := hx _ _ _ _ hfirst
    exact ⟨left, hmarked.append (.others left (hf a _ _ _ _ hrest))⟩

theorem attempt (hx : SendsDue policy scope due x) :
    SendsDue policy scope due (Traced.attempt x) := by
  intro s r w s' h
  obtain ⟨r', hend, -⟩ := ends_attempt.mp h
  exact hx _ _ _ _ hend

end SendsDue

/-! ## What is no note -/

theorem retainedKeyexpr_notInMeta (x scope : Str) :
    ¬ InKeyspace metaChunk scope (retainedKeyexpr x scope) := by
  rintro ⟨rest, hrest⟩
  obtain ⟨rest', hrest'⟩ := retainedKeyexpr_inKeyspace x scope
  rw [hrest'] at hrest
  have hchunk : retainedChunk = metaChunk := (List.cons.inj (List.append_cancel_left hrest)).1
  exact absurd hchunk (by decide)

namespace Client

variable (c : Client)

/-- Apart from the retained messages a connection does nothing that looks like one, or like a
note. -/
theorem plain_other {e : ServeEffect} (h : c.Plain e) : Other c.broker.scope e := by
  cases h with
  | reply p hp =>
      exact ⟨fun q hq => absurd (ServeEffect.send.inj hq) (hp q), fun ke text hb => (by cases hb)⟩
  | backlog p hp =>
      refine ⟨fun q hq => ?_, fun ke text hb => (by cases hb)⟩
      cases hq
      exact hp
  | live topicName payload hmay =>
      refine ⟨fun q hq => (by cases hq), fun ke text hb => ?_⟩
      cases hb
      obtain ⟨ke, hke⟩ := hmay.valid
      obtain ⟨-, rfl⟩ := topicToKeyexpr_iff.mp hke
      exact topic_notInKeyspace hke rfl
  | store topicName payload now hmay =>
      refine ⟨fun q hq => (by cases hq), fun ke text hb => ?_⟩
      cases hb
      exact retainedKeyexpr_notInMeta topicName c.broker.scope
  | attach _ | received _ | clear _ _ | event _ | activated _ _ _ | removeSub _ | abortWriter
  | fireWill _
  | detach _ _ _ => exact ⟨fun q hq => (by cases hq), fun ke text hb => (by cases hb)⟩

theorem lets_other : c.Lets (every (Other c.broker.scope)) where
  state _ _ := fun _ he => absurd he List.not_mem_nil
  plain _ h := every_allows (c.plain_other h)

/-! ## Retained messages -/

/-- What is due of the entries of the `k`-th filter granted, from the `j`-th on. -/
def duesOf (t : Turn) (k : Nat) : Nat → List RetainedEntry → List SentAt
  | _, [] => []
  | j, e :: es => (e, t.nowAfter k j) :: duesOf t k (j + 1) es

/-- What is due of the filters granted, from the `k`-th on. -/
def duesFrom (t : Turn) : Nat → List (Str × QoS) → List SentAt
  | _, [] => []
  | k, f :: fs => duesOf t k 0 (t.matching k f.1) ++ duesFrom t (k + 1) fs

/-- What a turn owes the client of retained values. -/
def dues (t : Turn) : List SentAt :=
  match t.read with
  | .packet (.subscribe _ filters) => duesFrom t 0 (c.grants t 0 filters)
  | _ => []

section
variable {policy : StalenessPolicy}
  (hbound : ∀ topicName, c.broker.boundSecs topicName = policy.boundSecs topicName) (t : Turn)
include hbound

/-- `flag_if_stale` puts a note if and only if the value is stale. -/
theorem flagIfStale_ends {now : SystemTime} {e : RetainedEntry} {s s' : ServeState}
    {r : Except ServeError Unit} {w : List ServeEffect}
    (h : Ends (c.flagIfStale now e.1 e.2.2) s r w s') :
    (w = [] ∧ ∀ bound, ¬ policy.Stale now e bound) ∨
    ∃ bound, policy.Stale now e bound ∧
      w = [.bus (.put (metaKeyexpr e.1 c.broker.scope) (staleText now e bound))] := by
  simp only [flagIfStale, hbound] at h
  split at h
  · next hfresh =>
    refine .inl ⟨(ends_pure.mp h).2.1, fun bound hstale => ?_⟩
    obtain ⟨hbounds, hpos, hage⟩ := hstale
    rw [StalenessPolicy.bounds_iff] at hbounds
    subst hbounds
    rcases hfresh with hzero | hyoung
    · exact hpos hzero
    · exact absurd hage (Nat.not_le_of_lt hyoung)
  · next hold =>
    obtain ⟨hpos, hage⟩ := not_or.mp hold
    exact .inr ⟨_, ⟨policy.bounds_boundSecs e.1, hpos, Nat.le_of_not_lt hage⟩, (ends_emit.mp h).2.1⟩

/-- The sending of one retained message, with what follows it. -/
theorem sendRetained_marked (q : QoS) (k : Nat) : ∀ {es : List RetainedEntry} {j : Nat}
    {s s' : ServeState} {r : Except ServeError Unit} {w : List ServeEffect},
    Ends (c.sendRetained t q k j es) s r w s' →
      ∃ left, Marked policy c.broker.scope (duesOf t k j es) w left ∧ (r = .ok () → left = []) := by
  intro es
  induction es with
  | nil =>
      intro j s s' r w h
      obtain ⟨-, rfl, -⟩ := ends_pure.mp h
      exact ⟨[], .nil [], fun _ => rfl⟩
  | cons e es ih =>
      intro j s s' r w h
      have hnone : ∀ {u u' : ServeState} {r' : Except ServeError UInt16} {w₀ : List ServeEffect},
          Ends (c.pkidFor q) u r' w₀ u' → w₀ = [] := by
        intro u u' r' w₀ hpkid
        exact List.eq_nil_iff_forall_not_mem.mpr
          (c.within_pkidFor (every_ofWill (P := fun _ => False)) q u r' w₀ u' hpkid)
      rcases ends_bind.mp h with ⟨_, hpkid, rfl⟩ | ⟨pkid, w₀, u, w, hpkid, hmessage, rfl⟩
      · cases hnone hpkid
        exact ⟨_, .nil _, fun hr => (by cases hr)⟩
      cases hnone hpkid
      rw [List.nil_append]
      rcases ends_bind.mp hmessage with ⟨_, hsend, rfl⟩ | ⟨_, w₁, u, w₂, hsend, hafter, rfl⟩
      · rcases send_ends hsend with ⟨-, -, rfl, -⟩ | ⟨_, -, hr, -⟩
        · exact ⟨_, .nil _, fun hr => (by cases hr)⟩
        · cases hr
      rcases send_ends hsend with ⟨-, hr, -⟩ | ⟨_, -, -, rfl, -⟩
      · cases hr
      -- the note, if any, directly behind the message, and then the other messages
      obtain ⟨w₃, w₄, left, ⟨v, u', r', hflag⟩, hw₄, hleft, rfl⟩ : ∃ w₃ w₄ left,
          (∃ v u' r', Ends (c.flagIfStale (t.nowAfter k j) e.1 e.2.2) v r' w₃ u') ∧
          Marked policy c.broker.scope (duesOf t k (j + 1) es) w₄ left ∧ (r = .ok () → left = []) ∧
            w₂ = w₃ ++ w₄ := by
        rcases ends_bind.mp hafter with ⟨_, hflag, rfl⟩ | ⟨_, w₃, v, w₄, hflag, hsent, rfl⟩
        · exact ⟨w₂, [], _, ⟨_, _, _, hflag⟩, .nil _, fun hr => (by cases hr),
            (List.append_nil w₂).symm⟩
        · obtain ⟨left, hmarked, hleft⟩ := ih hsent
          exact ⟨w₃, w₄, left, ⟨_, _, _, hflag⟩, hmarked, hleft, rfl⟩
      refine ⟨left, ?_, hleft⟩
      rcases c.flagIfStale_ends hbound hflag with ⟨rfl, hfresh⟩ | ⟨bound, hstale, rfl⟩
      · exact .fresh _ e _ ⟨rfl, rfl, rfl⟩ hfresh hw₄
      · exact .stale _ e _ bound ⟨rfl, rfl, rfl⟩ hstale hw₄

theorem deliverAllRetained_marked : ∀ {fs : List (Str × QoS)} {k : Nat} {s s' : ServeState}
    {r : Except ServeError Unit} {w : List ServeEffect},
      Ends (c.deliverAllRetained t k fs) s r w s' →
      ∃ left, Marked policy c.broker.scope (duesFrom t k fs) w left ∧ (r = .ok () → left = []) := by
  intro fs
  induction fs with
  | nil =>
      intro k s s' r w h
      obtain ⟨-, rfl, -⟩ := ends_pure.mp h
      exact ⟨[], .nil [], fun _ => rfl⟩
  | cons f fs ih =>
      intro k s s' r w h
      rcases ends_bind.mp h with ⟨_, hone, rfl⟩ | ⟨_, w₁, u, w₂, hone, hrest, rfl⟩
      · obtain ⟨left, hmarked, -⟩ := c.sendRetained_marked hbound t f.2 k hone
        exact ⟨_, hmarked.more _, fun hr => (by cases hr)⟩
      · obtain ⟨left, hmarked, hleft⟩ := c.sendRetained_marked hbound t f.2 k hone
        cases hleft rfl
        obtain ⟨left', hmarked', hleft'⟩ := ih hrest
        exact ⟨left', (hmarked.more _).append hmarked', hleft'⟩

/-! ## The loop -/

/-- One turn sends what it owes, and all of it if the loop goes on. -/
theorem turn_marked {s s' : ServeState} {r : Except ServeError (Option (Except ServeError Unit))}
    {w : List ServeEffect} (h : Ends (c.turn t) s r w s') :
    ∃ left, Marked policy c.broker.scope (c.dues t) w left ∧ (r = .ok none → left = []) := by
  have hlets := c.lets_other
  rw [turn] at h
  cases hread : t.read with
  | failed | expired | kicked _ =>
      simp only [hread] at h
      obtain ⟨-, rfl, -⟩ := ends_pure.mp h
      exact ⟨_, .nil _, fun hr => (by rw [dues, hread])⟩
  | packet p =>
      simp only [hread] at h
      obtain ⟨w', rfl, hhandle⟩ := ends_emit_bind.mp h
      have hreceived : Other c.broker.scope (.received p) := c.plain_other (.received p)
      have hplain : (∀ pkid fs, p ≠ .subscribe pkid fs) → c.dues t = [] →
          ∃ left, Marked policy c.broker.scope (c.dues t) (.received p :: w') left ∧
            (r = .ok none → left = []) := by
        intro hp hnone
        rw [hnone]
        exact ⟨[], .other _ hreceived
          (.others [] (handlePlain_within hlets t p hp _ _ _ _ hhandle)), fun _ => rfl⟩
      cases p with
      | subscribe pkid filters =>
          have hdues : c.dues t = duesFrom t 0 (c.grants t 0 filters) := by rw [dues, hread]
          rw [hdues]
          rcases ends_bind.mp hhandle with ⟨e, he, rfl⟩ | ⟨out, w₁, u, w₂, hsub, hcodes, rfl⟩
          · cases c.subscribeAll_ends t he
          have hsub' := subscribeAll_within hlets t filters 0 _ _ _ _ hsub
          cases c.subscribeAll_ends t hsub
          -- the codes first, then the retained messages
          rcases ends_bind.mp hcodes with ⟨e, hsend, rfl⟩ | ⟨_, w₃, v, w₄, hsend, hlast, rfl⟩
          · have hsend' := reply_within hlets (fun q h => by cases h) _ _ _ _ hsend
            exact ⟨_, .other _ hreceived ((Marked.others _ hsub').append (.others _ hsend')),
              fun hr => (by cases hr)⟩
          have hsend' := reply_within hlets (fun q h => by cases h) _ _ _ _ hsend
          have hasked : Marked policy _ (duesFrom t 0 (c.grants t 0 filters)) _ _ :=
            .others _ hsub'
          have hbefore := hasked.append (.others _ hsend')
          rw [← List.append_assoc]
          rcases ends_bind.mp hlast with ⟨e, hdeliver, rfl⟩ | ⟨_, w₅, v', w₆, hdeliver, hgo, rfl⟩
          · obtain ⟨left, hmarked, -⟩ := c.deliverAllRetained_marked hbound t hdeliver
            exact ⟨left, .other _ hreceived (hbefore.append hmarked), fun hr => (by cases hr)⟩
          · obtain ⟨left, hmarked, hleft⟩ := c.deliverAllRetained_marked hbound t hdeliver
            obtain ⟨rfl, rfl, -⟩ := ends_pure.mp hgo
            rw [List.append_nil]
            exact ⟨left, .other _ hreceived (hbefore.append hmarked), fun _ => hleft rfl⟩
      | publish _ | pubRel _ | unsubscribe _ _ | pingReq | disconnect | pubAck _ | pubRec _
      | pubComp _
      | connect _ | ofServer _ =>
          exact hplain (fun _ _ heq => by cases heq) (by rw [dues, hread])

theorem loop_marked : ∀ {ts : List Turn} {s s' : ServeState}
    {r : Except ServeError (Except ServeError Unit)} {w : List ServeEffect},
    Ends (c.loop ts) s r w s' →
      ∃ left, Marked policy c.broker.scope (ts.flatMap c.dues) w left := by
  intro ts
  induction ts with
  | nil => exact fun h => absurd h not_ends_wait
  | cons t ts ih =>
      intro s s' r w h
      rw [loop] at h
      rw [List.flatMap_cons]
      rcases ends_bind.mp h with ⟨e, hturn, rfl⟩ | ⟨out, w₁, u, w₂, hturn, hrest, rfl⟩
      · obtain ⟨left, hmarked, -⟩ := c.turn_marked hbound t hturn
        exact ⟨_, hmarked.more _⟩
      obtain ⟨left, hmarked, hleft⟩ := c.turn_marked hbound t hturn
      cases out with
      | some a =>
          obtain ⟨-, rfl, -⟩ := ends_pure.mp hrest
          rw [List.append_nil]
          exact ⟨_, hmarked.more _⟩
      | none =>
          cases hleft rfl
          obtain ⟨left', hmarked'⟩ := ih hrest
          exact ⟨left', (hmarked.more _).append hmarked'⟩

theorem run_marked (ts : List Turn) :
    SendsDue policy c.broker.scope (ts.flatMap c.dues) (c.run ts) :=
  .before (fun _ _ _ _ h => c.loop_marked hbound h) fun _ =>
    .bind (c.lets_other.permits .abortWriter) fun _ => yield_within _

end

end Client

/-! ## Whole runs -/

/-- The connection of a CONNECT that was let in. -/
theorem serveClient_marked {policy : StalenessPolicy} {env : ServeEnv}
    (hbound : ∀ topicName, env.broker.boundSecs topicName = policy.boundSecs topicName)
    (con : Connect) (identity : Str) : SendsDue policy env.broker.scope
      (env.turns.flatMap (clientOf env con identity).dues) (serveClient env con identity) := by
  have hlets := (clientOf env con identity).lets_other
  refine .after (hlets.permits (.attach _)) fun _ =>
    .after (hlets.sends (.reply _ fun q h => by cases h)) fun _ =>
      .after (hlets.permits (.event _)) fun _ =>
        .after (Client.sendBacklog_within hlets _ _) fun _ => ?_
  refine .after (hlets.modifies _) fun _ =>
    .before (.attempt ((clientOf env con identity).run_marked hbound env.turns)) fun result => ?_
  exact .bind (within_onlyIf _ (Client.fireWill_within hlets _)) fun _ =>
    .bind (hlets.permits (.detach _ _ _)) fun _ =>
      .bind (hlets.permits (.event _)) fun _ => Client.yield_within result

/-- **What is old is marked as old.**  Under any policy, in every run of `serve`, whatever
the client sends and wherever the run breaks off: directly behind each retained message
whose age, by the clock read after its send, has reached the bound that the first matching
rule sets for its topic stands the note that says so, with the age and the bound; behind a
fresher one there is none, nor anywhere else. -/
theorem retained_marked {policy : StalenessPolicy} {env : ServeEnv}
    (hbound : ∀ topicName, env.broker.boundSecs topicName = policy.boundSecs topicName)
    {s s' : ServeState} {r : Except ServeError Unit} {w : List ServeEffect}
    (h : Ends (serve env) s r w s') :
    (∃ con user, env.first = .packet (.connect con) ∧ identify env con = .ok user ∧
      ∃ left, Marked policy env.broker.scope
        (env.turns.flatMap (clientOf env con user).dues) w left) ∨
    w = [] ∨ ∃ code, w = [.refused code] := by
  rcases serve_cases h with ⟨con, user, hfirst, -, huser, hserve⟩ | ⟨hw, -⟩
  · exact .inl ⟨con, user, hfirst, huser, serveClient_marked hbound con user s r w s' hserve⟩
  · exact .inr hw

/-- Values of the kiln are old after 5 s, others after 60 s. -/
def kilnPolicy : StalenessPolicy := .new [⟨"kiln/#".toList, 5⟩, ⟨"#".toList, 60⟩] 0

/-- A client that asks for everything, 100 s after `kiln` and 11 s after `oven` was written;
then its will fires. -/
def kilnReader : ServeEnv :=
  { returning [
      ⟨.packet (.subscribe 1 [("#".toList, .atMostOnce)]), true, true, true, fun _ _ => true,
        fun _ _ => [("kiln".toList, [57], 0), ("oven".toList, [58], 90000000000)], 0,
        fun _ j => 100000000000 + j * 1000000000⟩,
      ⟨.failed, true, true, true, fun _ _ => true, fun _ _ => [], 0, fun _ _ => 0⟩] with
    broker := ⟨"n1".toList, [], .new [] .allow, 0, kilnPolicy.boundSecs⟩ }

/-- The puts of a trace. -/
def puts (w : List ServeEffect) : List (Str × Bytes) :=
  w.filterMap fun | .bus (.put ke payload) => some (ke, payload) | _ => none

theorem kilnReader_marked :
    ∃ r w s' left, Ends (serve kilnReader) ⟨9, 0, none, []⟩ r w s' ∧
      Marked kilnPolicy [] [(("kiln".toList, [57], 0), 100000000000),
        (("oven".toList, [58], 90000000000), 101000000000)] w left ∧
      puts w = [("@meta/kiln".toList, asBytes "stale=true age_secs=100 bound_secs=5".toList),
        ("gone".toList, [57])] := by
  obtain ⟨r, w, s', hrun, hsent, hputs⟩ :
      ∃ r w s', Ends (serve kilnReader) ⟨9, 0, none, []⟩ r w s' ∧ w.length = 16 ∧
        puts w = [("@meta/kiln".toList, asBytes "stale=true age_secs=100 bound_secs=5".toList),
          ("gone".toList, [57])] :=
    ⟨_, _, _, rfl, rfl, by decide⟩
  rcases @retained_marked kilnPolicy kilnReader (fun _ => rfl) _ _ _ _ hrun with
    ⟨con, user, hfirst, huser, left, hmarked⟩ | rfl | ⟨code, rfl⟩
  · cases hfirst
    cases huser
    exact ⟨r, w, s', left, hrun, hmarked, hputs⟩
  · cases hsent
  · cases hsent

end Entmoot
