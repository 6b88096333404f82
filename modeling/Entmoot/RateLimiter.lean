/-
# `Entmoot.RateLimiter` — the publish rate of a connection

`crates/entmoot-node/src/connection.rs` 423–450, with exact rationals for its `f64`.
`handle_publish` asks `allow` first, and a refusal ends the connection.

The limiter is a bucket that holds one second's worth of publishes (`allow_eq_take`,
`Lib.Bucket`), so which publish is refused first can be said without it: the first
one that ends a stretch holding more than the rate times its length and the burst of
one second (`refuses_violators`).  That publish ends its connection, and no other does
for the rate (`disconnects_violators`).
-/
import Entmoot.Lib.Bucket
import Entmoot.Replies

namespace Entmoot

open Traced

/-- An instant in seconds. -/
def inSecs (i : Instant) : ℚ := (i : ℚ) / 1000000000

/-- `now.duration_since(earlier).as_secs_f64()`, zero if `earlier` is later. -/
def secsSince (now earlier : Instant) : ℚ := inSecs (now - earlier)

structure RateLimiter where
  rate : ℚ
  tokens : ℚ
  last : Instant
  deriving DecidableEq, Repr

namespace RateLimiter

/-- Made at `now`, full. -/
def new (ratePerSec : Nat) (now : Instant) : RateLimiter := ⟨ratePerSec, ratePerSec, now⟩

/-- One call at `now`: the answer, and the limiter after it. -/
def allow (l : RateLimiter) (now : Instant) : Bool × RateLimiter :=
  if l.rate = 0 then (true, l)  -- unlimited
  else
    let tokens := min (l.tokens + l.rate * secsSince now l.last) l.rate
    if 1 ≤ tokens then (true, { l with tokens := tokens - 1, last := now })
    else (false, { l with tokens := tokens, last := now })

/-! ## Calls in a row -/

/-- The limiter before call `n` of the calls at `ts`. -/
def before (l : RateLimiter) (ts : ℕ → Instant) : ℕ → RateLimiter
  | 0 => l
  | n + 1 => ((l.before ts n).allow (ts n)).2

def allowed (l : RateLimiter) (ts : ℕ → Instant) (n : ℕ) : Bool := ((l.before ts n).allow (ts n)).1

/-! ## The limiter as a bucket -/

def toBucket (l : RateLimiter) : Bucket ℚ := ⟨l.rate, l.rate, l.tokens, inSecs l.last⟩

theorem secsSince_eq {now earlier : Instant} (h : earlier ≤ now) :
    secsSince now earlier = inSecs now - inSecs earlier := by
  rw [secsSince, inSecs, Nat.cast_sub h, sub_div]
  rfl

/-- A call is a call on the bucket, unless there is no limit. -/
theorem allow_eq_take {l : RateLimiter} {now : Instant} (hrate : l.rate ≠ 0)
    (hlast : l.last ≤ now) :
    (l.allow now).1 = (l.toBucket.refill (inSecs now)).hasToken ∧
      (l.allow now).2.toBucket = l.toBucket.take (inSecs now) := by
  have htokens : (l.toBucket.refill (inSecs now)).tokens =
      min (l.tokens + l.rate * secsSince now l.last) l.rate := by
    rw [secsSince_eq hlast]
    rfl
  simp only [allow, if_neg hrate, Bucket.take, Bucket.hasToken, htokens, decide_eq_true_eq]
  split
  · exact ⟨by simp [*], rfl⟩
  · exact ⟨by simp [*], by rw [← htokens]; rfl⟩

theorem allow_rate (l : RateLimiter) (now : Instant) : (l.allow now).2.rate = l.rate := by
  simp only [allow]
  split_ifs <;> rfl

theorem allow_last {l : RateLimiter} (hrate : l.rate ≠ 0) (now : Instant) :
    (l.allow now).2.last = now := by
  simp only [allow, if_neg hrate]
  split_ifs <;> rfl

section

variable {r : Nat} {start : Instant} {ts : ℕ → Instant} (hr : 1 ≤ r) (hts : Monotone ts)
  (hstart : start ≤ ts 0)

theorem before_rate (n : ℕ) : ((new r start).before ts n).rate = r := by
  induction n with
  | zero => rfl
  | succ n ih => rw [before, allow_rate, ih]

include hr in
theorem before_rate_ne (n : ℕ) : ((new r start).before ts n).rate ≠ 0 := by
  rw [before_rate]
  exact Nat.cast_ne_zero.mpr (by omega)

include hr hts hstart in
theorem before_last (n : ℕ) : ((new r start).before ts n).last ≤ ts n := by
  cases n with
  | zero => exact hstart
  | succ n =>
      rw [before, allow_last (before_rate_ne hr n)]
      exact hts n.le_succ

include hr hts hstart in
theorem before_toBucket (n : ℕ) :
    ((new r start).before ts n).toBucket =
      (Bucket.full (r : ℚ) r (inSecs start)).before (fun i => inSecs (ts i)) n := by
  induction n with
  | zero => rfl
  | succ n ih =>
      rw [before, (allow_eq_take (before_rate_ne hr n) (before_last hr hts hstart n)).2, ih]
      rfl

include hr hts hstart in
theorem allowed_eq_gives (n : ℕ) :
    (new r start).allowed ts n =
      (Bucket.full (r : ℚ) r (inSecs start)).gives (fun i => inSecs (ts i)) n := by
  rw [allowed, (allow_eq_take (before_rate_ne hr n) (before_last hr hts hstart n)).1,
    before_toBucket hr hts hstart, Bucket.gives]

end

/-! ## Which publish is refused -/

/-- The calls `j … n` are more than the rate times their stretch of time, plus the burst
of a second. -/
def Violates (r : Nat) (ts : ℕ → Instant) (j n : ℕ) : Prop :=
  (n : ℚ) - j + 1 > r * (1 + inSecs (ts n) - inSecs (ts j))

theorem exceeds_iff {r : Nat} {ts : ℕ → Instant} {j n : ℕ} :
    Bucket.Exceeds (r : ℚ) r (fun i => inSecs (ts i)) j n ↔ Violates r ts j n := by
  rw [Bucket.Exceeds, Violates, gt_iff_lt]
  constructor <;> intro h <;> linarith

theorem inSecs_mono {a b : Instant} (h : a ≤ b) : inSecs a ≤ inSecs b := by
  have : (a : ℚ) ≤ b := Nat.cast_le.mpr h
  rw [inSecs, inSecs]
  linarith

theorem allowed_iff {r : Nat} {start : Instant} {ts : ℕ → Instant} (hr : 1 ≤ r) (hts : Monotone ts)
    (hstart : start ≤ ts 0) {n : ℕ} (h : ∀ i < n, (new r start).allowed ts i = true) :
    (new r start).allowed ts n = true ↔ ∀ j ≤ n, ¬ Violates r ts j n := by
  simp only [allowed_eq_gives hr hts hstart, ← exceeds_iff] at h ⊢
  exact Bucket.gives_iff (Nat.cast_nonneg r) (inSecs_mono hstart) h

/-- No call so far is refused exactly if no stretch so far is too full. -/
theorem all_allowed_iff {r : Nat} {start : Instant} {ts : ℕ → Instant} (hr : 1 ≤ r)
    (hts : Monotone ts) (hstart : start ≤ ts 0) {n : ℕ} :
    (∀ i < n, (new r start).allowed ts i = true) ↔ ∀ i < n, ∀ j ≤ i, ¬ Violates r ts j i := by
  simp only [allowed_eq_gives hr hts hstart, ← exceeds_iff]
  exact Bucket.all_give_iff (Nat.cast_nonneg r) (inSecs_mono hstart)

/-- **The limiter refuses exactly the violators.**  The first call refused is the least
`n` that ends a stretch `j … n` too full for the rate; without one every call is
allowed. -/
theorem refuses_violators {r : Nat} {start : Instant} {ts : ℕ → Instant} (hr : 1 ≤ r)
    (hts : Monotone ts) (hstart : start ≤ ts 0) :
    (∀ n, IsLeast {n | (new r start).allowed ts n = false} n ↔
      IsLeast {n | ∃ j ≤ n, Violates r ts j n} n) ∧
    ((¬ ∃ n, ∃ j ≤ n, Violates r ts j n) → ∀ n, (new r start).allowed ts n = true) := by
  have hrate : (0 : ℚ) ≤ r := Nat.cast_nonneg r
  simp only [allowed_eq_gives hr hts hstart, ← exceeds_iff]
  constructor
  · intro n
    exact Bucket.isLeast_refused_iff hrate (inSecs_mono hstart)
  · intro h
    exact Bucket.gives_of_not_exceeds hrate (inSecs_mono hstart)
      fun i j hj hexc => h ⟨i, j, hj, hexc⟩

theorem two_a_second_refuses_violators :
    (∀ n, IsLeast {n | (new 2 5).allowed (fun i => i + 7) n = false} n ↔
      IsLeast {n | ∃ j ≤ n, Violates 2 (fun i => i + 7) j n} n) ∧
    ((¬ ∃ n, ∃ j ≤ n, Violates 2 (fun i => i + 7) j n) →
      ∀ n, (new 2 5).allowed (fun i => i + 7) n = true) :=
  refuses_violators (by decide) (fun _ _ h => Nat.add_le_add_right h 7) (by decide)

example : (List.range 5).map (allowed (new 2 0) fun n => n * 300000000) =
    [true, true, true, false, true] := by decide +kernel

end RateLimiter

/-! ## The connection -/

/-- An error that is not the limiter's. -/
def NotRate (e : ServeError) : Prop := ∀ rate, e ≠ .publishRate rate

theorem notRate_require (ok : Bool) {e : ServeError} (h : NotRate e) :
    Throws NotRate (require ok e) := by
  rw [require]
  split
  · exact .pure ()
  · exact .fail h

theorem notRate_onlyIf (b : Bool) {x : ServeM Unit} (hx : Throws NotRate x) :
    Throws NotRate (onlyIf b x) := by
  rw [onlyIf]
  split
  · exact hx
  · exact .pure ()

theorem notRate_send (p : Packet) : Throws NotRate (send p) := by
  refine .bind .getState fun s => ?_
  split
  · exact .fail fun _ h => (by cases h)
  · exact .bind (.modifyState _) fun _ => .emit _

namespace Client

variable (c : Client) (t : Turn)

theorem notRate_forward (p : Publish) (ke : Str) : Throws NotRate (c.forward t p ke) :=
  .bind (.emit _) fun _ => .bind (notRate_require _ fun _ h => (by cases h)) fun _ =>
    notRate_onlyIf _ (.bind (.emit _) fun _ => notRate_require _ fun _ h => (by cases h))

theorem notRate_acknowledge (p : Publish) : Throws NotRate (acknowledge p) := by
  rw [acknowledge]
  split
  · exact .pure ()
  · exact notRate_send _
  · exact .bind (.modifyState _) fun _ => notRate_send _

theorem handlePublish_rate {p : Publish} {s s' : ServeState} {w : List ServeEffect} {rate : Nat}
    (h : Ends (c.handlePublish t p) s (.error (.publishRate rate)) w s') : t.allow = false := by
  rcases ends_bind.mp h with ⟨e, he, _⟩ | ⟨_, _, _, _, _, hrest, _⟩
  · obtain ⟨_, _, ⟨_, hr⟩ | ⟨hallow, _⟩⟩ := ends_require he
    · cases hr
    · exact hallow
  · have hfail : ∀ e : TopicError, Throws NotRate (fail (.invalidTopic p.topic e) : ServeM Unit) :=
      fun _ => .fail fun _ h => (by cases h)
    have hdone : ∀ ke : Str, Throws NotRate (do
        onlyIf (c.broker.acl.mayPublish c.identity p.topic) (c.forward t p ke)
        acknowledge p) :=
      fun ke => .bind (notRate_onlyIf _ (c.notRate_forward t p ke)) fun _ => notRate_acknowledge p
    cases hke : topicToKeyexpr p.topic c.broker.scope with
    | error e =>
        simp only [hke] at hrest
        exact absurd rfl (hfail e _ _ _ _ hrest rate)
    | ok ke =>
        simp only [hke] at hrest
        exact absurd rfl (hdone ke _ _ _ _ hrest rate)

theorem handlePublish_refused {p : Publish} {s : ServeState} (h : t.allow = false) :
    Ends (c.handlePublish t p) s (.error (.publishRate c.broker.maxPublishRate)) [] s := by
  refine ends_bind.mpr (.inl ⟨_, ?_, rfl⟩)
  rw [require, if_neg (by rw [h]; exact Bool.false_ne_true)]
  exact ends_fail.mpr ⟨rfl, rfl, rfl⟩

/-! ### Over a whole connection -/

/-- The turns that read a PUBLISH. -/
def publishes (ts : List Turn) : List Turn :=
  ts.filter fun t => match t.read with | .packet (.publish _) => true | _ => false

/-- The publishes get the answers of the limiter, called at `ats`. -/
def Paced (l : RateLimiter) (ats : ℕ → Instant) (ts : List Turn) : Prop :=
  ∀ n t, (publishes ts)[n]? = some t → t.allow = l.allowed ats n

variable {c t}

/-- A turn with a publish ends as its handler does. -/
theorem turn_publish_ends {p : Publish} {s s' : ServeState}
    {r : Except ServeError (Option (Except ServeError Unit))} {w : List ServeEffect}
    (hread : t.read = .packet (.publish p)) (h : Ends (c.turn t) s r w s') :
    ∃ result w' u, Ends (c.handlePublish t p) s result w' u ∧
      (∀ e, result = .error e → r = .ok (some (.error e))) ∧
        (∀ a, result = .ok a → r = .ok none) := by
  rw [turn, hread] at h
  obtain ⟨w', _, hhandle⟩ := ends_emit_bind.mp h
  obtain ⟨result, _, _, _, hpublish, hresult, _⟩ := ends_attempt_bind.mp hhandle
  refine ⟨result, _, _, hpublish, ?_, ?_⟩
  · rintro e rfl
    exact (ends_pure.mp hresult).1
  · rintro a rfl
    exact (ends_pure.mp hresult).1

theorem handlePublish_allowed {p : Publish} {s s' : ServeState} {w : List ServeEffect}
    (h : Ends (c.handlePublish t p) s (.ok ()) w s') : t.allow = true := by
  rcases ends_bind.mp h with ⟨_, _, hr⟩ | ⟨_, _, _, _, hallow, _⟩
  · cases hr
  · obtain ⟨_, _, ⟨hallow, _⟩ | ⟨_, hr⟩⟩ := ends_require hallow
    · exact hallow
    · cases hr

/-- A publish after which the loop went on was let through. -/
theorem allow_of_goes_on {p : Publish} {s s' : ServeState} {w : List ServeEffect}
    (hread : t.read = .packet (.publish p)) (h : Ends (c.turn t) s (.ok none) w s') :
      t.allow = true := by
  obtain ⟨result, _, _, hpublish, herr, _⟩ := turn_publish_ends hread h
  cases result with
  | error e => cases herr e rfl
  | ok a => exact handlePublish_allowed hpublish

/-- Only a publish ends the loop for the rate. -/
theorem handle_notRate {p : ClientPacket} (hp : ∀ q, p ≠ .publish q) :
    Returns (fun r => ∀ rate, r ≠ .ok (some (.error (.publishRate rate)))) (c.handle t p) := by
  have herr : ∀ (e : ServeError) (rate : Nat),
      (.error e : Except ServeError (Option (Except ServeError Unit))) ≠
        .ok (some (.error (.publishRate rate))) := fun _ _ h => (by cases h)
  cases p with
  | publish q => exact absurd rfl (hp q)
  | pubRel pkid =>
      exact .bind herr fun _ => .bind herr fun _ => .pure fun _ h => (by cases h)
  | subscribe pkid filters =>
      exact .bind herr fun _ => .bind herr fun _ => .bind herr fun _ =>
        .pure fun _ h => (by cases h)
  | unsubscribe pkid topics =>
      exact .bind herr fun _ => .bind herr fun _ => .pure fun _ h => (by cases h)
  | pingReq => exact .bind herr fun _ => .pure fun _ h => (by cases h)
  | disconnect => exact .bind herr fun _ => .pure fun _ h => (by cases h)
  | pubAck _ | pubRec _ | pubComp _ | connect _ | ofServer _ => exact .pure fun _ h => (by cases h)

/-- A turn ends the loop for the rate exactly if the limiter refused its publish. -/
theorem turn_rate_iff {s s' : ServeState} {r : Except ServeError (Option (Except ServeError Unit))}
    {w : List ServeEffect} (h : Ends (c.turn t) s r w s') :
    (∃ rate, r = .ok (some (.error (.publishRate rate)))) ↔
      (∃ p, t.read = .packet (.publish p)) ∧ t.allow = false := by
  constructor
  · rintro ⟨rate, rfl⟩
    cases hread : t.read with
    | failed | expired | kicked reason =>
        rw [turn, hread] at h
        cases (ends_pure.mp h).1
    | packet p =>
        by_cases hp : ∃ q, p = .publish q
        · obtain ⟨q, rfl⟩ := hp
          obtain ⟨result, _, _, hpublish, herr, hok⟩ := turn_publish_ends hread h
          cases result with
          | error e =>
              cases herr e rfl
              exact ⟨⟨q, rfl⟩, c.handlePublish_rate t hpublish⟩
          | ok a => cases hok a rfl
        · rw [turn, hread] at h
          obtain ⟨_, _, hhandle⟩ := ends_emit_bind.mp h
          exact absurd rfl (handle_notRate (fun q hq => hp ⟨q, hq⟩) _ _ _ _ hhandle rate)
  · rintro ⟨⟨p, hread⟩, hallow⟩
    obtain ⟨result, _, _, hpublish, herr, _⟩ := turn_publish_ends hread h
    have hrefused := Option.some.inj (hpublish.symm.trans (c.handlePublish_refused t hallow))
    cases hrefused
    exact ⟨_, herr _ rfl⟩

/-- The publishes among the turns, as `Paced` counts them. -/
theorem publishes_getElem {pre : List Turn} (post : List Turn) {n : ℕ}
    (h : n < (publishes pre).length) :
    ∃ u ∈ pre, (∃ p, u.read = .packet (.publish p)) ∧ (publishes (pre ++ post))[n]? = some u := by
  have hmem : (publishes pre)[n] ∈ publishes pre := List.getElem_mem h
  obtain ⟨hpre, hreads⟩ := List.mem_filter.mp hmem
  refine ⟨_, hpre, ?_, ?_⟩
  · split at hreads
    · next p hread => exact ⟨p, hread⟩
    · cases hreads
  · rw [publishes, List.filter_append]
    exact (List.getElem?_append_left h).trans (List.getElem?_eq_getElem h)

theorem publishes_next (pre post : List Turn) {p : Publish}
    (hread : t.read = .packet (.publish p)) :
    (publishes (pre ++ t :: post))[(publishes pre).length]? = some t := by
  have hkeep : publishes (t :: post) = t :: publishes post := by
    simp only [publishes, List.filter_cons, hread, if_true]
  rw [publishes, List.filter_append]
  show (publishes pre ++ publishes (t :: post))[(publishes pre).length]? = some t
  rw [List.getElem?_append_right le_rfl, Nat.sub_self, hkeep]
  rfl

/-- **A connection ends for its rate exactly at the first violator.**  No publish handled
ends too full a stretch; the one after them ends the loop for the rate exactly if it
does. -/
theorem disconnects_violators {rate : Nat} {start : Instant} {ats : ℕ → Instant} (hr : 1 ≤ rate)
    (hats : Monotone ats) (hstart : start ≤ ats 0) {ts : List Turn}
    (hpaced : Paced (RateLimiter.new rate start) ats ts) {s s' : ServeState}
    {r : Except ServeError (Option (Except ServeError Unit))} {w : List ServeEffect}
    (h : Ends (c.turns ts) s r w s') :
    ∃ handled rest, ts = handled ++ rest ∧
      (∀ n < (publishes handled).length, ∀ j ≤ n, ¬ RateLimiter.Violates rate ats j n) ∧
      ((∃ k, r = .ok (some (.error (.publishRate k)))) ↔
        (∃ t p, rest.head? = some t ∧ t.read = .packet (.publish p)) ∧
          ∃ j ≤ (publishes handled).length,
            RateLimiter.Violates rate ats j (publishes handled).length) := by
  obtain ⟨handled, last, _, hhandled, hend⟩ := c.turns_handled h
  have hallowed : ∀ rest, ts = handled.map Prod.fst ++ rest →
      ∀ n < (publishes (handled.map Prod.fst)).length,
        (RateLimiter.new rate start).allowed ats n = true := by
    rintro rest rfl n hn
    obtain ⟨u, hu, ⟨p, hread⟩, hget⟩ := publishes_getElem rest hn
    obtain ⟨d, hd, rfl⟩ := List.mem_map.mp hu
    obtain ⟨_, _, hgoes⟩ := (hhandled d hd).goes_on
    rw [← hpaced n d.1 hget]
    exact allow_of_goes_on hread hgoes
  rcases hend with ⟨rfl, hts, _⟩ | ⟨t, rest, hts, hlast⟩
  · refine ⟨handled.map Prod.fst, [], by rw [hts, List.append_nil], ?_, ?_⟩
    · exact (RateLimiter.all_allowed_iff hr hats hstart).mp (hallowed []
        (by rw [hts, List.append_nil]))
    · exact ⟨fun ⟨_, h⟩ => (by cases h), fun ⟨⟨_, _, h, _⟩, _⟩ => (by cases h)⟩
  · have hbefore := hallowed _ hts
    have hfree := (RateLimiter.all_allowed_iff hr hats hstart).mp hbefore
    refine ⟨handled.map Prod.fst, t :: rest, hts, hfree, ?_⟩
    obtain ⟨_, _, hends⟩ := hlast.ends
    rw [turn_rate_iff hends]
    -- the limiter refuses this publish exactly if it ends too full a stretch
    have hthis : ∀ p, t.read = .packet (.publish p) → (t.allow = false ↔
        ∃ j ≤ (publishes (handled.map Prod.fst)).length,
          RateLimiter.Violates rate ats j (publishes (handled.map Prod.fst)).length) := by
      intro p hread
      have hget := publishes_next (handled.map Prod.fst) rest hread
      rw [← hts] at hget
      rw [hpaced _ t hget, ← Bool.not_eq_true, RateLimiter.allowed_iff hr hats hstart hbefore]
      simp
    constructor
    · rintro ⟨⟨p, hread⟩, hallow⟩
      exact ⟨⟨t, p, rfl, hread⟩, (hthis p hread).mp hallow⟩
    · rintro ⟨⟨u, p, hu, hread⟩, hviolates⟩
      cases hu
      exact ⟨⟨p, hread⟩, (hthis p hread).mpr hviolates⟩

end Client

end Entmoot
