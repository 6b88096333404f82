/-
# `Lib.PubSub` — what a bus may do

Sources put messages on a bus, and it hands them to the subscriptions, each declared with
a key; queries are answered over it as well.  A bus is only known by the events it lets
happen after others (`Bus`), and nothing is said here of how it works.  What a program
may rely on are two laws, each a hypothesis of the results that need it:

    `Genuine`   it hands out what was put, where the key accepts it, and passes on answers given
    `Ordered`   of one source a subscription is handed ever later messages

`Ordered` leaves a bus free to lose messages, to hold them back for as long as it likes,
to hand out what was put before the subscription was declared, and to mix sources.  It
follows that what is handed out of a source is a part of what it put, each message once
(`handed_sublist`), and if the bus loses none of what is put from some point on, it ends
with all of that (`handed_ends`).  `Bus.lawful` is the bus that does all these laws permit.
-/
import Entmoot.Lib.Cells
import Mathlib.Data.List.Basic

namespace PubSub

/-- An event on a bus with sources `N`, keys `K` and messages `M`. -/
inductive BusEvent (N K M : Type*) where
  | put (n : N) (m : M)
  | declare (key : K)
  /-- subscription `i` is handed a message of a source, the `p`-th it put -/
  | hand (i : Nat) (n : N) (p : Nat) (m : M)
  deriving DecidableEq

/-- What a bus lets happen after the events so far, and which answer it lets reach a query
after those that were given. -/
structure Bus (N K M R : Type*) where
  may : List (BusEvent N K M) → BusEvent N K M → Bool
  mayAnswer : List R → R → Bool

variable {N K M R : Type*} [DecidableEq N]

/-! ## Histories -/

/-- What a source put, oldest first. -/
def putsOf (n : N) (h : List (BusEvent N K M)) : List M :=
  h.filterMap fun | .put n' m => if n' = n then some m else none | _ => none

/-- The keys of the subscriptions, oldest first. -/
def keys (h : List (BusEvent N K M)) : List K :=
  h.filterMap fun | .declare key => some key | _ => none

/-- What a subscription was handed of a source, each with its place there. -/
def handed (i : Nat) (n : N) (h : List (BusEvent N K M)) : List (Nat × M) :=
  h.filterMap fun
    | .hand i' n' p m => if i' = i ∧ n' = n then some (p, m) else none
    | _ => none

/-- What it was handed of all sources. -/
def taken (i : Nat) (h : List (BusEvent N K M)) : List (N × M) :=
  h.filterMap fun | .hand i' n _ m => if i' = i then some (n, m) else none | _ => none

theorem putsOf_append (n : N) (h h' : List (BusEvent N K M)) :
    putsOf n (h ++ h') = putsOf n h ++ putsOf n h' := List.filterMap_append ..

omit [DecidableEq N] in
theorem keys_append (h h' : List (BusEvent N K M)) : keys (h ++ h') = keys h ++ keys h' :=
  List.filterMap_append ..

theorem handed_append (i : Nat) (n : N) (h h' : List (BusEvent N K M)) :
    handed i n (h ++ h') = handed i n h ++ handed i n h' := List.filterMap_append ..

omit [DecidableEq N] in
theorem taken_append (i : Nat) (h h' : List (BusEvent N K M)) :
    taken i (h ++ h') = taken i h ++ taken i h' := List.filterMap_append ..

omit [DecidableEq N] in
theorem taken_hand (i i' : Nat) (n : N) (p : Nat) (m : M) :
    taken i' [(.hand i n p m : BusEvent N K M)] = if i = i' then [(n, m)] else [] := by
  by_cases hi : i = i' <;> simp [taken, hi]

theorem mem_putsOf {n : N} {h : List (BusEvent N K M)} {m : M} : m ∈ putsOf n h ↔ .put n m ∈ h := by
  rw [putsOf, List.mem_filterMap]
  constructor
  · rintro ⟨e, he, hm⟩
    cases e with
    | put n' m' =>
        dsimp only at hm
        split at hm
        · next hn =>
          cases hm
          exact hn ▸ he
        · cases hm
    | declare _ | hand _ _ _ _ => cases hm
  · exact fun hput => ⟨_, hput, if_pos rfl⟩

omit [DecidableEq N] in
theorem mem_keys {h : List (BusEvent N K M)} {key : K} : key ∈ keys h ↔ .declare key ∈ h := by
  rw [keys, List.mem_filterMap]
  constructor
  · rintro ⟨e, he, hkey⟩
    cases e with
    | declare key' =>
        cases hkey
        exact he
    | put _ _ | hand _ _ _ _ => cases hkey
  · exact fun hdeclare => ⟨_, hdeclare, rfl⟩

theorem mem_handed {i : Nat} {n : N} {h : List (BusEvent N K M)} {p : Nat} {m : M} :
    (p, m) ∈ handed i n h ↔ .hand i n p m ∈ h := by
  rw [handed, List.mem_filterMap]
  constructor
  · rintro ⟨e, he, hm⟩
    cases e with
    | hand i' n' p' m' =>
        dsimp only at hm
        split at hm
        · next hin =>
          cases hm
          exact hin.1 ▸ hin.2 ▸ he
        · cases hm
    | declare _ | put _ _ => cases hm
  · exact fun hhand => ⟨_, hhand, if_pos ⟨rfl, rfl⟩⟩

omit [DecidableEq N] in
theorem mem_taken {i : Nat} {n : N} {h : List (BusEvent N K M)} {m : M} :
    (n, m) ∈ taken i h ↔ ∃ p, .hand i n p m ∈ h := by
  rw [taken, List.mem_filterMap]
  constructor
  · rintro ⟨e, he, hm⟩
    cases e with
    | hand i' n' p' m' =>
        dsimp only at hm
        split at hm
        · next hi =>
          cases hm
          exact ⟨p', hi ▸ he⟩
        · cases hm
    | declare _ | put _ _ => cases hm
  · exact fun ⟨p, hhand⟩ => ⟨_, hhand, if_pos rfl⟩

/-- The messages of one source. -/
def fromNode {A : Type*} (n : N) (es : List (N × A)) : List A :=
  es.filterMap fun e => if e.1 = n then some e.2 else none

theorem fromNode_taken (i : Nat) (n : N) (h : List (BusEvent N K M)) :
    fromNode n (taken i h) = (handed i n h).map Prod.snd := by
  rw [fromNode, taken, handed, List.filterMap_filterMap, List.map_filterMap]
  refine List.filterMap_congr fun e _ => ?_
  cases e with
  | put _ _ | declare _ => rfl
  | hand i' n' p m =>
      by_cases hi : i' = i
      · by_cases hn : n' = n
        · simp [hi, hn]
        · simp [hi, hn]
      · simp [hi]

/-! ## Places in a list -/

section Places
variable {l : List M} {es : List (Nat × M)} {k : Nat}

/-- Elements at ever later places are a part of the list. -/
theorem sublist_of_places :
    ∀ {es : List (Nat × M)} {k : Nat}, es.Pairwise (fun e e' => e.1 < e'.1) →
    (∀ e ∈ es, k ≤ e.1 ∧ l[e.1]? = some e.2) → (es.map Prod.snd).Sublist (l.drop k) := by
  intro es
  induction es with
  | nil => exact fun _ _ => List.nil_sublist _
  | cons e es ih =>
      intro k hpair hplace
      obtain ⟨hlt, hrest⟩ := List.pairwise_cons.mp hpair
      obtain ⟨⟨hk, he⟩, hes⟩ := List.forall_mem_cons.mp hplace
      have htail := ih hrest fun e' he' => ⟨hlt e' he', (hes e' he').2⟩
      obtain ⟨hlen, hget⟩ := List.getElem?_eq_some_iff.mp he
      have hdrop : (e.2 :: l.drop (e.1 + 1)).Sublist (l.drop k) := by
        rw [← hget, List.getElem_cons_drop]
        exact List.drop_sublist_drop_left l hk
      exact (htail.cons_cons e.2).trans hdrop

/-- Such elements, if they include all from a place on that are wanted, end with these. -/
theorem ends_of_places {want : M → Bool} : ∀ {ms : List M} {k : Nat} {es : List (Nat × M)},
    es.Pairwise (fun e e' => e.1 < e'.1) →
    (∀ e ∈ es, k ≤ e.1 → ms[e.1 - k]? = some e.2 ∧ want e.2 = true) →
    (∀ (p : Nat) m, ms[p]? = some m → want m = true → (k + p, m) ∈ es) →
    ∃ lo hi, es = lo ++ hi ∧ hi.map Prod.snd = ms.filter want ∧ (∀ e ∈ lo, e.1 < k) ∧
      ∀ e ∈ hi, k ≤ e.1 := by
  intro ms
  induction ms with
  | nil =>
      intro k es _ hplace _
      refine ⟨es, [], (List.append_nil es).symm, rfl, fun e he => ?_, fun e he => (by cases he)⟩
      refine Nat.lt_of_not_le fun hk => ?_
      cases (hplace e he hk).1
  | cons m ms ih =>
      intro k es hpair hplace hall
      have hlater : ∀ e ∈ es, k + 1 ≤ e.1 → ms[e.1 - (k + 1)]? = some e.2 ∧ want e.2 = true := by
        intro e he hk
        have hold := hplace e he (Nat.le_of_succ_le hk)
        rwa [show e.1 - k = (e.1 - (k + 1)) + 1 by omega, List.getElem?_cons_succ] at hold
      have hmore : ∀ (p : Nat) m', ms[p]? = some m' → want m' = true → (k + 1 + p, m') ∈ es := by
        intro p m' hp hw
        have hold := hall (p + 1) m' (by rwa [List.getElem?_cons_succ]) hw
        rwa [show k + (p + 1) = k + 1 + p by omega] at hold
      obtain ⟨lo, hi, rfl, hhi, hlo, hge⟩ := ih hpair hlater hmore
      by_cases hw : want m = true
      · -- the element at the place `k` is the last of those before the others
        obtain ⟨before, after, rfl⟩ : ∃ before after, lo = before ++ (k, m) :: after := by
          refine List.append_of_mem ((List.mem_append.mp (hall 0 m rfl hw)).resolve_right
            fun hin => ?_)
          exact absurd (hge _ hin) (Nat.not_succ_le_self k)
        have hsorted := (List.pairwise_append.mp hpair).1
        obtain ⟨-, htail, hcross⟩ := List.pairwise_append.mp hsorted
        have hafter : after = [] := by
          refine List.eq_nil_iff_forall_not_mem.mpr fun e he => ?_
          have hlt := (List.pairwise_cons.mp htail).1 e he
          have hle := hlo e (List.mem_append_right _ (.tail _ he))
          exact absurd hlt (Nat.not_lt_of_le (Nat.le_of_lt_succ hle))
        subst hafter
        refine ⟨before, (k, m) :: hi, by rw [List.append_assoc]; rfl, ?_, ?_, ?_⟩
        · rw [List.map_cons, hhi, List.filter_cons_of_pos hw]
        · exact fun e he => hcross e he _ (.head _)
        · exact List.forall_mem_cons.mpr ⟨Nat.le_refl k, fun e he => Nat.le_of_succ_le (hge e he)⟩
      · refine ⟨lo, hi, rfl, ?_, fun e he => ?_, fun e he => Nat.le_of_succ_le (hge e he)⟩
        · rw [hhi, List.filter_cons_of_neg hw]
        · refine Nat.lt_of_le_of_ne (Nat.le_of_lt_succ (hlo e he)) fun hk => ?_
          obtain ⟨hplaced, hwant⟩ := hplace e (List.mem_append_left _ he) (Nat.le_of_eq hk.symm)
          rw [hk, Nat.sub_self, List.getElem?_cons_zero, Option.some.injEq] at hplaced
          exact hw (hplaced ▸ hwant)

end Places

/-! ## Buses -/

namespace Bus

/-- The histories of a bus. -/
inductive Possible (b : Bus N K M R) : List (BusEvent N K M) → Prop
  | nil : Possible b []
  | snoc {h : List (BusEvent N K M)} {e : BusEvent N K M} (hpast : Possible b h)
      (hmay : b.may h e = true) : Possible b (h ++ [e])

/-- Nothing is made up: what is handed out was put before, and is wanted; and what a query
gets was answered. -/
structure Genuine (accepts : K → M → Bool) (b : Bus N K M R) : Prop where
  put : ∀ h i n p m, b.Possible h → b.may h (.hand i n p m) = true → (putsOf n h)[p]? = some m
  wanted : ∀ h i n p m, b.Possible h → b.may h (.hand i n p m) = true →
    ∃ key, (keys h)[i]? = some key ∧ accepts key m = true
  answered : ∀ rs r, b.mayAnswer rs r = true → r ∈ rs

/-- The order of each source is kept, and nothing is doubled. -/
def Ordered (b : Bus N K M R) : Prop :=
  ∀ h i n p m, b.Possible h → b.may h (.hand i n p m) = true → ∀ e ∈ handed i n h, e.1 < p

section
variable {accepts : K → M → Bool} {b : Bus N K M R} {h : List (BusEvent N K M)} {i p : Nat} {n : N}
  {m : M}

theorem Genuine.put_of_hand (hb : b.Genuine accepts) (hh : b.Possible h)
    (hhand : .hand i n p m ∈ h) :
    (putsOf n h)[p]? = some m := by
  induction hh with
  | nil => cases hhand
  | @snoc h e hpast hmay ih =>
      rw [putsOf_append]
      rcases List.mem_append.mp hhand with hold | hnew
      · exact Cells.append_of_some (ih hold)
      · cases List.mem_singleton.mp hnew
        exact Cells.append_of_some (hb.put _ _ _ _ _ hpast hmay)

theorem Genuine.wanted_of_hand (hb : b.Genuine accepts) (hh : b.Possible h)
    (hhand : .hand i n p m ∈ h) : ∃ key, (keys h)[i]? = some key ∧ accepts key m = true := by
  induction hh with
  | nil => cases hhand
  | @snoc h e hpast hmay ih =>
      rw [keys_append]
      rcases List.mem_append.mp hhand with hold | hnew
      · obtain ⟨key, hkey, hacc⟩ := ih hold
        exact ⟨key, Cells.append_of_some hkey, hacc⟩
      · cases List.mem_singleton.mp hnew
        obtain ⟨key, hkey, hacc⟩ := hb.wanted _ _ _ _ _ hpast hmay
        exact ⟨key, Cells.append_of_some hkey, hacc⟩

theorem Ordered.places (hb : b.Ordered) (hh : b.Possible h) (i : Nat) (n : N) :
    (handed i n h).Pairwise fun e e' => e.1 < e'.1 := by
  induction hh with
  | nil => exact .nil
  | @snoc h e hpast hmay ih =>
      rw [handed_append]
      refine List.pairwise_append.mpr ⟨ih, ?_, fun x hx y hy => ?_⟩
      · cases e with
        | put _ _ | declare _ => exact .nil
        | hand i' n' p m =>
            rw [handed, List.filterMap_cons]
            split
            · exact .nil
            · exact List.pairwise_singleton _ _
      · have hnew := List.mem_singleton.mp (mem_handed.mp hy)
        exact hb _ i n y.1 y.2 hpast (hnew ▸ hmay) x hx

/-- What a subscription is handed of a source is a part of what the source put that its key
accepts: each message once, in the order they were put. -/
theorem handed_sublist (hg : b.Genuine accepts) (ho : b.Ordered) (hh : b.Possible h) {key : K}
    (hkey : (keys h)[i]? = some key) (n : N) :
    ((handed i n h).map Prod.snd).Sublist ((putsOf n h).filter (accepts key)) := by
  have hplaced : ∀ e ∈ handed i n h, 0 ≤ e.1 ∧ (putsOf n h)[e.1]? = some e.2 :=
    fun e he => ⟨Nat.zero_le _, hg.put_of_hand hh (mem_handed.mp he)⟩
  have hpart := (sublist_of_places (ho.places hh i n) hplaced).filter (accepts key)
  rw [List.drop_zero] at hpart
  have hwanted : ∀ m ∈ (handed i n h).map Prod.snd, accepts key m = true := by
    intro m hm
    obtain ⟨e, he, rfl⟩ := List.mem_map.mp hm
    obtain ⟨key', hkey', hacc⟩ := hg.wanted_of_hand hh (mem_handed.mp he)
    rw [hkey] at hkey'
    cases hkey'
    exact hacc
  rwa [List.filter_eq_self.mpr hwanted] at hpart

end

/-- Of what the source puts later the bus loses nothing that the key accepts. -/
def Lossless (accepts : K → M → Bool) (key : K) (i : Nat) (n : N)
    (h later : List (BusEvent N K M)) : Prop :=
  ∀ (p : Nat) m, (putsOf n later)[p]? = some m → accepts key m = true →
    .hand i n ((putsOf n h).length + p) m ∈ later

instance [DecidableEq M] (accepts : K → M → Bool) (key : K) (i : Nat) (n : N)
    (h later : List (BusEvent N K M)) : Decidable (Lossless accepts key i n h later) :=
  decidable_of_iff (∀ e ∈ (putsOf n later).zipIdx, accepts key e.1 = true →
    ((putsOf n h).length + e.2, e.1) ∈ handed i n later) <| by
      constructor
      · intro hall p m hp hacc
        exact mem_handed.mp (hall (m, p) (List.mk_mem_zipIdx_iff_getElem?.mpr hp) hacc)
      · intro hall e he hacc
        exact mem_handed.mpr (hall e.2 e.1 (List.mk_mem_zipIdx_iff_getElem?.mp he) hacc)

/-- Where the bus loses nothing, the subscription is handed all of it in the end. -/
theorem handed_ends {accepts : K → M → Bool} {b : Bus N K M R} (hg : b.Genuine accepts)
    (ho : b.Ordered) {h later : List (BusEvent N K M)} (hh : b.Possible (h ++ later))
    {i : Nat} {key : K} (hkey : (keys (h ++ later))[i]? = some key) {n : N}
    (hall : Lossless accepts key i n h later) :
    (putsOf n later).filter (accepts key) <:+ (handed i n later).map Prod.snd := by
  have hplaced : ∀ e ∈ handed i n later, (putsOf n h).length ≤ e.1 →
      (putsOf n later)[e.1 - (putsOf n h).length]? = some e.2 ∧ accepts key e.2 = true := by
    intro e he hk
    have hhand := List.mem_append_right h (mem_handed.mp he)
    have hput := hg.put_of_hand hh hhand
    obtain ⟨key', hkey', hacc⟩ := hg.wanted_of_hand hh hhand
    rw [hkey] at hkey'
    cases hkey'
    rw [putsOf_append, List.getElem?_append_right hk] at hput
    exact ⟨hput, hacc⟩
  have hsorted := ho.places hh i n
  rw [handed_append] at hsorted
  obtain ⟨lo, hi, hsplit, hhi, -, -⟩ := ends_of_places (List.pairwise_append.mp hsorted).2.1 hplaced
    fun p m hp hw => mem_handed.mpr (hall p m hp hw)
  rw [hsplit, List.map_append, hhi]
  exact List.suffix_append _ _

/-! ## The bus that only keeps the laws -/

/-- Messages are handed out in the order of their sources, as far as they are wanted; any
may be lost. -/
def lawful [DecidableEq M] [DecidableEq R] (accepts : K → M → Bool) : Bus N K M R where
  may h
    | .put _ _ | .declare _ => true
    | .hand i n p m => decide ((putsOf n h)[p]? = some m) && ((keys h)[i]?).any (accepts · m) &&
        (handed i n h).all fun e => decide (e.1 < p)
  mayAnswer rs r := decide (r ∈ rs)

section
variable [DecidableEq M] [DecidableEq R] (accepts : K → M → Bool)

theorem lawful_hand {h : List (BusEvent N K M)} {i : Nat} {n : N} {p : Nat} {m : M}
    (hmay : (lawful accepts : Bus N K M R).may h (.hand i n p m) = true) :
    (putsOf n h)[p]? = some m ∧ ((keys h)[i]?).any (accepts · m) = true ∧
      ∀ e ∈ handed i n h, e.1 < p := by
  obtain ⟨hfirst, hlater⟩ := Bool.and_eq_true_iff.mp hmay
  obtain ⟨hput, hwanted⟩ := Bool.and_eq_true_iff.mp hfirst
  exact ⟨of_decide_eq_true hput, hwanted, fun e he =>
    of_decide_eq_true (List.all_eq_true.mp hlater e he)⟩

theorem lawful_genuine : (lawful accepts : Bus N K M R).Genuine accepts where
  put _ _ _ _ _ _ hmay := (lawful_hand accepts hmay).1
  wanted _ _ _ _ _ _ hmay := (Option.any_eq_true _ _).mp (lawful_hand accepts hmay).2.1
  answered _ _ hmay := of_decide_eq_true hmay

theorem lawful_ordered : (lawful accepts : Bus N K M R).Ordered :=
  fun _ _ _ _ _ _ hmay => (lawful_hand accepts hmay).2.2

end

end Bus

end PubSub
