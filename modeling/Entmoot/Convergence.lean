/-
# `Entmoot.Convergence` — the replicas of a mesh at rest

A replica that holds a late reply may hold an old value; nothing in a store tells it from
a new one.  A live write repairs it.  Once a replica was handed everything a connection
put from some moment on, it holds of every topic that nobody else wrote meanwhile what the
connection wrote last, if it wrote at all since then and the replica got no reply
(`replica_holds_last`): replicas at rest agree on all such topics, whatever they held
before.

That the bus keeps the order of each connection is what carries this; what two connections
write, two replicas may be handed in different orders, and disagree for good.
-/
import Entmoot.MeshOrder

namespace Entmoot

open PubSub (keys taken handed putsOf fromNode)

/-! ## The writes to a slot -/

/-- What samples write to the slot of a topic, in their order. -/
def slotWrites (scope t : Str) (xs : List Sample) : List (Option (Bytes × SystemTime)) :=
  xs.filterMap fun x => slotWrite scope t x.op

theorem slotWrites_append (scope t : Str) (xs ys : List Sample) :
    slotWrites scope t (xs ++ ys) = slotWrites scope t xs ++ slotWrites scope t ys :=
  List.filterMap_append ..

theorem foldl_stored_lookup (scope t : Str) (xs : List Sample) (s : RetainedStore) :
    (xs.foldl (fun s x => RelayWorld.stored scope s .live x.op) s).map.lookup t =
      ((slotWrites scope t xs).getLast?).getD (s.map.lookup t) := by
  induction xs generalizing s with
  | nil => rfl
  | cons x xs ih =>
      rw [List.foldl_cons, ih, stored_lookup]
      show _ = ((slotWrites scope t ([x] ++ xs)).getLast?).getD _
      rw [slotWrites_append, List.getLast?_append]
      have hone : slotWrites scope t [x] = (slotWrite scope t x.op).toList := by
        cases hx : slotWrite scope t x.op with
        | none => simp [slotWrites, hx]
        | some v => simp [slotWrites, hx]
      rw [hone]
      cases (slotWrites scope t xs).getLast? with
      | some v => rfl
      | none => cases slotWrite scope t x.op <;> rfl

variable {nodes : Nat → Broker} {scope : Str}

theorem accepts_slotWrite (hscope : ScopeOk scope)
    (hnodes : ∀ n, (nodes n).scope = scope) {x : Sample} (hx : Rightful (nodes x.node) x.user x.op)
    {t : Str} (hw : (slotWrite scope t x.op).isSome) (k : Nat) :
    (Watch.replica k).accepts scope x = true := by
  obtain ⟨v, hv⟩ := Option.isSome_iff_exists.mp hw
  obtain ⟨user, -, ⟨⟨ke, hke⟩, -⟩, -⟩ := hx.slotWrite_cases ((hnodes x.node).symm ▸ hv)
  have hlevels := (topicToKeyexpr_iff.mp hke).1
  have hpats : keyPats (retainedFilter scope) =
      (scopeChunks scope).map .lit ++ [.lit retainedChunk, .many] := by
    rw [keyPats, retainedFilter, inScope_chunks, List.map_append, hscope.pats]
    rfl
  have hchunks : x.op.key.splitOn '/' = scopeChunks scope ++ retainedChunk :: t.splitOn '/' := by
    rw [slotWrite_key hv, retainedKeyexpr, inScope_chunks,
      List.splitOn_append_cons_self_of_not_mem (by decide)]
  rw [Watch.accepts, busMatches, hpats, Chunks.accepts_lits_iff]
  refine ⟨_, hchunks, ?_⟩
  show (decide (retainedChunk = retainedChunk) && Chunks.accepts verbatim [.many] (t.splitOn '/')) =
    true
  rw [decide_eq_true rfl, Bool.true_and, Chunks.accepts_many_nil]
  exact fun l hl => (hlevels l hl).visible

/-- Nothing is written to a slot but what the replicas accept. -/
theorem slotWrites_filter (hscope : ScopeOk scope) (hnodes : ∀ n, (nodes n).scope = scope) (t : Str)
    (k : Nat) {xs : List Sample} (hxs : ∀ x ∈ xs, Rightful (nodes x.node) x.user x.op) :
    slotWrites scope t (xs.filter ((Watch.replica k).accepts scope)) = slotWrites scope t xs := by
  rw [slotWrites, List.filterMap_filter]
  refine List.filterMap_congr fun x hx => ?_
  cases hw : slotWrite scope t x.op with
  | none => exact ite_self _
  | some v =>
      have hacc := accepts_slotWrite hscope hnodes (hxs x hx)
        (Option.isSome_iff_exists.mpr ⟨v, hw⟩) k
      exact if_pos hacc

/-- Of a topic that one connection writes, only its samples count. -/
theorem slotWrites_fromNode {t : Str} {j : Nat} {es : List (Nat × Sample)}
    (hes : ∀ j' x, (j', x) ∈ es → j' ≠ j → slotWrite scope t x.op = none) :
    slotWrites scope t (es.map Prod.snd) = slotWrites scope t (fromNode j es) := by
  rw [slotWrites, slotWrites, fromNode, List.filterMap_map, List.filterMap_filterMap]
  refine List.filterMap_congr fun e he => ?_
  by_cases hj : e.1 = j
  · simp [hj]
  · simp [hj, hes e.1 e.2 he hj]

/-! ## A replica between two states -/

/-- The replica that gets a reply. -/
def MeshAction.replyTo : MeshAction → Option Nat
  | .reply i _ => some i
  | _ => none

/-- What became of a replica from a state on: its store is the one of that state after the
samples it was handed since. -/
structure Followed (scope : Str) (i : Nat) (m₁ m : Mesh) (later : List MeshEvent) : Prop where
  history : m.history = m₁.history ++ later
  store : m.stores i =
    ((taken i later).map Prod.snd).foldl (fun s x => RelayWorld.stored scope s .live x.op)
      (m₁.stores i)

namespace Followed

variable {bus : MeshBus} {i : Nat} {m m' m'' : Mesh} {later later' : List MeshEvent}

theorem refl (i : Nat) (m : Mesh) : Followed scope i m m [] where
  history := (List.append_nil _).symm
  store := rfl

theorem trans (h : Followed scope i m m' later) (h' : Followed scope i m' m'' later') :
    Followed scope i m m'' (later ++ later') where
  history := by rw [h'.history, h.history, List.append_assoc]
  store := by rw [h'.store, h.store, PubSub.taken_append, List.map_append, List.foldl_append]

theorem step [HashOrder] {k : Nat} {act : MeshAction}
    (hkey : (keys m.history)[i]? = some (.replica k)) (hno : act.replyTo ≠ some i)
    (hs : m.step bus nodes scope act = some m') :
    ∃ later, Followed scope i m m' later := by
  have hlt : i < (keys m.history).length := (List.getElem?_eq_some_iff.mp hkey).choose
  cases Mesh.stepped hs with
  | still _ hact parties stopped => exact ⟨[], (List.append_nil _).symm, rfl⟩
  | noted _ hact e parties hmay he =>
      refine ⟨[e], rfl, ?_⟩
      rw [he i]
      rfl
  | wire n hmay =>
      exact ⟨[.declare (.replica n)], rfl, Function.update_of_ne (Nat.ne_of_lt hlt) _ _⟩
  | hand i' j p x w hw hmay =>
      refine ⟨[.hand i' j p x], rfl, ?_⟩
      by_cases hi : i' = i
      · subst hi
        cases hkey.symm.trans hw
        rw [PubSub.taken_hand, if_pos rfl]
        exact Function.update_self _ _ _
      · rw [PubSub.taken_hand, if_neg hi]
        exact Function.update_of_ne (Ne.symm hi) _ _
  | save i' n hw => exact ⟨[], (List.append_nil _).symm, rfl⟩
  | query i' => exact ⟨[], (List.append_nil _).symm, rfl⟩
  | reply i' r hmay =>
      have hne : i ≠ i' := by
        rintro rfl
        exact hno rfl
      exact ⟨[], (List.append_nil _).symm, Function.update_of_ne hne _ _⟩

theorem run [HashOrder] {k : Nat} : ∀ {acts : List MeshAction} {m : Mesh},
    (keys m.history)[i]? = some (.replica k) → (∀ act ∈ acts, act.replyTo ≠ some i) →
      Run.exec (Mesh.step bus nodes scope) m acts = some m' →
        ∃ later, Followed scope i m m' later := by
  intro acts
  induction acts with
  | nil =>
      intro m _ _ hrun
      cases hrun
      exact ⟨_, refl i _⟩
  | cons act acts ih =>
      intro m hkey hno hrun
      obtain ⟨mid, hstep, hrun⟩ := Run.exec_cons.mp hrun
      obtain ⟨hhead, hrest⟩ := List.forall_mem_cons.mp hno
      obtain ⟨later, hfollowed⟩ := step hkey hhead hstep
      obtain ⟨later', hfollowed'⟩ := ih ((Onward.step hstep).keys_get hkey) hrest hrun
      exact ⟨_, hfollowed.trans hfollowed'⟩

end Followed

/-! ## At rest -/

/-- What was written last to the slot of a topic. -/
def lastWrite (scope t : Str) (xs : List Sample) : Option (Bytes × SystemTime) :=
  ((slotWrites scope t xs).getLast?).getD none

theorem getLast_getD_append {α : Type*} {xs ys : List α} (hne : ys ≠ []) (a : α) :
    ((xs ++ ys).getLast?).getD a = ys.getLast hne := by
  rw [List.getLast?_append_of_ne_nil _ hne, List.getLast?_eq_some_getLast hne]
  rfl

/-- What happened on the bus between two states. -/
def Mesh.since (m m₁ : Mesh) : List MeshEvent := m.history.drop m₁.history.length

/-- **A replica at rest holds what was written last.**  On a bus that hands out nothing but
what was put, and keeps the order of each connection: let no reply reach the replica from
`m₁` on, and let the bus lose nothing on the way to it of what the connection `j` put
since.  Of each topic that `j` wrote since `m₁`, and of which the replica was handed
nothing that others wrote, it holds what `j` wrote last; a topic cleared last is gone. -/
theorem replica_holds_last [HashOrder] {bus : MeshBus}
    (hgenuine : bus.Genuine (Watch.accepts scope)) (hordered : bus.Ordered) (hscope : ScopeOk scope)
    (hnodes : ∀ n, (nodes n).scope = scope) {files : Nat → Option Bytes}
    {acts acts' : List MeshAction} {m₁ m : Mesh}
    (hrun₁ : Run.exec (Mesh.step bus nodes scope) (.init files) acts = some m₁)
    (hrun : Run.exec (Mesh.step bus nodes scope) m₁ acts' = some m) {i k j : Nat}
    (hkey : (keys m₁.history)[i]? = some (.replica k)) (hno : ∀ act ∈ acts', act.replyTo ≠ some i)
    (hall : PubSub.Bus.Lossless (Watch.accepts scope) (.replica k) i j m₁.history (m.since m₁))
    {t : Str} (hothers : ∀ j' x, (j', x) ∈ taken i (m.since m₁) → j' ≠ j →
      slotWrite scope t x.op = none)
    (hnew : slotWrites scope t (putsOf j (m.since m₁)) ≠ []) :
    (m.stores i).map.lookup t = lastWrite scope t (putsOf j m.history) := by
  have hauth : Authentic bus nodes m := .run (Run.exec_append.mpr ⟨m₁, hrun₁, hrun⟩)
  obtain ⟨later, hfollowed⟩ := Followed.run hkey hno hrun
  have hsince : m.since m₁ = later := by
    rw [Mesh.since, hfollowed.history, List.drop_left]
  rw [hsince] at hall hothers hnew
  have hkey' : (keys (m₁.history ++ later))[i]? = some (.replica k) := by
    rw [PubSub.keys_append]
    exact Cells.append_of_some hkey
  -- what the replica was handed since ends with all that was put since
  obtain ⟨early, hends⟩ := PubSub.Bus.handed_ends hgenuine hordered
    (hfollowed.history ▸ hauth.possible) hkey' hall
  have hrightful : ∀ x ∈ putsOf j later, Rightful (nodes x.node) x.user x.op := by
    intro x hx
    refine hauth.log x ⟨j, ?_⟩
    rw [hfollowed.history]
    exact List.mem_append_right _ (PubSub.mem_putsOf.mp hx)
  have htaken : slotWrites scope t ((taken i later).map Prod.snd) =
      slotWrites scope t early ++ slotWrites scope t (putsOf j later) := by
    rw [slotWrites_fromNode hothers, PubSub.fromNode_taken, ← hends, slotWrites_append,
      slotWrites_filter hscope hnodes t k hrightful]
  have hlog : slotWrites scope t (putsOf j m.history) =
      slotWrites scope t (putsOf j m₁.history) ++ slotWrites scope t (putsOf j later) := by
    rw [hfollowed.history, PubSub.putsOf_append, slotWrites_append]
  rw [hfollowed.store, foldl_stored_lookup, lastWrite, htaken, hlog, getLast_getD_append hnew,
    getLast_getD_append hnew]

/-- The replica of node 2 holds what `plc1` wrote on node 1. -/
theorem plant_replica_holds_last :
    ∃ m, Run.exec (@Mesh.step .asStored plantBus plantNode [])
      (.init fun _ => none) plantActs = some m ∧
      (m.stores 0).map.lookup "kiln".toList = lastWrite [] "kiln".toList (putsOf 1 m.history) ∧
      lastWrite [] "kiln".toList (putsOf 1 m.history) = some ([57], 1000000) := by
  obtain ⟨m₁, m, hrun₁, hkey, hrun, hall, htaken, hnew, hlast⟩ : ∃ m₁ m,
      Run.exec (@Mesh.step .asStored plantBus plantNode []) (.init fun _ => none)
        [.wire 2] = some m₁ ∧
      (keys m₁.history)[0]? = some (.replica 2) ∧
      Run.exec (@Mesh.step .asStored plantBus plantNode []) m₁ plantActs.tail = some m ∧
      PubSub.Bus.Lossless (Watch.accepts []) (.replica 2) 0 1 m₁.history (m.since m₁) ∧
      taken 0 (m.since m₁) = [(1, plantValue)] ∧
      (slotWrites [] "kiln".toList (putsOf 1 (m.since m₁))).length = 1 ∧
      lastWrite [] "kiln".toList (putsOf 1 m.history) = some ([57], 1000000) :=
    ⟨_, _, rfl, rfl, rfl, of_decide_eq_true rfl, rfl, rfl, rfl⟩
  refine ⟨m, Run.exec_cons.mpr (Run.exec_cons.mp hrun₁ |>.imp fun _ h => ⟨h.1, ?_⟩), ?_, hlast⟩
  · cases h.2
    exact hrun
  · refine @replica_holds_last plantNode [] .asStored plantBus (PubSub.Bus.lawful_genuine _)
      (PubSub.Bus.lawful_ordered _) (fun _ hc => absurd hc List.not_mem_nil) (fun _ => rfl) _
      [.wire 2] plantActs.tail m₁ m hrun₁ hrun 0 2 1 hkey (by decide) hall _
      (fun j' x hx hj => ?_) fun hnil => ?_
    · rw [htaken] at hx
      cases List.mem_singleton.mp hx
      exact absurd rfl hj
    · rw [hnil] at hnew
      cases hnew

end Entmoot
