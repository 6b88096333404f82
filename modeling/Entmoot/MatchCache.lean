/-
# `Entmoot.MatchCache` — what a cached match can be older than

`matching_cached` answers from a cache of scans that `insert` and `remove` drop
after they have written the map.  Here the two steps of a miss (scan, store) and
the two steps of a mutation (write, invalidate) are separate actions of any
number of calls, and `load_snapshot` is the third writer, which invalidates
nothing.

A scan that is under way when a mutation invalidates is stored all the same, so
it can be older than that mutation (`straddling_scan_is_served`).  Each scan is
stamped with the number of writes before it.  When no scan made before a
mutation's write is under way at its invalidation, and none made before the last
write of `load_snapshot` is cached or under way at its return, every call sees all
that was complete when it began (`matching_cached_coherent`).
-/
import Entmoot.Retained
import Entmoot.Lib.Run

namespace Entmoot

/-- Where a mutation stands; `n` counts the writes to the map up to and
including its own last one. -/
inductive MutPc where
  /-- `insert` or `remove` wrote the map, about to invalidate -/
  | written (n : Nat)
  | invalidated (n : Nat)
  /-- `load_snapshot` with these bytes still to read -/
  | loading (rest : Bytes) (n : Option Nat)
  /-- `load_snapshot` at its end or at an error -/
  | loaded (n : Option Nat)
  | returned
  deriving DecidableEq, Repr

/-- The last write of a mutation that is not over. -/
def MutPc.wrote : MutPc → Option Nat
  | .written n => some n
  | .invalidated n => some n
  | .loading _ n => n
  | .loaded n => n
  | .returned => none

/-- A `matching_cached` call; `begun` is the newest write completed before it. -/
structure MatchCall where
  filter : Str
  begun : Nat
  result : Option (List RetainedEntry)
  deriving DecidableEq, Repr

/-- A scan of the map for a filter, made after `stamp` writes. -/
structure Scan where
  entries : List RetainedEntry
  stamp : Nat
  deriving DecidableEq, Repr

/-- A store, its cache and the calls on both. -/
structure CacheWorld where
  store : RetainedStore
  /-- the maps before each write so far -/
  past : List RetainedMap
  cache : AList fun _ : Str => Scan
  /-- the one loader of a key, and what it scanned if it has -/
  loads : AList fun _ : Str => Option Scan
  calls : List MatchCall
  muts : List MutPc
  /-- the newest write whose mutation has returned -/
  completed : Nat

inductive CacheAction where
  | call (filter : Str)
  | scan (filter : Str)
  | finish (filter : Str)
  | evict (filter : Str)
  | insert (topicName : Str) (payload : Bytes) (writtenAt : SystemTime)
  | remove (topicName : Str)
  | load (data : Bytes)
  | loadEntry (i : Nat)
  | invalidate (i : Nat)
  | ret (i : Nat)
  deriving DecidableEq, Repr

namespace CacheWorld

def start (store : RetainedStore) : CacheWorld := ⟨store, [], ∅, ∅, [], [], 0⟩

/-- Every map the store has had, the present one last. -/
def maps (w : CacheWorld) : List RetainedMap := w.past ++ [w.store.map]

/-- How many writes there were. -/
def ver (w : CacheWorld) : Nat := w.past.length

/-- The store replaced, as one write. -/
def write (w : CacheWorld) (store : RetainedStore) : CacheWorld :=
  { w with store := store, past := w.maps }

def addMut (w : CacheWorld) (pc : MutPc) : CacheWorld := { w with muts := w.muts ++ [pc] }

def setMut (w : CacheWorld) (i : Nat) (pc : MutPc) : CacheWorld :=
  { w with muts := w.muts.set i pc }

/-- A miss joins the key's loader or becomes it. -/
def joinLoads (loads : AList fun _ : Str => Option Scan) (filter : Str) :
    AList fun _ : Str => Option Scan :=
  if (loads.lookup filter).isSome then loads else loads.insert filter none

theorem lookup_joinLoads (loads : AList fun _ : Str => Option Scan) (f g : Str) :
    (joinLoads loads f).lookup g =
      if g = f then some ((loads.lookup f).getD none) else loads.lookup g := by
  rw [joinLoads]
  cases hf : loads.lookup f with
  | some l =>
      simp only [Option.isSome_some, if_true, Option.getD_some]
      split
      · next heq => rw [heq, hf]
      · rfl
  | none => exact Keyed.lookup_insert loads f g none

/-- `get_with_by_ref`: a hit answers, a miss waits. -/
def call (w : CacheWorld) (filter : Str) : CacheWorld :=
  match w.cache.lookup filter with
  | some scan => { w with calls := w.calls ++ [⟨filter, w.completed, some scan.entries⟩] }
  | none =>
      { w with
        loads := joinLoads w.loads filter
        calls := w.calls ++ [⟨filter, w.completed, none⟩] }

/-- A loader's result for a call that waits on its key. -/
def answer (filter : Str) (r : List RetainedEntry) (c : MatchCall) : MatchCall :=
  if c.filter = filter ∧ c.result = none then { c with result := some r } else c

/-- What a loader reads off the map. -/
def scanOf [HashOrder] (w : CacheWorld) (filter : Str) : Scan :=
  ⟨RetainedStore.matching w.store.map filter, w.ver⟩

section
variable [HashOrder]

def step (w : CacheWorld) : CacheAction → Option CacheWorld
  | .call filter => some (w.call filter)
  | .scan filter =>
      match w.loads.lookup filter with
      | some none => some { w with loads := w.loads.insert filter (some (w.scanOf filter)) }
      | _ => none
  | .finish filter =>
      match w.loads.lookup filter with
      | some (some scan) =>
          some { w with
            cache := w.cache.insert filter scan
            loads := w.loads.erase filter
            calls := w.calls.map (answer filter scan.entries) }
      | _ => none
  | .evict filter => some { w with cache := w.cache.erase filter }
  | .insert topicName payload writtenAt =>
      some ((w.write (w.store.insert topicName payload writtenAt)).addMut (.written (w.ver + 1)))
  | .remove topicName =>
      some ((w.write (w.store.remove topicName)).addMut (.written (w.ver + 1)))
  | .load data =>
      match Wire.stripPrefix RetainedStore.snapshotMagic data with
      | none => some (w.addMut (.loaded none))
      | some body => some (w.addMut (.loading body none))
  | .loadEntry i =>
      match w.muts[i]? with
      | some (.loading rest n) =>
          if rest = [] then some (w.setMut i (.loaded n))
          else match RetainedStore.readEntry rest with
            | .error _ => some (w.setMut i (.loaded n))
            | .ok (e, tail) =>
                some ((w.write { w.store with map := w.store.map.insert e.1 e.2 }).setMut i
                  (.loading tail (some (w.ver + 1))))
      | _ => none
  | .invalidate i =>
      match w.muts[i]? with
      | some (.written n) => some ({ w with cache := ∅ }.setMut i (.invalidated n))
      | _ => none
  | .ret i =>
      match w.muts[i]? with
      | some (.invalidated n) => some ({ w with completed := max w.completed n }.setMut i .returned)
      | some (.loaded n) =>
          some ({ w with completed := max w.completed (n.getD 0) }.setMut i .returned)
      | _ => none

/-! ## Results and the maps they reflect -/

/-- `r` is what matching `f` gives on a map no older than write `n`. -/
def Reflects (maps : List RetainedMap) (n : Nat) (f : Str) (r : List RetainedEntry) : Prop :=
  ∃ v m, n ≤ v ∧ maps[v]? = some m ∧ r = RetainedStore.matching m f

/-- The scan is cached for `f`, or was made for it and is not stored yet. -/
def Held (w : CacheWorld) (f : Str) (scan : Scan) : Prop :=
  w.cache.lookup f = some scan ∨ w.loads.lookup f = some (some scan)

/-- The condition on a step: when a mutation invalidates, each scan under way was made
after its write; when `load_snapshot` returns, each scan cached or under way was made
after its last. -/
def InTime (w : CacheWorld) : CacheAction → Prop
  | .invalidate i => ∀ n, w.muts[i]? = some (.written n) →
      ∀ f scan, w.loads.lookup f = some (some scan) → n ≤ scan.stamp
  | .ret i => ∀ n, w.muts[i]? = some (.loaded (some n)) →
      ∀ f scan, w.Held f scan → n ≤ scan.stamp
  | _ => True

/-! ## The invariant -/

/-- The scan found what matching `f` gives on the map of its stamp. -/
def Made (maps : List RetainedMap) (f : Str) (scan : Scan) : Prop :=
  ∃ m, maps[scan.stamp]? = some m ∧ scan.entries = RetainedStore.matching m f

theorem Made.reflects {maps : List RetainedMap} {n : Nat} {f : Str} {scan : Scan}
    (h : Made maps f scan) (hn : n ≤ scan.stamp) : Reflects maps n f scan.entries := by
  obtain ⟨m, hm, hr⟩ := h
  exact ⟨scan.stamp, m, hn, hm, hr⟩

theorem Made.append {maps later : List RetainedMap} {f : Str} {scan : Scan}
    (h : Made maps f scan) : Made (maps ++ later) f scan := by
  obtain ⟨m, hm, hr⟩ := h
  obtain ⟨hlt, _⟩ := List.getElem?_eq_some_iff.mp hm
  exact ⟨m, by rw [List.getElem?_append_left hlt, hm], hr⟩

/-- Later maps are added at the end, so what was reflected stays reflected. -/
theorem Reflects.append {maps later : List RetainedMap} {n : Nat} {f : Str}
    {r : List RetainedEntry} (h : Reflects maps n f r) : Reflects (maps ++ later) n f r := by
  obtain ⟨v, map, hv, hmap, hr⟩ := h
  obtain ⟨hlt, _⟩ := List.getElem?_eq_some_iff.mp hmap
  exact ⟨v, map, hv, by rw [List.getElem?_append_left hlt, hmap], hr⟩

theorem made_scanOf (w : CacheWorld) (f : Str) : Made w.maps f (w.scanOf f) := by
  refine ⟨w.store.map, ?_, rfl⟩
  show (w.past ++ [w.store.map])[w.past.length]? = _
  rw [List.getElem?_append_right (Nat.le_refl _), Nat.sub_self]
  rfl

structure Coherent (w : CacheWorld) : Prop where
  made : ∀ f scan, w.Held f scan → Made w.maps f scan
  /-- what is held was scanned after every completed mutation, -/
  fresh : ∀ f scan, w.Held f scan → w.completed ≤ scan.stamp
  /-- and after every mutation that has invalidated -/
  settled : ∀ n, MutPc.invalidated n ∈ w.muts → ∀ f scan, w.Held f scan → n ≤ scan.stamp
  completed_le : w.completed ≤ w.ver
  wrote_le : ∀ pc ∈ w.muts, ∀ n, pc.wrote = some n → n ≤ w.ver
  begun_le : ∀ c ∈ w.calls, c.begun ≤ w.ver
  /-- a waiting call waits on a loader that has not scanned, or scanned late enough -/
  waiting : ∀ c ∈ w.calls, c.result = none → ∃ l, w.loads.lookup c.filter = some l ∧
    ∀ scan, l = some scan → c.begun ≤ scan.stamp
  answered : ∀ c ∈ w.calls, ∀ r, c.result = some r → Reflects w.maps c.begun c.filter r

theorem Coherent.start (store : RetainedStore) : Coherent (start store) where
  made := by
    intro f scan h
    rcases h with h | h <;> simp [CacheWorld.start] at h
  fresh := by
    intro f scan _
    exact Nat.zero_le scan.stamp
  settled := by simp [CacheWorld.start]
  completed_le := Nat.le_refl 0
  wrote_le := by simp [CacheWorld.start]
  begun_le := by simp [CacheWorld.start]
  waiting := by simp [CacheWorld.start]
  answered := by simp [CacheWorld.start]

variable {w : CacheWorld}

theorem Coherent.keep (h : Coherent w) {cache : AList fun _ : Str => Scan}
    {loads : AList fun _ : Str => Option Scan} {calls : List MatchCall}
    (hheld : ∀ f scan, CacheWorld.Held { w with cache := cache, loads := loads
                                                calls := calls } f scan →
      w.Held f scan)
    (hbegun : ∀ c ∈ calls, c.begun ≤ w.ver)
    (hwaiting : ∀ c ∈ calls, c.result = none → ∃ l, loads.lookup c.filter = some l ∧
      ∀ scan, l = some scan → c.begun ≤ scan.stamp)
    (hanswered : ∀ c ∈ calls, ∀ r, c.result = some r → Reflects w.maps c.begun c.filter r) :
    Coherent { w with cache := cache, loads := loads, calls := calls } where
  made f scan hf := h.made f scan (hheld f scan hf)
  fresh f scan hf := h.fresh f scan (hheld f scan hf)
  settled n hn f scan hf := h.settled n hn f scan (hheld f scan hf)
  completed_le := h.completed_le
  wrote_le := h.wrote_le
  begun_le := hbegun
  waiting := hwaiting
  answered := hanswered

/-- A new call: a hit is held, and so is what the loader it joins has scanned. -/
theorem Coherent.call (h : Coherent w) (f : Str) : Coherent (w.call f) := by
  cases hc : w.cache.lookup f with
  | some found =>
      simp only [CacheWorld.call, hc]
      refine h.keep (fun _ _ hf => hf) ?_ ?_ ?_
      · intro c hmem
        rcases List.mem_append.mp hmem with hmem | hmem
        · exact h.begun_le c hmem
        · rw [List.mem_singleton.mp hmem]
          exact h.completed_le
      · intro c hmem hnone
        rcases List.mem_append.mp hmem with hmem | hmem
        · exact h.waiting c hmem hnone
        · rw [List.mem_singleton.mp hmem] at hnone
          cases hnone
      · intro c hmem r' hr'
        rcases List.mem_append.mp hmem with hmem | hmem
        · exact h.answered c hmem r' hr'
        · rw [List.mem_singleton.mp hmem] at hr' ⊢
          cases hr'
          exact (h.made f found (.inl hc)).reflects (h.fresh f found (.inl hc))
  | none =>
      simp only [CacheWorld.call, hc]
      -- the loaders are the old ones, and maybe one for `f` that has not scanned
      have hscan : ∀ g scan, (joinLoads w.loads f).lookup g = some (some scan) →
          w.loads.lookup g = some (some scan) := by
        intro g scan hl
        rw [lookup_joinLoads] at hl
        split at hl
        · next heq =>
          rw [heq]
          cases hf : w.loads.lookup f with
          | some l => rwa [hf] at hl
          | none => rw [hf] at hl; cases hl
        · exact hl
      refine h.keep (fun g scan hf => hf.imp id (hscan g scan)) ?_ ?_ ?_
      · intro c hmem
        rcases List.mem_append.mp hmem with hmem | hmem
        · exact h.begun_le c hmem
        · rw [List.mem_singleton.mp hmem]
          exact h.completed_le
      · intro c hmem hnone
        rcases List.mem_append.mp hmem with hmem | hmem
        · obtain ⟨l, hl, hr⟩ := h.waiting c hmem hnone
          refine ⟨l, ?_, hr⟩
          rw [lookup_joinLoads]
          split
          · next heq => rw [← heq, hl]; rfl
          · exact hl
        · rw [List.mem_singleton.mp hmem]
          have hl : (joinLoads w.loads f).lookup f = some ((w.loads.lookup f).getD none) := by
            rw [lookup_joinLoads, if_pos rfl]
          exact ⟨_, hl, fun scan hscanned => h.fresh f scan (.inr (hscan f scan (hscanned ▸ hl)))⟩
      · intro c hmem r hr
        rcases List.mem_append.mp hmem with hmem | hmem
        · exact h.answered c hmem r hr
        · rw [List.mem_singleton.mp hmem] at hr
          cases hr

theorem Coherent.scan (h : Coherent w) (f : Str) :
    Coherent { w with loads := w.loads.insert f (some (w.scanOf f)) } := by
  have hheld :
      ∀ g scan, CacheWorld.Held { w with loads := w.loads.insert f (some (w.scanOf f)) } g scan →
      w.Held g scan ∨ g = f ∧ scan = w.scanOf f := by
    intro g scan hg
    rcases hg with hg | hg
    · exact .inl (.inl hg)
    · simp only [Keyed.lookup_insert] at hg
      split at hg
      · next heq =>
        cases hg
        exact .inr ⟨heq, rfl⟩
      · exact .inl (.inr hg)
  refine { h with made := ?_, fresh := ?_, settled := ?_, waiting := ?_ }
  · intro g scan hg
    rcases hheld g scan hg with hold | ⟨rfl, rfl⟩
    · exact h.made g scan hold
    · exact made_scanOf w g
  · intro g scan hg
    rcases hheld g scan hg with hold | ⟨rfl, rfl⟩
    · exact h.fresh g scan hold
    · exact h.completed_le
  · intro n hn g scan hg
    rcases hheld g scan hg with hold | ⟨rfl, rfl⟩
    · exact h.settled n hn g scan hold
    · exact h.wrote_le _ hn n rfl
  · intro c hmem hnone
    obtain ⟨l, hl, hr⟩ := h.waiting c hmem hnone
    simp only [Keyed.lookup_insert]
    split
    · refine ⟨_, rfl, fun scan hscan => ?_⟩
      cases hscan
      exact h.begun_le c hmem
    · exact ⟨l, hl, hr⟩

theorem Coherent.finish (h : Coherent w) {f : Str} {found : Scan}
    (hl : w.loads.lookup f = some (some found)) :
    Coherent { w with
      cache := w.cache.insert f found
      loads := w.loads.erase f
      calls := w.calls.map (answer f found.entries) } := by
  refine h.keep ?_ ?_ ?_ ?_
  · intro g scan hg
    simp only [CacheWorld.Held, Keyed.lookup_insert, Keyed.lookup_erase] at hg
    by_cases heq : g = f
    · simp only [heq, if_true, Option.some.injEq, reduceCtorEq, or_false] at hg
      rw [heq, ← hg]
      exact .inr hl
    · simp only [heq, if_false] at hg
      exact hg
  · intro c hmem
    obtain ⟨c, hc, rfl⟩ := List.mem_map.mp hmem
    have hle := h.begun_le c hc
    rw [answer]
    split <;> exact hle
  · intro c hmem hnone
    obtain ⟨c, hc, rfl⟩ := List.mem_map.mp hmem
    rw [answer] at hnone ⊢
    split at hnone
    · cases hnone
    · next hne =>
      obtain ⟨l, hlook, hr⟩ := h.waiting c hc hnone
      rw [if_neg hne]
      refine ⟨l, ?_, hr⟩
      rw [Keyed.lookup_erase, if_neg (fun heq => hne ⟨heq, hnone⟩), hlook]
  · intro c hmem r' hr'
    obtain ⟨c, hc, rfl⟩ := List.mem_map.mp hmem
    rw [answer] at hr' ⊢
    split at hr'
    · next heq =>
      -- the call waited on this loader
      rw [if_pos heq]
      cases hr'
      obtain ⟨l, hlook, hr⟩ := h.waiting c hc heq.2
      rw [heq.1, hl] at hlook
      cases hlook
      rw [← heq.1] at hl
      exact (h.made c.filter found (.inr hl)).reflects (hr found rfl)
    · next hne =>
      rw [if_neg hne]
      exact h.answered c hc r' hr'

theorem Coherent.evict (h : Coherent w) (f : Str) :
    Coherent { w with cache := w.cache.erase f } := by
  refine h.keep ?_ h.begun_le h.waiting h.answered
  intro g scan hg
  refine hg.imp ?_ id
  intro hg
  simp only [Keyed.lookup_erase] at hg
  split at hg
  · cases hg
  · exact hg

theorem Coherent.write (h : Coherent w) (store : RetainedStore) : Coherent (w.write store) := by
  have hver : w.ver ≤ (w.write store).ver := by
    show w.past.length ≤ (w.past ++ [w.store.map]).length
    simp
  exact {
    made := fun f scan hheld => (h.made f scan hheld).append
    fresh := h.fresh
    settled := h.settled
    completed_le := Nat.le_trans h.completed_le hver
    wrote_le := fun pc hpc n hn => Nat.le_trans (h.wrote_le pc hpc n hn) hver
    begun_le := fun c hc => Nat.le_trans (h.begun_le c hc) hver
    waiting := h.waiting
    answered := fun c hc r hr => (h.answered c hc r hr).append }

/-- A mutation whose place is new or replaced: only an invalidated one asks for more. -/
theorem Coherent.muts (h : Coherent w) {pc : MutPc} {ms : List MutPc}
    (hms : ∀ m ∈ ms, m ∈ w.muts ∨ m = pc) (hle : ∀ n, pc.wrote = some n → n ≤ w.ver)
    (hinv : ∀ n, pc = .invalidated n → ∀ f scan, w.Held f scan → n ≤ scan.stamp) :
    Coherent { w with muts := ms } := by
  refine { h with settled := ?_, wrote_le := ?_ }
  · intro n hn
    rcases hms _ hn with hn | hn
    · exact h.settled n hn
    · exact hinv n hn.symm
  · intro m hm n hn
    rcases hms m hm with hm | rfl
    · exact h.wrote_le m hm n hn
    · exact hle n hn

theorem Coherent.addMut (h : Coherent w) {pc : MutPc} (hle : ∀ n, pc.wrote = some n → n ≤ w.ver)
    (hinv : ∀ n, pc ≠ .invalidated n) : Coherent (w.addMut pc) :=
  h.muts (fun m hm => by simpa using hm) hle fun n hn => absurd hn (hinv n)

theorem Coherent.setMut (h : Coherent w) {i : Nat} {pc : MutPc}
    (hle : ∀ n, pc.wrote = some n → n ≤ w.ver)
    (hinv : ∀ n, pc = .invalidated n → ∀ f scan, w.Held f scan → n ≤ scan.stamp) :
    Coherent (w.setMut i pc) :=
  h.muts (fun _ hm => List.mem_or_eq_of_mem_set hm) hle hinv

omit [HashOrder] in
theorem ver_write (w : CacheWorld) (store : RetainedStore) : (w.write store).ver = w.ver + 1 := by
  show (w.past ++ [w.store.map]).length = w.past.length + 1
  simp

theorem Coherent.mutate (h : Coherent w) (store : RetainedStore) :
    Coherent ((w.write store).addMut (.written (w.ver + 1))) := by
  refine (h.write store).addMut ?_ (by simp)
  intro n hn
  cases hn
  rw [ver_write]

theorem Coherent.loadEntry (h : Coherent w) {i : Nat} {rest : Bytes} {n : Option Nat}
    (hi : w.muts[i]? = some (.loading rest n)) {w' : CacheWorld}
    (hw : w.step (.loadEntry i) = some w') : Coherent w' := by
  have hend : Coherent (w.setMut i (.loaded n)) :=
    h.setMut (fun k hk => h.wrote_le _ (List.mem_of_getElem? hi) k hk) (by simp)
  simp only [step, hi] at hw
  split at hw
  · cases hw
    exact hend
  · split at hw
    · cases hw
      exact hend
    · cases hw
      refine (h.write _).setMut ?_ (by simp)
      intro k hk
      cases hk
      rw [ver_write]

/-- The cache is empty after an invalidation: only scans under way are held. -/
theorem Coherent.invalidate (h : Coherent w) {i n : Nat} (hi : w.muts[i]? = some (.written n))
    (htime : w.InTime (.invalidate i)) :
    Coherent ({ w with cache := ∅ }.setMut i (.invalidated n)) := by
  have hheld : ∀ f scan, CacheWorld.Held { w with cache := ∅ } f scan →
      w.loads.lookup f = some (some scan) := by
    intro f scan hf
    rcases hf with hf | hf
    · simp at hf
    · exact hf
  have hempty : Coherent { w with cache := ∅ } :=
    h.keep (fun f scan hf => .inr (hheld f scan hf)) h.begun_le h.waiting h.answered
  refine hempty.setMut (fun k hk => h.wrote_le _ (List.mem_of_getElem? hi) k hk) ?_
  intro k hk f scan hf
  cases hk
  exact htime n hi f scan (hheld f scan hf)

theorem Coherent.ret (h : Coherent w) {i n : Nat} (hn : n ≤ w.ver)
    (hheld : ∀ f scan, w.Held f scan → n ≤ scan.stamp) :
    Coherent ({ w with completed := max w.completed n }.setMut i .returned) := by
  have hmax : Coherent { w with completed := max w.completed n } := by
    refine { h with fresh := ?_, completed_le := Nat.max_le.mpr ⟨h.completed_le, hn⟩ }
    intro f scan hf
    exact Nat.max_le.mpr ⟨h.fresh f scan hf, hheld f scan hf⟩
  exact hmax.setMut (by simp [MutPc.wrote]) (by simp)

theorem Coherent.step (h : Coherent w) (a : CacheAction) {w' : CacheWorld}
    (htime : w.InTime a) (hw : w.step a = some w') : Coherent w' := by
  cases a with
  | call f =>
      cases hw
      exact h.call f
  | scan f =>
      simp only [CacheWorld.step] at hw
      split at hw <;> cases hw
      exact h.scan f
  | finish f =>
      simp only [CacheWorld.step] at hw
      split at hw
      · next scan hl =>
        cases hw
        exact h.finish hl
      · cases hw
  | evict f =>
      cases hw
      exact h.evict f
  | insert t p ts =>
      cases hw
      exact h.mutate _
  | remove t =>
      cases hw
      exact h.mutate _
  | load data =>
      simp only [CacheWorld.step] at hw
      split at hw <;> cases hw <;> exact h.addMut (by simp [MutPc.wrote]) (by simp)
  | loadEntry i =>
      cases hi : w.muts[i]? with
      | none => simp [CacheWorld.step, hi] at hw
      | some pc =>
          cases pc with
          | loading rest n => exact h.loadEntry hi hw
          | _ => simp [CacheWorld.step, hi] at hw
  | invalidate i =>
      simp only [CacheWorld.step] at hw
      split at hw
      · next n hi =>
        cases hw
        exact h.invalidate hi htime
      · cases hw
  | ret i =>
      simp only [CacheWorld.step] at hw
      split at hw
      · next n hi =>
        cases hw
        have hmem := List.mem_of_getElem? hi
        exact h.ret (h.wrote_le _ hmem n rfl) (h.settled n hmem)
      · next n hi =>
        cases hw
        cases n with
        | none => exact h.ret (Nat.zero_le _) fun f scan _ => Nat.zero_le scan.stamp
        | some n => exact h.ret (h.wrote_le _ (List.mem_of_getElem? hi) n rfl) (htime n hi)
      · cases hw

/-! ## Runs -/

/-- **Cached matches are coherent when scans are in time.**  In a run where no scan from
before a mutation outlives its invalidation, nor one from before a loaded entry the
return of `load_snapshot`, every answered call has a result that reflects every
mutation completed before it began. -/
theorem matching_cached_coherent (store : RetainedStore) (acts : List CacheAction) (w : CacheWorld)
    (htime : Run.Meets step InTime (start store) acts)
    (hw : Run.exec step (start store) acts = some w) :
    ∀ c ∈ w.calls, ∀ r, c.result = some r → Reflects w.maps c.begun c.filter r := by
  have h : Coherent w := Run.exec_invariant_of_meets (I := Coherent)
    (fun _ a _ h ht hs => h.step a ht hs) acts (Coherent.start store) htime hw
  exact h.answered

end

/-- An insertion from start to end, then two calls. -/
def insertThenCalls : List CacheAction :=
  [.insert "kiln".toList [57] 0, .invalidate 0, .ret 0, .call "kiln".toList, .scan "kiln".toList,
    .finish "kiln".toList, .call "kiln".toList]

/-- Both calls find what was inserted before them. -/
theorem insertion_before_call_is_served :
    ∃ w, Run.exec (@step .asStored) (start .empty) insertThenCalls = some w ∧
      (w.calls.map MatchCall.begun = [1, 1]) ∧
      ∀ c ∈ w.calls, ∀ r, c.result = some r → @Reflects .asStored w.maps c.begun c.filter r := by
  refine ⟨_, rfl, rfl, @matching_cached_coherent .asStored .empty insertThenCalls _ ?_ rfl⟩
  -- nothing was scanned when the insertion invalidates, and no snapshot is loaded
  refine .cons rfl trivial (.cons rfl ?_ (.cons rfl ?_ ?_))
  · intro n _ f scan hl
    simp [CacheWorld.addMut, CacheWorld.write, CacheWorld.start] at hl
  · intro n hn
    cases hn
  · exact .cons rfl trivial (.cons rfl trivial (.cons rfl trivial (.cons rfl trivial trivial)))

/-- A call scans the empty store, an insertion runs from start to end, the scan
is stored: the next call is answered with it. -/
theorem straddling_scan_is_served :
    ¬ ∀ (_ : HashOrder) (store : RetainedStore) (acts : List CacheAction) (w : CacheWorld),
      Run.exec step (start store) acts = some w →
      ∀ c ∈ w.calls, ∀ r, c.result = some r → Reflects w.maps c.begun c.filter r := by
  intro h
  have hstale := h .asStored .empty
    [.call "kiln".toList, .scan "kiln".toList, .insert "kiln".toList [57] 0, .invalidate 0, .ret 0,
      .finish "kiln".toList, .call "kiln".toList] _ rfl
    ⟨"kiln".toList, 1, some []⟩ (by decide) [] rfl
  obtain ⟨v, m, hv, hm, hr⟩ := hstale
  match v with
  | 1 =>
      cases hm
      exact absurd hr (by decide)
  | v + 2 => cases hm

end CacheWorld

end Entmoot
