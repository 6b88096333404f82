/-
# `Lib.Ledger` — the books of a bounded queue that drops its oldest entry

A queue that hands out all it holds at once and, when it is full, loses its oldest
entry to make room for a new one.  The ledger keeps beside the queue what became
of every entry that left it, in the order they came in: handed out or lost.  So
the entries in order are those that left, followed by the queue, and what was
handed out followed by the queue is all of them but the lost ones.
-/
import Mathlib.Data.List.Basic

/-- What became of an entry that left the queue. -/
inductive Fate where
  | returned
  | lost
  deriving DecidableEq, Repr

structure Ledger (α : Type*) where
  /-- the entries that left, oldest first -/
  past : List (α × Fate)
  queue : List α

namespace Ledger

variable {α : Type*}

def start (q : List α) : Ledger α := ⟨[], q⟩

/-- A new entry; at `cap` entries the oldest is lost. -/
def push (l : Ledger α) (cap : Nat) (a : α) : Ledger α :=
  match l.queue with
  | [] => { l with queue := [a] }
  | x :: xs =>
      if cap ≤ (x :: xs).length then ⟨l.past ++ [(x, .lost)], xs ++ [a]⟩
      else { l with queue := x :: xs ++ [a] }

/-- The whole queue handed out. -/
def drain (l : Ledger α) : Ledger α := ⟨l.past ++ l.queue.map (·, .returned), []⟩

/-- All entries there have been, in order. -/
def entries (l : Ledger α) : List α := l.past.map Prod.fst ++ l.queue

def withFate (l : Ledger α) (f : Fate) : List α := (l.past.filter fun e => e.2 = f).map Prod.fst

/-- The entries handed out, in order. -/
def returned (l : Ledger α) : List α := l.withFate .returned

/-- The entries lost, in order. -/
def lost (l : Ledger α) : List α := l.withFate .lost

variable (l : Ledger α) (cap : Nat) (a : α)

@[simp] theorem entries_push : (l.push cap a).entries = l.entries ++ [a] := by
  rw [push]
  split
  · next h => simp [entries, h]
  · next x xs h =>
    split <;> simp [entries, h]

theorem map_fst_returned (q : List α) : (q.map (·, Fate.returned)).map Prod.fst = q := by
  rw [List.map_map]
  exact List.map_id _

@[simp] theorem entries_drain : l.drain.entries = l.entries := by
  rw [entries, entries, drain, List.map_append, map_fst_returned, List.append_nil]

@[simp] theorem returned_push : (l.push cap a).returned = l.returned := by
  rw [push]
  split
  · rfl
  · split
    · simp [returned, withFate]
    · rfl

@[simp] theorem returned_drain : l.drain.returned = l.returned ++ l.queue := by
  have hall : (l.queue.map (·, Fate.returned)).filter (fun e => e.2 = .returned) =
      l.queue.map (·, Fate.returned) := List.filter_eq_self.mpr fun e he => by
    obtain ⟨x, _, rfl⟩ := List.mem_map.mp he
    rfl
  rw [returned, withFate, drain, List.filter_append, List.map_append, hall, map_fst_returned]
  rfl

@[simp] theorem lost_drain : l.drain.lost = l.lost := by
  have hnone : (l.queue.map (·, Fate.returned)).filter (fun e => e.2 = .lost) = [] :=
    List.filter_eq_nil_iff.mpr fun e he => by
      obtain ⟨x, _, rfl⟩ := List.mem_map.mp he
      simp
  rw [lost, withFate, drain, List.filter_append, hnone, List.append_nil]
  rfl

/-- What a push does to the queue, for a bound of at least one. -/
theorem queue_push (hcap : 1 ≤ cap) :
    (l.push cap a).queue = (if cap ≤ l.queue.length then l.queue.tail else l.queue) ++ [a] := by
  rw [push]
  split
  · next h =>
    rw [h, if_neg (by simp; omega)]
    rfl
  · next x xs h =>
    rw [h]
    split <;> rfl

/-- A push loses an entry exactly if the queue is full. -/
theorem lost_push (hcap : 1 ≤ cap) :
    (l.push cap a).lost.length = l.lost.length + if cap ≤ l.queue.length then 1 else 0 := by
  rw [push]
  split
  · next h =>
    rw [h, if_neg (by simp; omega)]
    rfl
  · next x xs h =>
    rw [h]
    split
    · simp [lost, withFate]
    · rfl

theorem queue_push_le (hcap : 1 ≤ cap) (hq : l.queue.length ≤ cap) :
    (l.push cap a).queue.length ≤ cap := by
  rw [queue_push l cap a hcap]
  split <;> simp <;> omega

theorem length_entries : l.entries.length = l.returned.length + l.lost.length + l.queue.length := by
  have hsum : l.past.length = l.returned.length + l.lost.length := by
    simp only [returned, lost, withFate, List.length_map]
    induction l.past with
    | nil => rfl
    | cons e es ih =>
        obtain ⟨x, f⟩ := e
        cases f <;> simp [ih] <;> omega
  rw [entries, List.length_append, List.length_map, hsum]

/-- What was handed out, and then the queue, are the entries in their order. -/
theorem returned_append_queue : (l.returned ++ l.queue).Sublist l.entries :=
  ((List.filter_sublist).map Prod.fst).append (List.Sublist.refl _)

end Ledger
