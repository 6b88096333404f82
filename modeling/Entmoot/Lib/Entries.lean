/-
# `Lib.Entries` — files of entries without a count

A format that writes entry after entry and no count, so that its reader goes on
until nothing is left.  `Reads` says that the reader of one entry undoes its
writer and accepts nothing else.  Any bytes are then a run of whole entries with
something behind it that is empty or `Broken` (`exists_split`), and the loop takes
exactly that run and ends well exactly if nothing follows it (`parse_ok_iff`): a torn tail
is an error and never a shorter result (`parse_torn`).

The loop runs on fuel; one turn for each byte is enough (`parse_fuel`).
-/
import Mathlib.Data.List.Basic

namespace Entries

variable {α β ε : Type*}

/-- Entries are read back, and nothing is read that was not written. -/
structure Reads (write : α → List β) (ok : α → Prop) (read : List β → Except ε (α × List β)) :
    Prop where
  ne_nil : ∀ a, write a ≠ []
  iff : ∀ bs a rest, read bs = .ok (a, rest) ↔ ok a ∧ bs = write a ++ rest

/-- Bytes are left, and no whole entry stands in front of them. -/
def Broken (write : α → List β) (ok : α → Prop) (bs : List β) : Prop :=
  bs ≠ [] ∧ ∀ a rest, ok a → bs ≠ write a ++ rest

/-- The loop: the entries it took, and how it ended. -/
def parse (read : List β → Except ε (α × List β)) : Nat → List β → List α × Except ε Unit
  | 0, _ => ([], .ok ())
  | fuel + 1, bs =>
      if bs = [] then ([], .ok ())
      else match read bs with
        | .error e => ([], .error e)
        | .ok (a, rest) => (a :: (parse read fuel rest).1, (parse read fuel rest).2)

variable {write : α → List β} {ok : α → Prop} {read : List β → Except ε (α × List β)}

theorem parse_nil (fuel : Nat) : parse read fuel [] = ([], .ok ()) := by
  cases fuel <;> rfl

theorem parse_ok_of_mem (h : Reads write ok read) : ∀ {fuel : Nat} {bs : List β} {a : α},
    a ∈ (parse read fuel bs).1 → ok a := by
  intro fuel
  induction fuel with
  | zero => exact fun ha => absurd ha List.not_mem_nil
  | succ fuel ih =>
      intro bs a ha
      rw [parse] at ha
      split at ha
      · exact absurd ha List.not_mem_nil
      · split at ha
        · exact absurd ha List.not_mem_nil
        · next b rest hread =>
          rcases List.mem_cons.mp ha with rfl | ha
          · exact ((h.iff bs a rest).mp hread).1
          · exact ih ha

/-! ## Splitting a file -/

/-- Any bytes are whole entries, and then nothing or a broken tail. -/
theorem exists_split (ok : α → Prop) (h : ∀ a, write a ≠ []) (bs : List β) :
    ∃ (as : List α) (bad : List β), bs = as.flatMap write ++ bad ∧ (∀ a ∈ as, ok a) ∧
      (bad = [] ∨ Broken write ok bad) := by
  induction hn : bs.length using Nat.strongRecOn generalizing bs with
  | _ n ih =>
      by_cases hwhole : ∃ a rest, ok a ∧ bs = write a ++ rest
      · obtain ⟨a, rest, ha, rfl⟩ := hwhole
        have hpos := List.length_pos_of_ne_nil (h a)
        rw [List.length_append] at hn
        obtain ⟨as, bad, rfl, has, hbad⟩ := ih rest.length (by omega) rest rfl
        refine ⟨a :: as, bad, by rw [List.flatMap_cons, List.append_assoc], ?_, hbad⟩
        intro b hb
        rcases List.mem_cons.mp hb with rfl | hb
        · exact ha
        · exact has b hb
      · refine ⟨[], bs, rfl, fun a ha => absurd ha List.not_mem_nil, ?_⟩
        by_cases hnil : bs = []
        · exact .inl hnil
        · exact .inr ⟨hnil, fun a rest ha hbs => hwhole ⟨a, rest, ha, hbs⟩⟩

/-! ## The loop -/

theorem parse_append (h : Reads write ok read) : ∀ (as : List α) {fuel : Nat} {bad : List β},
    (∀ a ∈ as, ok a) → (as.flatMap write ++ bad).length ≤ fuel → ∃ left, bad.length ≤ left ∧
      parse read fuel (as.flatMap write ++ bad) =
        (as ++ (parse read left bad).1, (parse read left bad).2) := by
  intro as
  induction as with
  | nil => exact fun {fuel bad} _ hf => ⟨fuel, hf, rfl⟩
  | cons a as ih =>
      intro fuel bad hok hf
      have hpos := List.length_pos_of_ne_nil (h.ne_nil a)
      rw [List.flatMap_cons, List.append_assoc] at hf ⊢
      have hne : write a ++ (as.flatMap write ++ bad) ≠ [] := by simp [h.ne_nil a]
      have hread := (h.iff _ a (as.flatMap write ++ bad)).mpr ⟨hok a List.mem_cons_self, rfl⟩
      rw [List.length_append] at hf
      cases fuel with
      | zero => omega
      | succ fuel =>
          obtain ⟨left, hleft, hrest⟩ :=
            @ih fuel bad (fun b hb => hok b (List.mem_cons_of_mem _ hb)) (by omega)
          refine ⟨left, hleft, ?_⟩
          rw [parse, if_neg hne, hread]
          dsimp only
          rw [hrest]
          rfl

theorem parse_broken (h : Reads write ok read) {fuel : Nat} {bad : List β}
    (hbad : Broken write ok bad) (hf : bad.length ≤ fuel) :
    ∃ e, parse read fuel bad = ([], .error e) := by
  have hpos := List.length_pos_of_ne_nil hbad.1
  cases fuel with
  | zero => omega
  | succ fuel =>
      rw [parse, if_neg hbad.1]
      cases hread : read bad with
      | error e => exact ⟨e, rfl⟩
      | ok p =>
          obtain ⟨hok, hbs⟩ := (h.iff bad p.1 p.2).mp hread
          exact absurd hbs (hbad.2 _ _ hok)

theorem parse_whole (h : Reads write ok read) {fuel : Nat} {as : List α} (hok : ∀ a ∈ as, ok a)
    (hf : (as.flatMap write).length ≤ fuel) :
      parse read fuel (as.flatMap write) = (as, .ok ()) := by
  obtain ⟨left, _, hparse⟩ := @parse_append _ _ _ _ _ _ h as fuel [] hok (by rwa [List.append_nil])
  rw [List.append_nil, parse_nil, List.append_nil] at hparse
  exact hparse

/-- Behind a torn tail nothing is taken, and the loop says so. -/
theorem parse_torn (h : Reads write ok read) {fuel : Nat} {as : List α} {bad : List β}
    (hok : ∀ a ∈ as, ok a) (hbad : Broken write ok bad)
    (hf : (as.flatMap write ++ bad).length ≤ fuel) :
    ∃ e, parse read fuel (as.flatMap write ++ bad) = (as, .error e) := by
  obtain ⟨left, hleft, hparse⟩ := parse_append h as hok hf
  obtain ⟨e, he⟩ := parse_broken h hbad hleft
  refine ⟨e, ?_⟩
  rw [hparse, he, List.append_nil]

/-- The loop ends well on whole entries, and takes them all. -/
theorem parse_ok_iff (h : Reads write ok read) {fuel : Nat} {bs : List β} {as : List α}
    (hf : bs.length ≤ fuel) :
    parse read fuel bs = (as, .ok ()) ↔ (∀ a ∈ as, ok a) ∧ bs = as.flatMap write := by
  constructor
  · intro hparse
    obtain ⟨as', bad, rfl, hok, hbad⟩ := exists_split ok h.ne_nil bs
    rcases hbad with rfl | hbad
    · rw [List.append_nil] at hparse hf ⊢
      rw [parse_whole h hok hf, Prod.mk.injEq] at hparse
      exact hparse.1 ▸ ⟨hok, rfl⟩
    · obtain ⟨e, he⟩ := parse_torn h hok hbad hf
      rw [he] at hparse
      cases hparse
  · rintro ⟨hok, rfl⟩
    exact parse_whole h hok hf

theorem parse_fuel (h : Reads write ok read) : ∀ {fuel : Nat} {bs : List β}, bs.length ≤ fuel →
    parse read fuel bs = parse read bs.length bs := by
  intro fuel bs hf
  -- any two supplies that suffice agree
  suffices hany : ∀ (n m : Nat) (bs : List β), bs.length ≤ n → bs.length ≤ m →
      parse read n bs = parse read m bs from hany _ _ bs hf (Nat.le_refl _)
  intro n
  induction n with
  | zero =>
      intro m bs hn _
      rw [List.eq_nil_of_length_eq_zero (Nat.le_zero.mp hn), parse_nil, parse_nil]
  | succ n ih =>
      intro m bs hn hm
      by_cases hnil : bs = []
      · rw [hnil, parse_nil, parse_nil]
      · have hpos := List.length_pos_of_ne_nil hnil
        cases m with
        | zero => omega
        | succ m =>
            rw [parse, parse, if_neg hnil, if_neg hnil]
            cases hread : read bs with
            | error e => rfl
            | ok p =>
                obtain ⟨_, hbs⟩ := (h.iff bs p.1 p.2).mp hread
                have hentry := List.length_pos_of_ne_nil (h.ne_nil p.1)
                have hlen := congrArg List.length hbs
                rw [List.length_append] at hlen
                have hrest := ih m p.2 (by omega) (by omega)
                dsimp only
                rw [hrest]

end Entries
