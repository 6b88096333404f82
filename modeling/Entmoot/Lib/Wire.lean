/-
# `Lib.Wire` — prefixes, big-endian numbers and length-prefixed chunks

A byte format written front to back: a fixed prefix (`stripPrefix`), fixed-width
big-endian numbers (`putNat`, `getNat`) and chunks that carry their own length
in front (`putChunk`, `takeChunk`).  Readers return what they read together with
the rest.  For each pair the forward law is proved: reading what was written
gives it back and stops exactly behind it.  The converse is there too: a reader
that succeeds has split its input into what it read, written out, and the rest.
-/
import Mathlib.Data.List.Induction
import Mathlib.Data.Nat.Digits.Defs
import Mathlib.Tactic.Ring

namespace Wire

section Split
variable {β : Type*}

/-- `strip_prefix`: what follows `pre`, if the list starts with it. -/
def stripPrefix [DecidableEq β] : List β → List β → Option (List β)
  | [], bs => some bs
  | _ :: _, [] => none
  | p :: pre, b :: bs => if p = b then stripPrefix pre bs else none

@[simp] theorem stripPrefix_append [DecidableEq β] :
    ∀ (pre rest : List β), stripPrefix pre (pre ++ rest) = some rest
  | [], _ => rfl
  | p :: pre, rest => by simp [stripPrefix, stripPrefix_append pre rest]

theorem stripPrefix_eq_some [DecidableEq β] :
    ∀ {pre bs rest : List β}, stripPrefix pre bs = some rest ↔ bs = pre ++ rest
  | [], bs, rest => by simp [stripPrefix]
  | p :: pre, [], rest => by simp [stripPrefix]
  | p :: pre, b :: bs, rest => by
      have ih : stripPrefix pre bs = some rest ↔ bs = pre ++ rest := stripPrefix_eq_some
      by_cases h : p = b
      · subst h
        simp [stripPrefix, ih]
      · simp [stripPrefix, h, Ne.symm h]

/-- `split_at_checked`: the first `n` elements and the rest, if there are `n`. -/
def splitAt? (n : Nat) (bs : List β) : Option (List β × List β) :=
  if n ≤ bs.length then some (bs.take n, bs.drop n) else none

theorem splitAt?_append {n : Nat} {c : List β} (rest : List β) (h : c.length = n) :
    splitAt? n (c ++ rest) = some (c, rest) := by
  subst h
  simp [splitAt?]

theorem splitAt?_eq_some {n : Nat} {bs c rest : List β} :
    splitAt? n bs = some (c, rest) ↔ bs = c ++ rest ∧ c.length = n := by
  constructor
  · intro h
    by_cases hn : n ≤ bs.length
    · simp only [splitAt?, if_pos hn, Option.some.injEq, Prod.mk.injEq] at h
      obtain ⟨rfl, rfl⟩ := h
      exact ⟨(List.take_append_drop n bs).symm, List.length_take_of_le hn⟩
    · simp [splitAt?, hn] at h
  · rintro ⟨rfl, hlen⟩
    exact splitAt?_append rest hlen

end Split

/-! ## Big-endian numbers -/

/-- The `k` low bytes of `n`, most significant first. -/
def putNat : Nat → Nat → List UInt8
  | 0, _ => []
  | k + 1, n => putNat k (n / 256) ++ [UInt8.ofNat n]

/-- The number a list of bytes spells, most significant first. -/
def getNat (bs : List UInt8) : Nat :=
  bs.foldl (fun acc b => acc * 256 + b.toNat) 0

@[simp] theorem putNat_length : ∀ (k n : Nat), (putNat k n).length = k
  | 0, _ => rfl
  | k + 1, n => by simp [putNat, putNat_length k]

theorem getNat_concat (bs : List UInt8) (b : UInt8) :
    getNat (bs ++ [b]) = getNat bs * 256 + b.toNat := by
  simp [getNat]

/-- A number below `256 ^ k` survives the trip through `k` bytes. -/
theorem getNat_putNat : ∀ {k n : Nat}, n < 256 ^ k → getNat (putNat k n) = n
  | 0, n, h => by
      have : n = 0 := by simpa using h
      subst this
      rfl
  | k + 1, n, h => by
      have hdiv : n / 256 < 256 ^ k := by
        rw [Nat.div_lt_iff_lt_mul (by decide)]
        rwa [pow_succ] at h
      have hbyte : (UInt8.ofNat n).toNat = n % 256 := by simp
      rw [putNat, getNat_concat, getNat_putNat hdiv, hbyte]
      omega

theorem getNat_lt (bs : List UInt8) : getNat bs < 256 ^ bs.length := by
  induction hrev : bs.reverse generalizing bs with
  | nil =>
      rw [List.reverse_eq_nil_iff.mp hrev]
      exact Nat.one_pos
  | cons b cs ih =>
      have hbs : bs = cs.reverse ++ [b] := by
        rw [← List.reverse_reverse bs, hrev, List.reverse_cons]
      have hcs := ih cs.reverse (List.reverse_reverse cs)
      have hb : b.toNat < 256 := b.toNat_lt
      rw [hbs, getNat_concat, List.length_append, List.length_singleton, pow_succ]
      omega

/-- Bytes are the spelling of the number they spell. -/
theorem putNat_getNat (bs : List UInt8) : putNat bs.length (getNat bs) = bs := by
  induction bs using List.reverseRecOn with
  | nil => rfl
  | append_singleton bs b ih =>
      have hb : b.toNat < 256 := b.toNat_lt
      have hdiv : (getNat bs * 256 + b.toNat) / 256 = getNat bs := by omega
      have hlow : UInt8.ofNat (getNat bs * 256 + b.toNat) = b := by
        apply UInt8.toNat_inj.mp
        simp only [UInt8.toNat_ofNat']
        omega
      rw [List.length_append, List.length_singleton, getNat_concat, putNat, hdiv, hlow, ih]

/-! ## Chunks -/

/-- A chunk: its length in four big-endian bytes, then its content. -/
def putChunk (c : List UInt8) : List UInt8 := putNat 4 c.length ++ c

/-- Read one chunk off the front. -/
def takeChunk (bs : List UInt8) : Option (List UInt8 × List UInt8) :=
  (splitAt? 4 bs).bind fun p => splitAt? (getNat p.1) p.2

theorem putChunk_length (c : List UInt8) : (putChunk c).length = 4 + c.length := by
  simp [putChunk]

theorem takeChunk_putChunk {c : List UInt8} (rest : List UInt8) (h : c.length < 2 ^ 32) :
    takeChunk (putChunk c ++ rest) = some (c, rest) := by
  have hhead : splitAt? 4 (putChunk c ++ rest) = some (putNat 4 c.length, c ++ rest) := by
    rw [putChunk, List.append_assoc]
    exact splitAt?_append _ (putNat_length 4 _)
  have hlen : getNat (putNat 4 c.length) = c.length := getNat_putNat (by simpa using h)
  simp only [takeChunk, hhead, Option.bind_some, hlen]
  exact splitAt?_append rest rfl

/-- A chunk that was read is not longer than its length field can say. -/
theorem takeChunk_length {bs c rest : List UInt8} (h : takeChunk bs = some (c, rest)) :
    c.length < 2 ^ 32 := by
  obtain ⟨⟨len, tail⟩, hlen, hc⟩ := Option.bind_eq_some_iff.mp h
  rw [(splitAt?_eq_some.mp hc).2]
  have hlt := getNat_lt len
  rw [(splitAt?_eq_some.mp hlen).2] at hlt
  exact hlt

/-- A chunk that was read stands in front of the rest as it would be written. -/
theorem takeChunk_eq_some {bs c rest : List UInt8} :
    takeChunk bs = some (c, rest) ↔ c.length < 2 ^ 32 ∧ bs = putChunk c ++ rest := by
  constructor
  · intro h
    refine ⟨takeChunk_length h, ?_⟩
    obtain ⟨⟨len, tail⟩, hlen, hc⟩ := Option.bind_eq_some_iff.mp h
    obtain ⟨rfl, hfour⟩ := splitAt?_eq_some.mp hlen
    obtain ⟨htail, hcount⟩ := splitAt?_eq_some.mp hc
    have hspelt : putNat 4 c.length = len := by
      have hspell := putNat_getNat len
      rwa [hfour, ← hcount] at hspell
    dsimp only at htail
    rw [htail, putChunk, hspelt, List.append_assoc]
  · rintro ⟨hlen, rfl⟩
    exact takeChunk_putChunk rest hlen

end Wire
