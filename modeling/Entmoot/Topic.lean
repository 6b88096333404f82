/-
# `Entmoot.Topic` — MQTT topics and filters as Zenoh key expressions

`crates/entmoot-core/src/topic.rs`.  A topic or filter is cut at `/` into
levels; a concrete topic maps to the key expression with the same chunks, a
filter turns `+` into `*` and a final `#` into `**`, and a first level `$SYS` or
`$meta` into the verbatim chunk of that keyspace.  `topicMatches` and
`filterCovers` work on the raw split, without validation, as the source does.
-/
import Entmoot.Basic
import Entmoot.Lib.Wire

namespace Entmoot

open Wire (stripPrefix)

inductive TopicError where
  | empty
  | emptyLevel
  | wildcardInTopic (c : Char)
  | hashNotLast
  | partialWildcard (level : Str)
  | reservedChar (c : Char)
  deriving DecidableEq, Repr

/-! ## Validation -/

/-- A leading `@` marks a verbatim chunk and is reserved for internal keys. -/
def checkLevelChars (level : Str) : Except TopicError Unit :=
  if level.head? = some '@' then .error (.reservedChar '@')
  else match level.find? (fun c => c = '*' || c = '$' || c = '?') with
    | some c => .error (.reservedChar c)
    | none => .ok ()

/-- `s.split('/')`, refusing the empty string and empty levels. -/
def levels (s : Str) : Except TopicError (List Str) :=
  if s = [] then .error .empty
  else
    let parts := s.splitOn '/'
    if parts.any (fun p => p.isEmpty) then .error .emptyLevel else .ok parts

/-- `parts.join("/")`. -/
def joinLevels (parts : List Str) : Str := ['/'].intercalate parts

def inScope (scope ke : Str) : Str :=
  if scope = [] then ke else scope ++ '/' :: ke

/-! ## The internal keyspaces -/

def retainedChunk : Str := "@retained".toList
def sysPrefix : Str := "$SYS".toList
def sysChunk : Str := "@sys".toList
def metaPrefix : Str := "$meta".toList
def metaChunk : Str := "@meta".toList

def retainedKeyexpr (topicName scope : Str) : Str :=
  inScope scope (retainedChunk ++ '/' :: topicName)

def retainedFilter (scope : Str) : Str :=
  inScope scope (retainedChunk ++ "/**".toList)

def sysKeyexpr (suffix scope : Str) : Str :=
  inScope scope (sysChunk ++ '/' :: suffix)

def metaKeyexpr (topicName scope : Str) : Str :=
  inScope scope (metaChunk ++ '/' :: topicName)

/-! ## Topics and filters to key expressions -/

/-- One level of a publish topic. -/
def checkTopicLevel (level : Str) : Except TopicError Unit :=
  if '+' ∈ level then .error (.wildcardInTopic '+')
  else if '#' ∈ level then .error (.wildcardInTopic '#')
  else checkLevelChars level

def topicToKeyexpr (topic scope : Str) : Except TopicError Str := do
  let parts ← levels topic
  parts.forM checkTopicLevel
  pure (inScope scope (joinLevels parts))

/-- The chunk for level `i` of a filter whose last level is number `last`. -/
def filterLevel (last i : Nat) (level : Str) : Except TopicError Str :=
  if level = sysPrefix ∧ i = 0 then .ok sysChunk
  else if level = metaPrefix ∧ i = 0 then .ok metaChunk
  else if level = ['+'] then .ok ['*']
  else if level = ['#'] then (if i ≠ last then .error .hashNotLast else .ok ['*', '*'])
  else if '+' ∈ level ∨ '#' ∈ level then .error (.partialWildcard level)
  else do checkLevelChars level; pure level

/-- The chunks of a filter's levels from number `i` on. -/
def filterLevels (last : Nat) : Nat → List Str → Except TopicError (List Str)
  | _, [] => .ok []
  | i, level :: rest => do
      let c ← filterLevel last i level
      let cs ← filterLevels last (i + 1) rest
      pure (c :: cs)

def filterToKeyexpr (filter scope : Str) : Except TopicError Str := do
  let parts ← levels filter
  let out ← filterLevels (parts.length - 1) 0 parts
  pure (inScope scope (joinLevels out))

/-! ## Key expressions back to topics -/

def stripScope (ke scope : Str) : Option Str :=
  if scope = [] then some ke
  else (stripPrefix scope ke).bind (stripPrefix ['/'])

theorem stripScope_eq_some {ke scope rest : Str} :
    stripScope ke scope = some rest ↔ ke = inScope scope rest := by
  rw [stripScope, inScope]
  split
  · rw [Option.some.injEq]
  · rw [Option.bind_eq_some_iff]
    constructor
    · rintro ⟨tail, htail, hslash⟩
      rw [Wire.stripPrefix_eq_some] at htail hslash
      rw [htail, hslash]
      rfl
    · rintro rfl
      exact ⟨'/' :: rest, Wire.stripPrefix_append _ _, Wire.stripPrefix_append ['/'] rest⟩

def keyexprToTopic (ke scope : Str) : Option Str := do
  let rest ← stripScope ke scope
  match stripPrefix sysChunk rest with
  | some sys => (stripPrefix ['/'] sys).map fun s => sysPrefix ++ '/' :: s
  | none =>
    match stripPrefix metaChunk rest with
    | some m => (stripPrefix ['/'] m).map fun s => metaPrefix ++ '/' :: s
    | none => if rest.head? = some '@' then none else some rest

def retainedKeyexprToTopic (ke scope : Str) : Option Str := do
  let rest ← stripScope ke scope
  let t ← stripPrefix retainedChunk rest
  stripPrefix ['/'] t

/-! ## Matching and covering -/

/-- `topic_matches` on split levels. -/
def matchLevels : List Str → List Str → Bool
  | [], t => t.isEmpty
  | f :: fs, t =>
      if f = ['#'] then true
      else match t with
        | [] => false
        | l :: ls => if f = ['+'] then matchLevels fs ls else if f = l
            then matchLevels fs ls else false

def topicMatches (filter topicName : Str) : Bool :=
  matchLevels (filter.splitOn '/') (topicName.splitOn '/')

/-- `filter_covers` on split levels. -/
def coverLevels : List Str → List Str → Bool
  | [], i => i.isEmpty
  | o :: os, i =>
      if o = ['#'] then true
      else match i with
        | [] => false
        | l :: ls =>
            if o = ['+'] then (if l = ['#'] then false else coverLevels os ls)
            else if o = l then coverLevels os ls else false

def filterCovers (outer inner : Str) : Bool :=
  coverLevels (outer.splitOn '/') (inner.splitOn '/')

end Entmoot
