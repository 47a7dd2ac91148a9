import RootedHeap.Derive.Grammar
import RootedHeap.Value

/-! # Attributes and roles

The role of a field is written in its `gc` attributes, each a list of items `skip` and `base`. Items
may be repeated and spread over several attributes, but one field cannot have both. Items are judged
one by one from the left, so the first thing wrong decides the refusal. How an attribute's list comes
apart into items is up to an `ItemReader`; `items` is the one in use.
-/

namespace RootedHeap.Derive

/-- Why a definition cannot be expanded. -/
inductive Refusal where
  | union
  | missingList
  | valueInPlaceOfList
  | literalItem
  | strayItem
  | emptyItem
  | missingSegment
  | missingLastSegment
  | unknownRole
  | mixedRoles
  | missingComma
  deriving DecidableEq, Repr

def Refusal.message : Refusal → String
  | union => "Traverse cannot be derived for unions: the owned field is not knowable"
  | missingList => "expected attribute arguments in parentheses: #[gc(...)]"
  | valueInPlaceOfList => "expected parentheses: #[gc(...)]"
  | literalItem => "unexpected literal in nested attribute, expected ident"
  | strayItem => "unexpected token in nested attribute, expected ident"
  | emptyItem => "unexpected end of input, expected nested attribute"
  | missingSegment => "expected ident"
  | missingLastSegment => "unexpected end of input, expected ident"
  | unknownRole => "expected `skip` or `base`"
  | mixedRoles => "`skip` and `base` cannot be combined"
  | missingComma => "expected `,`"

/-- A path without arguments. -/
structure Path where
  /-- Whether the path starts with a separator. -/
  rooted : Bool
  first : String
  rest : List String
  deriving DecidableEq, Repr

namespace Path

/-- The path that is one word. -/
def ofWord (w : String) : Path := ⟨false, w, []⟩

def tokens (p : Path) : List Token :=
  (if p.rooted then Token.pathSep else []) ++ .word p.first ::
    p.rest.flatMap fun w => Token.pathSep ++ [.word w]

end Path

/-- What follows the path of an attribute. -/
inductive Arguments where
  | none
  | value (tokens : List Token)
  | list (d : Delimiter) (items : List Token)
  deriving DecidableEq, Repr

structure Attribute where
  path : Path
  arguments : Arguments
  deriving DecidableEq, Repr

namespace Attribute

/-- Only attributes named `gc` have a say in roles. -/
def isRole (a : Attribute) : Bool := a.path = .ofWord "gc"

def tokens (a : Attribute) : List Token :=
  .mark '#' false :: Token.group .bracket (a.path.tokens ++ match a.arguments with
    | .none => []
    | .value ts => .mark '=' false :: ts
    | .list d items => Token.group d items)

end Attribute

/-! ## Reading attributes -/

namespace Grammar

/-- Further segments of a plain path. -/
def plainSegments : List Token → Option (List String × List Token)
  | .mark ':' true :: .mark ':' _ :: .word w :: rest =>
    if w ∉ reserved ∨ w ∈ pathWords then
      (plainSegments rest).map fun (ws, r) => (w :: ws, r)
    else none
  | .mark ':' true :: .mark ':' _ :: _ => none
  | rest => some ([], rest)

/-- The path of an attribute; the word `unsafe` may stand for one. -/
def plainPath : Reader Path := do
  let rooted := !(← optional atPathSep pathSep).isEmpty
  let ts ← get
  match ts with
  | .word w :: rest =>
    -- `unsafe(...)` wraps an attribute, and is taken for a path with a list
    if w = "unsafe" && !rooted then
      set rest
      return .ofWord w
    if w ∉ reserved ∨ w ∈ pathWords then
      let (ws, left) ← plainSegments rest
      set left
      return ⟨rooted, w, ws⟩
    failure
  | _ => failure

/-- An attribute in its brackets, after its hash mark. -/
def oneAttribute (l : Level) : Reader Attribute := do
  let _ ← mark '#'
  let _ ← token (· = .opening .bracket)
  let path ← plainPath
  let ts ← get
  let arguments ← match ts with
    | .opening d :: _ => do
      let _ ← token (· = .opening d)
      let items ← skipTo 0
      let _ ← token (· = .closing d)
      pure (Arguments.list d items)
    | .mark '=' _ :: _ => do
      let _ ← mark '='
      pure (Arguments.value (← l.expr))
    | _ => pure Arguments.none
  let _ ← token (· = .closing .bracket)
  return ⟨path, arguments⟩

/-- All attributes in front of something. -/
def attributesUpTo (l : Level) : Nat → Reader (List Attribute)
  | 0 => failure
  | limit + 1 => do
    if ← next (atMark '#') then
      let first ← oneAttribute l
      let rest ← attributesUpTo l limit
      return first :: rest
    return []

def attributes (l : Level) : Reader (List Attribute) := do
  attributesUpTo l ((← get).length + 1)

end Grammar

/-! ## Items -/

/-- Gives the items of an attribute list, in order, and what is wrong after the last of them, if
anything is. -/
abbrev ItemReader := List Token → List Path × Option Refusal

/-- Segments after the first word of an item, up to what is no path separator. -/
def itemSegments : List Token → Except Refusal (List String × List Token)
  | .mark ':' true :: .mark ':' _ :: .word w :: rest =>
    match itemSegments rest with
    | .ok (ws, left) => .ok (w :: ws, left)
    | .error e => .error e
  | [.mark ':' true, .mark ':' _] => .error .missingLastSegment
  | .mark ':' true :: .mark ':' _ :: _ => .error .missingSegment
  | rest => .ok ([], rest)

/-- The path of an item from its first word on; any word may be part of it. -/
def itemWords (rooted : Bool) : List Token → Except Refusal (Path × List Token)
  | [] => .error .emptyItem
  | .word w :: rest =>
    match itemSegments rest with
    | .ok (ws, left) => .ok (⟨rooted, w, ws⟩, left)
    | .error e => .error e
  | ts => .error (if Grammar.atLiteral ts then .literalItem else .strayItem)

/-- The path that an item of an attribute list starts with, and what follows it. -/
def itemPath : List Token → Except Refusal (Path × List Token)
  | .mark ':' true :: .mark ':' _ :: rest => itemWords true rest
  | ts => itemWords false ts

/-- What follows an item and its comma: nothing, or further items. -/
def afterItem : List Token → Except Refusal (List Token)
  | [] => .ok []
  | .mark ',' _ :: rest => .ok rest
  | _ => .error .missingComma

theorem length_itemSegments {ts left : List Token} {ws : List String}
    (h : itemSegments ts = .ok (ws, left)) : left.length ≤ ts.length := by
  fun_induction itemSegments ts generalizing ws left with
  | case1 joint w rest ws' left' heq ih =>
    cases h
    have := ih heq
    simp only [List.length_cons]
    omega
  | case2 => cases h
  | case3 => cases h
  | case4 => cases h
  | case5 =>
    cases h
    exact Nat.le_refl _

theorem length_itemWords {rooted : Bool} {ts left : List Token} {p : Path}
    (h : itemWords rooted ts = .ok (p, left)) : left.length < ts.length := by
  unfold itemWords at h
  split at h
  · cases h
  · split at h
    · next heq =>
      cases h
      exact Nat.lt_succ_of_le (length_itemSegments heq)
    · cases h
  · cases h

/-- An item takes at least one token. -/
theorem length_itemPath {ts left : List Token} {p : Path} (h : itemPath ts = .ok (p, left)) :
    left.length < ts.length := by
  unfold itemPath at h
  split at h
  · have := length_itemWords h
    simp only [List.length_cons]
    omega
  · exact length_itemWords h

theorem length_afterItem {ts left : List Token} (h : afterItem ts = .ok left) :
    left.length ≤ ts.length := by
  unfold afterItem at h
  split at h
  · cases h
    exact Nat.le_refl _
  · cases h
    exact Nat.le_succ _
  · cases h

/-- The reader in use: paths of words with commas between them. -/
def items (ts : List Token) : List Path × Option Refusal :=
  if ts = [] then ([], none)
  else
    match _hp : itemPath ts with
    | .error e => ([], some e)
    | .ok (p, left) =>
      match _hl : afterItem left with
      | .error e => ([p], some e)
      | .ok rest =>
        let (ps, wrong) := items rest
        (p :: ps, wrong)
termination_by ts.length
decreasing_by exact Nat.lt_of_le_of_lt (length_afterItem ‹_›) (length_itemPath ‹_›)

end RootedHeap.Derive

/-! ## Roles -/

namespace RootedHeap.Role

open Derive

/-- The role that an item names. -/
def ofPath? (p : Path) : Option Role :=
  if p = .ofWord "skip" then some .skipped
  else if p = .ofWord "base" then some .base
  else none

/-- A field that has a role already can only be given the same one. -/
def combine (role next : Role) : Except Refusal Role :=
  if role ≠ .owned ∧ role ≠ next then .error .mixedRoles else .ok next

/-- The role of a field after one more item. -/
def withItem (role : Role) (p : Path) : Except Refusal Role :=
  match ofPath? p with
  | some next => role.combine next
  | none => .error .unknownRole

section Reader

variable (read : ItemReader)

/-- The role of a field after the items of one more attribute. -/
def withItems (role : Role) (ts : List Token) : Except Refusal Role :=
  match (read ts).1.foldlM withItem role with
  | .error e => .error e
  | .ok role =>
    match (read ts).2 with
    | some e => .error e
    | none => .ok role

/-- The role of a field after one more attribute. -/
def withAttribute (role : Role) (a : Attribute) : Except Refusal Role :=
  match a.arguments with
  | .none => .error .missingList
  | .value _ => .error .valueInPlaceOfList
  | .list _ ts => role.withItems read ts

/-- The role that the attributes of a field give it, with their items as `read` gives them. -/
def readFrom (attributes : List Attribute) : Except Refusal Role :=
  (attributes.filter (·.isRole)).foldlM (withAttribute read) .owned

end Reader

/-- The role that the attributes of a field give it. -/
def ofAttributes (attributes : List Attribute) : Except Refusal Role := readFrom items attributes

end RootedHeap.Role
