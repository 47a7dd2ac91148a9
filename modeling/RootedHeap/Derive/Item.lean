import RootedHeap.Derive.Generics
import RootedHeap.Derive.Source

/-! # Item definitions

A definition of a data type: its name, its generics, and its fields with their attributes. Types of
fields, visibility and the attributes of the item and its variants have no bearing on what is
derived, so they are read and forgotten.
-/

namespace RootedHeap.Derive

/-- The fields of a definition or a variant, each with its attributes. -/
inductive Layout where
  | named (fields : List (String × List Attribute))
  | tuple (fields : List (List Attribute))
  | unit
  deriving DecidableEq, Repr

/-- The attributes of each field, in order. -/
def Layout.attributes : Layout → List (List Attribute)
  | named fields => fields.map (·.2)
  | tuple fields => fields
  | unit => []

structure Variant where
  name : String
  layout : Layout
  deriving DecidableEq, Repr

inductive Data where
  | struct (layout : Layout)
  | enum (variants : List Variant)
  | union (layout : Layout)
  deriving DecidableEq, Repr

structure Item where
  name : String
  generics : Generics
  data : Data
  deriving DecidableEq, Repr

/-! ## Reading definitions -/

namespace Grammar

/-- A visibility, which may be left out. -/
def visibility : Written := do
  if ← next (atWord "pub") then
    let start ← keyword "pub"
    let ts ← get
    let narrowed := atOpening .paren ts &&
      (["crate", "self", "super"].any (atWord · (ts.drop 1)) &&
        (ts.drop 2).head? = some (.closing .paren) || atWord "in" (ts.drop 1))
    if narrowed then
      return start ++ (← group .paren do
        let place ← optional (atWord "in") (keyword "in")
        let path ← plainPath
        return place ++ path.tokens)
    return start
  return []

def namedField (l : Level) : Reader (String × List Attribute) := do
  let before ← attributes l
  let _ ← visibility
  let name ← nameOf (if ← next (atWord "_") then anyWord else ident)
  let _ ← mark ':'
  let _ ← l.type true
  return (name, before)

def tupleField (l : Level) : Reader (List Attribute) := do
  let before ← attributes l
  let _ ← visibility
  let _ ← l.type true
  return before

/-- Items between delimiters, separated by commas. -/
def enclosed {α : Type} (d : Delimiter) (item : Reader α) : Reader (List α) := do
  let _ ← token (· = .opening d)
  let items ← separated atClosing ',' item
  let _ ← token (· = .closing d)
  return items.map (·.1)

def namedLayout (l : Level) : Reader Layout := return .named (← enclosed .brace (namedField l))

def tupleLayout (l : Level) : Reader Layout := return .tuple (← enclosed .paren (tupleField l))

def variant (l : Level) : Reader Variant := do
  let _ ← attributes l
  let _ ← visibility
  let name ← nameOf ident
  let ts ← get
  let layout ← if atOpening .brace ts then namedLayout l
    else if atOpening .paren ts then tupleLayout l
    else pure .unit
  let _ ← optional (atMark '=') do
    return (← mark '=') ++ (← l.expr)
  return ⟨name, layout⟩

/-- The fields of a struct with the predicates, which stand before named fields and after others. -/
def structBody (l : Level) : Reader (List Token × Layout) := do
  if ← next (atOpening .paren) then
    let layout ← tupleLayout l
    let predicates ← clause l
    let _ ← mark ';'
    return (predicates, layout)
  let predicates ← clause l
  if ← next (atOpening .brace) then return (predicates, ← namedLayout l)
  let _ ← mark ';'
  return (predicates, .unit)

def item (l : Level) : Reader Item := do
  let _ ← attributes l
  let _ ← visibility
  let ts ← get
  let _ ← anyWord
  let name ← nameOf ident
  let params ← generics l
  if atWord "struct" ts then
    let (predicates, layout) ← structBody l
    return ⟨name, ⟨params, predicates⟩, .struct layout⟩
  if atWord "enum" ts then
    let predicates ← clause l
    let variants ← enclosed .brace (variant l)
    return ⟨name, ⟨params, predicates⟩, .enum variants⟩
  if atWord "union" ts then
    let predicates ← clause l
    let layout ← namedLayout l
    return ⟨name, ⟨params, predicates⟩, .union layout⟩
  failure

/-- Read a whole text. -/
def whole {α : Type} (r : Level → Reader α) (source : String) : Option α :=
  match Source.tokens? source with
  | some ts =>
    match r (.ofDepth (ts.length + 1)) ts with
    | some (a, []) => some a
    | _ => none
  | none => none

end Grammar

/-- The definition that a text holds. -/
def Item.read? (source : String) : Option Item := Grammar.whole Grammar.item source

/-- The attributes that a text holds. -/
def Attribute.readAll? (source : String) : Option (List Attribute) :=
  Grammar.whole Grammar.attributes source

end RootedHeap.Derive
