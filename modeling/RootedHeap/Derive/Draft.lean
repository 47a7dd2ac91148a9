/-! # Definitions in pieces

A definition given as the texts of its parts, and the source text put together from them. The parts
are taken as they are, so the result need not be a definition.
-/

namespace RootedHeap.Derive

namespace Draft

inductive Kind where
  | struct
  | tuple
  | unit
  | enum
  | union
  deriving DecidableEq, Repr

/-- How the fields of a variant are given. -/
inductive Style where
  | named
  | tuple
  | unit
  deriving DecidableEq, Repr

structure Field where
  name : String := ""
  type : String := ""
  attributes : List String := []
  deriving DecidableEq, Repr

structure Variant where
  name : String := ""
  style : Style := .unit
  fields : List Field := []
  attributes : List String := []
  deriving DecidableEq, Repr

end Draft

structure Draft where
  kind : Draft.Kind
  name : String := ""
  attributes : List String := []
  /-- The texts of the parameters, if there is a parameter list. -/
  generics : Option (List String) := none
  /-- The predicates, if there is a clause of them. -/
  predicates : Option String := none
  fields : List Draft.Field := []
  variants : List Draft.Variant := []
  deriving DecidableEq, Repr

namespace Draft

/-- Attributes in their brackets. -/
def attributeSource (attributes : List String) : String :=
  String.join (attributes.map fun a => "#[" ++ a ++ "] ")

def Field.namedSource (f : Field) : String :=
  attributeSource f.attributes ++ f.name ++ ": " ++ f.type

def Field.tupleSource (f : Field) : String := attributeSource f.attributes ++ f.type

def namedSource (fields : List Field) : String :=
  " \x7b " ++ ", ".intercalate (fields.map (·.namedSource)) ++ " \x7d"

def tupleSource (fields : List Field) : String :=
  "(" ++ ", ".intercalate (fields.map (·.tupleSource)) ++ ")"

def Variant.source (v : Variant) : String :=
  attributeSource v.attributes ++ v.name ++ match v.style with
    | .named => namedSource v.fields
    | .tuple => tupleSource v.fields
    | .unit => ""

/-- The source text of the definition. -/
def source (d : Draft) : String :=
  let params := match d.generics with
    | some ps => "<" ++ ", ".intercalate ps ++ ">"
    | none => ""
  let clause := match d.predicates with
    | some ps => " where " ++ ps
    | none => ""
  let head := fun keyword : String => attributeSource d.attributes ++ keyword ++ " " ++ d.name ++ params
  match d.kind with
  | .struct => head "struct" ++ clause ++ namedSource d.fields
  | .tuple => head "struct" ++ tupleSource d.fields ++ clause ++ ";"
  | .unit => head "struct" ++ clause ++ ";"
  | .enum =>
    head "enum" ++ clause ++ " \x7b " ++ ", ".intercalate (d.variants.map (·.source)) ++ " \x7d"
  | .union => head "union" ++ clause ++ namedSource d.fields

end Draft

end RootedHeap.Derive
