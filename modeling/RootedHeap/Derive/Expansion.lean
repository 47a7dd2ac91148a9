import RootedHeap.Derive.Item

/-! # Expansion of a definition

What is derived for a definition: one implementation of the trait with two halves, of which each
calls the same half of every field that is not skipped. Fields with the role `base` come first. A
struct reaches its fields through itself, an enum through the bindings of its patterns.
-/

namespace RootedHeap.Derive

/-- The two halves of a traversal. -/
inductive Half where
  | connect
  | disconnect
  deriving DecidableEq, Repr

/-- How a field is reached. -/
inductive Access where
  | field (name : String)
  | position (index : Nat)
  /-- The binding of a pattern, numbered by the field it is for. -/
  | binding (index : Nat)
  deriving DecidableEq, Repr

/-- A call of a half of the traversal on a field. -/
structure Call where
  half : Half
  target : Access
  deriving DecidableEq, Repr

/-- A pattern for a variant. It binds the fields that are not skipped. -/
inductive Pattern where
  | named (bindings : List (String × Nat))
  /-- One place for each field, empty for a skipped one. -/
  | tuple (places : List (Option Nat))
  | unit
  deriving DecidableEq, Repr

structure Arm where
  variant : String
  pattern : Pattern
  calls : List Call
  deriving DecidableEq, Repr

/-- The body of one half. -/
inductive Body where
  | calls (calls : List Call)
  | choice (arms : List Arm)
  deriving DecidableEq, Repr

structure Expansion where
  name : String
  generics : Generics
  connect : Body
  disconnect : Body
  deriving DecidableEq, Repr

/-- The calls of one half on fields with roles. -/
def Half.calls (half : Half) (fields : List (Role × Access)) : List Call :=
  (Role.arrange fields).map (Call.mk half)

namespace Layout

/-- The role of each field, in order. -/
def roles (read : ItemReader) (layout : Layout) : Except Refusal (List Role) :=
  layout.attributes.mapM (Role.readFrom read)

/-- How a struct reaches each of its fields, in order. -/
def accesses : Layout → List Access
  | named fields => fields.map fun f => .field f.1
  | tuple fields => (List.range fields.length).map .position
  | unit => []

/-- How an enum reaches each field of a variant, in order. -/
def bindings (layout : Layout) : List Access :=
  (List.range layout.attributes.length).map .binding

/-- The pattern for a variant whose fields have the given roles. -/
def pattern (layout : Layout) (roles : List Role) : Pattern :=
  match layout with
  | named fields => .named <| (fields.zip roles).zipIdx.filterMap fun ((f, role), i) =>
    if role = .skipped then none else some (f.1, i)
  | tuple _ => .tuple <| roles.zipIdx.map fun (role, i) =>
    if role = .skipped then none else some i
  | unit => .unit

end Layout

section Reader

variable (read : ItemReader)

/-- The arm of one half for a variant. -/
def Variant.arm (half : Half) (v : Variant) : Except Refusal Arm :=
  match v.layout.roles read with
  | .ok roles => .ok ⟨v.name, v.layout.pattern roles, half.calls (roles.zip v.layout.bindings)⟩
  | .error e => .error e

/-- The body of one half. -/
def Data.body (half : Half) : Data → Except Refusal Body
  | struct layout =>
    match layout.roles read with
    | .ok roles => .ok (.calls (half.calls (roles.zip layout.accesses)))
    | .error e => .error e
  | enum variants =>
    match variants.mapM (·.arm read half) with
    | .ok arms => .ok (.choice arms)
    | .error e => .error e
  | union _ => .error .union

/-- What is derived for a definition, with the items of its attributes as `read` gives them. -/
def Item.expandWith (item : Item) : Except Refusal Expansion :=
  -- both halves read the same roles, so a refusal always comes from the first
  match item.data.body read .connect with
  | .error e => .error e
  | .ok connect =>
    match item.data.body read .disconnect with
    | .error e => .error e
    | .ok disconnect => .ok ⟨item.name, item.generics, connect, disconnect⟩

end Reader

/-- What is derived for a definition. -/
def Item.expand (item : Item) : Except Refusal Expansion := item.expandWith items

end RootedHeap.Derive
