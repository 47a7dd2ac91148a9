import RootedHeap.Text.Quoted

/-! # Type descriptors

Every managed type is registered once, with the name it has in messages. Registering it again gives
the descriptor it already has.
-/

namespace RootedHeap

/-- What is known of a managed type. -/
structure Descriptor where
  typeName : String
  deriving DecidableEq, Repr

def Descriptor.debug (d : Descriptor) : String :=
  "Descriptor \x7b type_name: " ++ Text.debugQuoted d.typeName ++ ", .. \x7d"

/-- The registered types, ascending by name. -/
structure Descriptors where
  types : List Descriptor := []
  deriving DecidableEq, Repr

namespace Descriptors

def lookup (ds : Descriptors) (typeName : String) : Option Descriptor :=
  ds.types.find? (·.typeName = typeName)

/-- Put a descriptor in front of all whose names come after its own. -/
def insert (d : Descriptor) : List Descriptor → List Descriptor
  | [] => [d]
  | e :: rest => if d.typeName < e.typeName then d :: e :: rest else e :: insert d rest

/-- The descriptor of a type, which is registered now unless it was before. -/
def register (ds : Descriptors) (typeName : String) : Descriptor × Descriptors :=
  match ds.lookup typeName with
  | some d => (d, ds)
  | none => (⟨typeName⟩, ⟨insert ⟨typeName⟩ ds.types⟩)

/-- Register several types. -/
def ofList (typeNames : List String) : Descriptors :=
  typeNames.foldl (fun ds name => (ds.register name).2) {}

def names (ds : Descriptors) : List String := ds.types.map (·.typeName)

end Descriptors

end RootedHeap
