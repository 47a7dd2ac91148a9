import RootedHeap.Ident

/-! # Managed values

The shape of a managed value: which owning slots it has, where they are stored, which of them it
reports, and what goes when it is dropped. A value reports its slots in two halves, one for
connecting and one for disconnecting a root. Both report the parts of a record in the order of
their roles, base parts first; a skipped part is never reported, and neither is the key of a map.
An `uneven` part is the only one that may report its slot differently in the two halves.
-/

namespace RootedHeap

/-- A root handle: the object it points at, the root it contributes, and the heap of that root. -/
structure Handle where
  obj : ObjId
  root : RootId
  heap : HeapId
  deriving DecidableEq, Repr

/-- The content of an owning slot. -/
inductive Slot where
  /-- A field, possibly null. -/
  | one (target : Option ObjId)
  /-- A list of objects. -/
  | many (items : List ObjId)
  deriving DecidableEq, Repr

namespace Slot

/-- The objects the slot owns, in order. -/
def targets : Slot → List ObjId
  | one target => target.toList
  | many items => items

/-- The slot of the same kind that owns nothing. -/
def emptied : Slot → Slot
  | one _ => one none
  | many _ => many []

end Slot

/-- One report of a slot to a pass. -/
structure Visit where
  slot : SlotId
  target : Option ObjId
  deriving DecidableEq, Repr

/-- A field is reported once, null or not; a list once for itself and once for each element. -/
def Slot.visits (s : SlotId) : Slot → List Visit
  | one target => [⟨s, target⟩]
  | many items => ⟨s, none⟩ :: items.map fun o => ⟨s, some o⟩

/-- How a part of a record takes part in passes. -/
inductive Role where
  | owned
  /-- Reported before all other parts. -/
  | base
  /-- Never reported. -/
  | skipped
  deriving DecidableEq, Repr

/-- Base parts first, then the owned ones, each in the given order, and no skipped one. -/
def Role.arrange {α : Type} (parts : List (Role × α)) : List α :=
  (parts.filter (·.1 = .base)).map (·.2) ++ (parts.filter (·.1 = .owned)).map (·.2)

/-- What holds the parts of a composite value. -/
inductive Container where
  | record
  | pair
  | array
  | optional
  | box
  | vector
  | deque
  deriving DecidableEq, Repr

/-- Whether the parts are stored within the value itself. -/
def Container.inline : Container → Bool
  | record | pair | array | optional => true
  | box | vector | deque => false

mutual

/-- A managed value. -/
inductive Value where
  /-- Data without owning slots. -/
  | plain
  | slot (s : SlotId)
  /-- A reference that owns nothing. -/
  | weak (target : Option ObjId)
  /-- An embedded root handle; it is never reported. -/
  | root (handle : Handle)
  /-- A field reported `connects` times when connecting and `disconnects` times when
  disconnecting. -/
  | uneven (s : SlotId) (connects disconnects : Nat)
  | group (container : Container) (parts : Parts)
  | map (entries : Entries)

/-- The parts of a composite value, in declaration order. -/
inductive Parts where
  | nil
  | cons (role : Role) (value : Value) (rest : Parts)

/-- The entries of a map, in the order in which it is gone through. A key may be of any type, so it
may own slots as well; nothing asks a key what it owns. -/
inductive Entries where
  | nil
  | cons (key value : Value) (rest : Entries)

end

instance : Inhabited Value := ⟨.plain⟩

/-- What a value gives up when it is dropped. -/
inductive Holding where
  | slot (s : SlotId)
  | weak (target : ObjId)
  | root (handle : Handle)
  deriving DecidableEq, Repr

/-- Parts of one role each, from a list. -/
def Parts.ofList : List (Role × Value) → Parts
  | [] => .nil
  | (role, value) :: rest => .cons role value (ofList rest)

/-- A container of owned parts. -/
def Value.ofList (container : Container) (values : List Value) : Value :=
  .group container (.ofList (values.map fun v => (.owned, v)))

/-- A record of parts with roles. -/
def Value.record (parts : List (Role × Value)) : Value := .group .record (.ofList parts)

/-- Entries from a list of keys and values. -/
def Entries.ofList : List (Value × Value) → Entries
  | [] => .nil
  | (key, value) :: rest => .cons key value (ofList rest)

/-- A map from keys to values. -/
def Value.ofEntries (entries : List (Value × Value)) : Value := .map (.ofList entries)

mutual

/-- The connecting half: the slots reported, in order. A half is also told the root that the pass is
for, which no value looks at: the same slots are reported for every root. -/
def Value.connectVisits (read : SlotId → Slot) : Value → List Visit
  | .plain | .weak _ | .root _ => []
  | .slot s => (read s).visits s
  | .uneven s connects _ => (List.replicate connects ((read s).visits s)).flatten
  | .group _ parts => (Role.arrange (parts.connectVisits read)).flatten
  | .map entries => entries.connectVisits read

/-- What each part reports when connecting. -/
def Parts.connectVisits (read : SlotId → Slot) : Parts → List (Role × List Visit)
  | .nil => []
  | .cons role value rest => (role, value.connectVisits read) :: rest.connectVisits read

/-- A map is gone through by its values. -/
def Entries.connectVisits (read : SlotId → Slot) : Entries → List Visit
  | .nil => []
  | .cons _ value rest => value.connectVisits read ++ rest.connectVisits read

end

mutual

/-- The disconnecting half: the slots reported, in order. It is told whether the handle that is
released points at this very object, besides the root, and looks at neither. -/
def Value.disconnectVisits (read : SlotId → Slot) : Value → List Visit
  | .plain | .weak _ | .root _ => []
  | .slot s => (read s).visits s
  | .uneven s _ disconnects => (List.replicate disconnects ((read s).visits s)).flatten
  | .group _ parts => (Role.arrange (parts.disconnectVisits read)).flatten
  | .map entries => entries.disconnectVisits read

/-- What each part reports when disconnecting. -/
def Parts.disconnectVisits (read : SlotId → Slot) : Parts → List (Role × List Visit)
  | .nil => []
  | .cons role value rest => (role, value.disconnectVisits read) :: rest.disconnectVisits read

/-- A map is gone through by its values. -/
def Entries.disconnectVisits (read : SlotId → Slot) : Entries → List Visit
  | .nil => []
  | .cons _ value rest => value.disconnectVisits read ++ rest.disconnectVisits read

end

mutual

/-- All that the value holds, in declaration order. -/
def Value.holdings : Value → List Holding
  | .plain => []
  | .slot s | .uneven s _ _ => [.slot s]
  | .weak target => target.toList.map .weak
  | .root handle => [.root handle]
  | .group _ parts => parts.holdings
  | .map entries => entries.holdings

def Parts.holdings : Parts → List Holding
  | .nil => []
  | .cons _ value rest => value.holdings ++ rest.holdings

/-- An entry's key goes before its value. -/
def Entries.holdings : Entries → List Holding
  | .nil => []
  | .cons key value rest => key.holdings ++ (value.holdings ++ rest.holdings)

end

mutual

/-- The slots stored within the value itself; those of a map are stored elsewhere. -/
def Value.inlineSlots : Value → List SlotId
  | .plain | .weak _ | .root _ | .map _ => []
  | .slot s | .uneven s _ _ => [s]
  | .group container parts => if container.inline then parts.inlineSlots else []

def Parts.inlineSlots : Parts → List SlotId
  | .nil => []
  | .cons _ value rest => value.inlineSlots ++ rest.inlineSlots

end

/-- The objects that a list of reports leads to, in order. -/
def Visit.targets (visits : List Visit) : List ObjId := visits.filterMap (·.target)

end RootedHeap
