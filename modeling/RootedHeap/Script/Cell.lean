import RootedHeap.Text.Decimal
import RootedHeap.Value
import RootedHeap.Weak

/-! # Cells

The managed type that scripts work with: a record with a slot in every kind of place a slot can be
in, so that each container, role and way of reporting can be driven by name.
-/

namespace RootedHeap.Script

/-- How the odd slot of a cell is reported in the two halves. -/
inductive Mode where
  | both
  | connectOnly
  | disconnectOnly
  | never
  | twice
  deriving DecidableEq, Repr

namespace Mode

def ofName? (name : String) : Option Mode :=
  match name with
  | "both" => some both
  | "connect_only" => some connectOnly
  | "disconnect_only" => some disconnectOnly
  | "never" => some never
  | "twice" => some twice
  | _ => none

/-- How often the slot is reported when connecting. -/
def connects : Mode → Nat
  | both | connectOnly => 1
  | disconnectOnly | never => 0
  | twice => 2

/-- How often the slot is reported when disconnecting. -/
def disconnects : Mode → Nat
  | both | disconnectOnly => 1
  | connectOnly | never => 0
  | twice => 2

end Mode

/-- The part of a cell that comes in variants. `F` is what stands for a field, `L` for a list. -/
inductive Shape (F L : Type) where
  | leaf
  | two (l r : F)
  | link (target : F)
  | many (items : L)

/-- The content of a cell. `F` is what stands for a field, `L` for a list, `W` for the weak
reference and `H` for the embedded handle. -/
structure Cell (F L W H : Type) where
  left : F
  right : F
  items : L
  hidden : F
  hiddenList : L
  stray : F
  vec : List F
  boxed : F
  opt : Option F
  parent : F
  deque : List F
  arr : F × F
  bmap : List (String × F)
  hmap : List (String × F)
  pair : F × L
  shape : Shape F L
  mode : Mode
  odd : F
  weak : W
  held : Option H

/-- A cell whose parts are slots. -/
abbrev Slots := Cell SlotId SlotId WeakRef Handle

/-- The variant part as a value. A variant has a field of plain data here and there, which is
skipped and has no slots. -/
def Shape.value : Shape SlotId SlotId → Value
  | leaf => .record []
  | two l r => .record [(.owned, .slot l), (.skipped, .plain), (.owned, .slot r)]
  | link target => .record [(.skipped, .plain), (.owned, .slot target)]
  | many items => .record [(.owned, .slot items)]

namespace Cell

/-- The cell as a managed value, in declaration order. -/
def value (c : Slots) : Value := .record [
  (.owned, .slot c.left),
  (.owned, .slot c.right),
  (.owned, .slot c.items),
  (.skipped, .slot c.hidden),
  (.skipped, .slot c.hiddenList),
  (.skipped, .ofList .box [.slot c.stray]),
  (.owned, .ofList .vector (c.vec.map .slot)),
  (.owned, .ofList .box [.slot c.boxed]),
  (.owned, .ofList .optional (c.opt.toList.map .slot)),
  (.base, .record [(.owned, .slot c.parent)]),
  (.owned, .ofList .deque (c.deque.map .slot)),
  (.owned, .ofList .array [.slot c.arr.1, .slot c.arr.2]),
  (.owned, .ofEntries (c.bmap.map fun e => (.plain, .slot e.2))),
  (.owned, .ofEntries (c.hmap.map fun e => (.plain, .slot e.2))),
  (.owned, .ofList .pair [.slot c.pair.1, .slot c.pair.2]),
  (.owned, c.shape.value),
  (.owned, .uneven c.odd c.mode.connects c.mode.disconnects),
  (.owned, .weak c.weak.target),
  (.owned, .plain),
  (.skipped, .ofList .optional (c.held.toList.map .root)),
  (.owned, .plain)]

/-- The element that a decimal index names. -/
def nth? (slots : List SlotId) (index : String) : Option SlotId :=
  match Text.readNumber Text.wordLimit index with
  | .ok n => slots[n]?
  | .error _ => none

/-- The part of a path before its first dot, and the part after it. -/
def splitPath (path : String) : String × Option String :=
  let chars := path.toList
  match chars.dropWhile (· ≠ '.') with
  | [] => (path, none)
  | _ :: key => (String.ofList (chars.takeWhile (· ≠ '.')), some (String.ofList key))

/-- The field that a path names. -/
def field? (c : Slots) (path : String) : Option SlotId :=
  match splitPath path with
  | ("left", none) => some c.left
  | ("right", none) => some c.right
  | ("parent", none) => some c.parent
  | ("hidden", none) => some c.hidden
  | ("stray", none) => some c.stray
  | ("boxed", none) => some c.boxed
  | ("opt", none) => c.opt
  | ("pair", none) => some c.pair.1
  | ("quirk", none) => some c.odd
  | ("link", none) =>
    match c.shape with
    | .link target => some target
    | _ => none
  | ("two", some side) =>
    match c.shape, side with
    | .two l _, "l" => some l
    | .two _ r, "r" => some r
    | _, _ => none
  | ("vec", some index) => nth? c.vec index
  | ("deque", some index) => nth? c.deque index
  | ("arr", some index) => nth? [c.arr.1, c.arr.2] index
  | ("bmap", some key) => c.bmap.lookup key
  | ("hmap", some key) => c.hmap.lookup key
  | _ => none

/-- The list that a path names. -/
def list? (c : Slots) (path : String) : Option SlotId :=
  match path with
  | "items" => some c.items
  | "hidden_list" => some c.hiddenList
  | "pairlist" => some c.pair.2
  | "many" =>
    match c.shape with
    | .many items => some items
    | _ => none
  | _ => none

end Cell

end RootedHeap.Script
