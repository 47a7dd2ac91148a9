import RootedHeap.Handle

/-! # Lists

Reading and changing an owned list of objects through a handle to the object that holds it. Each
element is an edge of its own. An index is checked before anything changes.
-/

namespace RootedHeap

/-- The elements of a list. -/
def World.itemsAt (w : World) (s : SlotId) : List ObjId :=
  match w.slotAt s with
  | .many items => items
  | .one _ => []

theorem World.itemsAt_eq {w : World} {s : SlotId} {items : List ObjId}
    (h : w.slotAt s = .many items) : w.itemsAt s = items := by
  rw [itemsAt, h]

theorem World.mem_targets_of_itemsAt {w : World} {s : SlotId} {o : ObjId} (h : o ∈ w.itemsAt s) :
    o ∈ (w.slotAt s).targets := by
  cases hslot : w.slotAt s with
  | one target =>
      rw [itemsAt, hslot] at h
      cases h
  | many items => rwa [itemsAt_eq hslot] at h

/-- A list outside any object, of the objects of `handles`. -/
def newList (handles : List Handle) : Op SlotId :=
  modifyGet fun w =>
    (handles.foldl (fun w a => w.retain a.obj) w).addSlot (.many (handles.map (·.obj)))

namespace Handle

/-- Root the element at `index`. -/
def readItem (a : Handle) (s : SlotId) (index : Nat) : Locked (Option Handle) := do
  match (← Locked.look (·.itemsAt s))[index]? with
  | none => pure none
  | some o => some <$> Locked.newHandle a.heap o

/-- A new handle to the element at `index`. -/
def getItem (a : Handle) (s : SlotId) (index : Nat) : Op (Option Handle) := do
  let found ← run a.heap (a.readItem s index)
  found.mapM hold

/-- Root all elements, in order. -/
def readItems (a : Handle) (s : SlotId) : Locked (List Handle) := do
  (← Locked.look (·.itemsAt s)).mapM (Locked.newHandle a.heap)

/-- New handles to all elements, in order. -/
def items (a : Handle) (s : SlotId) : Op (List Handle) := do
  let handles ← run a.heap (a.readItems s)
  handles.mapM hold

/-- Insert at `index`, or at the end when there is none. -/
def enlist (a : Handle) (s : SlotId) (index : Option Nat) (o : ObjId) : Locked Unit := do
  Locked.verifySlot a.heap a.obj s
  let roots ← Locked.rootsOf a.obj
  let items ← Locked.look (·.itemsAt s)
  let index := index.getD items.length
  if items.length < index then throw (.insertRange index items.length)
  else
    Locked.update (·.retain o)
    Locked.update (·.writeSlot s (.many (items.insertIdx index o)))
    Locked.attach a.heap roots o

/-- Replace the element at `index`. -/
def replace (a : Handle) (s : SlotId) (index : Nat) (o : ObjId) : Locked Unit := do
  Locked.verifySlot a.heap a.obj s
  let roots ← Locked.rootsOf a.obj
  let items ← Locked.look (·.itemsAt s)
  match items[index]? with
  | none => throw (.replaceRange index items.length)
  | some old =>
    Locked.update (·.retain o)
    Locked.update (·.writeSlot s (.many (items.set index o)))
    Locked.attach a.heap roots o
    Locked.lose a.heap roots old

/-- Take the element at `index` out of `items`; its strong reference moves to a new root. -/
def extract (a : Handle) (s : SlotId) (roots : List RootId) (items : List ObjId) (index : Nat)
    (o : ObjId) : Locked Handle := do
  Locked.update (·.writeSlot s (.many (items.eraseIdx index)))
  -- `roots` was read before, so the new root is not among those that lose the edge
  let r ← Locked.acquireRoot a.heap o
  Locked.detach a.heap roots o
  pure ⟨o, r, a.heap⟩

/-- Remove the element at `index`. -/
def removeAt (a : Handle) (s : SlotId) (index : Nat) : Locked Handle := do
  Locked.verifySlot a.heap a.obj s
  let roots ← Locked.rootsOf a.obj
  let items ← Locked.look (·.itemsAt s)
  match items[index]? with
  | none => throw (.removeRange index items.length)
  | some o => a.extract s roots items index o

/-- Remove the last element, if there is one. -/
def removeLast (a : Handle) (s : SlotId) : Locked (Option Handle) := do
  Locked.verifySlot a.heap a.obj s
  let roots ← Locked.rootsOf a.obj
  let items ← Locked.look (·.itemsAt s)
  match items.getLast? with
  | none => pure none
  | some o => some <$> a.extract s roots items (items.length - 1) o

/-- Empty the list first, then give its elements up one by one. -/
def removeAll (a : Handle) (s : SlotId) : Locked Unit := do
  Locked.verifySlot a.heap a.obj s
  let roots ← Locked.rootsOf a.obj
  let items ← Locked.look (·.itemsAt s)
  Locked.update (·.writeSlot s (.many []))
  items.forM (Locked.lose a.heap roots)

/-- Run `op` unless `item` is of another heap. -/
def storing (a item : Handle) (op : Locked Unit) : Op Unit :=
  if item.heap = a.heap then run a.heap op
  else do violate (.protocol ((← get).typeName a.obj) .foreignStore)

/-- Append `item`. -/
def pushItem (a : Handle) (s : SlotId) (item : Handle) : Op Unit :=
  a.storing item (a.enlist s none item.obj)

/-- Insert `item` at `index`, moving later elements up. -/
def insertItem (a : Handle) (s : SlotId) (index : Nat) (item : Handle) : Op Unit :=
  a.storing item (a.enlist s (some index) item.obj)

/-- Replace the element at `index` by `item`. -/
def setItem (a : Handle) (s : SlotId) (index : Nat) (item : Handle) : Op Unit :=
  a.storing item (a.replace s index item.obj)

/-- Remove the element at `index` and hand it back. -/
def removeItem (a : Handle) (s : SlotId) (index : Nat) : Op Handle := do
  let found ← run a.heap (a.removeAt s index)
  found.hold

/-- Remove the last element and hand it back. -/
def popItem (a : Handle) (s : SlotId) : Op (Option Handle) := do
  let found ← run a.heap (a.removeLast s)
  found.mapM hold

/-- Remove all elements. -/
def clearItems (a : Handle) (s : SlotId) : Op Unit := run a.heap (a.removeAll s)

end Handle

/-- A list as debug output; `name` shows objects. -/
def World.itemsDebug (name : ObjId → String) (w : World) (s : SlotId) : String :=
  "[" ++ String.intercalate ", " ((w.itemsAt s).map name) ++ "]"

end RootedHeap
