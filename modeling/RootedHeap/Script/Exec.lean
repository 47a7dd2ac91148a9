import RootedHeap.Script.State

/-! # Executing steps

Parameters are checked in a fixed order: the handle, then what is stored, then the place, then the
index, and the name for the result last. Only then does a step do anything.
-/

namespace RootedHeap.Script

/-- A cell that is planned, with handles in place of slots. -/
abbrev Plan := Cell (Option Handle) (List Handle) (Option Handle) Handle

/-- The fields that a list of references stands for. -/
def fieldRefs (refs : Param (List Ref)) : Action (List (Option Handle)) := do
  (← refs.orElse []).mapM reference

/-- The entries of a map, ascending by key. -/
def mapRefs (refs : Param (List (String × Ref))) : Action (List (String × Option Handle)) := do
  let entries ← (← refs.orElse []).mapM fun e => do return (e.1, ← reference e.2)
  return entries.foldl (fun names e => Names.bind e.1 e.2 names) []

def planShape : ShapeInit → Action (Shape (Option Handle) (List Handle))
  | .leaf => pure .leaf
  | .two l r => return .two (← reference l) (← reference r)
  | .link target => return .link (← reference target)
  | .many items => return .many (← references items)

/-- Look up every name of a new cell. -/
def plan (init : Init) : Action Plan := do
  let left ← reference init.left
  let right ← reference init.right
  let parent ← reference init.parent
  let hidden ← reference init.hidden
  let stray ← reference init.stray
  let boxed ← reference init.boxed
  let pair ← reference init.pair
  let opt ← match init.opt with
    | none => pure none
    | some target => some <$> reference target
  let vec ← fieldRefs init.vec
  let deque ← fieldRefs init.deque
  let arr ← fieldRefs init.arr
  let bmap ← mapRefs init.bmap
  let hmap ← mapRefs init.hmap
  let items ← references init.items
  let hiddenList ← references init.hiddenList
  let pairlist ← references init.pairlist
  let shape ← planShape (← init.shape.orElse .leaf)
  let mode ← init.mode.orElse .both
  let odd ← reference init.odd
  let weak ← reference init.weak
  let held ← reference init.held
  return {
    left, right, items, hidden, hiddenList, stray, vec, boxed, opt, parent, deque
    arr := (arr[0]?.getD none, arr[1]?.getD none)
    bmap, hmap
    pair := (pair, pairlist)
    shape, mode, odd, weak, held }

def buildShape : Shape (Option Handle) (List Handle) → Op (Shape SlotId SlotId)
  | .leaf => pure .leaf
  | .two l r => return .two (← newField l) (← newField r)
  | .link target => return .link (← newField target)
  | .many items => return .many (← newList items)

/-- Make the slots of a planned cell. The embedded handle takes its root here, before the cell has
one. -/
def build (p : Plan) : Op Slots := do
  let field := fun (e : String × Option Handle) => do return (e.1, ← newField e.2)
  return {
    left := ← newField p.left
    right := ← newField p.right
    items := ← newList p.items
    hidden := ← newField p.hidden
    hiddenList := ← newList p.hiddenList
    stray := ← newField p.stray
    vec := ← p.vec.mapM newField
    boxed := ← newField p.boxed
    opt := ← p.opt.mapM newField
    parent := ← newField p.parent
    deque := ← p.deque.mapM newField
    arr := (← newField p.arr.1, ← newField p.arr.2)
    bmap := ← p.bmap.mapM field
    hmap := ← p.hmap.mapM field
    pair := (← newField p.pair.1, ← newList p.pair.2)
    shape := ← buildShape p.shape
    mode := p.mode
    odd := ← newField p.odd
    weak := ← match p.weak with
      | none => pure .empty
      | some a => WeakRef.ofHandle a
    held := ← p.held.mapM Handle.clone }

/-- Allocate a planned cell. Only when that succeeds is the object shown by its label. -/
def allocate (h : HeapId) (label : String) (p : Plan) : Action Handle := do
  let slots ← act (build p)
  modify fun s => { s with cells := s.cells.push { slots := slots, label := label } }
  let a ← act (alloc h (← get).typeName (Cell.value slots))
  modify fun s => { s with cells := s.cells.modify a.obj ({ · with shown := true }) }
  pure a

/-- A cell that holds nothing. -/
def bare : Plan where
  left := none
  right := none
  items := []
  hidden := none
  hiddenList := []
  stray := none
  vec := []
  boxed := none
  opt := none
  parent := none
  deque := []
  arr := (none, none)
  bmap := []
  hmap := []
  pair := (none, [])
  shape := .leaf
  mode := .both
  odd := none
  weak := none
  held := none

/-- Whether a path names a field of a bare cell. -/
def bareField (path : String) : Bool :=
  match Cell.splitPath path with
  | ("arr", some index) => (Cell.nth? [0, 0] index).isSome
  | (name, none) =>
    ["left", "right", "parent", "hidden", "stray", "boxed", "pair", "quirk"].contains name
  | _ => false

/-- The field of a handle's cell. -/
def fieldOf (a : Handle) (path : String) : Action SlotId :=
  selectField a { path := .given path }

/-- Run `op`; when it ends in a fault, drop the handles that were under way. -/
def dropping {α : Type} (handles : List Handle) (op : Action α) : Action α := fun s =>
  match op s with
  | .ok a s => .ok a s
  | .error stop s =>
    match act (settle (handles.map .dropHandle)) s with
    | .ok _ s => .error stop s
    | .error _ s => .error stop s

/-- Append nodes to a chain whose last handle is `tail`; `head` is held meanwhile. -/
def extendChain (h : HeapId) (label : Nat → String) (path : String) (head : Handle) :
    Nat → Nat → Handle → Action Handle
  | 0, _, tail => pure tail
  | more + 1, i, tail => do
    let node ← dropping [tail, head] (allocate h (label i) bare)
    dropping [node, tail, head] do
      let s ← fieldOf tail path
      act (tail.setField s (some node))
    act tail.drop
    extendChain h label path head more (i + 1) node

/-- A chain of `length` cells, at least one, closed to a cycle on request. -/
def chain (h : HeapId) (name path : String) (length : Nat) (close : Bool) : Action Handle := do
  let label := fun (i : Nat) => name ++ s!".{i}"
  let head ← allocate h (label 0) bare
  let tail ← act head.clone
  let tail ← extendChain h label path head (length - 1) 1 tail
  if close then
    dropping [tail, head] do
      let s ← fieldOf tail path
      act (tail.setField s (some head))
  act tail.drop
  pure head

/-- The place of a weak reference: under a name, or in a handle's cell. -/
def weakOf (weak name : Param String) : Action WeakRef := do
  match weak with
  | .absent =>
    let a ← handle name
    return (← cellOf a).slots.weak
  | weak => weakRef weak

/-- How an object is shown: by its label, once its allocation gave a handle. -/
def State.showObject (s : State) (o : ObjId) : String :=
  match s.cells[o]? with
  | some cell => if cell.shown then "ObjPtr(@" ++ cell.label ++ ")" else "ObjPtr(0x?)"
  | none => "ObjPtr(0x?)"

def debugText : Shown → Action String
  | .weak name => do
    let x ← weakRef name
    return x.debug (← get).showObject
  | .detached name => do
    let slot ← detachedSlot name
    let s ← get
    return if isList s.world slot then s.world.itemsDebug s.showObject slot
      else s.world.fieldDebug s.showObject slot
  | .handle name => do
    let a ← handle name
    let s ← get
    return a.debug s.showObject s.world
  | .field name place => do
    let a ← handle name
    let slot ← selectField a place
    let s ← get
    return "FieldRef \x7b owner: " ++ s.showObject a.obj ++ ", slot: " ++
      s.world.fieldDebug s.showObject slot ++ " \x7d"
  | .list name place => do
    let a ← handle name
    let slot ← selectList a place
    let s ← get
    return "ListRef \x7b owner: " ++ s.showObject a.obj ++ ", list: " ++
      s.world.itemsDebug s.showObject slot ++ " \x7d"
  | .heap number => do
    let h ← heap number
    match (← get).world.heaps[h]? with
    | some found => return "Heap \x7b name: " ++ Text.debugQuoted found.config.name ++ ", .. \x7d"
    | none => refuse .noHeap

/-- Do one step. -/
def exec : Step → Action Reply
  | .alloc name number label init => do
    let h ← heap number
    let p ← plan (← init.orElse {})
    let name ← name.required
    let label ← label.orElse name
    deliver name (← allocate h label p)
  | .chain length name number slot close => do
    let h ← heap number
    let length ← length.required
    let path ← slot.orElse "left"
    let close ← close.orElse false
    let name ← name.required
    if bareField path then deliver name (← chain h name path length close)
    else refuse .noSlot
  | .clone a name => do
    let a ← handle a
    let name ← name.required
    deliver name (← act a.clone)
  | .drop name => do
    let a ← handle name
    let name ← name.required
    modify fun s => { s with handles := s.handles.unbind name }
    act a.drop
    pure .nothing
  | .assign name source => do
    let b ← handle source
    let a ← handle name
    let name ← name.required
    let a ← act (a.assign b)
    modify fun s => { s with handles := s.handles.bind name a }
    pure .nothing
  | .doubleDrop name => do
    let a ← handle name
    let name ← name.required
    modify fun s => { s with handles := s.handles.unbind name }
    act a.drop
    act (run a.heap (Locked.dropRoot a.heap a.root))
    pure .nothing
  | .staleAssign name source => do
    let b ← handle source
    let a ← handle name
    let name ← name.required
    modify fun s => { s with handles := s.handles.unbind name }
    act a.drop
    let _ ← act (a.assign b)
    pure .nothing
  | .set a place target => do
    let a ← handle a
    let b ← reference target
    let s ← selectField a place
    act (a.setField s b)
    pure .nothing
  | .get a place name => do
    let a ← handle a
    let s ← selectField a place
    let name ← name.required
    deliver? name (← act (a.getField s))
  | .take a place name => do
    let a ← handle a
    let s ← selectField a place
    let name ← name.required
    deliver? name (← act (a.takeField s))
  | .isNull a place => do
    let a ← handle a
    let s ← selectField a place
    return .truth ((← get).world.fieldAt s).isNone
  | .push a place item => do
    let a ← handle a
    let b ← handle item
    let s ← selectList a place
    act (a.pushItem s b)
    pure .nothing
  | .insert a place index item => do
    let a ← handle a
    let b ← handle item
    let s ← selectList a place
    let i ← index.required
    act (a.insertItem s i b)
    pure .nothing
  | .replace a place index item => do
    let a ← handle a
    let b ← handle item
    let s ← selectList a place
    let i ← index.required
    act (a.setItem s i b)
    pure .nothing
  | .item a place index name => do
    let a ← handle a
    let s ← selectList a place
    let i ← index.required
    let name ← name.required
    deliver? name (← act (a.getItem s i))
  | .remove a place index name => do
    let a ← handle a
    let s ← selectList a place
    let i ← index.required
    let name ← name.required
    deliver name (← act (a.removeItem s i))
  | .pop a place name => do
    let a ← handle a
    let s ← selectList a place
    let name ← name.required
    deliver? name (← act (a.popItem s))
  | .clear a place => do
    let a ← handle a
    let s ← selectList a place
    act (a.clearItems s)
    pure .nothing
  | .items a place => do
    let a ← handle a
    let s ← selectList a place
    let found ← act (a.items s)
    let shown ← found.mapM describe
    found.forM fun b => act b.drop
    return .handles shown
  | .length a place => do
    let a ← handle a
    let s ← selectList a place
    return .length ((← get).world.itemsAt s).length
  | .downgrade a name => do
    let a ← handle a
    let name ← name.required
    bindWeak name (← act (WeakRef.ofHandle a))
    pure .nothing
  | .weakNew name => do
    bindWeak (← name.required) .empty
    pure .nothing
  | .weakClone weak a name => do
    let x ← weakOf weak a
    let name ← name.required
    bindWeak name (← act x.clone)
    pure .nothing
  | .weakDrop name => do
    let x ← weakRef name
    let name ← name.required
    modify fun s => { s with weaks := s.weaks.unbind name }
    act x.drop
    pure .nothing
  | .upgrade weak a name => do
    let x ← weakOf weak a
    let name ← name.required
    deliver? name (← act x.upgrade)
  | .pointsTo weak a => do
    let a ← handle a
    let x ← weakRef weak
    return .truth (x.pointsTo a)
  | .detach target name => do
    let b ← reference target
    let name ← name.required
    bindDetached name (← act (newField b))
    pure .nothing
  | .detachList targets name => do
    let bs ← (← targets.required).mapM handle
    let name ← name.required
    bindDetached name (← act (newList bs))
    pure .nothing
  | .dropDetached name => do
    let slot ← detachedSlot name
    let name ← name.required
    modify fun s => { s with detached := s.detached.unbind name }
    act (settle [.dropSlot slot])
    pure .nothing
  | .tally a => do
    let a ← handle a
    return .tally (a.tally (← get).world)
  | .tallyFrom a number => do
    let a ← handle a
    let _ ← heap number
    return .tally (a.tally (← get).world)
  | .samePtr a b => do
    let a ← handle a
    let b ← handle b
    return .truth (a.obj = b.obj)
  | .root a => do
    let a ← handle a
    return .root a.root
  | .compareRoots a b => do
    let a ← handle a
    let b ← handle b
    return .order (compare a.root b.root)
  | .label a => do
    let a ← handle a
    return .text (← cellOf a).label
  | .inHeap a number => do
    let a ← handle a
    let h ← heap number
    return .truth (a.heap = h)
  | .live number => do
    let h ← heap number
    let stats := (← get).world.stats h
    return .live stats.liveObjects stats.liveRoots
  | .stats number => do
    let h ← heap number
    return .stats ((← get).world.stats h)
  | .config number => do
    let h ← heap number
    match (← get).world.heaps[h]? with
    | some found => return .config found.config
    | none => refuse .noHeap
  | .contend number secs nanos => do
    let h ← heap number
    let secs ← secs.required
    let nanos ← nanos.orElse 0
    act (modify (·.modifyCounters h (·.contend secs nanos)))
    match (← get).world.heaps[h]? with
    | some found =>
      return .contention found.counters.contentionCount found.counters.contentionMicros.toNat
    | none => refuse .noHeap
  | .dropHeap number => do
    let h ← heap number
    modify fun s => { s with owned := s.owned.setIfInBounds h false }
    act (settle [.leave h])
    pure .nothing
  | .debug shown => return .text (← debugText shown)
  | .unknown => refuse .badStep

end RootedHeap.Script
