import RootedHeap.Field
import RootedHeap.Items
import RootedHeap.Script.Names
import RootedHeap.Script.Step

/-! # Script state

A script holds handles, weak references and detached slots under names, and the heaps it created.
`Action` is what a step does: it may be refused, which changes nothing, or end in a fault of the
collector, which leaves what it had changed.
-/

namespace RootedHeap.Script

/-- What a script knows of an object. -/
structure Known where
  slots : Slots
  label : String
  /-- Whether the allocation gave a handle. Otherwise the object is not shown by its label. -/
  shown : Bool := false

structure State where
  /-- The name under which cells appear in messages. -/
  typeName : String
  world : World := {}
  handles : Names Handle := []
  weaks : Names WeakRef := []
  detached : Names SlotId := []
  /-- For each heap, whether the script still owns it. -/
  owned : Array Bool := #[]
  /-- What is known of every object. -/
  cells : Array Known := #[]

/-- Why a step did not answer. -/
inductive Stop where
  | refused (why : Refusal)
  | faulted (fault : Fault)
  deriving DecidableEq, Repr

/-- What a step does. -/
abbrev Action := EStateM Stop State

/-- Do something to the world. The rest of the state lets go of the world meanwhile, so that it can
be changed in place. -/
def act {α : Type} (op : Op α) : Action α := fun s =>
  let world := s.world
  let rest := { s with world := {} }
  match op world with
  | .ok a w => .ok a { rest with world := w }
  | .error fault w => .error (.faulted fault) { rest with world := w }

def refuse {α : Type} (why : Refusal) : Action α := throw (.refused why)

namespace Param

/-- A parameter that has to be there. -/
def required {α : Type} : Param α → Action α
  | given a => pure a
  | absent | malformed => refuse .badStep

/-- A parameter with a default. -/
def orElse {α : Type} (a : α) : Param α → Action α
  | given b => pure b
  | absent => pure a
  | malformed => refuse .badStep

end Param

/-- What a name is bound to in a table. -/
def bound {α : Type} (table : State → Names α) (missing : Refusal) (name : String) : Action α := do
  match (table (← get)).find? name with
  | some a => pure a
  | none => refuse missing

def handle (name : Param String) : Action Handle := do
  bound State.handles .noHandle (← name.required)

def weakRef (name : Param String) : Action WeakRef := do
  bound State.weaks .noWeak (← name.required)

def detachedSlot (name : Param String) : Action SlotId := do
  bound State.detached .noDetached (← name.required)

/-- The handle that a reference names, if it is not null. -/
def reference : Ref → Action (Option Handle)
  | .absent => pure none
  | .malformed => refuse .badStep
  | .given name => some <$> bound State.handles .noHandle name

/-- The handles that a list of references names. -/
def references (refs : Param (List Ref)) : Action (List Handle) := do
  (← refs.orElse []).mapM handle

/-- The heap with a number, as long as the script owns it. -/
def heap (number : Param Nat) : Action HeapId := do
  let h ← number.orElse 0
  if (← get).owned[h]?.getD false then pure h else refuse .noHeap

/-- The cell of a handle's object. -/
def cellOf (a : Handle) : Action Known := do
  act a.deref
  match (← get).cells[a.obj]? with
  | some cell => pure cell
  | none => refuse .noHandle

/-- Whether a slot is a list. -/
def isList (w : World) (s : SlotId) : Bool :=
  match w.slotAt s with
  | .many _ => true
  | .one _ => false

/-- The slot a step works on through handle `a`. -/
def select (a : Handle) (place : Place) (wanted : Slots → String → Option SlotId) (list : Bool)
    (missing : Refusal) : Action SlotId := do
  match place.viaDetached with
  | .absent =>
    let owner ← match place.via with
      | .absent => pure a
      | via => handle via
    let path ← place.path.required
    match wanted (← cellOf owner).slots path with
    | some s => act a.deref; pure s
    | none => refuse missing
  | name =>
    let s ← detachedSlot name
    if isList (← get).world s = list then act a.deref; pure s else refuse missing

/-- The field a step works on. -/
def selectField (a : Handle) (place : Place) : Action SlotId :=
  select a place Cell.field? false .noSlot

/-- The list a step works on. -/
def selectList (a : Handle) (place : Place) : Action SlotId :=
  select a place Cell.list? true .noList

/-- Bind a handle; what the name was bound to is dropped afterwards. -/
def bindHandle (name : String) (a : Handle) : Action Unit := do
  let old := (← get).handles.find? name
  modify fun s => { s with handles := s.handles.bind name a }
  old.forM fun a => act a.drop

/-- Bind a weak reference; what the name was bound to is dropped afterwards. -/
def bindWeak (name : String) (x : WeakRef) : Action Unit := do
  let old := (← get).weaks.find? name
  modify fun s => { s with weaks := s.weaks.bind name x }
  old.forM fun x => act x.drop

/-- Bind a detached slot; what the name was bound to is dropped afterwards. -/
def bindDetached (name : String) (slot : SlotId) : Action Unit := do
  let old := (← get).detached.find? name
  modify fun s => { s with detached := s.detached.bind name slot }
  old.forM fun slot => act (settle [.dropSlot slot])

/-- How a handle is answered. This dereferences it. -/
def describe (a : Handle) : Action (String × RootId) := do
  let cell ← cellOf a
  pure (cell.label, a.root)

/-- Answer a new handle and bind it. -/
def deliver (name : String) (a : Handle) : Action Reply := do
  let (label, root) ← describe a
  bindHandle name a
  pure (.handle label root)

/-- Answer a new handle, if there is one, and bind it. -/
def deliver? (name : String) : Option Handle → Action Reply
  | none => pure .nothing
  | some a => deliver name a

end RootedHeap.Script
