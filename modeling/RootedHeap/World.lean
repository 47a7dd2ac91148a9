import RootedHeap.Event
import RootedHeap.Registry
import RootedHeap.Stats
import RootedHeap.Tally
import RootedHeap.Value

/-! # The world of heaps

All heaps, objects and slots there are, with what was logged and which values were dropped so far.
The graph that a heap's passes follow is read from here: `World.out` through the connecting half of
a value, `World.back` through the disconnecting half.
-/

namespace RootedHeap

/-- Where an object is on its way out. It only ever moves down this list. -/
inductive ObjState where
  | live
  /-- Chosen for collection; giving up references to it no longer collects anything. -/
  | collecting
  /-- Value dropped, header kept to catch stale handles. -/
  | poisoned
  deriving DecidableEq, Repr

/-- A managed object. -/
structure Object where
  heap : HeapId
  typeName : String
  value : Value
  /-- Handles and owning slots that point here. -/
  strong : Nat := 1
  /-- Weak references that point here, and one for the collector until the value is finalized. -/
  weak : Nat := 1
  state : ObjState := .live
  /-- The allocation was given back. -/
  freed : Bool := false

/-- A heap: its active roots, its live objects and what keeps the heap itself alive. -/
structure Heap where
  config : Config
  roots : Registry := .empty
  live : Nat := 0
  counters : Counters := {}
  /-- Owners of the heap and handles into it. Without any, the heap is gone. -/
  holders : Nat := 1

structure World where
  heaps : Array Heap := #[]
  objects : Array Object := #[]
  tallies : Tallies := #[]
  slots : Array Slot := #[]
  log : Array Event := #[]
  /-- The objects whose values were dropped, in order. -/
  dropped : Array ObjId := #[]

namespace World

def modifyHeap (w : World) (h : HeapId) (f : Heap → Heap) : World :=
  { w with heaps := w.heaps.modify h f }

def modifyObject (w : World) (o : ObjId) (f : Object → Object) : World :=
  { w with objects := w.objects.modify o f }

def modifyCounters (w : World) (h : HeapId) (f : Counters → Counters) : World :=
  w.modifyHeap h fun heap => { heap with counters := f heap.counters }

def note (w : World) (e : Event) : World := { w with log := w.log.push e }

section Heaps

variable {w : World} {h : HeapId} {f : Heap → Heap}

theorem heaps_modifyHeap (h' : HeapId) :
    (w.modifyHeap h f).heaps[h']? =
      (w.heaps[h']?).map fun heap => if h' = h then f heap else heap := by
  simp only [modifyHeap, Array.getElem?_modify]
  by_cases heq : h = h'
  · subst heq
    simp
  · simp [heq, Ne.symm heq]

/-- What is read of heaps stays when `f` leaves it alone. -/
theorem match_heaps_modifyHeap {β : Type} {d : β} {φ : Heap → β}
    (hf : ∀ heap, φ (f heap) = φ heap) (h' : HeapId) :
    (match (w.modifyHeap h f).heaps[h']? with
      | some heap => φ heap
      | none => d) =
      match w.heaps[h']? with
      | some heap => φ heap
      | none => d := by
  rw [heaps_modifyHeap]
  cases w.heaps[h']? with
  | none => rfl
  | some heap =>
    simp only [Option.map_some]
    split
    · exact hf heap
    · rfl

end Heaps

/-- The content of a slot; a slot that does not exist owns nothing. -/
def slotAt (w : World) (s : SlotId) : Slot := w.slots[s]?.getD (.many [])

def writeSlot (w : World) (s : SlotId) (content : Slot) : World :=
  { w with slots := w.slots.setIfInBounds s content }

/-- A new slot. -/
def addSlot (w : World) (content : Slot) : SlotId × World :=
  (w.slots.size, { w with slots := w.slots.push content })

def typeName (w : World) (o : ObjId) : String :=
  match w.objects[o]? with
  | some ob => ob.typeName
  | none => ""

/-- The reports of `o`'s connecting half. -/
def visits (w : World) (o : ObjId) : List Visit :=
  match w.objects[o]? with
  | some ob => ob.value.connectVisits w.slotAt
  | none => []

/-- The edges of `o`, through its connecting half. -/
def out (w : World) (o : ObjId) : List ObjId := Visit.targets (w.visits o)

/-- The edges of `o`, through its disconnecting half. -/
def back (w : World) (o : ObjId) : List ObjId :=
  match w.objects[o]? with
  | some ob => Visit.targets (ob.value.disconnectVisits w.slotAt)
  | none => []

/-- Whether `o` is an object of heap `h`. -/
def owns (w : World) (h : HeapId) (o : ObjId) : Bool :=
  match w.objects[o]? with
  | some ob => ob.heap = h
  | none => false

def isLive (w : World) (o : ObjId) : Bool :=
  match w.objects[o]? with
  | some ob => ob.state = .live
  | none => false

/-- Whether heap `h` still exists. -/
def heapExists (w : World) (h : HeapId) : Bool :=
  match w.heaps[h]? with
  | some heap => 0 < heap.holders
  | none => false

/-- How many objects are live. -/
def liveCount (w : World) : Nat := w.objects.toList.countP (·.state = .live)

/-- One more strong reference to `o`. -/
def retain (w : World) (o : ObjId) : World :=
  w.modifyObject o fun ob => { ob with strong := ob.strong + 1 }

/-- One more weak reference to `o`. -/
def retainWeak (w : World) (o : ObjId) : World :=
  w.modifyObject o fun ob => { ob with weak := ob.weak + 1 }

/-- One weak reference to `o` less; the last one gives the allocation back. -/
def releaseWeak (w : World) (o : ObjId) : World :=
  w.modifyObject o fun ob =>
    { ob with weak := ob.weak - 1, freed := ob.freed || ob.weak == 1 }

/-- One more holder of heap `h`. -/
def enter (w : World) (h : HeapId) : World :=
  w.modifyHeap h fun heap => { heap with holders := heap.holders + 1 }

/-- One holder of heap `h` less; a heap that goes with live objects left says so. -/
def leave (w : World) (h : HeapId) : World :=
  match w.heaps[h]? with
  | none => w
  | some heap =>
    let w := w.modifyHeap h fun heap => { heap with holders := heap.holders - 1 }
    if heap.holders = 1 ∧ 0 < heap.live then w.note (.heapDropped heap.config.name heap.live)
    else w

def stats (w : World) (h : HeapId) : Stats :=
  match w.heaps[h]? with
  | some heap => .capture heap.counters heap.live heap.roots.size
  | none => {}

end World

/-- An operation on the world. What a failing one had changed stays changed. -/
abbrev Op := EStateM Fault World

/-- Report a violation and stop. -/
def violate {α : Type} (cause : Violation) : Op α := do
  modify fun w => w.note (.violated cause)
  throw (.violation cause)

/-- Create a heap with one owner. -/
def createHeap (config : Config) : Op HeapId :=
  modifyGet fun w =>
    (w.heaps.size,
      { w with heaps := w.heaps.push { config := config }, log := w.log.push (.creatingHeap config) })

end RootedHeap
