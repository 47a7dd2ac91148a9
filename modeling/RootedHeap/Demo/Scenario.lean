import RootedHeap.Demo.Thread
import RootedHeap.Field
import RootedHeap.Items
import RootedHeap.Weak

/-! # Demonstrations

Each demonstration builds a graph on a heap of its own, drops every root and reports the heap's
statistics. It fails if anything it allocated is still live at the end.
-/

namespace RootedHeap.Demo

structure Options where
  threads : Nat := 4
  chainLen : Nat := 2000
  deriving DecidableEq, Repr

/-! ## The types of the demonstrations -/

/-- A record with one field and a name. -/
def valueA (b : SlotId) : Value := .record [(.owned, .slot b), (.skipped, .plain)]

/-- A record with one field and some numbers. -/
def valueB (c : SlotId) : Value := .record [(.owned, .slot c), (.owned, .plain)]

/-- A record with two fields, a weak reference and some numbers. -/
def valueC (a0 a1 : SlotId) (peer : WeakRef) : Value :=
  .record [(.owned, .slot a0), (.owned, .slot a1), (.owned, .weak peer.target), (.owned, .plain)]

/-- An `A` extended by one more field. -/
def valueCC (b b2 : SlotId) : Value := .record [(.base, valueA b), (.owned, .slot b2)]

/-- A base with an extra part, here an `A` each. -/
def valueDf (base extra : SlotId) : Value := .record [(.base, valueA base), (.owned, valueA extra)]

/-- A record with a field, a list and a number. -/
def valueNode (next children : SlotId) : Value :=
  .record [(.owned, .slot next), (.owned, .slot children), (.skipped, .plain)]

/-- A new field retains its object before the heap is locked, so it is a step of its own. -/
def allocA (h : HeapId) (b : Option Handle) : Act Handle := do
  let field ← .once (newField b)
  .once (alloc h "A" (valueA field))

def allocB (h : HeapId) (c : Option Handle) : Act Handle := do
  let field ← .once (newField c)
  .once (alloc h "B" (valueB field))

def allocC (h : HeapId) (peer : WeakRef) : Op Handle := do
  alloc h "C" (valueC (← newField none) (← newField none) peer)

def allocCC (h : HeapId) : Op Handle := do
  alloc h "CC" (valueCC (← newField none) (← newField none))

def allocDf (h : HeapId) : Op Handle := do
  alloc h "Df" (valueDf (← newField none) (← newField none))

def allocNode (h : HeapId) : Op Handle := do
  alloc h "Node" (valueNode (← newField none) (← newList []))

/-! ## Working with them -/

/-- The slot at `index` among those of the handle's object, in declaration order. -/
def slotOf (a : Handle) (index : Nat) (w : World) : SlotId :=
  match w.objects[a.obj]? with
  | none => w.slots.size
  | some ob =>
    let slots := ob.value.holdings.filterMap fun held =>
      match held with
      | .slot s => some s
      | _ => none
    slots[index]?.getD w.slots.size

/-- Point a field at an object. -/
def setAt (a : Handle) (index : Nat) (target : Handle) : Act Unit := .once do
  a.deref
  a.setField (slotOf a index (← get)) (some target)

/-- Append to a list. -/
def pushAt (a : Handle) (index : Nat) (item : Handle) : Act Unit := .once do
  a.deref
  a.pushItem (slotOf a index (← get)) item

/-- A handle to a field's target, which has to be there. -/
def getAt (a : Handle) (index : Nat) (name : String) : Act Handle := do
  let found ← .once do
    a.deref
    a.getField (slotOf a index (← get))
  match found with
  | some b => pure b
  | none => .fail (.missingField name)

def clone (a : Handle) : Act Handle := .once a.clone

def drop (a : Handle) : Act Unit := .once a.drop

/-- Drop handles one after the other. -/
def dropEach : List Handle → Act Unit
  | [] => pure ()
  | a :: rest => do drop a; dropEach rest

/-- The `C` that an `A` leads to. -/
def cOf (a : Handle) : Act Handle := do
  let b ← getAt a 0 "a.b"
  let c ← getAt b 0 "b.c"
  drop b
  pure c

/-- An `A` that owns a `B` that owns a `C`. -/
def newA (h : HeapId) : Act Handle := do
  let c ← .once (allocC h .empty)
  let b ← allocB h (some c)
  let a ← allocA h (some b)
  dropEach [b, c]
  pure a

/-- Fail unless `live` objects are live. -/
def expectLive (h : HeapId) (live : Nat) (scenario : String) : Act Unit := do
  let stats ← .once (return (← get).stats h)
  if stats.liveObjects = live then pure () else .fail (.collectedEarly scenario)

/-! ## The demonstrations -/

/-- A cycle of three with extra roots, a second start into it, and a copy for another thread. -/
def selfCycle (h : HeapId) : Act Unit := do
  let a0 ← newA h
  let c ← cOf a0
  setAt c 1 a0
  let copy ← newA h
  let copy ← .once (copy.assign a0)
  let shared ← clone a0
  .spawn do
    .once shared.deref
    drop shared
  let a1 ← newA h
  let b0 ← getAt a0 0 "a.b"
  setAt a1 0 b0
  let c' ← cOf a1
  setAt c' 0 a1
  dropEach [c', b0, a1, copy, c, a0]
  .join

/-- Copies and reassignments of root handles to one object. -/
def rootCopies (h : HeapId) : Act Unit := do
  let a0 ← newA h
  let a1 ← clone a0
  let a2 ← newA h
  let a2 ← .once (a2.assign a1)
  drop a0
  expectLive h 3 "root-copies"
  dropEach [a1, a2]

/-- What one worker does over and over: replace a shared field by a fresh graph, and copy a root. -/
def workerRound (h : HeapId) (a c : Handle) : Act Unit := do
  let fresh ← newA h
  -- what the field held before is garbage, unless another worker still has its handle
  setAt c 0 fresh
  let copy ← clone a
  drop copy
  drop fresh

def workerRounds (h : HeapId) (a c : Handle) : Nat → Act Unit
  | 0 => pure ()
  | n + 1 => do workerRound h a c; workerRounds h a c n

/-- A worker owns a root of each end of the shared cycle. -/
def worker (h : HeapId) (a c : Handle) : Act Unit := do
  workerRounds h a c 16
  dropEach [a, c]

/-- Start `n` workers. -/
def startWorkers (h : HeapId) (a c : Handle) : Nat → Act Unit
  | 0 => pure ()
  | n + 1 => do
    let a' ← clone a
    let c' ← clone c
    .spawn (worker h a' c')
    startWorkers h a c n

/-- Threads copy roots of a shared object and rewrite its fields at the same time. -/
def crossThread (h : HeapId) (options : Options) : Act Unit := do
  let a0 ← newA h
  let c ← cOf a0
  setAt c 1 a0
  startWorkers h a0 c (max options.threads 1)
  .join
  dropEach [c, a0]

/-- Append `n` nodes to a chain that ends in `tail`. -/
def extendChain (h : HeapId) : Nat → Handle → Act Handle
  | 0, tail => pure tail
  | n + 1, tail => do
    let node ← .once (allocNode h)
    setAt tail 0 node
    drop tail
    extendChain h n node

/-- A ring of nodes reachable from one root. -/
def longCycle (h : HeapId) (options : Options) : Act Unit := do
  let length := max options.chainLen 1
  let head ← .once (allocNode h)
  let tail ← clone head
  let tail ← extendChain h (length - 1) tail
  setAt tail 0 head
  drop tail
  expectLive h length "long-cycle"
  drop head

/-- Two roots that reach one object along different paths. -/
def diamond (h : HeapId) : Act Unit := do
  let shared ← .once (allocNode h)
  let left ← .once (allocNode h)
  let right ← .once (allocNode h)
  setAt left 0 shared
  setAt right 0 shared
  pushAt shared 1 left
  drop shared
  drop left
  expectLive h 3 "diamond"
  drop right

/-- Fields inside embedded base values. -/
def composition (h : HeapId) : Act Unit := do
  let a ← newA h
  let cc ← .once (allocCC h)
  let b ← getAt a 0 "a.b"
  setAt cc 0 b
  setAt cc 1 b
  let c ← getAt b 0 "b.c"
  setAt c 0 a
  let df ← .once (allocDf h)
  setAt df 1 b
  setAt df 0 b
  dropEach [a, b, c]
  expectLive h 5 "composition"
  dropEach [df, cc]

/-- A `C` owned by an `A` that it refers back to without owning it. -/
def weakPeer (h : HeapId) : Act Unit := do
  let a ← newA h
  let peer ← .once (WeakRef.ofHandle a)
  let b ← getAt a 0 "a.b"
  let copy ← .once peer.clone
  let c ← .once (allocC h copy)
  setAt b 0 c
  dropEach [c, b]
  match ← .once peer.upgrade with
  | none => .fail (.collectedEarly "weak-peer")
  | some up =>
    if up.obj = a.obj then drop up else .fail (.collectedEarly "weak-peer")
  drop a
  -- a weak reference keeps nothing alive, though one of them closes the cycle
  match ← .once peer.upgrade with
  | some _ => .fail (.outlivedRoots "weak-peer")
  | none => .once peer.drop

/-- The demonstrations, in the order they are listed. -/
inductive Scenario where
  | selfCycle
  | rootCopies
  | crossThread
  | longCycle
  | diamond
  | composition
  | weakPeer
  deriving DecidableEq, Repr

namespace Scenario

def all : List Scenario :=
  [selfCycle, rootCopies, crossThread, longCycle, diamond, composition, weakPeer]

def name : Scenario → String
  | selfCycle => "self-cycle"
  | rootCopies => "root-copies"
  | crossThread => "cross-thread"
  | longCycle => "long-cycle"
  | diamond => "diamond"
  | composition => "composition"
  | weakPeer => "weak-peer"

def ofName? (name : String) : Option Scenario := all.find? (·.name = name)

/-- Whether the demonstration starts threads. -/
def threaded : Scenario → Bool
  | selfCycle | crossThread => true
  | _ => false

def act (h : HeapId) (options : Options) : Scenario → Act Unit
  | selfCycle => Demo.selfCycle h
  | rootCopies => Demo.rootCopies h
  | crossThread => Demo.crossThread h options
  | longCycle => Demo.longCycle h options
  | diamond => Demo.diamond h
  | composition => Demo.composition h
  | weakPeer => Demo.weakPeer h

/-- Run a demonstration on a heap of its own. -/
def run (options : Options) (scenario : Scenario) : Except Problem Report :=
  let work : Op (Except Problem Report) := do
    let h ← createHeap { name := scenario.name }
    match ← (scenario.act h options).thread.run with
    | some problem => pure (.error problem)
    | none =>
      let stats := (← get).stats h
      if stats.liveObjects = 0 then pure (.ok ⟨scenario.name, stats⟩)
      else pure (.error (.leaked scenario.name stats.liveObjects))
  match work {} with
  | .ok result _ => result
  | .error fault _ => .error (.faulted fault)

/-- Run the demonstration of a name. -/
def runNamed (options : Options) (name : String) : Except Problem Report :=
  match ofName? name with
  | some scenario => scenario.run options
  | none => .error (.unknown name)

end Scenario

end RootedHeap.Demo
