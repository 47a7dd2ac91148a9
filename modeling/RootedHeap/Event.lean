import RootedHeap.Config
import RootedHeap.Fault

/-! # Log events

What the heaps report while they work, in order. An event has a level, a message and named fields;
fields name objects by identity, so that whoever shows an event decides how objects are called.
-/

namespace RootedHeap

/-- The severity of an event, the most severe first. -/
inductive Level where
  | error
  | warn
  | info
  | debug
  | trace
  deriving DecidableEq, Repr

namespace Level

def rank : Level → Nat
  | error => 0
  | warn => 1
  | info => 2
  | debug => 3
  | trace => 4

def text : Level → String
  | error => "ERROR"
  | warn => "WARN"
  | info => "INFO"
  | debug => "DEBUG"
  | trace => "TRACE"

/-- The level of a lower-case name. -/
def ofName? (name : String) : Option Level :=
  match name with
  | "error" => some error
  | "warn" => some warn
  | "info" => some info
  | "debug" => some debug
  | "trace" => some trace
  | _ => none

end Level

/-- The value of a named field. -/
inductive Datum where
  | text (s : String)
  | object (o : ObjId)
  deriving DecidableEq, Repr

/-- Something a heap reports. -/
inductive Event where
  | creatingHeap (config : Config)
  | allocated (obj : ObjId) (typeName : String)
  | tallyBumped (obj : ObjId) (root : RootId) (count : Nat)
  | tagRemoved (obj : ObjId) (root : RootId)
  | tallyDropped (obj : ObjId) (root : RootId) (count : Nat)
  | orphansFound (root : RootId) (scanned orphans : Nat)
  | rootAcquired (root : RootId) (target : ObjId)
  | rootReleased (root : RootId) (target : ObjId)
  | rootRetargeted (root : RootId) (old new : ObjId)
  | strongReleased (obj : ObjId) (remaining : Nat)
  | stillHeld (floating : Nat)
  | collected (heap : String) (dead floating live : Nat)
  | leaked (heap typeName : String) (strong : Nat)
  | heapDropped (heap : String) (live : Nat)
  | violated (cause : Violation)
  deriving DecidableEq, Repr

namespace Event

def level : Event → Level
  | violated _ => .error
  | leaked .. => .warn
  | creatingHeap _ | orphansFound .. | rootAcquired .. | rootReleased .. | rootRetargeted ..
  | collected .. | heapDropped .. => .debug
  | allocated .. | tallyBumped .. | tagRemoved .. | tallyDropped .. | strongReleased ..
  | stillHeld _ => .trace

def message : Event → String
  | creatingHeap _ => "creating heap"
  | allocated .. => "allocated"
  | tallyBumped .. => "tally bumped"
  | tagRemoved .. => "root tag removed"
  | tallyDropped .. => "tally dropped"
  | orphansFound .. => "orphaned cycle found"
  | rootAcquired .. => "root acquired"
  | rootReleased .. => "root released"
  | rootRetargeted .. => "root retargeted"
  | strongReleased .. => "strong released"
  | stillHeld _ => "unrooted objects still held by detached slots"
  | collected .. => "collected unreachable objects"
  | leaked .. => "collected object still referenced; leaking it"
  | heapDropped .. => "heap dropped while detached slots still hold objects"
  | violated _ => "fatal collector invariant violation"

/-- A number as a field. -/
def num (n : Nat) : Datum := .text s!"{n}"

/-- A root as a field. -/
def rootDatum (r : RootId) : Datum := .text (rootText r)

def fields : Event → List (String × Datum)
  | creatingHeap config => [("heap", .text config.name), ("config", .text config.debug)]
  | allocated obj typeName => [("obj", .object obj), ("type_name", .text typeName)]
  | tallyBumped obj root count | tallyDropped obj root count =>
    [("obj", .object obj), ("root", rootDatum root), ("count", num count)]
  | tagRemoved obj root => [("obj", .object obj), ("root", rootDatum root)]
  | orphansFound root scanned orphans =>
    [("root", rootDatum root), ("scanned", num scanned), ("orphans", num orphans)]
  | rootAcquired root target | rootReleased root target =>
    [("root", rootDatum root), ("target", .object target)]
  | rootRetargeted root old new =>
    [("root", rootDatum root), ("old", .object old), ("new", .object new)]
  | strongReleased obj remaining => [("obj", .object obj), ("remaining", num remaining)]
  | stillHeld floating => [("floating", num floating)]
  | collected heap dead floating live =>
    [("heap", .text heap), ("collected", num dead), ("floating", num floating),
      ("live", num live)]
  | leaked heap typeName strong =>
    [("heap", .text heap), ("type_name", .text typeName), ("strong", num strong)]
  | heapDropped heap live => [("heap", .text heap), ("live", num live)]
  | violated cause => [("err", .text cause.message)]

end Event

end RootedHeap
