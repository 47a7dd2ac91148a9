import RootedHeap.Ident
import RootedHeap.Text.Quoted

/-! # Faults

Why an operation stops. A `Violation` is a broken rule of the collector's protocol, found by one of
its own checks; the other faults are range checks of lists and assertions on the collector's counts.
All wording is here.
-/

namespace RootedHeap

/-- What exactly was wrong with an object or a slot. -/
inductive Breach where
  /-- A slot or list was given an object of another heap. -/
  | foreignStore
  /-- A handle was to be rebound to an object of another heap. -/
  | foreignAssign
  /-- A pass of one heap came to an object of another. -/
  | foreignTarget
  /-- The slot is not among those the value reports. -/
  | unvisitedSlot
  /-- A pass took an edge of the root away that was never counted. -/
  | notConnected (root : RootId)
  | other (detail : String)
  deriving DecidableEq, Repr

/-- How a root is written in messages. -/
def rootText (root : RootId) : String := s!"r{root}"

/-- How a root is written in debug output. -/
def rootDebug (root : RootId) : String := s!"RootId({root})"

/-- The slot of an unvisited slot is not shown: its address stands as `0x?`. -/
def Breach.detail : Breach → String
  | foreignStore => "cannot store an object from a different heap"
  | foreignAssign => "cannot assign a handle from a different heap"
  | foreignTarget => "owning slot points into a different heap"
  | unvisitedSlot => "owned slot at 0x? is not visited by the descriptor"
  | notConnected root =>
    "disconnect reached an object not connected to root " ++ rootText root ++
      "; connect and disconnect visit different slots"
  | other detail => detail

/-- A broken rule of the collector's protocol. -/
inductive Violation where
  | protocol (typeName : String) (breach : Breach)
  | doubleRootRelease (root : RootId)
  | unknownRoot (root : RootId)
  | useAfterCollection (typeName : String)
  deriving DecidableEq, Repr

namespace Violation

def message : Violation → String
  | protocol typeName breach => "protocol violation in `" ++ typeName ++ "`: " ++ breach.detail
  | doubleRootRelease root => "root " ++ rootText root ++ " released twice"
  | unknownRoot root => "root " ++ rootText root ++ " was never issued by this heap"
  | useAfterCollection typeName => "use of a collected `" ++ typeName ++ "` object"

/-- The violation as debug output. -/
def debug : Violation → String
  | protocol typeName breach =>
    "ProtocolViolation \x7b type_name: " ++ Text.debugQuoted typeName ++ ", detail: " ++
      Text.debugQuoted breach.detail ++ " \x7d"
  | doubleRootRelease root => "DoubleRootRelease(" ++ rootDebug root ++ ")"
  | unknownRoot root => "UnknownRoot(" ++ rootDebug root ++ ")"
  | useAfterCollection typeName =>
    "UseAfterCollection \x7b type_name: " ++ Text.debugQuoted typeName ++ " \x7d"

end Violation

/-- Why an operation stopped. -/
inductive Fault where
  | violation (cause : Violation)
  /-- A list insertion beyond the end. -/
  | insertRange (index length : Nat)
  /-- A list element replaced beyond the end. -/
  | replaceRange (index length : Nat)
  /-- A list element removed beyond the end. -/
  | removeRange (index length : Nat)
  /-- An object that survived an orphan scan was left without any count. -/
  | survivorUncounted
  /-- A strong reference was given up that nobody held. -/
  | strongUnderflow (typeName : String)
  /-- More objects were collected than the heap had. -/
  | liveUnderflow
  deriving DecidableEq, Repr

namespace Fault

def message : Fault → String
  | violation cause => cause.message
  | insertRange index length =>
    s!"insertion index (is {index}) should be <= len (is {length})"
  | replaceRange index length =>
    s!"index out of bounds: the len is {length} but the index is {index}"
  | removeRange index length =>
    s!"removal index (is {index}) should be < len (is {length})"
  | survivorUncounted => "assertion failed: matches!(remaining, Some(n) if n > 0)"
  | strongUnderflow typeName => "strong count underflow on `" ++ typeName ++ "`"
  | liveUnderflow => "attempt to subtract with overflow"

/-- Whether the counts can no longer be trusted, so that nothing more should be run. -/
def halts : Fault → Bool
  | violation (.protocol _ (.notConnected _)) => true
  | survivorUncounted | strongUnderflow _ => true
  | _ => false

end Fault

end RootedHeap
