import RootedHeap.Text.Quoted

/-! # Heap configuration -/

namespace RootedHeap

/-- Runtime checks and labelling for one heap. -/
structure Config where
  /-- Shown in log records. -/
  name : String := "heap"
  /-- Check that every slot written through a handle is one that the object's value reports. -/
  verify : Bool := true
  /-- Keep collected objects, marked, and refuse to dereference them. -/
  poison : Bool := true
  /-- Report collected objects that are still referenced once their values are dropped. -/
  balance : Bool := true
  deriving DecidableEq, Repr

namespace Config

/-- No check at all. -/
def unchecked : Config := { verify := false, poison := false, balance := false }

def boolText (b : Bool) : String := if b then "true" else "false"

/-- The configuration as debug output. -/
def debug (c : Config) : String :=
  "HeapConfig \x7b name: " ++ Text.debugQuoted c.name ++
    ", verify_descriptors: " ++ boolText c.verify ++
    ", poison_freed: " ++ boolText c.poison ++
    ", check_strong_balance: " ++ boolText c.balance ++ " \x7d"

end Config

end RootedHeap
