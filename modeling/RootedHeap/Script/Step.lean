import RootedHeap.Script.Cell
import RootedHeap.Stats

/-! # Script steps

What a script may ask for, what it may answer, and why a step may be refused before it does
anything. A step is read leniently: a parameter that is missing or of the wrong kind is kept as such
and only refused when its turn comes.
-/

namespace RootedHeap.Script

/-- A parameter as it was written. -/
inductive Param (α : Type) where
  /-- Missing, or null. -/
  | absent
  /-- Present, but not of the kind that is asked for. -/
  | malformed
  | given (a : α)

/-- Why a step is refused. -/
inductive Refusal where
  | badStep
  | noHandle
  | noWeak
  | noDetached
  | noHeap
  | noSlot
  | noList
  deriving DecidableEq, Repr

/-- A handle's name or null. -/
abbrev Ref := Param String

/-- The variant part of a new cell. -/
inductive ShapeInit where
  | leaf
  | two (l r : Ref)
  | link (target : Ref)
  | many (items : Param (List Ref))

/-- What a new cell is to hold. -/
structure Init where
  left : Ref := .absent
  right : Ref := .absent
  parent : Ref := .absent
  hidden : Ref := .absent
  stray : Ref := .absent
  boxed : Ref := .absent
  pair : Ref := .absent
  /-- Present even when null, unless the key is missing. -/
  opt : Option Ref := none
  vec : Param (List Ref) := .absent
  deque : Param (List Ref) := .absent
  arr : Param (List Ref) := .absent
  bmap : Param (List (String × Ref)) := .absent
  hmap : Param (List (String × Ref)) := .absent
  items : Param (List Ref) := .absent
  hiddenList : Param (List Ref) := .absent
  pairlist : Param (List Ref) := .absent
  shape : Param ShapeInit := .absent
  mode : Param Mode := .absent
  odd : Ref := .absent
  weak : Ref := .absent
  held : Ref := .absent

/-- Where the slot or list is that a step works on: in the object of the handle itself, in that of
another handle, or outside any object. -/
structure Place where
  path : Param String
  via : Param String := .absent
  viaDetached : Param String := .absent

/-- What `debug` is asked to show. -/
inductive Shown where
  | weak (name : Param String)
  | detached (name : Param String)
  | handle (name : Param String)
  | field (name : Param String) (place : Place)
  | list (name : Param String) (place : Place)
  | heap (heap : Param Nat)

/-- One step of a script. -/
inductive Step where
  | alloc (name : Param String) (heap : Param Nat) (label : Param String) (init : Param Init)
  | chain (length : Param Nat) (name : Param String) (heap : Param Nat) (slot : Param String)
      (close : Param Bool)
  | clone (handle name : Param String)
  | drop (handle : Param String)
  | assign (handle source : Param String)
  /-- Drop a handle, then drop it once more. -/
  | doubleDrop (handle : Param String)
  /-- Drop a handle, then rebind it all the same. -/
  | staleAssign (handle source : Param String)
  | set (handle : Param String) (place : Place) (target : Ref)
  | get (handle : Param String) (place : Place) (name : Param String)
  | take (handle : Param String) (place : Place) (name : Param String)
  | isNull (handle : Param String) (place : Place)
  | push (handle : Param String) (place : Place) (item : Param String)
  | insert (handle : Param String) (place : Place) (index : Param Nat) (item : Param String)
  | replace (handle : Param String) (place : Place) (index : Param Nat) (item : Param String)
  | item (handle : Param String) (place : Place) (index : Param Nat) (name : Param String)
  | remove (handle : Param String) (place : Place) (index : Param Nat) (name : Param String)
  | pop (handle : Param String) (place : Place) (name : Param String)
  | clear (handle : Param String) (place : Place)
  | items (handle : Param String) (place : Place)
  | length (handle : Param String) (place : Place)
  | downgrade (handle name : Param String)
  | weakNew (name : Param String)
  /-- Clone a named weak reference, or the one in a handle's cell. -/
  | weakClone (weak handle name : Param String)
  | weakDrop (weak : Param String)
  /-- Upgrade a named weak reference, or the one in a handle's cell. -/
  | upgrade (weak handle name : Param String)
  | pointsTo (weak handle : Param String)
  | detach (target : Ref) (name : Param String)
  | detachList (targets : Param (List Ref)) (name : Param String)
  | dropDetached (detached : Param String)
  | tally (handle : Param String)
  | tallyFrom (handle : Param String) (heap : Param Nat)
  | samePtr (handle other : Param String)
  | root (handle : Param String)
  | compareRoots (handle other : Param String)
  | label (handle : Param String)
  | inHeap (handle : Param String) (heap : Param Nat)
  | live (heap : Param Nat)
  | stats (heap : Param Nat)
  | config (heap : Param Nat)
  | contend (heap : Param Nat) (secs nanos : Param Nat)
  | dropHeap (heap : Param Nat)
  | debug (shown : Shown)
  /-- No step that there is. -/
  | unknown

/-- What a step answers. -/
inductive Reply where
  | nothing
  | truth (b : Bool)
  | handle (label : String) (root : RootId)
  | handles (handles : List (String × RootId))
  | tally (entries : List (RootId × Nat))
  | text (s : String)
  | root (r : RootId)
  | order (o : Ordering)
  | length (n : Nat)
  | live (objects roots : Nat)
  | stats (s : Stats)
  | config (c : Config)
  | contention (count total : Nat)

end RootedHeap.Script
