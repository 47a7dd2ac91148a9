import RootedHeap.Tally

/-! # Connecting a root

Counting one new edge of a root into an object. An object that the root did not reach before is
expanded: its own edges are counted as well. An object is expanded only when its count leaves zero,
so a pass expands each object at most once, whatever cycles lead back to it; the measure is the
number of objects the root does not reach yet, then the height of the stack.
-/

namespace RootedHeap

/-- An object whose count a pass changed, and the count it was left with. -/
structure Touch where
  obj : ObjId
  count : Nat
  deriving DecidableEq, Repr

/-- The outcome of a connect pass. -/
structure Connected where
  tallies : Tallies
  /-- The counted edges, in order. A count of `1` means the object was expanded. -/
  touches : List Touch
  /-- The object outside the heap at which the pass gave up. -/
  stranger : Option ObjId

/-- Count an edge of `r` into every object of `stack`, the head first. -/
def connectAll (edges : ObjId → List ObjId) (owns : ObjId → Bool) (r : RootId) (ts : Tallies) :
    List ObjId → Connected
  | [] => ⟨ts, [], none⟩
  | o :: rest =>
    if h : o < ts.size then
      if owns o then
        if ts[o].count r = 0 then
          -- the root reaches `o` only now, and with it all that `o` has edges to
          let pass := connectAll edges owns r (ts.set o (ts[o].bump r)) ((edges o).reverse ++ rest)
          { pass with touches := ⟨o, 1⟩ :: pass.touches }
        else
          let pass := connectAll edges owns r (ts.set o (ts[o].bump r)) rest
          { pass with touches := ⟨o, ts[o].count r + 1⟩ :: pass.touches }
      else ⟨ts, [], some o⟩
    else ⟨ts, [], some o⟩
termination_by stack => (ts.untagged r, stack.length)
decreasing_by
  · exact Prod.Lex.left _ _ (ts.untagged_set_tagged h _ r ‹_› (by simp))
  · rw [ts.untagged_set_of_ne h _ r ‹_› (by simp)]
    exact Prod.Lex.right _ (by simp)

/-- Count one new edge of `r` into `target`. -/
def connect (edges : ObjId → List ObjId) (owns : ObjId → Bool) (r : RootId) (target : ObjId)
    (ts : Tallies) : Connected :=
  connectAll edges owns r ts [target]

/-- The objects whose edges the pass asked for, in order. -/
def Connected.expanded (pass : Connected) : List ObjId :=
  (pass.touches.filter (·.count = 1)).map (·.obj)

end RootedHeap
