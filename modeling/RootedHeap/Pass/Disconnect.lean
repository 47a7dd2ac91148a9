import RootedHeap.Explore
import RootedHeap.Pass.Connect

/-! # Disconnecting a root

Taking one edge of a root away from an object. A count that reaches zero removes the tag and takes
the object's own edges away in turn; every step uses up one counted edge, which bounds the pass by
the total tally of the root. A count that stays positive may be held up by a cycle alone: those
objects are handed to an orphan scan, a trial deletion inside the part of the graph that the root
tags.
-/

namespace RootedHeap

/-- The outcome of the counting cascade of a disconnect pass. -/
structure Cascade where
  tallies : Tallies
  /-- The edges taken away, in order. A count of `0` means the object lost the tag. -/
  touches : List Touch
  /-- The object at which the pass gave up, because the root did not reach it. -/
  unreached : Option ObjId

/-- Take an edge of `r` away from every object of `stack`, the head first. -/
def disconnectAll (edges : ObjId → List ObjId) (r : RootId) (ts : Tallies) :
    List ObjId → Cascade
  | [] => ⟨ts, [], none⟩
  | o :: rest =>
    if h : o < ts.size then
      if ts[o].count r = 0 then ⟨ts, [], some o⟩
      else
        -- the last count goes along with the edges it was counted for
        let next := if ts[o].count r = 1 then (edges o).reverse ++ rest else rest
        let pass := disconnectAll edges r (ts.set o (ts[o].lower r)) next
        { pass with touches := ⟨o, ts[o].count r - 1⟩ :: pass.touches }
    else ⟨ts, [], some o⟩
termination_by ts.total r
decreasing_by
  have := ts.total_set h (ts[o].lower r) r
  simp only [Tally.count_lower_self] at this
  omega

/-- Take one edge of `r` away from `target`. -/
def cascade (edges : ObjId → List ObjId) (r : RootId) (target : ObjId) (ts : Tallies) : Cascade :=
  disconnectAll edges r ts [target]

namespace Cascade

/-- The objects that lost the tag, in order. -/
def removed (pass : Cascade) : List ObjId :=
  (pass.touches.filter (·.count = 0)).map (·.obj)

/-- The objects whose count stayed positive, in order, once for each time. -/
def candidates (pass : Cascade) : List ObjId :=
  (pass.touches.filter (·.count ≠ 0)).map (·.obj)

/-- The objects that lost their last tag, in order. -/
def unrooted (pass : Cascade) : List ObjId :=
  pass.removed.filter pass.tallies.isEmptyAt

end Cascade

/-- The outcome of an orphan scan. -/
structure OrphanScan where
  tallies : Tallies
  /-- How many objects were examined. -/
  scanned : Nat
  /-- The objects that lost the tag, in order. -/
  orphans : List ObjId
  /-- A surviving object was left without any count. -/
  broken : Bool

/-- The objects that lost their last tag, in order. -/
def OrphanScan.unrooted (scan : OrphanScan) : List ObjId :=
  scan.orphans.filter scan.tallies.isEmptyAt

/-- Forget `r` at all of `os`. -/
def stripEach (r : RootId) (os : List ObjId) (ts : Tallies) : Tallies :=
  os.foldl (fun ts o => ts.modify o (·.strip r)) ts

/-- Take an edge of `r` away from each of `os`; stop after one that is left without any. -/
def lowerEach (r : RootId) : List ObjId → Tallies → Tallies × Bool
  | [], ts => (ts, false)
  | o :: rest, ts =>
    let ts : Tallies := ts.modify o (·.lower r)
    if ts.count o r = 0 then (ts, true) else lowerEach r rest ts

/-- Trial deletion over the part of `r`'s tagged graph below `candidates`. An object is supported
when its count exceeds the edges it receives from there: the surplus comes from the root itself or
from a tagged object outside. What no supported object leads to loses the tag, and the survivors
lose the edges that came from there. -/
def scanOrphans (edges : ObjId → List ObjId) (r : RootId) (candidates : List ObjId)
    (ts : Tallies) : OrphanScan :=
  let tagged := fun o => decide (0 < ts.count o r)
  let inside := fun o => (edges o).filter tagged
  let t := trial ts.size inside (ts.count · r) (candidates.filter tagged).reverse
  if t.lost.isEmpty then ⟨ts, t.order.length, [], false⟩
  else
    let alive := Marks.ofList ts.size t.kept
    -- the tags of the orphans are stripped whole, but their edges into survivors were counted
    let cut := (t.lost.flatMap inside).filter alive.has
    let (after, broken) := lowerEach r cut (stripEach r t.lost ts)
    ⟨after, t.order.length, t.lost, broken⟩

end RootedHeap
