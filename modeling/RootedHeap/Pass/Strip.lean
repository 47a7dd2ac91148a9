import RootedHeap.Tally

/-! # Stripping a released root

A released root leaves nothing behind, so its counts need no balancing: the tag is removed from
every object it can be followed to. Each expanded object loses its tag for good, which bounds the
pass by the number of tagged objects.
-/

namespace RootedHeap

/-- The outcome of a strip pass. -/
structure Stripped where
  tallies : Tallies
  /-- The objects that lost the tag, in order. -/
  objects : List ObjId

/-- Forget `r` at every object of `stack` that it tags, and follow `edges` from there. -/
def stripAll (edges : ObjId → List ObjId) (r : RootId) (ts : Tallies) : List ObjId → Stripped
  | [] => ⟨ts, []⟩
  | o :: rest =>
    if h : o < ts.size then
      if ts[o].count r = 0 then stripAll edges r ts rest
      else
        let pass := stripAll edges r (ts.set o (ts[o].strip r)) ((edges o).reverse ++ rest)
        { pass with objects := o :: pass.objects }
    else stripAll edges r ts rest
termination_by stack => (ts.tagged r, stack.length)
decreasing_by
  · exact Prod.Lex.right _ (by simp)
  · exact Prod.Lex.left _ _ (ts.tagged_set_untagged h _ r ‹_› (by simp))
  · exact Prod.Lex.right _ (by simp)

/-- Forget `r` at `target` and wherever it can be followed to. -/
def strip (edges : ObjId → List ObjId) (r : RootId) (target : ObjId) (ts : Tallies) : Stripped :=
  stripAll edges r ts [target]

/-- The stripped objects that no root reaches any more, in order. -/
def Stripped.unrooted (pass : Stripped) : List ObjId :=
  pass.objects.filter pass.tallies.isEmptyAt

end RootedHeap
