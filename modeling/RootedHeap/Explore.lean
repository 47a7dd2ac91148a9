import RootedHeap.Ident

/-! # Exploring a finite graph

`explore` enters every object that a stack of starting objects leads to, each once, in the order a
depth-first walk pops them: the successors of an entered object go on top of the stack, the last
reported one first. Objects are marked in an array, so the walk ends on every graph: each entered
object uses up one clear mark.
-/

namespace RootedHeap

/-- A set of objects among the first `size` ones. -/
structure Marks where
  bits : Array Bool

namespace Marks

/-- No object is marked. -/
def clear (size : Nat) : Marks := ⟨Array.replicate size false⟩

/-- Whether `o` is marked. -/
def has (m : Marks) (o : ObjId) : Bool :=
  match m.bits[o]? with
  | some b => b
  | none => false

/-- Whether `o` exists and is not marked yet. -/
def free (m : Marks) (o : ObjId) : Bool :=
  match m.bits[o]? with
  | some b => !b
  | none => false

/-- Mark `o`. -/
def add (m : Marks) (o : ObjId) : Marks := ⟨m.bits.setIfInBounds o true⟩

/-- Mark all of `os`. -/
def ofList (size : Nat) (os : List ObjId) : Marks := os.foldl add (clear size)

/-- How many objects are not marked. -/
def left (m : Marks) : Nat := m.bits.toList.countP (!·)

theorem free_iff {m : Marks} {o : ObjId} : m.free o = true ↔ m.bits[o]? = some false := by
  unfold free
  split <;> simp_all

theorem lt_size_of_free {m : Marks} {o : ObjId} (h : m.free o = true) : o < m.bits.size :=
  (Array.getElem?_eq_some_iff.1 (free_iff.1 h)).1

theorem left_add_lt {m : Marks} {o : ObjId} (h : m.free o = true) : (m.add o).left < m.left := by
  have hlt := lt_size_of_free h
  have hl : o < m.bits.toList.length := by simpa using hlt
  have hbit : m.bits.toList[o] = false := by
    simpa using (Array.getElem?_eq_some_iff.1 (free_iff.1 h)).2
  have hpos : 0 < m.bits.toList.countP (!·) :=
    List.countP_pos_iff.2 ⟨_, List.getElem_mem hl, by simp [hbit]⟩
  simp only [left, add, Array.toList_setIfInBounds]
  rw [List.countP_set hl]
  simp only [hbit, Bool.not_false, Bool.not_true, ↓reduceIte, Bool.false_eq_true]
  omega

end Marks

/-- The unmarked objects that `stack` leads to along `succ`, in the order they are entered. The
top of the stack is its head. -/
def explore (succ : ObjId → List ObjId) (marks : Marks) : List ObjId → List ObjId
  | [] => []
  | o :: rest =>
    if marks.free o then
      o :: explore succ (marks.add o) ((succ o).reverse ++ rest)
    else explore succ marks rest
termination_by stack => (marks.left, stack.length)
decreasing_by
  · exact Prod.Lex.left _ _ (Marks.left_add_lt ‹_›)
  · exact Prod.Lex.right _ (by simp)

/-- A property that holds on the stack and is passed on to successors holds of every entered
object. -/
theorem forall_mem_explore {P : ObjId → Prop} {succ : ObjId → List ObjId}
    (hsucc : ∀ o, ∀ c ∈ succ o, P c) {marks : Marks} {stack : List ObjId}
    (hstack : ∀ o ∈ stack, P o) : ∀ o ∈ explore succ marks stack, P o := by
  fun_induction explore succ marks stack with
  | case1 => simp
  | case2 marks o rest h ih =>
    intro x hx
    rcases List.mem_cons.1 hx with rfl | hx
    · exact hstack _ (List.mem_cons_self ..)
    · refine ih (fun c hc => ?_) x hx
      rcases List.mem_append.1 hc with hc | hc
      · exact hsucc o c (List.mem_reverse.1 hc)
      · exact hstack c (List.mem_cons_of_mem _ hc)
  | case3 marks o rest h ih => exact ih fun c hc => hstack c (List.mem_cons_of_mem _ hc)

/-- Every entered object exists. -/
theorem lt_of_mem_explore {succ : ObjId → List ObjId} {marks : Marks} {stack : List ObjId}
    {o : ObjId} (h : o ∈ explore succ marks stack) : o < marks.bits.size := by
  fun_induction explore succ marks stack with
  | case1 => simp at h
  | case2 marks x rest hx ih =>
    rcases List.mem_cons.1 h with rfl | h
    · exact Marks.lt_size_of_free hx
    · simpa [Marks.add] using ih h
  | case3 marks x rest hx ih => exact ih h

/-- How often each of the first `size` objects occurs in `os`. -/
def occurrences (size : Nat) (os : List ObjId) : Array Nat :=
  os.foldl (fun counts o => counts.modify o (· + 1)) (Array.replicate size 0)

/-- The outcome of a trial deletion. -/
structure Trial where
  /-- The objects examined, in the order they were entered. -/
  order : List ObjId
  /-- Those with support from outside, and all they lead to. -/
  kept : List ObjId
  /-- The rest, in the order they were entered. -/
  lost : List ObjId

/-- Trial deletion below `stack`. An object is supported when its `support` exceeds the edges it
receives from the examined objects; whatever no supported object leads to is lost. -/
def trial (size : Nat) (succ : ObjId → List ObjId) (support : ObjId → Nat) (stack : List ObjId) :
    Trial :=
  let order := explore succ (.clear size) stack
  let inner := occurrences size (order.flatMap succ)
  let kept := explore succ (.clear size) (order.filter fun o => inner[o]?.getD 0 < support o)
  let marks := Marks.ofList size kept
  ⟨order, kept, order.filter fun o => !marks.has o⟩

theorem lost_subset_order {size : Nat} {succ : ObjId → List ObjId} {support : ObjId → Nat}
    {stack : List ObjId} {o : ObjId} (h : o ∈ (trial size succ support stack).lost) :
    o ∈ (trial size succ support stack).order := by
  simp only [trial] at h ⊢
  exact (List.mem_filter.1 h).1

end RootedHeap
