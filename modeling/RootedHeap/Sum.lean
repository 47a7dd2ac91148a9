/-! # Sums over lists

The measures of this library add up a natural number for each element of a list.
-/

namespace RootedHeap

/-- The sum of `f` over a list. -/
def sumOf {α : Type} (f : α → Nat) : List α → Nat
  | [] => 0
  | a :: l => f a + sumOf f l

variable {α β : Type}

@[simp] theorem sumOf_nil (f : α → Nat) : sumOf f [] = 0 := rfl

@[simp] theorem sumOf_cons (f : α → Nat) (a : α) (l : List α) :
    sumOf f (a :: l) = f a + sumOf f l := rfl

@[simp] theorem sumOf_append (f : α → Nat) (l l' : List α) :
    sumOf f (l ++ l') = sumOf f l + sumOf f l' := by
  induction l with
  | nil => simp
  | cons a l ih => simp only [List.cons_append, sumOf_cons, ih, Nat.add_assoc]

theorem sumOf_map (f : β → Nat) (g : α → β) (l : List α) :
    sumOf f (l.map g) = sumOf (fun a => f (g a)) l := by
  induction l with
  | nil => rfl
  | cons a l ih => simp only [List.map_cons, sumOf_cons, ih]

theorem sumOf_le {f g : α → Nat} (h : ∀ a, f a ≤ g a) (l : List α) : sumOf f l ≤ sumOf g l := by
  induction l with
  | nil => exact Nat.le_refl _
  | cons a l ih =>
    have := h a
    simp only [sumOf_cons]
    omega

/-- Replacing one element exchanges what it adds. -/
theorem sumOf_set (f : α → Nat) {l : List α} {i : Nat} (h : i < l.length) (a : α) :
    sumOf f (l.set i a) + f l[i] = sumOf f l + f a := by
  induction l generalizing i with
  | nil => simp at h
  | cons x xs ih =>
    cases i with
    | zero =>
      simp only [List.set_cons_zero, sumOf_cons, List.getElem_cons_zero]
      omega
    | succ i =>
      have := ih (by simpa using h)
      simp only [List.set_cons_succ, sumOf_cons, List.getElem_cons_succ]
      omega

end RootedHeap
