import Mathlib.Data.List.Nodup
import Mathlib.Logic.Relation
import RootedHeap.Explore

/-! # Reachability and trial deletion

What `explore` enters is exactly what its stack leads to, each object once. A trial deletion
therefore keeps exactly what its supported objects lead to, and loses the rest of what it examined.
Both hold on every graph whose edges stay among the objects there are.
-/

namespace RootedHeap

/-- `b` can be reached from `a` along `edges`. -/
abbrev Reach (edges : ObjId → List ObjId) : ObjId → ObjId → Prop :=
  Relation.ReflTransGen fun a b => b ∈ edges a

/-- Reachability only depends on the edges of the objects on the way. -/
theorem Reach.congr_of_closed {edges edges' : ObjId → List ObjId} {P : ObjId → Prop}
    (hclosed : ∀ a b, P a → b ∈ edges a → P b)
    (hsub : ∀ a b, P a → b ∈ edges a → b ∈ edges' a) {a b : ObjId} (ha : P a)
    (h : Reach edges a b) : P b ∧ Reach edges' a b := by
  induction h with
  | refl => exact ⟨ha, .refl⟩
  | tail _ hstep ih => exact ⟨hclosed _ _ ih.1 hstep, ih.2.tail (hsub _ _ ih.1 hstep)⟩

/-- The edges of the last object of a path do not matter: the path can be cut at its first arrival
there. -/
theorem Reach.congr_off_target {edges edges' : ObjId → List ObjId} {a b : ObjId}
    (hoff : ∀ p, p ≠ b → edges' p = edges p) (h : Reach edges a b) : Reach edges' a b := by
  induction h using Relation.ReflTransGen.head_induction_on with
  | refl => exact .refl
  | @head a c hstep _ ih =>
      by_cases hab : a = b
      · rw [hab]
      · refine .head ?_ ih
        rw [hoff a hab]
        exact hstep

namespace Marks

theorem free_clear {size : Nat} {o : ObjId} : (clear size).free o = true ↔ o < size := by
  simp [free_iff, clear, Array.getElem?_replicate]

theorem free_add {m : Marks} {o x : ObjId} :
    (m.add o).free x = true ↔ x ≠ o ∧ m.free x = true := by
  simp only [free_iff, add, Array.getElem?_setIfInBounds]
  by_cases hx : o = x
  · subst hx
    by_cases hlt : o < m.bits.size <;> simp [hlt]
  · simp [hx, Ne.symm hx]

theorem has_iff {m : Marks} {o : ObjId} : m.has o = true ↔ m.bits[o]? = some true := by
  unfold has
  split <;> simp_all

theorem has_clear (size : Nat) (o : ObjId) : (clear size).has o = false := by
  rw [Bool.eq_false_iff]
  simp [has_iff, clear, Array.getElem?_replicate]

theorem has_add {m : Marks} {o x : ObjId} :
    (m.add o).has x = true ↔ m.has x = true ∨ x = o ∧ x < m.bits.size := by
  simp only [has_iff, add, Array.getElem?_setIfInBounds]
  by_cases hx : o = x
  · subst hx
    by_cases hlt : o < m.bits.size <;> simp [hlt]
  · simp [hx, Ne.symm hx]

theorem has_foldl_add (os : List ObjId) (m : Marks) (o : ObjId) :
    (os.foldl add m).has o = true ↔ m.has o = true ∨ o ∈ os ∧ o < m.bits.size := by
  induction os generalizing m with
  | nil => simp
  | cons x os ih =>
      have hsize : (m.add x).bits.size = m.bits.size := by simp [add]
      rw [List.foldl_cons, ih, has_add, hsize, List.mem_cons]
      tauto

theorem has_ofList {size : Nat} {os : List ObjId} {o : ObjId} :
    (ofList size os).has o = true ↔ o ∈ os ∧ o < size := by
  rw [ofList, has_foldl_add, has_clear]
  simp [clear]

end Marks

section Explore

variable {succ : ObjId → List ObjId} {marks : Marks} {stack : List ObjId}

/-- Only unmarked objects are entered. -/
theorem free_of_mem_explore {o : ObjId} (h : o ∈ explore succ marks stack) :
    marks.free o = true := by
  fun_induction explore succ marks stack with
  | case1 => simp at h
  | case2 marks x rest hx ih =>
      rcases List.mem_cons.mp h with rfl | h
      · exact hx
      · exact (Marks.free_add.mp (ih h)).2
  | case3 marks x rest hx ih => exact ih h

theorem nodup_explore : (explore succ marks stack).Nodup := by
  fun_induction explore succ marks stack with
  | case1 => exact List.nodup_nil
  | case2 marks o rest ho ih =>
      refine List.nodup_cons.mpr ⟨?_, ih⟩
      intro hmem
      exact (Marks.free_add.mp (free_of_mem_explore hmem)).1 rfl
  | case3 marks o rest ho ih => exact ih

/-- Every unmarked object of the stack is entered, and so is every unmarked successor of an entered
one. -/
theorem explore_closed :
    (∀ o ∈ stack, marks.free o = true → o ∈ explore succ marks stack) ∧
      ∀ o ∈ explore succ marks stack, ∀ c ∈ succ o, marks.free c = true →
        c ∈ explore succ marks stack := by
  fun_induction explore succ marks stack with
  | case1 => simp
  | case2 marks x rest hx ih =>
      have hfree : ∀ c, c ≠ x → marks.free c = true → (marks.add x).free c = true :=
        fun c hne hc => Marks.free_add.mpr ⟨hne, hc⟩
      have hstack : ∀ c ∈ (succ x).reverse ++ rest, marks.free c = true →
          c ∈ x :: explore succ (marks.add x) ((succ x).reverse ++ rest) := by
        intro c hc hfreec
        by_cases hcx : c = x
        · exact hcx ▸ List.mem_cons_self
        · exact List.mem_cons_of_mem _ (ih.1 c hc (hfree c hcx hfreec))
      constructor
      · intro o ho hfreeo
        rcases List.mem_cons.mp ho with rfl | ho
        · exact List.mem_cons_self
        · exact hstack o (List.mem_append_right _ ho) hfreeo
      · intro o ho c hc hfreec
        rcases List.mem_cons.mp ho with rfl | ho
        · exact hstack c (List.mem_append_left _ (List.mem_reverse.mpr hc)) hfreec
        · by_cases hcx : c = x
          · exact hcx ▸ List.mem_cons_self
          · exact List.mem_cons_of_mem _ (ih.2 o ho c hc (hfree c hcx hfreec))
  | case3 marks x rest hx ih =>
      refine ⟨?_, ih.2⟩
      intro o ho hfreeo
      rcases List.mem_cons.mp ho with rfl | ho
      · exact absurd hfreeo hx
      · exact ih.1 o ho hfreeo

/-- Whatever is entered, the stack leads to it. -/
theorem reach_of_mem_explore {o : ObjId} (h : o ∈ explore succ marks stack) :
    ∃ s ∈ stack, Reach succ s o := by
  fun_induction explore succ marks stack with
  | case1 => simp at h
  | case2 marks x rest hx ih =>
      rcases List.mem_cons.mp h with rfl | h
      · exact ⟨_, List.mem_cons_self, .refl⟩
      · obtain ⟨s, hs, hreach⟩ := ih h
        rcases List.mem_append.mp hs with hs | hs
        · exact ⟨x, List.mem_cons_self, .head (List.mem_reverse.mp hs) hreach⟩
        · exact ⟨s, List.mem_cons_of_mem _ hs, hreach⟩
  | case3 marks x rest hx ih =>
      obtain ⟨s, hs, hreach⟩ := ih h
      exact ⟨s, List.mem_cons_of_mem _ hs, hreach⟩

/-- With nothing marked, `explore` enters exactly what the stack leads to. -/
theorem mem_explore_iff {size : Nat} (hstack : ∀ o ∈ stack, o < size)
    (hsucc : ∀ o, ∀ c ∈ succ o, c < size) {o : ObjId} :
    o ∈ explore succ (.clear size) stack ↔ ∃ s ∈ stack, Reach succ s o := by
  refine ⟨reach_of_mem_explore, ?_⟩
  rintro ⟨s, hs, hreach⟩
  induction hreach with
  | refl => exact explore_closed.1 s hs (Marks.free_clear.mpr (hstack s hs))
  | tail _ hstep ih =>
      exact explore_closed.2 _ ih _ hstep (Marks.free_clear.mpr (hsucc _ _ hstep))

end Explore

theorem getElem?_foldl_modify (os : List ObjId) (counts : Array Nat) (o : ObjId)
    (ho : o < counts.size) :
    (os.foldl (fun counts o => counts.modify o (· + 1)) counts)[o]?.getD 0 =
      counts[o]?.getD 0 + os.count o := by
  induction os generalizing counts with
  | nil => simp
  | cons x os ih =>
      rw [List.foldl_cons, ih _ (by simpa using ho), Array.getElem?_modify]
      by_cases hx : x = o
      · subst hx
        simp [ho]
        omega
      · simp [hx]

theorem occurrences_eq_count {size : Nat} {o : ObjId} (ho : o < size) (os : List ObjId) :
    (occurrences size os)[o]?.getD 0 = os.count o := by
  rw [occurrences, getElem?_foldl_modify os _ o (by simpa using ho)]
  simp [ho]

section Trial

variable {size : Nat} {succ : ObjId → List ObjId} {support : ObjId → Nat} {stack : List ObjId}

theorem nodup_order : (trial size succ support stack).order.Nodup := nodup_explore

theorem nodup_lost : (trial size succ support stack).lost.Nodup :=
  List.Nodup.filter _ nodup_explore

/-- What a trial deletion examines is all that the stack leads to. -/
theorem mem_order_iff (hstack : ∀ o ∈ stack, o < size) (hsucc : ∀ o, ∀ c ∈ succ o, c < size)
    {o : ObjId} :
    o ∈ (trial size succ support stack).order ↔ ∃ s ∈ stack, Reach succ s o :=
  mem_explore_iff hstack hsucc

/-- What a trial deletion keeps is all that supported objects lead to. An object is supported when
it has more support than edges from examined objects. -/
theorem mem_kept_iff (hsucc : ∀ o, ∀ c ∈ succ o, c < size) {o : ObjId} :
    o ∈ (trial size succ support stack).kept ↔
      ∃ s ∈ (trial size succ support stack).order,
        ((trial size succ support stack).order.flatMap succ).count s < support s ∧
          Reach succ s o := by
  have hlt : ∀ s ∈ explore succ (.clear size) stack, s < size := by
    intro s hs
    simpa [Marks.clear] using lt_of_mem_explore hs
  simp only [trial]
  rw [mem_explore_iff (fun s hs => hlt s (List.mem_of_mem_filter hs)) hsucc]
  constructor
  · rintro ⟨s, hs, hreach⟩
    obtain ⟨hs, hsup⟩ := List.mem_filter.mp hs
    rw [occurrences_eq_count (hlt s hs)] at hsup
    exact ⟨s, hs, by simpa using hsup, hreach⟩
  · rintro ⟨s, hs, hsup, hreach⟩
    refine ⟨s, List.mem_filter.mpr ⟨hs, ?_⟩, hreach⟩
    rw [occurrences_eq_count (hlt s hs)]
    simpa using hsup

theorem mem_lost_iff {o : ObjId} :
    o ∈ (trial size succ support stack).lost ↔
      o ∈ (trial size succ support stack).order ∧ o ∉ (trial size succ support stack).kept := by
  have hlt (h : o ∈ (trial size succ support stack).order) : o < size := by
    simpa [Marks.clear] using lt_of_mem_explore h
  have hlost : o ∈ (trial size succ support stack).lost ↔
      o ∈ (trial size succ support stack).order ∧
        ¬ (Marks.ofList size (trial size succ support stack).kept).has o = true := by
    simp [trial]
  rw [hlost, Marks.has_ofList]
  constructor
  · rintro ⟨horder, hnot⟩
    exact ⟨horder, fun hkept => hnot ⟨hkept, hlt horder⟩⟩
  · rintro ⟨horder, hnot⟩
    exact ⟨horder, fun hkept => hnot hkept.1⟩

end Trial

end RootedHeap
