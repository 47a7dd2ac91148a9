import Mathlib.Algebra.BigOperators.Group.Finset.Basic
import Mathlib.Algebra.Order.BigOperators.Group.Finset
import RootedHeap.Pass.Connect
import RootedHeap.Proofs.Reach

/-! # Balanced tallies

The counts of a root balance when each is made up of the support an object has from outside and of
the edges it receives from tagged objects, and every tagged object is reached from support. Such
counts are determined by the graph and the support alone (`Balanced.count_unique`). A connect pass
adds one unit of support at its target.
-/

namespace RootedHeap

namespace Tallies

theorem count_set (ts : Tallies) {o : ObjId} (h : o < ts.size) (t : Tally) (x : ObjId)
    (r : RootId) : count (ts.set o t) x r = if x = o then t.count r else count ts x r := by
  unfold count
  rw [Array.getElem?_set]
  by_cases hx : x = o
  · simp [hx]
  · simp [hx, Ne.symm hx]

theorem count_getElem (ts : Tallies) {o : ObjId} (h : o < ts.size) (r : RootId) :
    count ts o r = ts[o].count r := by
  simp [count, h]

theorem lt_size_of_count_pos {ts : Tallies} {o : ObjId} {r : RootId} (h : 0 < count ts o r) :
    o < ts.size := by
  by_contra hge
  simp [count, Array.getElem?_eq_none (Nat.le_of_not_lt hge)] at h

theorem count_eq_zero_of_size_le {ts : Tallies} {o : ObjId} {r : RootId} (h : ts.size ≤ o) :
    count ts o r = 0 := by
  by_contra hne
  have hlt := lt_size_of_count_pos (Nat.pos_of_ne_zero hne)
  exact absurd hlt (Nat.not_lt.mpr h)

theorem isEmptyAt_iff {ts : Tallies} {o : ObjId} :
    ts.isEmptyAt o = true ↔ ∀ r, count ts o r = 0 := by
  unfold isEmptyAt count
  cases ts[o]? with
  | none => simp
  | some t => exact t.isEmpty_iff

/-- Tallies of the same objects that count alike are the same. -/
theorem ext_count {ts ts' : Tallies} (hsize : ts.size = ts'.size)
    (h : ∀ o r, count ts o r = count ts' o r) : ts = ts' := by
  refine Array.ext hsize ?_
  intro o ho ho'
  refine Tally.ext_count ?_
  intro r
  have := h o r
  rwa [count_getElem ts ho, count_getElem ts' ho'] at this

/-- The objects that `r` reaches. -/
def tags (ts : Tallies) (r : RootId) : Finset ObjId :=
  (Finset.range ts.size).filter fun o => 0 < count ts o r

@[simp] theorem mem_tags {ts : Tallies} {r : RootId} {o : ObjId} :
    o ∈ tags ts r ↔ 0 < count ts o r := by
  simp only [tags, Finset.mem_filter, Finset.mem_range]
  exact ⟨And.right, fun h => ⟨lt_size_of_count_pos h, h⟩⟩

theorem tags_set_of_pos (ts : Tallies) {o : ObjId} (h : o < ts.size) (t : Tally) (r : RootId)
    (ho : 0 < count ts o r) (ht : 0 < t.count r) : tags (ts.set o t) r = tags ts r := by
  ext x
  rw [mem_tags, mem_tags, count_set ts h]
  split
  next hx => simp [hx, ho, ht]
  next => rfl

theorem tags_set_insert (ts : Tallies) {o : ObjId} (h : o < ts.size) (t : Tally) (r : RootId)
    (ht : 0 < t.count r) : tags (ts.set o t) r = insert o (tags ts r) := by
  ext x
  rw [mem_tags, Finset.mem_insert, mem_tags, count_set ts h]
  split
  next hx => simp [hx, ht]
  next hx => simp [hx]

theorem tags_set_erase (ts : Tallies) {o : ObjId} (h : o < ts.size) (t : Tally) (r : RootId)
    (ht : t.count r = 0) : tags (ts.set o t) r = (tags ts r).erase o := by
  ext x
  rw [mem_tags, Finset.mem_erase, mem_tags, count_set ts h]
  split
  next hx => simp [hx, ht]
  next hx => simp [hx]

/-- The edges that `o` receives from objects that `r` reaches. -/
def inflow (edges : ObjId → List ObjId) (ts : Tallies) (r : RootId) (o : ObjId) : Nat :=
  ∑ p ∈ tags ts r, (edges p).count o

theorem inflow_congr {edges edges' : ObjId → List ObjId} {ts ts' : Tallies} {r : RootId}
    (htags : tags ts' r = tags ts r) (hedges : ∀ p, 0 < count ts p r → edges' p = edges p)
    (o : ObjId) : inflow edges' ts' r o = inflow edges ts r o := by
  unfold inflow
  rw [htags]
  refine Finset.sum_congr rfl ?_
  intro p hp
  rw [hedges p (mem_tags.mp hp)]

theorem inflow_set_insert (edges : ObjId → List ObjId) (ts : Tallies) {o : ObjId}
    (h : o < ts.size) (t : Tally) (r : RootId) (ho : count ts o r = 0) (ht : 0 < t.count r)
    (x : ObjId) :
    inflow edges (ts.set o t) r x = (edges o).count x + inflow edges ts r x := by
  unfold inflow
  rw [tags_set_insert ts h t r ht, Finset.sum_insert]
  simp [ho]

theorem inflow_set_erase (edges : ObjId → List ObjId) (ts : Tallies) {o : ObjId}
    (h : o < ts.size) (t : Tally) (r : RootId) (ho : 0 < count ts o r) (ht : t.count r = 0)
    (x : ObjId) :
    (edges o).count x + inflow edges (ts.set o t) r x = inflow edges ts r x := by
  unfold inflow
  rw [tags_set_erase ts h t r ht]
  exact Finset.add_sum_erase _ (fun p => (edges p).count x) (mem_tags.mpr ho)

theorem inflow_pos {edges : ObjId → List ObjId} {ts : Tallies} {r : RootId} {p o : ObjId}
    (hp : 0 < count ts p r) (ho : o ∈ edges p) : 0 < inflow edges ts r o := by
  have hle : (edges p).count o ≤ inflow edges ts r o :=
    Finset.single_le_sum (f := fun p => (edges p).count o) (fun _ _ => Nat.zero_le _)
      (mem_tags.mpr hp)
  have := List.count_pos_iff.mpr ho
  omega

end Tallies

/-- The counts of `r` are made up of support from outside and edges from tagged objects. -/
structure Counted (edges : ObjId → List ObjId) (r : RootId) (support : ObjId → Nat)
    (ts : Tallies) : Prop where
  count_eq : ∀ o, ts.count o r = support o + ts.inflow edges r o

namespace Counted

variable {edges : ObjId → List ObjId} {r : RootId} {support : ObjId → Nat} {ts : Tallies}

theorem count_pos_of_support (h : Counted edges r support ts) {o : ObjId} (ho : 0 < support o) :
    0 < ts.count o r := by
  have := h.count_eq o
  omega

theorem count_pos_of_edge (h : Counted edges r support ts) {p o : ObjId}
    (hp : 0 < ts.count p r) (ho : o ∈ edges p) : 0 < ts.count o r := by
  have := h.count_eq o
  have := Tallies.inflow_pos hp ho
  omega

theorem count_pos_of_reach (h : Counted edges r support ts) {p o : ObjId}
    (hp : 0 < ts.count p r) (ho : Reach edges p o) : 0 < ts.count o r := by
  induction ho with
  | refl => exact hp
  | tail _ hstep ih => exact h.count_pos_of_edge ih hstep

end Counted

/-- The counts of `r` are made up of support from outside and edges from tagged objects, and every
tagged object is reached from support. -/
structure Balanced (edges : ObjId → List ObjId) (r : RootId) (support : ObjId → Nat)
    (ts : Tallies) : Prop extends Counted edges r support ts where
  rooted : ∀ o, 0 < ts.count o r → ∃ s, 0 < support s ∧ Reach edges s o

namespace Balanced

variable {edges : ObjId → List ObjId} {r : RootId} {support : ObjId → Nat} {ts : Tallies}

/-- An object is tagged exactly when it is reached from support. -/
theorem count_pos_iff (h : Balanced edges r support ts) {o : ObjId} :
    0 < ts.count o r ↔ ∃ s, 0 < support s ∧ Reach edges s o := by
  refine ⟨h.rooted o, ?_⟩
  rintro ⟨s, hs, hreach⟩
  exact h.count_pos_of_reach (h.count_pos_of_support hs) hreach

/-- Balanced counts are determined by the graph and the support. -/
theorem count_unique {ts' : Tallies} (h : Balanced edges r support ts)
    (h' : Balanced edges r support ts') (o : ObjId) : ts.count o r = ts'.count o r := by
  have htags : ts.tags r = ts'.tags r := by
    ext x
    rw [Tallies.mem_tags, Tallies.mem_tags, h.count_pos_iff, h'.count_pos_iff]
  rw [h.count_eq, h'.count_eq, Tallies.inflow, Tallies.inflow, htags]

theorem congr_support {support' : ObjId → Nat} (h : Balanced edges r support ts)
    (heq : ∀ o, support' o = support o) : Balanced edges r support' ts := by
  rwa [funext heq]

/-- Only the edges of tagged objects matter, and of these only how often each is reported. -/
theorem congr_edges {edges' : ObjId → List ObjId} (h : Balanced edges r support ts)
    (hperm : ∀ p, 0 < ts.count p r → (edges' p).Perm (edges p)) :
    Balanced edges' r support ts := by
  refine ⟨⟨fun o => ?_⟩, fun o ho => ?_⟩
  · rw [h.count_eq o]
    congr 1
    refine Finset.sum_congr rfl ?_
    intro p hp
    exact ((hperm p (Tallies.mem_tags.mp hp)).count_eq o).symm
  · obtain ⟨s, hs, hreach⟩ := h.rooted o ho
    refine ⟨s, hs, ?_⟩
    refine (Reach.congr_of_closed (P := fun x => 0 < ts.count x r) ?_ ?_
      (h.count_pos_of_support hs) hreach).2
    · exact fun a b ha hb => h.count_pos_of_edge ha hb
    · exact fun a b ha hb => (hperm a ha).mem_iff.mpr hb

/-- Only the counts of `r` matter. -/
theorem congr_tallies {ts' : Tallies} (h : Balanced edges r support ts)
    (heq : ∀ o, ts'.count o r = ts.count o r) : Balanced edges r support ts' := by
  have htags : ts'.tags r = ts.tags r := by
    ext x
    rw [Tallies.mem_tags, Tallies.mem_tags, heq]
  refine ⟨⟨fun o => ?_⟩, fun o ho => h.rooted o (heq o ▸ ho)⟩
  rw [heq, h.count_eq, Tallies.inflow, Tallies.inflow, htags]

/-- Changing the edges of one tagged object `p` trades edges for support, as long as `p` itself
stays reached from support. -/
theorem rewire {edges' : ObjId → List ObjId} {support' : ObjId → Nat} {p : ObjId}
    (h : Balanced edges r support ts) (hp : 0 < ts.count p r)
    (hoff : ∀ q, q ≠ p → edges' q = edges q)
    (htrade : ∀ o, support o + (edges p).count o = support' o + (edges' p).count o)
    (hroot : ∃ s, 0 < support' s ∧ Reach edges s p) : Balanced edges' r support' ts := by
  have hp' : ∃ s, 0 < support' s ∧ Reach edges' s p := by
    obtain ⟨s, hs, hreach⟩ := hroot
    exact ⟨s, hs, hreach.congr_off_target hoff⟩
  have hmember : p ∈ ts.tags r := Tallies.mem_tags.mpr hp
  -- what is traded is still reached: from its new support, or from `p`
  have hgained (o : ObjId) (ho : 0 < support o + (edges p).count o) :
      ∃ s, 0 < support' s ∧ Reach edges' s o := by
    rw [htrade o] at ho
    by_cases hs : 0 < support' o
    · exact ⟨o, hs, .refl⟩
    · obtain ⟨s, hs', hreach⟩ := hp'
      exact ⟨s, hs', hreach.tail (List.count_pos_iff.mp (by omega))⟩
  refine ⟨⟨fun o => ?_⟩, fun o ho => ?_⟩
  · -- of the inflow, only the part that comes from `p` changes
    have hsum (e : ObjId → List ObjId) : ts.inflow e r o =
        (e p).count o + ∑ q ∈ (ts.tags r).erase p, (e q).count o :=
      (Finset.add_sum_erase _ _ hmember).symm
    have hrest : ∑ q ∈ (ts.tags r).erase p, (edges' q).count o =
        ∑ q ∈ (ts.tags r).erase p, (edges q).count o := by
      refine Finset.sum_congr rfl ?_
      intro q hq
      rw [hoff q (Finset.ne_of_mem_erase hq)]
    have := h.count_eq o
    have := htrade o
    rw [hsum] at *
    omega
  · obtain ⟨s, hs, hreach⟩ := h.rooted o ho
    -- the old path is followed edge by edge; where it leaves `p`, the trade makes up for it
    induction hreach with
    | refl => exact hgained s (by omega)
    | @tail a b hreach hstep ih =>
        obtain ⟨s', hs', hreach'⟩ := ih (h.count_pos_of_reach (h.count_pos_of_support hs) hreach)
        by_cases ha : a = p
        · subst ha
          have := List.count_pos_iff.mpr hstep
          exact hgained b (by omega)
        · refine ⟨s', hs', hreach'.tail ?_⟩
          rw [hoff a ha]
          exact hstep

end Balanced

section Connect

variable {edges : ObjId → List ObjId} {owns : ObjId → Bool} {r : RootId} {ts : Tallies}
  {stack : List ObjId}

theorem connectAll_size : (connectAll edges owns r ts stack).tallies.size = ts.size := by
  fun_induction connectAll edges owns r ts stack with
  | case1 => rfl
  | case2 ts o rest h _ _ pass ih => simpa [pass] using ih
  | case3 ts o rest h _ _ pass ih => simpa [pass] using ih
  | case4 => rfl
  | case5 => rfl

/-- A connect pass leaves the counts of other roots alone. -/
theorem connectAll_count_of_ne {r' : RootId} (hr : r' ≠ r) (o : ObjId) :
    (connectAll edges owns r ts stack).tallies.count o r' = ts.count o r' := by
  have hbump (ts : Tallies) {x : ObjId} (h : x < ts.size) :
      Tallies.count (ts.set x (ts[x].bump r)) o r' = ts.count o r' := by
    rw [Tallies.count_set ts h]
    split
    next hx => simp [hx, Tally.count_bump, hr, Tallies.count_getElem ts h]
    next => rfl
  fun_induction connectAll edges owns r ts stack with
  | case1 => rfl
  | case2 ts x rest h _ _ pass ih => exact ih.trans (hbump ts h)
  | case3 ts x rest h _ _ pass ih => exact ih.trans (hbump ts h)
  | case4 => rfl
  | case5 => rfl

/-- A connect pass takes no tag away. -/
theorem connectAll_count_le (o : ObjId) (r' : RootId) :
    ts.count o r' ≤ (connectAll edges owns r ts stack).tallies.count o r' := by
  have hbump (ts : Tallies) {x : ObjId} (h : x < ts.size) :
      ts.count o r' ≤ Tallies.count (ts.set x (ts[x].bump r)) o r' := by
    rw [Tallies.count_set ts h]
    split
    next hx => simp [hx, Tally.count_bump, Tallies.count_getElem ts h]
    next => exact Nat.le_refl _
  fun_induction connectAll edges owns r ts stack with
  | case1 => exact Nat.le_refl _
  | case2 ts x rest h _ _ pass ih => exact Nat.le_trans (hbump ts h) ih
  | case3 ts x rest h _ _ pass ih => exact Nat.le_trans (hbump ts h) ih
  | case4 => exact Nat.le_refl _
  | case5 => exact Nat.le_refl _

/-- A pass over objects of the heap, all of whose edges stay in the heap, does not give up. -/
theorem connectAll_stranger {P : ObjId → Prop} (hP : ∀ o, P o → o < ts.size ∧ owns o = true)
    (hclosed : ∀ o, P o → ∀ c ∈ edges o, P c) (hstack : ∀ o ∈ stack, P o) :
    (connectAll edges owns r ts stack).stranger = none := by
  fun_induction connectAll edges owns r ts stack with
  | case1 => rfl
  | case2 ts o rest h _ _ pass ih =>
      refine ih (fun x hx => ⟨by simpa using (hP x hx).1, (hP x hx).2⟩) ?_
      intro c hc
      rcases List.mem_append.mp hc with hc | hc
      · exact hclosed o (hstack o List.mem_cons_self) c (List.mem_reverse.mp hc)
      · exact hstack c (List.mem_cons_of_mem _ hc)
  | case3 ts o rest h _ _ pass ih =>
      refine ih (fun x hx => ⟨by simpa using (hP x hx).1, (hP x hx).2⟩) ?_
      exact fun c hc => hstack c (List.mem_cons_of_mem _ hc)
  | case4 ts o rest h hnot => exact absurd (hP o (hstack o List.mem_cons_self)).2 hnot
  | case5 ts o rest hnot => exact absurd (hP o (hstack o List.mem_cons_self)).1 hnot

/-- Everything on the stack of a pass that does not give up is of the heap. -/
theorem owns_of_connectAll (hno : (connectAll edges owns r ts stack).stranger = none) :
    ∀ o ∈ stack, owns o = true := by
  fun_induction connectAll edges owns r ts stack with
  | case1 => simp
  | case2 ts o rest h hown _ pass ih =>
      intro x hx
      rcases List.mem_cons.mp hx with rfl | hx
      · exact hown
      · exact ih hno x (List.mem_append_right _ hx)
  | case3 ts o rest h hown _ pass ih =>
      intro x hx
      rcases List.mem_cons.mp hx with rfl | hx
      · exact hown
      · exact ih hno x hx
  | case4 => simp at hno
  | case5 => simp at hno

/-- An untagged target of a pass that does not give up has only edges into the heap. -/
theorem owns_edges_of_connect {t : ObjId} (ht : t < ts.size) (h0 : ts.count t r = 0)
    (hno : (connect edges owns r t ts).stranger = none) : ∀ c ∈ edges t, owns c = true := by
  have hown : owns t = true := owns_of_connectAll hno t List.mem_cons_self
  rw [connect, connectAll] at hno
  rw [Tallies.count_getElem ts ht] at h0
  simp only [ht, hown, h0, dite_true, if_true] at hno
  intro c hc
  exact owns_of_connectAll hno c (by simpa using hc)

/-- The loop invariant of a connect pass: what the stack still holds is missing from the counts. -/
theorem connectAll_count_eq {support : ObjId → Nat}
    (hbal : ∀ o, ts.count o r + stack.count o = support o + ts.inflow edges r o)
    (hno : (connectAll edges owns r ts stack).stranger = none) (o : ObjId) :
    (connectAll edges owns r ts stack).tallies.count o r =
      support o + (connectAll edges owns r ts stack).tallies.inflow edges r o := by
  fun_induction connectAll edges owns r ts stack with
  | case1 ts => simpa using hbal o
  | case2 ts x rest h _ h0 pass ih =>
      refine ih (fun o => ?_) hno
      -- `x` is tagged now, and its edges are counted as inflow and still to be done
      have h0' : ts.count x r = 0 := by rwa [Tallies.count_getElem ts h]
      rw [Tallies.inflow_set_insert edges ts h _ r h0' (by simp), Tallies.count_set ts h]
      have := hbal o
      rw [List.count_append, List.count_reverse]
      by_cases ho : o = x
      · subst ho
        rw [List.count_cons_self, h0'] at this
        rw [if_pos rfl, Tally.count_bump_self, h0]
        omega
      · rw [List.count_cons_of_ne (Ne.symm ho)] at this
        rw [if_neg ho]
        omega
  | case3 ts x rest h _ h0 pass ih =>
      refine ih (fun o => ?_) hno
      have hpos : 0 < ts.count x r := by
        rw [Tallies.count_getElem ts h]
        omega
      rw [Tallies.inflow_congr (Tallies.tags_set_of_pos ts h _ r hpos (by simp)) (fun _ _ => rfl),
        Tallies.count_set ts h]
      have := hbal o
      by_cases ho : o = x
      · subst ho
        rw [List.count_cons_self, Tallies.count_getElem ts h] at this
        rw [if_pos rfl, Tally.count_bump_self]
        omega
      · rw [List.count_cons_of_ne (Ne.symm ho)] at this
        rw [if_neg ho]
        omega
  | case4 => simp at hno
  | case5 => simp at hno

/-- What a connect pass tags anew, its stack leads to. -/
theorem connectAll_rooted {o : ObjId}
    (ho : 0 < (connectAll edges owns r ts stack).tallies.count o r) :
    0 < ts.count o r ∨ ∃ s ∈ stack, Reach edges s o := by
  have hbump (ts : Tallies) {x : ObjId} (h : x < ts.size)
      (ho : 0 < Tallies.count (ts.set x (ts[x].bump r)) o r) : 0 < ts.count o r ∨ o = x := by
    rw [Tallies.count_set ts h] at ho
    split at ho
    next hx => exact .inr hx
    next => exact .inl ho
  fun_induction connectAll edges owns r ts stack with
  | case1 => exact .inl ho
  | case2 ts x rest h _ _ pass ih =>
      rcases ih ho with ho | ⟨s, hs, hreach⟩
      · rcases hbump ts h ho with ho | rfl
        · exact .inl ho
        · exact .inr ⟨_, List.mem_cons_self, .refl⟩
      · rcases List.mem_append.mp hs with hs | hs
        · exact .inr ⟨x, List.mem_cons_self, .head (List.mem_reverse.mp hs) hreach⟩
        · exact .inr ⟨s, List.mem_cons_of_mem _ hs, hreach⟩
  | case3 ts x rest h _ _ pass ih =>
      rcases ih ho with ho | ⟨s, hs, hreach⟩
      · rcases hbump ts h ho with ho | rfl
        · exact .inl ho
        · exact .inr ⟨_, List.mem_cons_self, .refl⟩
      · exact .inr ⟨s, List.mem_cons_of_mem _ hs, hreach⟩
  | case4 => exact .inl ho
  | case5 => exact .inl ho

/-- A pass never asks for the edges of tagged objects. -/
theorem connectAll_congr {edges' : ObjId → List ObjId} {P : ObjId → Prop}
    (hclosed : ∀ o, P o → ∀ c ∈ edges o, P c)
    (heq : ∀ o, P o → ts.count o r = 0 → edges' o = edges o) (hstack : ∀ o ∈ stack, P o) :
    connectAll edges' owns r ts stack = connectAll edges owns r ts stack := by
  have hbump (ts : Tallies) {x o : ObjId} (h : x < ts.size)
      (ho : Tallies.count (ts.set x (ts[x].bump r)) o r = 0) : ts.count o r = 0 := by
    rw [Tallies.count_set ts h] at ho
    split at ho
    next => simp at ho
    next => exact ho
  fun_induction connectAll edges owns r ts stack with
  | case1 => simp [connectAll]
  | case2 ts x rest h hown h0 pass ih =>
      have hx := hstack x List.mem_cons_self
      rw [connectAll]
      simp only [h, hown, h0, dite_true, if_true]
      rw [heq x hx (by rwa [Tallies.count_getElem ts h]), ih ?_ ?_]
      · exact fun o hP ho => heq o hP (hbump ts h ho)
      · intro o ho
        rcases List.mem_append.mp ho with ho | ho
        · exact hclosed x hx o (List.mem_reverse.mp ho)
        · exact hstack o (List.mem_cons_of_mem _ ho)
  | case3 ts x rest h hown h0 pass ih =>
      rw [connectAll]
      simp only [h, hown, h0, dite_true, if_true, if_false]
      rw [ih ?_ ?_]
      · exact fun o hP ho => heq o hP (hbump ts h ho)
      · exact fun o ho => hstack o (List.mem_cons_of_mem _ ho)
  | case4 ts x rest h hown => rw [connectAll]; simp [h, hown]
  | case5 ts x rest h => rw [connectAll]; simp [h]

/-- A connect pass that does not give up adds one unit of support at its target. -/
theorem Balanced.connect {support support' : ObjId → Nat} {t : ObjId}
    (h : Balanced edges r support ts)
    (hno : (RootedHeap.connect edges owns r t ts).stranger = none)
    (hsupport : ∀ o, support' o = support o + if o = t then 1 else 0) :
    Balanced edges r support' (RootedHeap.connect edges owns r t ts).tallies := by
  refine ⟨⟨connectAll_count_eq ?_ hno⟩, fun o ho => ?_⟩
  · intro o
    rw [hsupport, h.count_eq, List.count_singleton]
    by_cases ho : o = t
    · simp [ho]
      omega
    · simp [ho, Ne.symm ho]
  · rcases connectAll_rooted ho with ho | ⟨s, hs, hreach⟩
    · obtain ⟨s, hs, hreach⟩ := h.rooted o ho
      refine ⟨s, ?_, hreach⟩
      rw [hsupport]
      omega
    · rw [List.mem_singleton.mp hs] at hreach
      refine ⟨t, ?_, hreach⟩
      rw [hsupport, if_pos rfl]
      omega

end Connect

end RootedHeap
