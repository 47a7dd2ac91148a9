import RootedHeap.Proofs.Sessions

/-! # Connecting an edge

A session connects an object to a root, whatever the tallies say. The pass expands what is `Fresh`:
the objects that are reached from the target along objects that the root does not reach yet. Each
of them is asked for its edges once, and each edge it reports is counted once, so that the order in
which edges are reported does not matter. Counts need not balance before the pass, nor do they
after it.
-/

namespace RootedHeap

/-- `o` is reached from `t` along objects that `r` does not reach, `t` and `o` among them. -/
def Fresh (edges : ObjId → List ObjId) (r : RootId) (ts : Tallies) (t o : ObjId) : Prop :=
  ts.count t r = 0 ∧ Reach (fun p => (edges p).filter fun c => ts.count c r = 0) t o

namespace Fresh

variable {edges edges' : ObjId → List ObjId} {r : RootId} {ts : Tallies} {t o c : ObjId}

theorem self (h : ts.count t r = 0) : Fresh edges r ts t t := ⟨h, .refl⟩

theorem tail (h : Fresh edges r ts t o) (hc : c ∈ edges o) (h0 : ts.count c r = 0) :
    Fresh edges r ts t c :=
  ⟨h.1, h.2.tail (List.mem_filter.mpr ⟨hc, by simpa using h0⟩)⟩

theorem head (h0 : ts.count t r = 0) (hc : c ∈ edges t) (h : Fresh edges r ts c o) :
    Fresh edges r ts t o :=
  ⟨h0, h.2.head (List.mem_filter.mpr ⟨hc, by simpa using h.1⟩)⟩

/-- What is fresh is the target or a child of what is fresh, and not reached itself. -/
@[elab_as_elim]
theorem rec_on {P : ObjId → Prop} (h : Fresh edges r ts t o) (hself : ts.count t r = 0 → P t)
    (htail : ∀ a b, Fresh edges r ts t a → P a → b ∈ edges a → ts.count b r = 0 → P b) : P o := by
  obtain ⟨h0, hreach⟩ := h
  induction hreach with
  | refl => exact hself h0
  | @tail a b hreach hstep ih =>
      obtain ⟨hedge, hb⟩ := List.mem_filter.mp hstep
      exact htail a b ⟨h0, hreach⟩ ih hedge (by simpa using hb)

theorem count_eq_zero (h : Fresh edges r ts t o) : ts.count o r = 0 :=
  h.rec_on id fun _ _ _ _ _ h0 => h0

/-- Only the edges of fresh objects matter, and of these only which there are. -/
theorem congr (hmem : ∀ p, Fresh edges r ts t p → ∀ c, c ∈ edges' p ↔ c ∈ edges p) :
    Fresh edges' r ts t o ↔ Fresh edges r ts t o := by
  constructor
  · intro h
    exact h.rec_on self fun a b _ ha hb h0 => ha.tail ((hmem a ha b).mp hb) h0
  · intro h
    exact h.rec_on self fun a b ha ha' hb h0 => ha'.tail ((hmem a ha b).mpr hb) h0

end Fresh

section Pass

variable {edges edges' : ObjId → List ObjId} {owns owns' : ObjId → Bool} {r : RootId}
  {ts : Tallies} {t : ObjId} {stack : List ObjId}

/-- Expanding `o`: what is fresh below the stack is `o`, or fresh below what the pass goes on
with. -/
theorem fresh_expand_iff {ts' : Tallies} {o : ObjId} {rest : List ObjId} (h0 : ts.count o r = 0)
    (hoff : ∀ p, p ≠ o → ts'.count p r = ts.count p r) (hpos : ts'.count o r ≠ 0) (x : ObjId) :
    (∃ s ∈ o :: rest, Fresh edges r ts s x) ↔
      x = o ∨ ∃ s ∈ (edges o).reverse ++ rest, Fresh edges r ts' s x := by
  constructor
  · rintro ⟨s, hs, hfresh⟩
    refine hfresh.rec_on (fun hs0 => ?_) fun a b _ ha hb hb0 => ?_
    · by_cases hso : s = o
      · exact .inl hso
      · have hs' := (List.mem_cons.mp hs).resolve_left hso
        exact .inr ⟨s, List.mem_append_right _ hs', .self (by rw [hoff s hso, hs0])⟩
    · by_cases hbo : b = o
      · exact .inl hbo
      · have hb0' : ts'.count b r = 0 := by rw [hoff b hbo, hb0]
        rcases ha with rfl | ⟨s', hs', hfresh'⟩
        · exact .inr ⟨b, List.mem_append_left _ (List.mem_reverse.mpr hb), .self hb0'⟩
        · exact .inr ⟨s', hs', hfresh'.tail hb hb0'⟩
  · have hold (p : ObjId) (hp : ts'.count p r = 0) : ts.count p r = 0 := by
      by_cases hpo : p = o
      · rw [hpo, h0]
      · rw [← hoff p hpo, hp]
    rintro (rfl | ⟨s, hs, hfresh⟩)
    · exact ⟨x, List.mem_cons_self, .self h0⟩
    · have hfresh' : Fresh edges r ts s x :=
        hfresh.rec_on (fun hs0 => .self (hold s hs0)) fun a b _ ha hb hb0 => ha.tail hb (hold b hb0)
      rcases List.mem_append.mp hs with hs | hs
      · exact ⟨o, List.mem_cons_self, .head h0 (List.mem_reverse.mp hs) hfresh'⟩
      · exact ⟨s, List.mem_cons_of_mem _ hs, hfresh'⟩

/-- Counting an edge into an object that is reached already changes nothing about what is fresh. -/
theorem fresh_count_iff {ts' : Tallies} {o : ObjId} {rest : List ObjId} (hne : ts.count o r ≠ 0)
    (hoff : ∀ p, p ≠ o → ts'.count p r = ts.count p r) (hpos : ts'.count o r ≠ 0) (x : ObjId) :
    (∃ s ∈ o :: rest, Fresh edges r ts s x) ↔ ∃ s ∈ rest, Fresh edges r ts' s x := by
  have hzero (p : ObjId) : ts'.count p r = 0 ↔ ts.count p r = 0 := by
    by_cases hpo : p = o
    · rw [hpo]
      exact ⟨fun h => absurd h hpos, fun h => absurd h hne⟩
    · rw [hoff p hpo]
  have hsame (s : ObjId) : Fresh edges r ts' s x ↔ Fresh edges r ts s x := by
    simp only [Fresh, hzero]
  simp only [hsame]
  constructor
  · rintro ⟨s, hs, hfresh⟩
    rcases List.mem_cons.mp hs with rfl | hs
    · exact absurd hfresh.1 hne
    · exact ⟨s, hs, hfresh⟩
  · rintro ⟨s, hs, hfresh⟩
    exact ⟨s, List.mem_cons_of_mem _ hs, hfresh⟩

theorem count_bump_of_ne (ts : Tallies) {o p : ObjId} (h : o < ts.size) (r : RootId) (hp : p ≠ o) :
    Tallies.count (ts.set o (ts[o].bump r)) p r = ts.count p r := by
  rw [Tallies.count_set ts h, if_neg hp]

theorem count_bump_self (ts : Tallies) {o : ObjId} (h : o < ts.size) (r : RootId) :
    Tallies.count (ts.set o (ts[o].bump r)) o r = ts.count o r + 1 := by
  rw [Tallies.count_set ts h, if_pos rfl, Tally.count_bump_self, Tallies.count_getElem ts h]

/-- A pass that meets only objects of the heap does not give up. It meets what is on its stack, and
the children of what is fresh. -/
theorem connectAll_succeeds (hstack : ∀ o ∈ stack, o < ts.size ∧ owns o = true)
    (hfresh : ∀ o, (∃ s ∈ stack, Fresh edges r ts s o) →
      ∀ c ∈ edges o, c < ts.size ∧ owns c = true) :
    (connectAll edges owns r ts stack).stranger = none := by
  fun_induction connectAll edges owns r ts stack with
  | case1 => rfl
  | case2 ts o rest h _ h0 pass ih =>
      rw [← Tallies.count_getElem ts h] at h0
      have hiff (x : ObjId) : (∃ s ∈ o :: rest, Fresh edges r ts s x) ↔ x = o ∨ _ :=
        fresh_expand_iff h0 (fun p hp => count_bump_of_ne ts h r hp)
          (by rw [count_bump_self]; omega) x
      simp only [Array.size_set] at ih
      refine ih (fun c hc => ?_) fun p hp => hfresh p ((hiff p).mpr (.inr hp))
      rcases List.mem_append.mp hc with hc | hc
      · exact hfresh o ((hiff o).mpr (.inl rfl)) c (List.mem_reverse.mp hc)
      · exact hstack c (List.mem_cons_of_mem _ hc)
  | case3 ts o rest h _ h0 pass ih =>
      rw [← Tallies.count_getElem ts h] at h0
      have hiff (x : ObjId) : (∃ s ∈ o :: rest, Fresh edges r ts s x) ↔ ∃ s ∈ rest, _ :=
        fresh_count_iff h0 (fun p hp => count_bump_of_ne ts h r hp)
          (by rw [count_bump_self]; omega) x
      simp only [Array.size_set] at ih
      exact ih (fun c hc => hstack c (List.mem_cons_of_mem _ hc)) fun p hp =>
        hfresh p ((hiff p).mpr hp)
  | case4 ts o rest h hnot => exact absurd (hstack o List.mem_cons_self).2 hnot
  | case5 ts o rest hnot => exact absurd (hstack o List.mem_cons_self).1 hnot

/-- A pass into one object, with all that it is met with. -/
theorem connect_succeeds (ht : t < ts.size ∧ owns t = true)
    (hfresh : ∀ p, Fresh edges r ts t p → ∀ c ∈ edges p, c < ts.size ∧ owns c = true) :
    (connect edges owns r t ts).stranger = none := by
  refine connectAll_succeeds (fun o ho => List.mem_singleton.mp ho ▸ ht) ?_
  rintro p ⟨s, hs, hp⟩
  rw [List.mem_singleton.mp hs] at hp
  exact hfresh p hp

theorem Connected.expanded_cons (pass : Connected) (touch : Touch) :
    Connected.expanded { pass with touches := touch :: pass.touches } =
      if touch.count = 1 then touch.obj :: pass.expanded else pass.expanded := by
  by_cases h : touch.count = 1 <;> simp [Connected.expanded, h]

/-- A pass that does not give up expands exactly what is fresh below its stack. -/
theorem mem_expanded_iff (hno : (connectAll edges owns r ts stack).stranger = none) (x : ObjId) :
    x ∈ (connectAll edges owns r ts stack).expanded ↔ ∃ s ∈ stack, Fresh edges r ts s x := by
  fun_induction connectAll edges owns r ts stack with
  | case1 => simp [Connected.expanded]
  | case2 ts o rest h _ h0 pass ih =>
      rw [← Tallies.count_getElem ts h] at h0
      rw [Connected.expanded_cons, if_pos rfl, List.mem_cons, ih hno,
        fresh_expand_iff h0 (fun p hp => count_bump_of_ne ts h r hp)
          (by rw [count_bump_self]; omega)]
  | case3 ts o rest h _ h0 pass ih =>
      rw [← Tallies.count_getElem ts h] at h0
      rw [Connected.expanded_cons, if_neg (by simpa [Tallies.count_getElem ts h] using h0), ih hno,
        fresh_count_iff h0 (fun p hp => count_bump_of_ne ts h r hp)
          (by rw [count_bump_self]; omega)]
  | case4 => simp at hno
  | case5 => simp at hno

/-- No object is expanded twice: once expanded, the root reaches it. -/
theorem nodup_expanded (hno : (connectAll edges owns r ts stack).stranger = none) :
    (connectAll edges owns r ts stack).expanded.Nodup := by
  fun_induction connectAll edges owns r ts stack with
  | case1 => exact List.nodup_nil
  | case2 ts o rest h _ h0 pass ih =>
      rw [Connected.expanded_cons, if_pos rfl]
      refine List.nodup_cons.mpr ⟨fun hmem => ?_, ih hno⟩
      obtain ⟨s, -, hfresh⟩ := (mem_expanded_iff hno o).mp hmem
      have := hfresh.count_eq_zero
      rw [count_bump_self] at this
      omega
  | case3 ts o rest h _ h0 pass ih =>
      rw [Connected.expanded_cons, if_neg (by simpa using h0)]
      exact ih hno
  | case4 => simp at hno
  | case5 => simp at hno

/-- The loop invariant of a pass that does not give up: each object of the stack, and each edge of
an expanded object, is counted once. -/
theorem connectAll_count (hno : (connectAll edges owns r ts stack).stranger = none) (x : ObjId) :
    (connectAll edges owns r ts stack).tallies.count x r =
      ts.count x r + stack.count x +
        ((connectAll edges owns r ts stack).expanded.flatMap edges).count x := by
  have hbump (ts : Tallies) {o : ObjId} (h : o < ts.size) :
      Tallies.count (ts.set o (ts[o].bump r)) x r = ts.count x r + if o = x then 1 else 0 := by
    by_cases ho : o = x
    · subst ho
      rw [count_bump_self, if_pos rfl]
    · rw [count_bump_of_ne ts h r (Ne.symm ho), if_neg ho, Nat.add_zero]
  fun_induction connectAll edges owns r ts stack with
  | case1 => simp [Connected.expanded]
  | case2 ts o rest h _ h0 pass ih =>
      rw [Connected.expanded_cons, if_pos rfl, List.flatMap_cons, List.count_append,
        List.count_cons, beq_eq_decide]
      have hrest := ih hno
      rw [hbump, List.count_append, List.count_reverse] at hrest
      simp only [decide_eq_true_eq, pass]
      omega
  | case3 ts o rest h _ h0 pass ih =>
      rw [Connected.expanded_cons, if_neg (by simpa using h0), List.count_cons, beq_eq_decide]
      have hrest := ih hno
      rw [hbump] at hrest
      simp only [decide_eq_true_eq, pass]
      omega
  | case4 => simp at hno
  | case5 => simp at hno

theorem mem_connect_expanded_iff (hno : (connect edges owns r t ts).stranger = none) (p : ObjId) :
    p ∈ (connect edges owns r t ts).expanded ↔ Fresh edges r ts t p := by
  rw [connect, mem_expanded_iff hno]
  simp

/-- The edges of fresh objects decide what a pass does, and their order does not matter. -/
theorem connect_tallies_congr (hno : (connect edges owns r t ts).stranger = none)
    (hno' : (connect edges' owns' r t ts).stranger = none)
    (hperm : ∀ p, Fresh edges r ts t p → (edges' p).Perm (edges p)) :
    (connect edges' owns' r t ts).tallies = (connect edges owns r t ts).tallies := by
  have hmem := mem_connect_expanded_iff hno
  have hmem' (p : ObjId) : p ∈ (connect edges' owns' r t ts).expanded ↔ Fresh edges r ts t p :=
    (mem_connect_expanded_iff hno' p).trans (Fresh.congr fun p hp c => (hperm p hp).mem_iff)
  have hexpanded : (connect edges' owns' r t ts).expanded.Perm (connect edges owns r t ts).expanded :=
    (List.perm_ext_iff_of_nodup (nodup_expanded hno') (nodup_expanded hno)).mpr fun p =>
      (hmem' p).trans (hmem p).symm
  have hflat : ((connect edges' owns' r t ts).expanded.flatMap edges').Perm
      ((connect edges owns r t ts).expanded.flatMap edges) :=
    hexpanded.flatMap fun p hp => hperm p ((hmem' p).mp hp)
  refine Tallies.ext_count (connectAll_size.trans connectAll_size.symm) fun o r' => ?_
  by_cases hr : r' = r
  · subst hr
    exact (connectAll_count hno' o).trans
      ((congrArg _ (hflat.count_eq o)).trans (connectAll_count hno o).symm)
  · exact (connectAll_count_of_ne hr o).trans (connectAll_count_of_ne hr o).symm

end Pass

namespace Locked

variable {g : HeapId} {r : RootId} {t : ObjId} {s : Session}

/-- A session whose pass does not give up takes the pass's tallies over and logs the edges that it
counted. Objects and slots stay as they are. -/
theorem connect_writes
    (hno : (RootedHeap.connect s.world.out (s.world.owns g) r t s.world.tallies).stranger = none) :
    Ends (connect g r t) s
      (fun _ s' =>
        s'.world.tallies =
          (RootedHeap.connect s.world.out (s.world.owns g) r t s.world.tallies).tallies ∧
        s'.world.log = s.world.log ++
          (RootedHeap.connect s.world.out (s.world.owns g) r t s.world.tallies).touches.map
            (fun touch => Event.tallyBumped touch.obj r touch.count) ∧
        s'.world.objects = s.world.objects ∧ s'.world.slots = s.world.slots)
      fun _ _ => False := by
  unfold connect
  simp only [Ends.bind_iff, ends_update, ends_pass]
  have hmade : RootedHeap.connect (World.out { s.world.modifyCounters g fun c =>
        { c with connectPasses := c.connectPasses + 1 } with tallies := #[] })
      (World.owns { s.world.modifyCounters g fun c =>
        { c with connectPasses := c.connectPasses + 1 } with tallies := #[] } g) r t
      (s.world.modifyCounters g fun c =>
        { c with connectPasses := c.connectPasses + 1 }).tallies =
      RootedHeap.connect s.world.out (s.world.owns g) r t s.world.tallies := rfl
  rw [hmade, hno]
  exact ⟨rfl, rfl, rfl, rfl⟩

/-- What a connect pass does, for any tallies. If the fresh objects, their children and the target
are of the heap, the pass succeeds. It expands each fresh object once and no other one, and counts
the edge into the target and every edge of a fresh object, as often as it is reported. Nothing else
changes, and the order in which edges are reported does not matter. -/
theorem connect_exact (hsize : s.world.tallies.size = s.world.objects.size)
    (ht : s.world.owns g t = true)
    (hfresh : ∀ p, Fresh s.world.out r s.world.tallies t p →
      s.world.owns g p = true ∧ ∀ c ∈ s.world.out p, s.world.owns g c = true) :
    ∃ (s' : Session) (pass : Connected), connect g r t s = .ok () s' ∧
      pass = RootedHeap.connect s.world.out (s.world.owns g) r t s.world.tallies ∧
      s'.world.log = s.world.log ++
        pass.touches.map (fun touch => Event.tallyBumped touch.obj r touch.count) ∧
      pass.expanded.Nodup ∧
      (∀ p, p ∈ pass.expanded ↔ Fresh s.world.out r s.world.tallies t p) ∧
      (∀ o, s'.world.tallies.count o r = s.world.tallies.count o r + (if o = t then 1 else 0) +
        (pass.expanded.flatMap s.world.out).count o) ∧
      (∀ o r', r' ≠ r → s'.world.tallies.count o r' = s.world.tallies.count o r') ∧
      s'.world.objects = s.world.objects ∧ s'.world.slots = s.world.slots ∧
      ∀ q : Session, q.world.tallies = s.world.tallies →
        (∀ o, q.world.owns g o = s.world.owns g o) →
        (∀ p, Fresh s.world.out r s.world.tallies t p → (q.world.out p).Perm (s.world.out p)) →
        ∃ q', connect g r t q = .ok () q' ∧ q'.world.tallies = s'.world.tallies := by
  have hlt {o : ObjId} (ho : s.world.owns g o = true) : o < s.world.tallies.size := by
    obtain ⟨ob, hob, -⟩ := World.owns_iff.mp ho
    exact hsize ▸ (Array.getElem?_eq_some_iff.mp hob).1
  -- a pass looks at fresh objects and their targets only, all of which are of the heap
  have hno : (RootedHeap.connect s.world.out (s.world.owns g) r t s.world.tallies).stranger =
      none :=
    connect_succeeds ⟨hlt ht, ht⟩ fun p hp c hc => ⟨hlt ((hfresh p hp).2 c hc), (hfresh p hp).2 c hc⟩
  obtain ⟨⟨⟩, s', hrun, htallies, hlog, hobjects, hslots⟩ := (connect_writes hno).exists_ok
  refine ⟨s', _, hrun, rfl, hlog, nodup_expanded hno, mem_connect_expanded_iff hno, fun o => ?_,
    fun o r' hr => ?_, hobjects, hslots, fun q hq howns hperm => ?_⟩
  · rw [htallies, RootedHeap.connect, connectAll_count hno, List.count_singleton, beq_eq_decide]
    simp [eq_comm]
  · rw [htallies]
    exact connectAll_count_of_ne hr o
  · have hno' : (RootedHeap.connect q.world.out (q.world.owns g) r t q.world.tallies).stranger =
        none := by
      rw [hq]
      refine connect_succeeds ⟨hlt ht, howns t ▸ ht⟩ fun p hp c hc => ?_
      have hp' := (Fresh.congr fun p hp c => (hperm p hp).mem_iff).mp hp
      have hc' := (hfresh p hp').2 c ((hperm p hp').mem_iff.mp hc)
      exact ⟨hlt hc', howns c ▸ hc'⟩
    obtain ⟨⟨⟩, q', hrun', htallies', -⟩ := (connect_writes hno').exists_ok
    refine ⟨q', hrun', ?_⟩
    rw [htallies', htallies]
    rw [hq] at hno' ⊢
    exact connect_tallies_congr hno hno' hperm

end Locked

/-! ## Parallel edges and a tagged region -/

/-- Object `0` has two edges to `1` and one to `2`, and `1` leads back to it, at once and by way of
`3`. Root `7` reaches `2` already, though nothing it reaches leads there, and so do other roots;
`2` leads to an object of another heap. -/
def knotted : Session where
  world :=
    { heaps := #[{ config := {} }, { config := {} }]
      objects := #[{ heap := 0, typeName := "node", value := .slot 0 },
        { heap := 0, typeName := "node", value := .slot 1 },
        { heap := 0, typeName := "node", value := .slot 2 },
        { heap := 0, typeName := "node", value := .slot 3 },
        { heap := 1, typeName := "leaf", value := .plain }]
      tallies := #[Tally.empty.bump 3, .empty, (Tally.empty.bump 7).bump 9, Tally.empty.bump 9,
        .empty]
      slots := #[.many [1, 2, 1], .many [0, 3], .many [2, 4], .many [0]] }
  unrooted := []

theorem knotted_fresh {p : ObjId} (h : Fresh knotted.world.out 7 knotted.world.tallies 0 p) :
    p ∈ [0, 1, 3] := by
  have hstep : ∀ a ∈ [0, 1, 3], ∀ b ∈ knotted.world.out a, knotted.world.tallies.count b 7 = 0 →
      b ∈ [0, 1, 3] := by decide
  exact h.rec_on (fun _ => by decide) fun a b _ ha hb h0 => hstep a ha b hb h0

/-- The pass expands the three objects that root `7` did not reach, and counts their edges: two into
`1`, two besides the handle's into `0`, and one into `2`, which is counted once before. -/
theorem knotted_connect :
    ∃ (s' : Session) (pass : Connected), Locked.connect 0 7 0 knotted = .ok () s' ∧
      pass.expanded.Perm [0, 1, 3] ∧
      s'.world.tallies.count 0 7 = 3 ∧ s'.world.tallies.count 1 7 = 2 ∧
      s'.world.tallies.count 2 7 = 2 ∧ s'.world.tallies.count 3 7 = 1 ∧
      s'.world.tallies.count 4 7 = 0 ∧ s'.world.objects = knotted.world.objects := by
  have hinside : ∀ p ∈ [0, 1, 3], knotted.world.owns 0 p = true ∧
      ∀ c ∈ knotted.world.out p, knotted.world.owns 0 c = true := by decide
  obtain ⟨s', pass, hrun, -, -, hnodup, hmem, hcount, -, hobjects, -⟩ :=
    Locked.connect_exact (g := 0) (r := 7) (t := 0) (s := knotted) rfl (by decide)
      fun p hp => hinside p (knotted_fresh hp)
  have h₀ : Fresh knotted.world.out 7 knotted.world.tallies 0 0 := .self (by decide)
  have h₁ := h₀.tail (c := 1) (by decide) (by decide)
  have h₃ := h₁.tail (c := 3) (by decide) (by decide)
  -- the three nodes are fresh, along paths of nodes that root `7` does not reach
  have hexpanded : pass.expanded.Perm [0, 1, 3] := by
    refine (List.perm_ext_iff_of_nodup hnodup (by decide)).mpr fun p => ?_
    rw [hmem]
    refine ⟨knotted_fresh, fun hp => ?_⟩
    rcases List.mem_cons.mp hp with rfl | hp
    · exact h₀
    rcases List.mem_cons.mp hp with rfl | hp
    · exact h₁
    · exact List.mem_singleton.mp hp ▸ h₃
  have hflat (o : ObjId) : (pass.expanded.flatMap knotted.world.out).count o =
      ([0, 1, 3].flatMap knotted.world.out).count o := (hexpanded.flatMap_right _).count_eq o
  simp only [hflat] at hcount
  refine ⟨s', pass, hrun, hexpanded, ?_, ?_, ?_, ?_, ?_, hobjects⟩
  all_goals
    rw [hcount]
    decide

end RootedHeap
