import RootedHeap.Pass.Disconnect
import RootedHeap.Pass.Strip
import RootedHeap.Proofs.Balance

/-! # Taking support away

A disconnect pass takes one unit of support away at its target: the counting cascade keeps the
counts right but may leave objects tagged that only count each other, and the orphan scan finds
exactly those. Stripping a root takes all support away that leads where its target leads. Both leave
balanced tallies, and both report exactly the objects that lost their last tag, each once.
-/

namespace RootedHeap

section Cascade

variable {edges : ObjId → List ObjId} {r : RootId} {ts : Tallies} {stack : List ObjId}

theorem count_set_lower (ts : Tallies) {x : ObjId} (h : x < ts.size) (r r' : RootId) (o : ObjId) :
    Tallies.count (ts.set x (ts[x].lower r)) o r' =
      ts.count o r' - if o = x ∧ r' = r then 1 else 0 := by
  rw [Tallies.count_set ts h]
  by_cases hx : o = x
  · subst hx
    rw [if_pos rfl, Tally.count_lower, Tallies.count_getElem ts h]
    by_cases hr : r' = r <;> simp [hr]
  · simp [hx]

theorem disconnectAll_size : (disconnectAll edges r ts stack).tallies.size = ts.size := by
  fun_induction disconnectAll edges r ts stack with
  | case1 => rfl
  | case2 => rfl
  | case3 ts o rest h _ after pass ih => simpa [pass] using ih
  | case4 => rfl

/-- A cascade leaves the counts of other roots alone. -/
theorem disconnectAll_count_of_ne {r' : RootId} (hr : r' ≠ r) (o : ObjId) :
    (disconnectAll edges r ts stack).tallies.count o r' = ts.count o r' := by
  fun_induction disconnectAll edges r ts stack with
  | case1 => rfl
  | case2 => rfl
  | case3 ts x rest h _ after pass ih =>
      refine ih.trans ?_
      rw [count_set_lower ts h]
      simp [hr]
  | case4 => rfl

theorem disconnectAll_count_le (o : ObjId) (r' : RootId) :
    (disconnectAll edges r ts stack).tallies.count o r' ≤ ts.count o r' := by
  fun_induction disconnectAll edges r ts stack with
  | case1 => exact Nat.le_refl _
  | case2 => exact Nat.le_refl _
  | case3 ts x rest h _ after pass ih =>
      refine Nat.le_trans ih ?_
      rw [count_set_lower ts h]
      exact Nat.sub_le _ _
  | case4 => exact Nat.le_refl _

/-- The loop invariant of a cascade: what the stack still holds is counted as support. -/
theorem disconnectAll_counted {support : ObjId → Nat}
    (hbal : ∀ o, ts.count o r = support o + stack.count o + ts.inflow edges r o) :
    (disconnectAll edges r ts stack).unreached = none ∧
      Counted edges r support (disconnectAll edges r ts stack).tallies := by
  fun_induction disconnectAll edges r ts stack with
  | case1 ts => exact ⟨rfl, ⟨by simpa using hbal⟩⟩
  | case2 ts x rest h h0 =>
      have := hbal x
      rw [List.count_cons_self, Tallies.count_getElem ts h] at this
      omega
  | case3 ts x rest h h0 after pass ih =>
      refine ih fun o => ?_
      have hpos : 0 < ts.count x r := by
        rw [Tallies.count_getElem ts h]
        omega
      -- one count of `x` goes, as does `x` from the stack
      have hlowered : Tallies.count (ts.set x (ts[x].lower r)) o r =
          support o + rest.count o + ts.inflow edges r o := by
        have hcount := hbal o
        rw [count_set_lower ts h]
        by_cases ho : o = x
        · subst ho
          rw [List.count_cons_self] at hcount
          simp only [and_self, if_true]
          omega
        · rw [List.count_cons_of_ne (Ne.symm ho)] at hcount
          simpa [ho] using hcount
      rw [hlowered]
      -- the last count takes the tag away, and the edges of `x` go from the inflow to the stack
      by_cases h1 : ts[x].count r = 1
      · have hflow := Tallies.inflow_set_erase edges ts h (ts[x].lower r) r hpos (by simp [h1]) o
        have hafter : after = (edges x).reverse ++ rest := by simp [after, h1]
        rw [hafter, List.count_append, List.count_reverse]
        omega
      · have htags := Tallies.tags_set_of_pos ts h (ts[x].lower r) r hpos
          (by rw [Tally.count_lower_self]; omega)
        have hafter : after = rest := by simp [after, h1]
        rw [Tallies.inflow_congr htags (fun _ _ => rfl), hafter]
  | case4 ts x rest h =>
      have hcount := hbal x
      rw [List.count_cons_self] at hcount
      have : 0 < ts.count x r := by omega
      exact absurd (Tallies.lt_size_of_count_pos this) h

/-- A tag that a cascade leaves, although the stack or an object that lost the tag leads there, is a
candidate for the orphan scan. -/
theorem mem_candidates {z : ObjId} (hno : (disconnectAll edges r ts stack).unreached = none)
    (hz : 0 < (disconnectAll edges r ts stack).tallies.count z r)
    (hfrom : z ∈ stack ∨ ∃ y, 0 < ts.count y r ∧
      (disconnectAll edges r ts stack).tallies.count y r = 0 ∧ z ∈ edges y) :
    z ∈ (disconnectAll edges r ts stack).candidates := by
  fun_induction disconnectAll edges r ts stack with
  | case1 ts =>
      rcases hfrom with hz' | ⟨y, hy, hy0, _⟩
      · simp at hz'
      · simp only at hy0
        omega
  | case2 => simp at hno
  | case3 ts x rest h h0 after pass ih =>
      have hrest : z ∈ after ∨ (∃ y, 0 < Tallies.count (ts.set x (ts[x].lower r)) y r ∧
          pass.tallies.count y r = 0 ∧ z ∈ edges y) → z ∈ pass.candidates := ih hno hz
      have hsub : pass.candidates ⊆
          Cascade.candidates { pass with touches := ⟨x, ts[x].count r - 1⟩ :: pass.touches } := by
        intro c hc
        simp only [Cascade.candidates, List.filter_cons]
        split
        · exact List.mem_cons_of_mem _ hc
        · exact hc
      -- `x` loses its tag and hands its edges to the stack, or keeps it and is a candidate
      by_cases h1 : ts[x].count r = 1
      · have hafter : after = (edges x).reverse ++ rest := by simp [after, h1]
        refine hsub (hrest ?_)
        have hx0 : Tallies.count (ts.set x (ts[x].lower r)) x r = 0 := by
          rw [count_set_lower ts h, Tallies.count_getElem ts h, h1]
          simp
        rcases hfrom with hz' | ⟨y, hy, hy0, hzy⟩
        · rcases List.mem_cons.mp hz' with rfl | hz'
          · have hle : pass.tallies.count z r ≤ _ := disconnectAll_count_le z r
            rw [hx0] at hle
            simp only at hz
            omega
          · exact .inl (hafter ▸ List.mem_append_right _ hz')
        · by_cases hyx : y = x
          · subst hyx
            exact .inl (hafter ▸ List.mem_append_left _ (List.mem_reverse.mpr hzy))
          · refine .inr ⟨y, ?_, hy0, hzy⟩
            rw [count_set_lower ts h]
            simpa [hyx] using hy
      · have hafter : after = rest := by simp [after, h1]
        have hx : x ∈ Cascade.candidates
            { pass with touches := ⟨x, ts[x].count r - 1⟩ :: pass.touches } := by
          have : ts[x].count r - 1 ≠ 0 := by omega
          simp [Cascade.candidates, this]
        have hpos (y : ObjId) (hy : 0 < ts.count y r) :
            0 < Tallies.count (ts.set x (ts[x].lower r)) y r := by
          rw [count_set_lower ts h]
          split
          next hyx =>
            rw [hyx.1, Tallies.count_getElem ts h] at *
            omega
          next => exact hy
        rcases hfrom with hz' | ⟨y, hy, hy0, hzy⟩
        · rcases List.mem_cons.mp hz' with rfl | hz'
          · exact hx
          · exact hsub (hrest (.inl (hafter ▸ hz')))
        · exact hsub (hrest (.inr ⟨y, hpos y hy, hy0, hzy⟩))
  | case4 => simp at hno

theorem removed_cons (pass : Cascade) (t : Touch) :
    Cascade.removed { pass with touches := t :: pass.touches } =
      if t.count = 0 then t.obj :: pass.removed else pass.removed := by
  simp only [Cascade.removed, List.filter_cons]
  split
  next h => simp_all
  next h => simp_all

/-- The objects removed by a cascade are those that had the tag and have it no longer, each once. -/
theorem removed_spec :
    (disconnectAll edges r ts stack).removed.Nodup ∧
      ∀ o, o ∈ (disconnectAll edges r ts stack).removed ↔
        0 < ts.count o r ∧ (disconnectAll edges r ts stack).tallies.count o r = 0 := by
  have hnone (ts : Tallies) (o : ObjId) :
      o ∈ ([] : List ObjId) ↔ 0 < ts.count o r ∧ ts.count o r = 0 := by
    simp only [List.not_mem_nil, false_iff]
    omega
  fun_induction disconnectAll edges r ts stack with
  | case1 ts => exact ⟨List.nodup_nil, hnone ts⟩
  | case2 ts => exact ⟨List.nodup_nil, hnone ts⟩
  | case3 ts x rest h h0 after pass ih =>
      have ih : pass.removed.Nodup ∧ ∀ o, o ∈ pass.removed ↔
          0 < Tallies.count (ts.set x (ts[x].lower r)) o r ∧ pass.tallies.count o r = 0 := ih
      rw [removed_cons]
      -- counts never rise in the rest of the cascade
      have hx0 : ts[x].count r = 1 → pass.tallies.count x r = 0 := by
        intro h1
        have hle : pass.tallies.count x r ≤ _ := disconnectAll_count_le x r
        rw [count_set_lower ts h, Tallies.count_getElem ts h, h1] at hle
        simpa using hle
      have hpos : 0 < ts.count x r := by
        rw [Tallies.count_getElem ts h]
        omega
      simp only
      split
      next h1 =>
        have h1 : ts[x].count r = 1 := by omega
        have hzero : Tallies.count (ts.set x (ts[x].lower r)) x r = 0 := by
          rw [count_set_lower ts h, Tallies.count_getElem ts h, h1]
          simp
        refine ⟨List.nodup_cons.mpr ⟨?_, ih.1⟩, fun o => ?_⟩
        · intro hmem
          have := ((ih.2 x).mp hmem).1
          omega
        · rw [List.mem_cons, ih.2, count_set_lower ts h]
          by_cases ho : o = x
          · subst ho
            simp [hpos, hx0 h1]
          · simp [ho]
      next h1 =>
        refine ⟨ih.1, fun o => ?_⟩
        rw [ih.2, count_set_lower ts h]
        by_cases ho : o = x
        · subst ho
          have : 0 < ts.count o r - 1 := by
            rw [Tallies.count_getElem ts h]
            omega
          simp [hpos, this]
        · simp [ho]
  | case4 ts => exact ⟨List.nodup_nil, hnone ts⟩

/-- A cascade only lowers counts of objects that its stack leads to, and its candidates are among
those. -/
theorem disconnectAll_reach {o : ObjId} :
    ((disconnectAll edges r ts stack).tallies.count o r ≠ ts.count o r ∨
        o ∈ (disconnectAll edges r ts stack).candidates) →
      ∃ s ∈ stack, Reach edges s o := by
  fun_induction disconnectAll edges r ts stack with
  | case1 => simp [Cascade.candidates]
  | case2 => simp [Cascade.candidates]
  | case3 ts x rest h h0 after pass ih =>
      intro ho
      have hup : (∃ s ∈ after, Reach edges s o) → ∃ s ∈ x :: rest, Reach edges s o := by
        rintro ⟨s, hs, hreach⟩
        have hs : s ∈ (edges x).reverse ++ rest := by
          by_cases h1 : ts[x].count r = 1
          · simpa [after, h1] using hs
          · exact List.mem_append_right _ (by simpa [after, h1] using hs)
        rcases List.mem_append.mp hs with hs | hs
        · exact ⟨x, List.mem_cons_self, .head (List.mem_reverse.mp hs) hreach⟩
        · exact ⟨s, List.mem_cons_of_mem _ hs, hreach⟩
      by_cases hox : o = x
      · exact ⟨x, List.mem_cons_self, hox ▸ .refl⟩
      · refine hup (ih ?_)
        rcases ho with ho | ho
        · refine .inl ?_
          rw [count_set_lower ts h]
          simpa [hox] using ho
        · refine .inr ?_
          simp only [Cascade.candidates, List.filter_cons] at ho
          split at ho
          · rcases List.mem_cons.mp ho with heq | ho
            · exact absurd heq hox
            · exact ho
          · exact ho
  | case4 => simp [Cascade.candidates]

end Cascade

section Trimming

variable {r : RootId}

theorem count_modify_strip (ts : Tallies) (x o : ObjId) (r' : RootId) :
    Tallies.count (ts.modify x (·.strip r)) o r' =
      if o = x ∧ r' = r then 0 else ts.count o r' := by
  unfold Tallies.count
  rw [Array.getElem?_modify]
  by_cases hx : x = o
  · subst hx
    cases ts[x]? with
    | none => simp
    | some t => simp [Tally.count_strip]
  · simp [hx, Ne.symm hx]

theorem count_modify_lower (ts : Tallies) (x o : ObjId) (r' : RootId) :
    Tallies.count (ts.modify x (·.lower r)) o r' =
      ts.count o r' - if o = x ∧ r' = r then 1 else 0 := by
  unfold Tallies.count
  rw [Array.getElem?_modify]
  by_cases hx : x = o
  · subst hx
    cases ts[x]? with
    | none => simp
    | some t => simp [Tally.count_lower]
  · simp [hx, Ne.symm hx]

theorem stripEach_size (os : List ObjId) (ts : Tallies) :
    (stripEach r os ts).size = ts.size := by
  induction os generalizing ts with
  | nil => rfl
  | cons o os ih => exact (ih _).trans (by simp)

theorem count_stripEach (os : List ObjId) (ts : Tallies) (o : ObjId) (r' : RootId) :
    (stripEach r os ts).count o r' = if o ∈ os ∧ r' = r then 0 else ts.count o r' := by
  induction os generalizing ts with
  | nil => simp [stripEach]
  | cons x os ih =>
      have hstep : stripEach r (x :: os) ts = stripEach r os (ts.modify x (·.strip r)) := rfl
      rw [hstep, ih, count_modify_strip]
      by_cases hr : r' = r <;> by_cases hx : o = x <;> by_cases ho : o ∈ os <;> simp [hr, hx, ho]

/-- Lowering counts that are all larger than what is taken away leaves none at zero. -/
theorem lowerEach_spec (os : List ObjId) (ts : Tallies)
    (henough : ∀ o ∈ os, os.count o < ts.count o r) :
    (lowerEach r os ts).2 = false ∧ (lowerEach r os ts).1.size = ts.size ∧
      ∀ o r', (lowerEach r os ts).1.count o r' =
        ts.count o r' - if r' = r then os.count o else 0 := by
  -- by induction on the list, as what remains of it is still less than what remains of each count
  induction os generalizing ts with
  | nil => simp [lowerEach]
  | cons x os ih =>
      have hx := henough x List.mem_cons_self
      rw [List.count_cons_self] at hx
      have hxcount : Tallies.count (ts.modify x (·.lower r)) x r ≠ 0 := by
        rw [count_modify_lower]
        simp only [and_self, if_true]
        omega
      have hstep : lowerEach r (x :: os) ts = lowerEach r os (ts.modify x (·.lower r)) := by
        rw [lowerEach]
        simp only [hxcount, if_false]
      obtain ⟨hflag, hsize, hcount⟩ := ih (ts.modify x (·.lower r)) (by
        intro o ho
        have hlt := henough o (List.mem_cons_of_mem _ ho)
        rw [count_modify_lower]
        by_cases hox : o = x
        · subst hox
          simp only [and_self, if_true]
          omega
        · rw [List.count_cons_of_ne (Ne.symm hox)] at hlt
          simpa [hox] using hlt)
      rw [hstep]
      refine ⟨hflag, hsize.trans (by simp), fun o r' => ?_⟩
      rw [hcount, count_modify_lower]
      by_cases hr : r' = r
      · by_cases hox : o = x
        · subst hox
          simp only [hr, and_self, if_true, List.count_cons_self]
          omega
        · simp [hr, hox, List.count_cons_of_ne (Ne.symm hox)]
      · simp [hr]

end Trimming

section Scan

variable {edges : ObjId → List ObjId} {r : RootId} {ts : Tallies} {support : ObjId → Nat}
  {candidates : List ObjId}

/-- The tagged part of a graph. -/
def Tallies.inside (edges : ObjId → List ObjId) (ts : Tallies) (r : RootId) (o : ObjId) :
    List ObjId :=
  (edges o).filter fun c => decide (0 < ts.count c r)

/-- The trial deletion of an orphan scan. -/
def orphanTrial (edges : ObjId → List ObjId) (r : RootId) (candidates : List ObjId)
    (ts : Tallies) : Trial :=
  trial ts.size (ts.inside edges r) (ts.count · r)
    (candidates.filter fun o => decide (0 < ts.count o r)).reverse

theorem lt_size_of_mem_inside {o c : ObjId} (h : c ∈ ts.inside edges r o) : c < ts.size :=
  Tallies.lt_size_of_count_pos (by simpa using (List.mem_filter.mp h).2)

/-- Tagged objects only have edges to tagged ones. -/
theorem Counted.inside_eq (h : Counted edges r support ts) {p : ObjId} (hp : 0 < ts.count p r) :
    ts.inside edges r p = edges p := by
  refine List.filter_eq_self.mpr ?_
  intro c hc
  simpa using h.count_pos_of_edge hp hc

theorem Counted.reach_inside_iff (h : Counted edges r support ts) {a b : ObjId}
    (ha : 0 < ts.count a r) : Reach (ts.inside edges r) a b ↔ Reach edges a b := by
  constructor
  · intro hreach
    refine (Reach.congr_of_closed (P := fun x => 0 < ts.count x r) ?_ ?_ ha hreach).2
    · exact fun x c hx hc => h.count_pos_of_edge hx (h.inside_eq hx ▸ hc)
    · exact fun x c hx hc => h.inside_eq hx ▸ hc
  · intro hreach
    refine (Reach.congr_of_closed (P := fun x => 0 < ts.count x r) ?_ ?_ ha hreach).2
    · exact fun x c hx hc => h.count_pos_of_edge hx hc
    · exact fun x c hx hc => (h.inside_eq hx).symm ▸ hc

theorem Counted.mem_order_iff (h : Counted edges r support ts) {o : ObjId} :
    o ∈ (orphanTrial edges r candidates ts).order ↔
      ∃ c ∈ candidates, 0 < ts.count c r ∧ Reach edges c o := by
  unfold orphanTrial
  rw [RootedHeap.mem_order_iff]
  · constructor
    · rintro ⟨c, hc, hreach⟩
      obtain ⟨hc, hpos⟩ := List.mem_filter.mp (List.mem_reverse.mp hc)
      have hpos : 0 < ts.count c r := by simpa using hpos
      exact ⟨c, hc, hpos, (h.reach_inside_iff hpos).mp hreach⟩
    · rintro ⟨c, hc, hpos, hreach⟩
      refine ⟨c, List.mem_reverse.mpr (List.mem_filter.mpr ⟨hc, by simpa using hpos⟩), ?_⟩
      exact (h.reach_inside_iff hpos).mpr hreach
  · intro c hc
    have := (List.mem_filter.mp (List.mem_reverse.mp hc)).2
    exact Tallies.lt_size_of_count_pos (by simpa using this)
  · exact fun _ _ hc => lt_size_of_mem_inside hc

theorem Counted.pos_of_mem_order (h : Counted edges r support ts) {o : ObjId}
    (ho : o ∈ (orphanTrial edges r candidates ts).order) : 0 < ts.count o r := by
  obtain ⟨c, _, hpos, hreach⟩ := h.mem_order_iff.mp ho
  exact h.count_pos_of_reach hpos hreach

/-- The counts of an object split into support, edges from the listed tagged objects, and edges from
other tagged ones. -/
theorem Counted.count_eq_split (h : Counted edges r support ts) {os : List ObjId}
    (hnodup : os.Nodup) (hos : ∀ o ∈ os, 0 < ts.count o r) (o : ObjId) :
    ts.count o r = support o + (os.flatMap (ts.inside edges r)).count o +
      ∑ p ∈ ts.tags r \ os.toFinset, (edges p).count o := by
  have hsub : os.toFinset ⊆ ts.tags r := by
    intro p hp
    exact Tallies.mem_tags.mpr (hos p (List.mem_toFinset.mp hp))
  have hinner : (os.flatMap (ts.inside edges r)).count o =
      ∑ p ∈ os.toFinset, (edges p).count o := by
    rw [List.count_flatMap, List.sum_toFinset _ hnodup]
    congr 1
    refine List.map_congr_left ?_
    intro p hp
    rw [Function.comp_apply, h.inside_eq (hos p hp)]
  have hsplit := Finset.sum_sdiff (f := fun p => (edges p).count o) hsub
  rw [h.count_eq o, Tallies.inflow, hinner]
  omega

/-- An examined object has more counts than edges from examined ones exactly when it has support, or
an edge from a tagged object that was not examined. -/
theorem Counted.surplus_iff (h : Counted edges r support ts) {os : List ObjId}
    (hnodup : os.Nodup) (hos : ∀ o ∈ os, 0 < ts.count o r) (o : ObjId) :
    (os.flatMap (ts.inside edges r)).count o < ts.count o r ↔
      0 < support o ∨ ∃ p, 0 < ts.count p r ∧ p ∉ os ∧ o ∈ edges p := by
  have hsplit := h.count_eq_split hnodup hos o
  constructor
  · intro hlt
    by_cases hsup : 0 < support o
    · exact .inl hsup
    · have hrest : ∑ p ∈ ts.tags r \ os.toFinset, (edges p).count o ≠ 0 := by omega
      obtain ⟨p, hp, hp0⟩ := Finset.exists_ne_zero_of_sum_ne_zero hrest
      rw [Finset.mem_sdiff, Tallies.mem_tags, List.mem_toFinset] at hp
      exact .inr ⟨p, hp.1, hp.2, List.count_pos_iff.mp (Nat.pos_of_ne_zero hp0)⟩
  · rintro (hsup | ⟨p, hp, hnot, hmem⟩)
    · omega
    · have hle : (edges p).count o ≤ ∑ p ∈ ts.tags r \ os.toFinset, (edges p).count o := by
        refine Finset.single_le_sum (f := fun p => (edges p).count o)
          (fun _ _ => Nat.zero_le _) ?_
        rw [Finset.mem_sdiff, Tallies.mem_tags, List.mem_toFinset]
        exact ⟨hp, hnot⟩
      have := List.count_pos_iff.mpr hmem
      omega

theorem Counted.mem_kept_iff (h : Counted edges r support ts) {o : ObjId} :
    o ∈ (orphanTrial edges r candidates ts).kept ↔
      ∃ s ∈ (orphanTrial edges r candidates ts).order,
        (0 < support s ∨ ∃ p, 0 < ts.count p r ∧
          p ∉ (orphanTrial edges r candidates ts).order ∧ s ∈ edges p) ∧ Reach edges s o := by
  have hiff : o ∈ (orphanTrial edges r candidates ts).kept ↔ _ :=
    RootedHeap.mem_kept_iff fun _ _ hc => lt_size_of_mem_inside hc
  rw [hiff]
  refine exists_congr fun s => and_congr_right fun hs => and_congr ?_
    (h.reach_inside_iff (h.pos_of_mem_order hs))
  exact h.surplus_iff nodup_order (fun x hx => h.pos_of_mem_order hx) s

/-- What an orphan scan finds are the tagged objects that no support leads to, provided that
candidates lead to all of them. -/
theorem Counted.mem_lost_iff (h : Counted edges r support ts)
    (hcand : ∀ o, 0 < ts.count o r → (¬ ∃ s, 0 < support s ∧ Reach edges s o) →
      ∃ c ∈ candidates, 0 < ts.count c r ∧ Reach edges c o) {o : ObjId} :
    o ∈ (orphanTrial edges r candidates ts).lost ↔
      0 < ts.count o r ∧ ¬ ∃ s, 0 < support s ∧ Reach edges s o := by
  have hlost : o ∈ (orphanTrial edges r candidates ts).lost ↔
      o ∈ (orphanTrial edges r candidates ts).order ∧
        o ∉ (orphanTrial edges r candidates ts).kept := RootedHeap.mem_lost_iff
  rw [hlost]
  clear hlost
  constructor
  · rintro ⟨horder, hnot⟩
    refine ⟨h.pos_of_mem_order horder, ?_⟩
    rintro ⟨s, hs, hreach⟩
    refine hnot ?_
    -- a path from support is kept from its first examined object on
    induction hreach with
    | refl => exact h.mem_kept_iff.mpr ⟨s, horder, .inl hs, .refl⟩
    | @tail a b hsa hab ih =>
        by_cases ha : a ∈ (orphanTrial edges r candidates ts).order
        · have hnota : a ∉ (orphanTrial edges r candidates ts).kept := by
            intro hkept
            obtain ⟨s', hs', hsup, hreach'⟩ := h.mem_kept_iff.mp hkept
            exact hnot (h.mem_kept_iff.mpr ⟨s', hs', hsup, hreach'.tail hab⟩)
          exact absurd (ih ha hnota) hnota
        · have hapos := h.count_pos_of_reach (h.count_pos_of_support hs) hsa
          exact h.mem_kept_iff.mpr ⟨b, horder, .inr ⟨a, hapos, ha, hab⟩, .refl⟩
  · rintro ⟨ho, hnot⟩
    refine ⟨h.mem_order_iff.mpr (hcand o ho hnot), ?_⟩
    intro hmem
    obtain ⟨s, hs, hsup, hreach⟩ := h.mem_kept_iff.mp hmem
    rcases hsup with hsup | ⟨p, hp, hpnot, hps⟩
    · exact hnot ⟨s, hsup, hreach⟩
    · refine hpnot (h.mem_order_iff.mpr (hcand p hp ?_))
      rintro ⟨s', hs', hreach'⟩
      exact hnot ⟨s', hs', (hreach'.tail hps).trans hreach⟩

/-- A tagged object that support leads to keeps a count from support or from a tagged object that
support leads to. -/
theorem Counted.pos_of_reached (h : Counted edges r support ts) {os : List ObjId}
    (hos : ∀ p ∈ os, ¬ ∃ s, 0 < support s ∧ Reach edges s p) {o s : ObjId} (hs : 0 < support s)
    (hreach : Reach edges s o) :
    0 < support o + ∑ p ∈ ts.tags r \ os.toFinset, (edges p).count o := by
  cases hreach with
  | refl => omega
  | @tail p _ hsp hpo =>
      have hp : p ∈ ts.tags r \ os.toFinset := by
        rw [Finset.mem_sdiff, Tallies.mem_tags, List.mem_toFinset]
        exact ⟨h.count_pos_of_reach (h.count_pos_of_support hs) hsp,
          fun hmem => hos p hmem ⟨s, hs, hsp⟩⟩
      have hle := Finset.single_le_sum (f := fun p => (edges p).count o)
        (fun _ _ => Nat.zero_le _) hp
      have := List.count_pos_iff.mpr hpo
      omega

/-- The edges from orphans into survivors. -/
def orphanCut (edges : ObjId → List ObjId) (r : RootId) (candidates : List ObjId)
    (ts : Tallies) : List ObjId :=
  ((orphanTrial edges r candidates ts).lost.flatMap (ts.inside edges r)).filter
    (Marks.ofList ts.size (orphanTrial edges r candidates ts).kept).has

theorem scanOrphans_eq :
    scanOrphans edges r candidates ts =
      if (orphanTrial edges r candidates ts).lost.isEmpty then
        ⟨ts, (orphanTrial edges r candidates ts).order.length, [], false⟩
      else
        ⟨(lowerEach r (orphanCut edges r candidates ts)
            (stripEach r (orphanTrial edges r candidates ts).lost ts)).1,
          (orphanTrial edges r candidates ts).order.length,
          (orphanTrial edges r candidates ts).lost,
          (lowerEach r (orphanCut edges r candidates ts)
            (stripEach r (orphanTrial edges r candidates ts).lost ts)).2⟩ := rfl

/-- Survivors lose exactly the edges that came from orphans. -/
theorem Counted.count_orphanCut (h : Counted edges r support ts) {o : ObjId}
    (ho : o ∉ (orphanTrial edges r candidates ts).lost) :
    (orphanCut edges r candidates ts).count o =
      ((orphanTrial edges r candidates ts).lost.flatMap (ts.inside edges r)).count o := by
  unfold orphanCut
  by_cases hkept : o ∈ (orphanTrial edges r candidates ts).kept
  · refine List.count_filter (Marks.has_ofList.mpr ⟨hkept, ?_⟩)
    have hlt : o < (Marks.clear ts.size).bits.size := lt_of_mem_explore hkept
    simpa [Marks.clear] using hlt
  · -- an edge from an orphan leads to an examined object, which was kept or lost
    have hnone : o ∉ (orphanTrial edges r candidates ts).lost.flatMap (ts.inside edges r) := by
      intro hmem
      obtain ⟨p, hp, hpo⟩ := List.mem_flatMap.mp hmem
      have horder := lost_subset_order hp
      have hedge := h.inside_eq (h.pos_of_mem_order horder) ▸ hpo
      obtain ⟨c, hc, hpos, hreach⟩ := h.mem_order_iff.mp horder
      exact ho (RootedHeap.mem_lost_iff.mpr
        ⟨h.mem_order_iff.mpr ⟨c, hc, hpos, hreach.tail hedge⟩, hkept⟩)
    rw [List.count_eq_zero_of_not_mem hnone]
    exact List.count_eq_zero_of_not_mem fun hmem => hnone (List.mem_of_mem_filter hmem)

theorem count_orphanCut_of_lost {o : ObjId}
    (ho : o ∈ (orphanTrial edges r candidates ts).lost) :
    (orphanCut edges r candidates ts).count o = 0 := by
  refine List.count_eq_zero_of_not_mem ?_
  intro hmem
  have hhas := (List.mem_filter.mp hmem).2
  exact (RootedHeap.mem_lost_iff.mp ho).2 (Marks.has_ofList.mp hhas).1

/-- What an orphan scan leaves: nothing at the orphans, and at all other objects their support and
the edges from tagged objects that are no orphans. -/
theorem Counted.scan_counts (h : Counted edges r support ts)
    (hcand : ∀ o, 0 < ts.count o r → (¬ ∃ s, 0 < support s ∧ Reach edges s o) →
      ∃ c ∈ candidates, 0 < ts.count c r ∧ Reach edges c o) :
    (scanOrphans edges r candidates ts).broken = false ∧
      (scanOrphans edges r candidates ts).tallies.size = ts.size ∧
      (scanOrphans edges r candidates ts).orphans = (orphanTrial edges r candidates ts).lost ∧
      (∀ o r', r' ≠ r → (scanOrphans edges r candidates ts).tallies.count o r' = ts.count o r') ∧
      ∀ o, (scanOrphans edges r candidates ts).tallies.count o r =
        if o ∈ (orphanTrial edges r candidates ts).lost then 0
        else support o +
          ∑ p ∈ ts.tags r \ (orphanTrial edges r candidates ts).lost.toFinset,
            (edges p).count o := by
  have hlost {o : ObjId} : o ∈ (orphanTrial edges r candidates ts).lost ↔
      0 < ts.count o r ∧ ¬ ∃ s, 0 < support s ∧ Reach edges s o := h.mem_lost_iff hcand
  have hsplit (o : ObjId) : ts.count o r = support o +
      ((orphanTrial edges r candidates ts).lost.flatMap (ts.inside edges r)).count o +
        ∑ p ∈ ts.tags r \ (orphanTrial edges r candidates ts).lost.toFinset, (edges p).count o :=
    h.count_eq_split nodup_lost (fun p hp => (hlost.mp hp).1) o
  rw [scanOrphans_eq]
  -- without orphans, nothing is stripped and the cut is not made
  by_cases hempty : (orphanTrial edges r candidates ts).lost = []
  · simp only [hempty, List.isEmpty_nil, if_true, List.not_mem_nil, if_false]
    refine ⟨trivial, trivial, trivial, fun _ _ _ => trivial, fun o => ?_⟩
    simpa [hempty] using hsplit o
  · rw [if_neg (by simpa using hempty)]
    have henough : ∀ o ∈ orphanCut edges r candidates ts,
        (orphanCut edges r candidates ts).count o <
          (stripEach r (orphanTrial edges r candidates ts).lost ts).count o r := by
      intro o ho
      have hnot : o ∉ (orphanTrial edges r candidates ts).lost := by
        intro hmem
        exact List.count_eq_zero.mp (count_orphanCut_of_lost hmem) ho
      obtain ⟨p, hp, hpo⟩ := List.mem_flatMap.mp (List.mem_of_mem_filter ho)
      have hpos : 0 < ts.count o r := by simpa using (List.mem_filter.mp hpo).2
      have hreached : ∃ s, 0 < support s ∧ Reach edges s o := by
        by_contra hno
        exact hnot (hlost.mpr ⟨hpos, hno⟩)
      obtain ⟨s, hs, hreach⟩ := hreached
      -- a survivor has support or an edge from a survivor besides the edges that are cut
      have := h.pos_of_reached (fun p hp => (hlost.mp hp).2) hs hreach
      have := hsplit o
      rw [count_stripEach, h.count_orphanCut hnot]
      simp only [hnot, false_and, if_false]
      omega
    obtain ⟨hflag, hsize, hcount⟩ := lowerEach_spec _ _ henough
    refine ⟨hflag, hsize.trans (stripEach_size _ _), rfl, fun o r' hr => ?_, fun o => ?_⟩
    · rw [hcount, count_stripEach]
      simp [hr]
    · rw [hcount, count_stripEach, if_pos rfl]
      by_cases ho : o ∈ (orphanTrial edges r candidates ts).lost
      · simp [ho]
      · have := hsplit o
        rw [h.count_orphanCut ho]
        simp only [ho, false_and, if_false]
        omega

end Scan

/-- `ts'` is what `ts` comes to when the support of `r` is reduced to `support`, and `unrooted` lists
the objects that lost their last tag. -/
structure Reduced (edges : ObjId → List ObjId) (r : RootId) (support : ObjId → Nat)
    (ts ts' : Tallies) (unrooted : List ObjId) : Prop where
  size : ts'.size = ts.size
  others : ∀ o r', r' ≠ r → ts'.count o r' = ts.count o r'
  balanced : Balanced edges r support ts'
  lowered : ∀ o, ts'.count o r ≤ ts.count o r
  nodup : unrooted.Nodup
  mem_unrooted : ∀ o, o ∈ unrooted ↔ 0 < ts.count o r ∧ ts'.isEmptyAt o = true

namespace Reduced

variable {edges : ObjId → List ObjId} {r : RootId} {support : ObjId → Nat} {ts ts₁ ts₂ : Tallies}
  {unrooted₁ unrooted₂ : List ObjId}

/-- There is only one way to reduce the support of a root. -/
theorem tallies_unique (h₁ : Reduced edges r support ts ts₁ unrooted₁)
    (h₂ : Reduced edges r support ts ts₂ unrooted₂) : ts₁ = ts₂ := by
  refine Tallies.ext_count (h₁.size.trans h₂.size.symm) ?_
  intro o r'
  by_cases hr : r' = r
  · rw [hr]
    exact h₁.balanced.count_unique h₂.balanced o
  · rw [h₁.others o r' hr, h₂.others o r' hr]

theorem unrooted_perm (h₁ : Reduced edges r support ts ts₁ unrooted₁)
    (h₂ : Reduced edges r support ts ts₂ unrooted₂) : unrooted₁.Perm unrooted₂ := by
  refine (List.perm_ext_iff_of_nodup h₁.nodup h₂.nodup).mpr ?_
  intro o
  rw [h₁.mem_unrooted, h₂.mem_unrooted, h₁.tallies_unique h₂]

end Reduced

section Disconnect

variable {edges : ObjId → List ObjId} {r : RootId} {ts : Tallies} {support : ObjId → Nat}
  {candidates : List ObjId}

/-- An orphan scan restores the balance that a cascade leaves incomplete. -/
theorem Counted.scan (h : Counted edges r support ts)
    (hcand : ∀ o, 0 < ts.count o r → (¬ ∃ s, 0 < support s ∧ Reach edges s o) →
      ∃ c ∈ candidates, 0 < ts.count c r ∧ Reach edges c o) :
    Reduced edges r support ts (scanOrphans edges r candidates ts).tallies
      (scanOrphans edges r candidates ts).unrooted := by
  have hlost {o : ObjId} : o ∈ (orphanTrial edges r candidates ts).lost ↔
      0 < ts.count o r ∧ ¬ ∃ s, 0 < support s ∧ Reach edges s o := h.mem_lost_iff hcand
  have hsplit (o : ObjId) : ts.count o r = support o +
      ((orphanTrial edges r candidates ts).lost.flatMap (ts.inside edges r)).count o +
        ∑ p ∈ ts.tags r \ (orphanTrial edges r candidates ts).lost.toFinset, (edges p).count o :=
    h.count_eq_split nodup_lost (fun p hp => (hlost.mp hp).1) o
  obtain ⟨_, hsize, horphans, hothers, hcount⟩ := h.scan_counts hcand
  rw [OrphanScan.unrooted, horphans]
  generalize (scanOrphans edges r candidates ts).tallies = ts' at *
  have hpos {o : ObjId} : 0 < ts'.count o r ↔
      0 < ts.count o r ∧ o ∉ (orphanTrial edges r candidates ts).lost := by
    have := hsplit o
    rw [hcount o]
    split
    next ho => simp [ho]
    next ho =>
      refine ⟨fun hlt => ⟨by omega, ho⟩, fun hlt => ?_⟩
      have hreached : ∃ s, 0 < support s ∧ Reach edges s o := by
        by_contra hno
        exact ho (hlost.mpr ⟨hlt.1, hno⟩)
      obtain ⟨s, hs, hreach⟩ := hreached
      exact h.pos_of_reached (fun p hp => (hlost.mp hp).2) hs hreach
  have htags : ts'.tags r = ts.tags r \ (orphanTrial edges r candidates ts).lost.toFinset := by
    ext o
    rw [Tallies.mem_tags, Finset.mem_sdiff, Tallies.mem_tags, List.mem_toFinset, hpos]
  refine ⟨hsize, hothers, ⟨⟨fun o => ?_⟩, fun o ho => ?_⟩, fun o => ?_,
    List.Nodup.filter _ nodup_lost, fun o => ?_⟩
  · rw [Tallies.inflow, htags, hcount o]
    split
    next ho =>
      -- an orphan has neither support nor an edge from a survivor
      have hnot := (hlost.mp ho).2
      have hsup : support o = 0 := by
        by_contra hsup
        exact hnot ⟨o, Nat.pos_of_ne_zero hsup, .refl⟩
      rw [hsup, Nat.zero_add, eq_comm]
      refine Finset.sum_eq_zero ?_
      intro p hp
      rw [Finset.mem_sdiff, Tallies.mem_tags, List.mem_toFinset] at hp
      refine List.count_eq_zero_of_not_mem ?_
      intro hpo
      refine hp.2 (hlost.mpr ⟨hp.1, ?_⟩)
      rintro ⟨s, hs, hreach⟩
      exact hnot ⟨s, hs, hreach.tail hpo⟩
    next => rfl
  · by_contra hnot
    exact (hpos.mp ho).2 (hlost.mpr ⟨(hpos.mp ho).1, hnot⟩)
  · have := hsplit o
    rw [hcount o]
    split <;> omega
  · rw [List.mem_filter]
    constructor
    · rintro ⟨ho, hempty⟩
      exact ⟨(hlost.mp ho).1, hempty⟩
    · rintro ⟨ho, hempty⟩
      refine ⟨?_, hempty⟩
      by_contra hnot
      have := hpos.mpr ⟨ho, hnot⟩
      have := Tallies.isEmptyAt_iff.mp hempty r
      omega

variable {back : ObjId → List ObjId} {t : ObjId} {support' : ObjId → Nat}

/-- After a cascade, every object that support no longer leads to is reached from a candidate. -/
theorem Balanced.cascade_candidates (h : Balanced edges r support ts)
    (hsupport : ∀ o, support o = support' o + if o = t then 1 else 0)
    (hno : (cascade edges r t ts).unreached = none) {o : ObjId}
    (ho : 0 < (cascade edges r t ts).tallies.count o r)
    (hnot : ¬ ∃ s, 0 < support' s ∧ Reach edges s o) :
    ∃ c ∈ (cascade edges r t ts).candidates,
      0 < (cascade edges r t ts).tallies.count c r ∧ Reach edges c o := by
  have hle (x : ObjId) : (cascade edges r t ts).tallies.count x r ≤ ts.count x r :=
    disconnectAll_count_le x r
  obtain ⟨s, hs, hreach⟩ := h.rooted o (Nat.lt_of_lt_of_le ho (hle o))
  -- walk back from `o` as long as the tags are still there
  have hwalk : ∀ x, Reach edges s x → 0 < (cascade edges r t ts).tallies.count x r →
      Reach edges x o → ∃ c ∈ (cascade edges r t ts).candidates,
        0 < (cascade edges r t ts).tallies.count c r ∧ Reach edges c o := by
    intro x hsx
    induction hsx with
    | refl =>
        intro hpos hto
        have hst : s = t := by
          by_contra hne
          have := hsupport s
          rw [if_neg hne] at this
          exact hnot ⟨s, by omega, hto⟩
        subst hst
        exact ⟨s, mem_candidates hno hpos (.inl List.mem_cons_self), hpos, hto⟩
    | @tail a b hsa hab ih =>
        intro hpos hto
        by_cases ha : 0 < (cascade edges r t ts).tallies.count a r
        · exact ih ha (.head hab hto)
        · have hapos := h.count_pos_of_reach (h.count_pos_of_support hs) hsa
          have ha0 := Nat.eq_zero_of_not_pos ha
          exact ⟨b, mem_candidates hno hpos (.inr ⟨a, hapos, ha0, hab⟩), hpos, hto⟩
  exact hwalk o hreach ho .refl

/-- The orphan scan after the cascade of a disconnect pass. The cascade follows `back`. -/
def scanAfter (edges back : ObjId → List ObjId) (r : RootId) (t : ObjId) (ts : Tallies) :
    OrphanScan :=
  scanOrphans edges r (cascade back r t ts).candidates (cascade back r t ts).tallies

/-- The objects that a disconnect pass finds without any tag. -/
def unrootedAfter (edges back : ObjId → List ObjId) (r : RootId) (t : ObjId) (ts : Tallies) :
    List ObjId :=
  (cascade back r t ts).unrooted ++ (scanAfter edges back r t ts).unrooted

/-- A cascade takes one unit of support away at its target and leaves the counts right. -/
theorem Balanced.cascade_counted (h : Balanced edges r support ts)
    (hback : ∀ p, (back p).Perm (edges p))
    (hsupport : ∀ o, support o = support' o + if o = t then 1 else 0) :
    (cascade back r t ts).unreached = none ∧
      Counted edges r support' (cascade back r t ts).tallies := by
  have hb : Balanced back r support ts := h.congr_edges fun p _ => hback p
  have hcascade : (cascade back r t ts).unreached = none ∧
      Counted back r support' (cascade back r t ts).tallies := by
    refine disconnectAll_counted ?_
    intro o
    rw [hb.count_eq, hsupport, List.count_singleton]
    by_cases ho : o = t
    · simp [ho]
    · simp [ho, Ne.symm ho]
  refine ⟨hcascade.1, ⟨fun o => (hcascade.2.count_eq o).trans ?_⟩⟩
  congr 1
  exact Finset.sum_congr rfl fun p _ => (hback p).count_eq o

/-- A disconnect pass, with its orphan scan, takes one unit of support away at its target. It may
follow edges in one order and scan them in another. -/
theorem Balanced.disconnect (h : Balanced edges r support ts)
    (hback : ∀ p, (back p).Perm (edges p))
    (hsupport : ∀ o, support o = support' o + if o = t then 1 else 0) :
    (cascade back r t ts).unreached = none ∧ (scanAfter edges back r t ts).broken = false ∧
      Reduced edges r support' ts (scanAfter edges back r t ts).tallies
        (unrootedAfter edges back r t ts) := by
  have hb : Balanced back r support ts := h.congr_edges fun p _ => hback p
  have hreach {a b : ObjId} : Reach back a b ↔ Reach edges a b := by
    constructor
    · exact fun hr => (Reach.congr_of_closed (P := fun _ => True) (fun _ _ _ _ => trivial)
        (fun a b _ hb => (hback a).mem_iff.mp hb) trivial hr).2
    · exact fun hr => (Reach.congr_of_closed (P := fun _ => True) (fun _ _ _ _ => trivial)
        (fun a b _ hb => (hback a).mem_iff.mpr hb) trivial hr).2
  obtain ⟨hno, hcounted⟩ := h.cascade_counted hback hsupport
  have hsize : (cascade back r t ts).tallies.size = ts.size := disconnectAll_size
  have hothers (o : ObjId) (r' : RootId) (hr : r' ≠ r) :
      (cascade back r t ts).tallies.count o r' = ts.count o r' := disconnectAll_count_of_ne hr o
  have hle (o : ObjId) : (cascade back r t ts).tallies.count o r ≤ ts.count o r :=
    disconnectAll_count_le o r
  have hremoved : (cascade back r t ts).removed.Nodup ∧ ∀ o, o ∈ (cascade back r t ts).removed ↔
      0 < ts.count o r ∧ (cascade back r t ts).tallies.count o r = 0 := removed_spec
  have hcand : ∀ o, 0 < (cascade back r t ts).tallies.count o r →
      (¬ ∃ s, 0 < support' s ∧ Reach edges s o) → ∃ c ∈ (cascade back r t ts).candidates,
        0 < (cascade back r t ts).tallies.count c r ∧ Reach edges c o := by
    intro o ho hnot
    obtain ⟨c, hc, hpos, hco⟩ := hb.cascade_candidates hsupport hno ho (by
      rintro ⟨s, hs, hso⟩
      exact hnot ⟨s, hs, hreach.mp hso⟩)
    exact ⟨c, hc, hpos, hreach.mp hco⟩
  have hscan : Reduced edges r support' (cascade back r t ts).tallies
      (scanAfter edges back r t ts).tallies (scanAfter edges back r t ts).unrooted :=
    hcounted.scan hcand
  refine ⟨hno, (hcounted.scan_counts hcand).1, ⟨hscan.size.trans hsize,
    fun o r' hr => (hscan.others o r' hr).trans (hothers o r' hr), hscan.balanced,
    fun o => (hscan.lowered o).trans (hle o), ?_, fun o => ?_⟩⟩
  · refine List.Nodup.append (hremoved.1.filter _) hscan.nodup ?_
    intro o ho ho'
    have h0 := ((hremoved.2 o).mp (List.mem_of_mem_filter ho)).2
    have hpos := ((hscan.mem_unrooted o).mp ho').1
    exact absurd h0 hpos.ne'
  · -- an object the cascade removed is left alone by the scan
    have hsame (hzero : (cascade back r t ts).tallies.count o r = 0) :
        (scanAfter edges back r t ts).tallies.isEmptyAt o =
          (cascade back r t ts).tallies.isEmptyAt o := by
      rw [Bool.eq_iff_iff, Tallies.isEmptyAt_iff, Tallies.isEmptyAt_iff]
      refine forall_congr' fun r' => ?_
      by_cases hr : r' = r
      · have := hscan.lowered o
        rw [hr, hzero]
        omega
      · rw [hscan.others o r' hr]
    rw [unrootedAfter, List.mem_append, Cascade.unrooted, List.mem_filter, hscan.mem_unrooted,
      hremoved.2]
    by_cases hzero : (cascade back r t ts).tallies.count o r = 0
    · rw [hsame hzero, hzero]
      simp
    · have hpos : 0 < ts.count o r := Nat.lt_of_lt_of_le (Nat.pos_of_ne_zero hzero) (hle o)
      simp [hzero, hpos, Nat.pos_of_ne_zero hzero]

end Disconnect

section Strip

variable {edges back : ObjId → List ObjId} {r : RootId} {ts : Tallies} {stack : List ObjId}

theorem stripAll_size : (stripAll edges r ts stack).tallies.size = ts.size := by
  fun_induction stripAll edges r ts stack with
  | case1 => rfl
  | case2 ts o rest h _ ih => exact ih
  | case3 ts o rest h _ pass ih => simpa [pass] using ih
  | case4 ts o rest h ih => exact ih

theorem count_set_strip (ts : Tallies) {x : ObjId} (h : x < ts.size) (r r' : RootId) (o : ObjId) :
    Tallies.count (ts.set x (ts[x].strip r)) o r' =
      if o = x ∧ r' = r then 0 else ts.count o r' := by
  rw [Tallies.count_set ts h]
  by_cases hx : o = x
  · subst hx
    rw [if_pos rfl, Tally.count_strip, Tallies.count_getElem ts h]
    by_cases hr : r' = r <;> simp [hr]
  · simp [hx]

/-- The stripped objects were tagged, and are listed once. -/
theorem stripAll_objects :
    (stripAll edges r ts stack).objects.Nodup ∧
      ∀ o ∈ (stripAll edges r ts stack).objects, 0 < ts.count o r := by
  fun_induction stripAll edges r ts stack with
  | case1 => simp
  | case2 ts x rest h _ ih => exact ih
  | case3 ts x rest h h0 pass ih =>
      have hpos : 0 < ts.count x r := by
        rw [Tallies.count_getElem ts h]
        omega
      have ih : pass.objects.Nodup ∧ ∀ o ∈ pass.objects,
          0 < Tallies.count (ts.set x (ts[x].strip r)) o r := ih
      refine ⟨List.nodup_cons.mpr ⟨?_, ih.1⟩, fun o ho => ?_⟩
      · intro hmem
        have := ih.2 x hmem
        rw [count_set_strip ts h] at this
        simp at this
      · rcases List.mem_cons.mp ho with rfl | ho
        · exact hpos
        · have := ih.2 o ho
          rw [count_set_strip ts h] at this
          split at this
          next => omega
          next => exact this
  | case4 ts x rest h ih => exact ih

/-- A strip pass clears the tag at the stripped objects and changes nothing else. -/
theorem stripAll_count (o : ObjId) (r' : RootId) :
    (stripAll edges r ts stack).tallies.count o r' =
      if o ∈ (stripAll edges r ts stack).objects ∧ r' = r then 0 else ts.count o r' := by
  fun_induction stripAll edges r ts stack with
  | case1 => simp
  | case2 ts x rest h _ ih => exact ih
  | case3 ts x rest h h0 pass ih =>
      have ih : pass.tallies.count o r' = if o ∈ pass.objects ∧ r' = r then 0
          else Tallies.count (ts.set x (ts[x].strip r)) o r' := ih
      simp only
      rw [ih, count_set_strip ts h]
      by_cases hr : r' = r <;> by_cases hx : o = x <;> by_cases ho : o ∈ pass.objects <;>
        simp [hr, hx, ho]
  | case4 ts x rest h ih => exact ih

/-- Every tagged object of the stack is stripped, and so is every tagged successor of a stripped
one. -/
theorem stripAll_closed :
    (∀ o ∈ stack, 0 < ts.count o r → o ∈ (stripAll edges r ts stack).objects) ∧
      ∀ o ∈ (stripAll edges r ts stack).objects, ∀ c ∈ edges o, 0 < ts.count c r →
        c ∈ (stripAll edges r ts stack).objects := by
  fun_induction stripAll edges r ts stack with
  | case1 => simp
  | case2 ts x rest h h0 ih =>
      refine ⟨?_, ih.2⟩
      intro o ho hpos
      rcases List.mem_cons.mp ho with rfl | ho
      · rw [Tallies.count_getElem ts h] at hpos
        omega
      · exact ih.1 o ho hpos
  | case3 ts x rest h h0 pass ih =>
      -- the tags of the rest of the pass are those of `ts` but for `x`, which is stripped already
      have hstack : ∀ c ∈ (edges x).reverse ++ rest, 0 < ts.count c r → c ∈ x :: pass.objects := by
        intro c hc hpos
        by_cases hcx : c = x
        · exact hcx ▸ List.mem_cons_self
        · refine List.mem_cons_of_mem _ (ih.1 c hc ?_)
          rw [count_set_strip ts h]
          simpa [hcx] using hpos
      constructor
      · intro o ho hpos
        rcases List.mem_cons.mp ho with rfl | ho
        · exact List.mem_cons_self
        · exact hstack o (List.mem_append_right _ ho) hpos
      · intro o ho c hc hpos
        rcases List.mem_cons.mp ho with rfl | ho
        · exact hstack c (List.mem_append_left _ (List.mem_reverse.mpr hc)) hpos
        · by_cases hcx : c = x
          · exact hcx ▸ List.mem_cons_self
          · refine List.mem_cons_of_mem _ (ih.2 o ho c hc ?_)
            rw [count_set_strip ts h]
            simpa [hcx] using hpos
  | case4 ts x rest h ih =>
      refine ⟨?_, ih.2⟩
      intro o ho hpos
      rcases List.mem_cons.mp ho with rfl | ho
      · exact absurd (Tallies.lt_size_of_count_pos hpos) h
      · exact ih.1 o ho hpos

/-- Whatever is stripped, the stack leads to it. -/
theorem reach_of_mem_stripAll {o : ObjId} (h : o ∈ (stripAll edges r ts stack).objects) :
    ∃ s ∈ stack, Reach edges s o := by
  fun_induction stripAll edges r ts stack with
  | case1 => simp at h
  | case2 ts x rest _ _ ih =>
      obtain ⟨s, hs, hreach⟩ := ih h
      exact ⟨s, List.mem_cons_of_mem _ hs, hreach⟩
  | case3 ts x rest _ _ pass ih =>
      rcases List.mem_cons.mp h with rfl | h
      · exact ⟨_, List.mem_cons_self, .refl⟩
      · obtain ⟨s, hs, hreach⟩ := ih h
        rcases List.mem_append.mp hs with hs | hs
        · exact ⟨x, List.mem_cons_self, .head (List.mem_reverse.mp hs) hreach⟩
        · exact ⟨s, List.mem_cons_of_mem _ hs, hreach⟩
  | case4 ts x rest _ ih =>
      obtain ⟨s, hs, hreach⟩ := ih h
      exact ⟨s, List.mem_cons_of_mem _ hs, hreach⟩

variable {support support' : ObjId → Nat} {t : ObjId}

/-- Stripping a tagged object clears the tag wherever it leads to. -/
theorem Counted.mem_strip_iff (h : Counted edges r support ts)
    (hback : ∀ p, (back p).Perm (edges p)) (ht : 0 < ts.count t r) {o : ObjId} :
    o ∈ (strip back r t ts).objects ↔ Reach edges t o := by
  constructor
  · intro ho
    obtain ⟨s, hs, hreach⟩ := reach_of_mem_stripAll ho
    rw [List.mem_singleton.mp hs] at hreach
    exact (Reach.congr_of_closed (P := fun _ => True) (fun _ _ _ _ => trivial)
      (fun a b _ hb => (hback a).mem_iff.mp hb) trivial hreach).2
  · intro hreach
    induction hreach with
    | refl => exact stripAll_closed.1 t List.mem_cons_self ht
    | @tail a b hta hab ih =>
        refine stripAll_closed.2 a ih b ((hback a).mem_iff.mpr hab) ?_
        exact h.count_pos_of_reach ht (hta.tail hab)

/-- Once `t` is stripped, the root tags what it tagged before, short of what `t` leads to. -/
theorem Counted.count_strip_pos_iff (h : Counted edges r support ts)
    (hback : ∀ p, (back p).Perm (edges p)) (ht : 0 < ts.count t r) {o : ObjId} :
    0 < (strip back r t ts).tallies.count o r ↔ 0 < ts.count o r ∧ ¬ Reach edges t o := by
  have hcount : (strip back r t ts).tallies.count o r =
      if o ∈ (strip back r t ts).objects ∧ r = r then 0 else ts.count o r := stripAll_count o r
  rw [hcount, ← h.mem_strip_iff hback ht]
  by_cases ho : o ∈ (strip back r t ts).objects <;> simp [ho]

/-- What `t` does not lead to receives the edges that it received before. -/
theorem Counted.inflow_strip (h : Counted edges r support ts)
    (hback : ∀ p, (back p).Perm (edges p)) (ht : 0 < ts.count t r) {o : ObjId}
    (ho : ¬ Reach edges t o) :
    (strip back r t ts).tallies.inflow edges r o = ts.inflow edges r o := by
  refine Finset.sum_subset (fun p hp => ?_) fun p hp hnot => ?_
  · rw [Tallies.mem_tags, h.count_strip_pos_iff hback ht] at hp
    exact Tallies.mem_tags.mpr hp.1
  · rw [Tallies.mem_tags] at hp
    rw [Tallies.mem_tags, h.count_strip_pos_iff hback ht] at hnot
    exact List.count_eq_zero_of_not_mem fun hpo => hnot ⟨hp, fun htp => ho (htp.tail hpo)⟩

/-- A tagged object that `t` does not lead to has other support than that at `t`. -/
theorem Balanced.exists_support (h : Balanced edges r support ts)
    (hsupport : ∀ o, support o = support' o + if o = t then 1 else 0) {o : ObjId}
    (ho : 0 < ts.count o r) (hnot : ¬ Reach edges t o) : ∃ s, 0 < support' s ∧ Reach edges s o := by
  obtain ⟨s, hs, hreach⟩ := h.rooted o ho
  have hst : s ≠ t := by
    rintro rfl
    exact hnot hreach
  have := hsupport s
  rw [if_neg hst] at this
  exact ⟨s, by omega, hreach⟩

/-- Stripping takes the support at its target away, provided that no other support leads where the
target leads. -/
theorem Balanced.strip (h : Balanced edges r support ts)
    (hback : ∀ p, (back p).Perm (edges p))
    (hsupport : ∀ o, support o = support' o + if o = t then 1 else 0)
    (hapart : ∀ s o, 0 < support' s → Reach edges s o → ¬ Reach edges t o) :
    Reduced edges r support' ts (RootedHeap.strip back r t ts).tallies
      (RootedHeap.strip back r t ts).unrooted := by
  have htsup : 0 < support t := by
    have := hsupport t
    rw [if_pos rfl] at this
    omega
  have ht : 0 < ts.count t r := h.count_pos_of_support htsup
  have hmem {o : ObjId} : o ∈ (RootedHeap.strip back r t ts).objects ↔ Reach edges t o :=
    h.mem_strip_iff hback ht
  have hpos {o : ObjId} : 0 < (RootedHeap.strip back r t ts).tallies.count o r ↔
      0 < ts.count o r ∧ ¬ Reach edges t o := h.count_strip_pos_iff hback ht
  have hcount (o : ObjId) (r' : RootId) : (RootedHeap.strip back r t ts).tallies.count o r' =
      if o ∈ (RootedHeap.strip back r t ts).objects ∧ r' = r then 0 else ts.count o r' :=
    stripAll_count o r'
  have hobjects : (RootedHeap.strip back r t ts).objects.Nodup ∧
      ∀ o ∈ (RootedHeap.strip back r t ts).objects, 0 < ts.count o r := stripAll_objects
  refine ⟨stripAll_size, fun o r' hr => ?_, ⟨⟨fun o => ?_⟩, fun o ho => ?_⟩, fun o => ?_,
    hobjects.1.filter _, fun o => ?_⟩
  · rw [hcount]
    simp [hr]
  · by_cases ho : Reach edges t o
    · have hsup : support' o = 0 := by
        by_contra hne
        exact hapart o o (Nat.pos_of_ne_zero hne) .refl ho
      -- whatever still has an edge to `o` is supported apart from the target
      have hflow : (RootedHeap.strip back r t ts).tallies.inflow edges r o = 0 := by
        refine Finset.sum_eq_zero fun p hp => List.count_eq_zero_of_not_mem fun hpo => ?_
        obtain ⟨htagged, hnot⟩ := hpos.mp (Tallies.mem_tags.mp hp)
        obtain ⟨s, hs, hreach⟩ := h.exists_support hsupport htagged hnot
        exact hapart s o hs (hreach.tail hpo) ho
      rw [hcount, hsup, hflow, if_pos ⟨hmem.mpr ho, rfl⟩]
    · have hot : o ≠ t := by
        rintro rfl
        exact ho .refl
      have hsup := hsupport o
      rw [if_neg hot, Nat.add_zero] at hsup
      rw [hcount, h.inflow_strip hback ht ho, ← hsup, ← h.count_eq, if_neg]
      rintro ⟨hin, _⟩
      exact ho (hmem.mp hin)
  · exact h.exists_support hsupport (hpos.mp ho).1 (hpos.mp ho).2
  · rw [hcount]
    split <;> omega
  · rw [Stripped.unrooted, List.mem_filter]
    constructor
    · rintro ⟨ho, hempty⟩
      exact ⟨hobjects.2 o ho, hempty⟩
    · rintro ⟨ho, hempty⟩
      refine ⟨hmem.mpr ?_, hempty⟩
      by_contra hnot
      have := hpos.mpr ⟨ho, hnot⟩
      have := Tallies.isEmptyAt_iff.mp hempty r
      omega

end Strip

end RootedHeap
