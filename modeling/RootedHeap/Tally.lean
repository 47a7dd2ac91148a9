import RootedHeap.Ident
import RootedHeap.Sum

/-! # Root tallies

A tally counts, root by root, the edges through which roots reach one object. Entries are kept in
ascending order of roots and no entry is zero, so a tally is determined by its counts
(`Tally.ext_count`) and is empty exactly when no root reaches the object (`Tally.isEmpty_iff`).
-/

namespace RootedHeap

namespace Tally

/-- The count of `r` in a list of entries, zero when there is none. -/
def countIn (r : RootId) : List (RootId × Nat) → Nat
  | [] => 0
  | (s, c) :: rest => if s = r then c else countIn r rest

/-- Count one more edge of `r`, keeping the roots ascending. -/
def raise (r : RootId) : List (RootId × Nat) → List (RootId × Nat)
  | [] => [(r, 1)]
  | (s, c) :: rest =>
    if r < s then (r, 1) :: (s, c) :: rest
    else if s = r then (s, c + 1) :: rest
    else (s, c) :: raise r rest

/-- Count one edge of `r` less; an entry that reaches zero goes. -/
def reduce (r : RootId) : List (RootId × Nat) → List (RootId × Nat)
  | [] => []
  | (s, c) :: rest =>
    if s = r then (if c ≤ 1 then rest else (s, c - 1) :: rest)
    else (s, c) :: reduce r rest

/-- Roots ascend and no count is zero. -/
structure Valid (entries : List (RootId × Nat)) : Prop where
  ascending : entries.Pairwise (·.1 < ·.1)
  positive : ∀ entry ∈ entries, 0 < entry.2

theorem mem_raise {r : RootId} {entries : List (RootId × Nat)} {e : RootId × Nat}
    (h : e ∈ raise r entries) : e.1 = r ∨ ∃ e' ∈ entries, e'.1 = e.1 := by
  fun_induction raise r entries with
  | case1 => simp_all
  | case2 s c rest hlt =>
    rcases List.mem_cons.1 h with rfl | h
    · exact .inl rfl
    · exact .inr ⟨e, h, rfl⟩
  | case3 c rest => grind
  | case4 s c rest _ _ ih => grind

theorem mem_reduce {r : RootId} {entries : List (RootId × Nat)} {e : RootId × Nat}
    (h : e ∈ reduce r entries) : ∃ e' ∈ entries, e'.1 = e.1 := by
  fun_induction reduce r entries with
  | case1 => simp at h
  | case2 c rest _ => exact ⟨e, List.mem_cons_of_mem _ h, rfl⟩
  | case3 c rest _ =>
    rcases List.mem_cons.1 h with rfl | h
    · exact ⟨(r, c), List.mem_cons_self .., rfl⟩
    · exact ⟨e, List.mem_cons_of_mem _ h, rfl⟩
  | case4 s c rest _ ih => grind

theorem Valid.raise {entries : List (RootId × Nat)} (h : Valid entries) (r : RootId) :
    Valid (raise r entries) := by
  obtain ⟨ha, hp⟩ := h
  fun_induction Tally.raise r entries with
  | case1 => exact ⟨by simp, by simp⟩
  | case2 s c rest hlt =>
    refine ⟨List.pairwise_cons.2 ⟨?_, ha⟩, by grind⟩
    have := (List.pairwise_cons.1 ha).1
    grind
  | case3 c rest =>
    have := List.pairwise_cons.1 ha
    exact ⟨List.pairwise_cons.2 this, by grind⟩
  | case4 s c rest hlt hne ih =>
    have hrest := List.pairwise_cons.1 ha
    have := ih hrest.2 (fun e he => hp e (List.mem_cons_of_mem _ he))
    refine ⟨List.pairwise_cons.2 ⟨fun e he => ?_, this.1⟩, fun e he => ?_⟩
    · rcases mem_raise he with h | ⟨e', he', h⟩
      · simp only [h]; lia
      · rw [← h]; exact hrest.1 e' he'
    · rcases List.mem_cons.1 he with rfl | he
      · exact hp _ (List.mem_cons_self ..)
      · exact this.2 e he

theorem Valid.reduce {entries : List (RootId × Nat)} (h : Valid entries) (r : RootId) :
    Valid (reduce r entries) := by
  obtain ⟨ha, hp⟩ := h
  fun_induction Tally.reduce r entries with
  | case1 => exact ⟨ha, hp⟩
  | case2 c rest hle => exact ⟨(List.pairwise_cons.1 ha).2, by grind⟩
  | case3 c rest hgt => exact ⟨List.pairwise_cons.2 (List.pairwise_cons.1 ha), by grind⟩
  | case4 s c rest hne ih =>
    have hrest := List.pairwise_cons.1 ha
    have := ih hrest.2 (fun e he => hp e (List.mem_cons_of_mem _ he))
    refine ⟨List.pairwise_cons.2 ⟨fun e he => ?_, this.1⟩, fun e he => ?_⟩
    · obtain ⟨e', he', h⟩ := mem_reduce he
      rw [← h]; exact hrest.1 e' he'
    · rcases List.mem_cons.1 he with rfl | he
      · exact hp _ (List.mem_cons_self ..)
      · exact this.2 e he

theorem Valid.filter {entries : List (RootId × Nat)} (h : Valid entries)
    (p : RootId × Nat → Bool) : Valid (entries.filter p) :=
  ⟨h.ascending.filter p, fun e he => h.positive e (List.mem_filter.1 he).1⟩

end Tally

/-- How many counted edges from each root currently reach an object. -/
structure Tally where
  entries : List (RootId × Nat)
  valid : Tally.Valid entries
  deriving DecidableEq

namespace Tally

/-- The tally of an object that no root reaches. -/
def empty : Tally := ⟨[], by simp, by simp⟩

instance : Inhabited Tally := ⟨empty⟩

/-- How many counted edges of `r` reach the object. -/
def count (t : Tally) (r : RootId) : Nat := countIn r t.entries

/-- No root reaches the object. -/
def isEmpty (t : Tally) : Bool := t.entries.isEmpty

/-- The roots that reach the object, ascending. -/
def roots (t : Tally) : List RootId := t.entries.map (·.1)

/-- One more edge of `r`. -/
def bump (t : Tally) (r : RootId) : Tally := ⟨raise r t.entries, t.valid.raise r⟩

/-- One edge of `r` less; nothing changes when `r` does not reach the object. -/
def lower (t : Tally) (r : RootId) : Tally := ⟨reduce r t.entries, t.valid.reduce r⟩

/-- Forget `r` entirely. -/
def strip (t : Tally) (r : RootId) : Tally :=
  ⟨t.entries.filter (·.1 ≠ r), t.valid.filter _⟩

theorem countIn_eq_zero_of_lt {r : RootId} {entries : List (RootId × Nat)}
    (h : ∀ e ∈ entries, r < e.1) : countIn r entries = 0 := by
  induction entries with
  | nil => rfl
  | cons e rest ih => grind [countIn]

theorem countIn_raise {entries : List (RootId × Nat)} (h : Valid entries) (r s : RootId) :
    countIn s (raise r entries) = countIn s entries + if s = r then 1 else 0 := by
  obtain ⟨ha, hp⟩ := h
  fun_induction Tally.raise r entries with
  | case1 => grind [countIn]
  | case2 s' c rest hlt =>
    have h0 : countIn r ((s', c) :: rest) = 0 := by
      refine countIn_eq_zero_of_lt fun e he => ?_
      rcases List.mem_cons.1 he with rfl | he
      · exact hlt
      · have := (List.pairwise_cons.1 ha).1 e he
        simp only at this
        lia
    by_cases hs : s = r
    · subst hs
      rw [h0]
      simp [countIn]
    · have : r ≠ s := fun h => hs h.symm
      simp [countIn, hs, this]
  | case3 c rest => grind [countIn]
  | case4 s' c rest _ _ ih =>
    have := ih (List.pairwise_cons.1 ha).2 (fun e he => hp e (List.mem_cons_of_mem _ he))
    grind [countIn]

theorem countIn_reduce {entries : List (RootId × Nat)} (h : Valid entries) (r s : RootId) :
    countIn s (reduce r entries) = countIn s entries - if s = r then 1 else 0 := by
  obtain ⟨ha, hp⟩ := h
  fun_induction Tally.reduce r entries with
  | case1 => simp [countIn]
  | case2 c rest hle =>
    have h0 : countIn r rest = 0 := countIn_eq_zero_of_lt (List.pairwise_cons.1 ha).1
    by_cases hs : s = r
    · subst hs; simp [countIn, h0]; omega
    · simp [countIn, Ne.symm hs, hs]
  | case3 c rest hgt => grind [countIn]
  | case4 s' c rest _ ih =>
    have := ih (List.pairwise_cons.1 ha).2 (fun e he => hp e (List.mem_cons_of_mem _ he))
    grind [countIn]

theorem countIn_filter_ne (entries : List (RootId × Nat)) (r s : RootId) :
    countIn s (entries.filter (·.1 ≠ r)) = if s = r then 0 else countIn s entries := by
  induction entries with
  | nil => simp [countIn]
  | cons e rest ih =>
    by_cases he : e.1 = r <;> grind [countIn]

@[simp] theorem count_empty (r : RootId) : empty.count r = 0 := rfl

theorem count_bump (t : Tally) (r s : RootId) :
    (t.bump r).count s = t.count s + if s = r then 1 else 0 := countIn_raise t.valid r s

theorem count_lower (t : Tally) (r s : RootId) :
    (t.lower r).count s = t.count s - if s = r then 1 else 0 := countIn_reduce t.valid r s

theorem count_strip (t : Tally) (r s : RootId) :
    (t.strip r).count s = if s = r then 0 else t.count s := countIn_filter_ne t.entries r s

@[simp] theorem count_bump_self (t : Tally) (r : RootId) : (t.bump r).count r = t.count r + 1 := by
  simp [count_bump]

@[simp] theorem count_lower_self (t : Tally) (r : RootId) :
    (t.lower r).count r = t.count r - 1 := by simp [count_lower]

@[simp] theorem count_strip_self (t : Tally) (r : RootId) : (t.strip r).count r = 0 := by
  simp [count_strip]

theorem count_pos_iff (t : Tally) (r : RootId) : 0 < t.count r ↔ r ∈ t.roots := by
  have hp := t.valid.positive
  simp only [count, roots]
  generalize t.entries = entries at hp
  induction entries with
  | nil => simp [countIn]
  | cons e rest ih =>
    have := ih fun x hx => hp x (List.mem_cons_of_mem _ hx)
    have := hp e (List.mem_cons_self ..)
    grind [countIn]

theorem Valid.tail {e : RootId × Nat} {rest : List (RootId × Nat)} (h : Valid (e :: rest)) :
    Valid rest :=
  ⟨(List.pairwise_cons.1 h.ascending).2, fun x hx => h.positive x (List.mem_cons_of_mem _ hx)⟩

theorem Valid.countIn_tail {e : RootId × Nat} {rest : List (RootId × Nat)} (h : Valid (e :: rest))
    {r : RootId} (hr : r ≤ e.1) : countIn r rest = 0 :=
  countIn_eq_zero_of_lt fun x hx =>
    Nat.lt_of_le_of_lt hr ((List.pairwise_cons.1 h.ascending).1 x hx)

/-- Entries that count alike are the same. -/
theorem Valid.eq_of_countIn {entries entries' : List (RootId × Nat)} (h : Valid entries)
    (h' : Valid entries') (hc : ∀ r, countIn r entries = countIn r entries') :
    entries = entries' := by
  induction entries generalizing entries' with
  | nil =>
    cases entries' with
    | nil => rfl
    | cons e rest =>
      have := h'.positive e (List.mem_cons_self ..)
      have := hc e.1
      simp only [countIn, ↓reduceIte] at this
      omega
  | cons e rest ih =>
    have hpos := h.positive e (List.mem_cons_self ..)
    cases entries' with
    | nil =>
      have := hc e.1
      simp only [countIn, ↓reduceIte] at this
      omega
    | cons e' rest' =>
      have hpos' := h'.positive e' (List.mem_cons_self ..)
      have hroot : e.1 = e'.1 := by
        rcases Nat.lt_trichotomy e.1 e'.1 with hlt | heq | hlt
        · have := hc e.1
          have := h'.countIn_tail (Nat.le_of_lt hlt)
          grind [countIn]
        · exact heq
        · have := hc e'.1
          have := h.countIn_tail (Nat.le_of_lt hlt)
          grind [countIn]
      have hcount : e.2 = e'.2 := by
        have := hc e.1
        simpa [countIn, hroot] using this
      have hrest : rest = rest' := by
        refine ih h.tail h'.tail fun r => ?_
        by_cases hr : e.1 = r
        · rw [h.countIn_tail (Nat.le_of_eq hr.symm),
            h'.countIn_tail (Nat.le_of_eq (hroot ▸ hr.symm))]
        · have := hc r
          have hr' : e'.1 ≠ r := hroot ▸ hr
          simpa [countIn, hr, hr'] using this
      rw [hrest, show e = e' from Prod.ext hroot hcount]

/-- A tally is determined by its counts. -/
theorem ext_count {t t' : Tally} (h : ∀ r, t.count r = t'.count r) : t = t' := by
  have := t.valid.eq_of_countIn t'.valid h
  cases t
  cases t'
  simp_all

theorem isEmpty_iff (t : Tally) : t.isEmpty = true ↔ ∀ r, t.count r = 0 := by
  constructor
  · intro h r
    simp only [isEmpty, List.isEmpty_iff] at h
    simp [count, h, countIn]
  · intro h
    cases he : t.entries with
    | nil => simp [isEmpty, he]
    | cons e rest =>
      have hmem : e.1 ∈ t.roots := by simp [roots, he]
      have := (t.count_pos_iff e.1).2 hmem
      have := h e.1
      omega

end Tally

/-- The tallies of all objects, by object. -/
abbrev Tallies := Array Tally

namespace Tallies

/-- The count of `r` at `o`; zero for an object that does not exist. -/
def count (ts : Tallies) (o : ObjId) (r : RootId) : Nat :=
  match ts[o]? with
  | some t => t.count r
  | none => 0

/-- No root reaches `o`; true for an object that does not exist. -/
def isEmptyAt (ts : Tallies) (o : ObjId) : Bool :=
  match ts[o]? with
  | some t => t.isEmpty
  | none => true

/-- All edges counted under `r`. -/
def total (ts : Tallies) (r : RootId) : Nat := sumOf (·.count r) ts.toList

/-- How many objects `r` does not reach. -/
def untagged (ts : Tallies) (r : RootId) : Nat := ts.toList.countP (·.count r = 0)

/-- How many objects `r` reaches. -/
def tagged (ts : Tallies) (r : RootId) : Nat := ts.toList.countP (·.count r ≠ 0)

theorem total_set (ts : Tallies) {o : ObjId} (h : o < ts.size) (t : Tally) (r : RootId) :
    total (ts.set o t) r + ts[o].count r = total ts r + t.count r := by
  have hl : o < ts.toList.length := by simpa using h
  have := sumOf_set (·.count r) hl t
  simpa [total] using this

theorem untagged_set_tagged (ts : Tallies) {o : ObjId} (h : o < ts.size) (t : Tally) (r : RootId)
    (h0 : ts[o].count r = 0) (ht : t.count r ≠ 0) :
    untagged (ts.set o t) r < untagged ts r := by
  have hl : o < ts.toList.length := by simpa using h
  have hpos : 0 < ts.toList.countP (fun t => decide (t.count r = 0)) :=
    List.countP_pos_iff.2 ⟨ts[o], by simp, by simpa using h0⟩
  simp only [untagged, Array.toList_set]
  rw [List.countP_set hl]
  simp only [Array.getElem_toList, h0, ht, decide_true, decide_false, ↓reduceIte, Bool.false_eq_true]
  omega

theorem untagged_set_of_ne (ts : Tallies) {o : ObjId} (h : o < ts.size) (t : Tally) (r : RootId)
    (h0 : ts[o].count r ≠ 0) (ht : t.count r ≠ 0) :
    untagged (ts.set o t) r = untagged ts r := by
  have hl : o < ts.toList.length := by simpa using h
  simp only [untagged, Array.toList_set]
  rw [List.countP_set hl]
  simp [h0, ht]

theorem tagged_set_untagged (ts : Tallies) {o : ObjId} (h : o < ts.size) (t : Tally) (r : RootId)
    (h0 : ts[o].count r ≠ 0) (ht : t.count r = 0) :
    tagged (ts.set o t) r < tagged ts r := by
  have hl : o < ts.toList.length := by simpa using h
  have hpos : 0 < ts.toList.countP (fun t => decide (t.count r ≠ 0)) :=
    List.countP_pos_iff.2 ⟨ts[o], by simp, by simpa using h0⟩
  simp only [tagged, Array.toList_set]
  rw [List.countP_set hl]
  simp only [Array.getElem_toList, h0, ht, ne_eq, not_false_eq_true, not_true_eq_false, decide_true,
    decide_false, ↓reduceIte, Bool.false_eq_true] at hpos ⊢
  omega

end Tallies

end RootedHeap
