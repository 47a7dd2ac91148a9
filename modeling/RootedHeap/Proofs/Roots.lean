import Mathlib.Data.List.Nodup
import Mathlib.Data.Multiset.AddSub
import RootedHeap.Registry

/-! # Active roots

Roots are registered once, so a registry is as good as the collection of its entries: withdrawing a
root takes its entry away, and redirecting one exchanges its entry.
-/

namespace RootedHeap.Registry

/-- The registry after `r` was withdrawn. -/
def without (g : Registry) (r : RootId) : Registry := ⟨g.next, g.active.filter (·.1 ≠ r)⟩

/-- The registry after `r` was pointed at `target`. -/
def redirect (g : Registry) (r : RootId) (target : ObjId) : Registry :=
  ⟨g.next, g.active.map fun e => if e.1 = r then (r, target) else e⟩

theorem release_eq {g : Registry} {r : RootId} {o : ObjId} (h : g.target? r = some o) :
    g.release r = .ok (o, g.without r) := by
  unfold release
  rw [h]
  rfl

theorem release_eq_ok_iff {g roots : Registry} {r : RootId} {o : ObjId} :
    g.release r = .ok (o, roots) ↔ g.target? r = some o ∧ g.without r = roots := by
  constructor
  · intro h
    cases htarget : g.target? r with
    | none =>
        simp only [release, htarget] at h
        cases h
    | some o' =>
        rw [release_eq htarget] at h
        cases h
        exact ⟨rfl, rfl⟩
  · rintro ⟨htarget, rfl⟩
    exact release_eq htarget

theorem retarget_eq {g : Registry} {r : RootId} {o t : ObjId} (h : g.target? r = some o) :
    g.retarget r t = .ok (o, g.redirect r t) := by
  unfold retarget
  rw [h]
  rfl

theorem retarget_eq_ok_iff {g roots : Registry} {r : RootId} {o t : ObjId} :
    g.retarget r t = .ok (o, roots) ↔ g.target? r = some o ∧ g.redirect r t = roots := by
  constructor
  · intro h
    cases htarget : g.target? r with
    | none =>
        simp only [retarget, htarget] at h
        cases h
    | some o' =>
        rw [retarget_eq htarget] at h
        cases h
        exact ⟨rfl, rfl⟩
  · rintro ⟨htarget, rfl⟩
    exact retarget_eq htarget

theorem lookup_eq_some_iff {active : List (RootId × ObjId)} (hnodup : (active.map Prod.fst).Nodup)
    {r : RootId} {o : ObjId} : active.lookup r = some o ↔ (r, o) ∈ active := by
  induction active with
  | nil => simp
  | cons e rest ih =>
      obtain ⟨hnot, hrest⟩ := List.nodup_cons.mp hnodup
      obtain ⟨r', o'⟩ := e
      by_cases hr : r = r'
      · subst hr
        have hfresh : (r, o) ∉ rest := fun hmem => hnot (List.mem_map.mpr ⟨_, hmem, rfl⟩)
        simp [hfresh, eq_comm]
      · have hbeq : (r == r') = false := by simpa using hr
        have hlookup : List.lookup r ((r', o') :: rest) = List.lookup r rest := by
          rw [List.lookup_cons, hbeq]
        rw [hlookup, ih hrest]
        simp [hr]

variable {g : Registry} {r : RootId} {o t : ObjId}

theorem target?_eq_some_iff (hnodup : (g.active.map Prod.fst).Nodup) :
    g.target? r = some o ↔ (r, o) ∈ g.active :=
  lookup_eq_some_iff hnodup

/-- A root that was registered once has no other entry. -/
theorem filter_ne_eq_self {active : List (RootId × ObjId)} (h : r ∉ active.map Prod.fst) :
    active.filter (·.1 ≠ r) = active := by
  refine List.filter_eq_self.mpr ?_
  intro e he
  have hne : e.1 ≠ r := fun heq => h (List.mem_map.mpr ⟨e, he, heq⟩)
  simpa using hne

theorem filter_eq_erase {active : List (RootId × ObjId)} (hnodup : (active.map Prod.fst).Nodup)
    (hmem : (r, o) ∈ active) :
    ((active.filter (·.1 ≠ r) : List (RootId × ObjId)) : Multiset (RootId × ObjId)) =
      (active : Multiset (RootId × ObjId)).erase (r, o) := by
  induction active with
  | nil => simp at hmem
  | cons e rest ih =>
      obtain ⟨hnot, hrest⟩ := List.nodup_cons.mp hnodup
      rcases List.mem_cons.mp hmem with heq | hmem'
      · rw [← heq] at hnot
        rw [← heq, List.filter_cons_of_neg (by simp), filter_ne_eq_self hnot,
          ← Multiset.cons_coe, Multiset.erase_cons_head]
      · have hne : e.1 ≠ r := fun heq => hnot (List.mem_map.mpr ⟨_, hmem', heq.symm⟩)
        have hne' : (r, o) ≠ e := fun heq => hne (heq ▸ rfl)
        rw [List.filter_cons_of_pos (by simpa using hne), ← Multiset.cons_coe, ih hrest hmem',
          ← Multiset.cons_coe, Multiset.erase_cons_tail _ hne'.symm]

theorem without_eq_erase (hnodup : (g.active.map Prod.fst).Nodup) (hmem : (r, o) ∈ g.active) :
    ((g.without r).active : Multiset (RootId × ObjId)) =
      (g.active : Multiset (RootId × ObjId)).erase (r, o) :=
  filter_eq_erase hnodup hmem

theorem map_eq_cons_filter {active : List (RootId × ObjId)}
    (hnodup : (active.map Prod.fst).Nodup) (hmem : (r, o) ∈ active) :
    ((active.map fun e => if e.1 = r then (r, t) else e : List (RootId × ObjId)) :
      Multiset (RootId × ObjId)) =
        (r, t) ::ₘ (active.filter (·.1 ≠ r) : List (RootId × ObjId)) := by
  induction active with
  | nil => simp at hmem
  | cons e rest ih =>
      obtain ⟨hnot, hrest⟩ := List.nodup_cons.mp hnodup
      by_cases he : e.1 = r
      · rw [he] at hnot
        have hmap : (rest.map fun e => if e.1 = r then (r, t) else e) = rest := by
          refine (List.map_congr_left ?_).trans (List.map_id rest)
          intro e' he'
          exact if_neg fun heq => hnot (List.mem_map.mpr ⟨e', he', heq⟩)
        rw [List.map_cons, if_pos he, hmap, List.filter_cons_of_neg (by simpa using he),
          filter_ne_eq_self hnot, Multiset.cons_coe]
      · have hmem' : (r, o) ∈ rest := by
          rcases List.mem_cons.mp hmem with heq | hmem
          · exact absurd (heq ▸ rfl) he
          · exact hmem
        rw [List.map_cons, if_neg he, List.filter_cons_of_pos (by simpa using he),
          ← Multiset.cons_coe, ih hrest hmem', ← Multiset.cons_coe, Multiset.cons_swap]

/-- Redirecting a root is withdrawing it and registering it again. -/
theorem redirect_eq_cons (hnodup : (g.active.map Prod.fst).Nodup) (hmem : (r, o) ∈ g.active) :
    ((g.redirect r t).active : Multiset (RootId × ObjId)) =
      (r, t) ::ₘ ((g.without r).active : Multiset (RootId × ObjId)) :=
  map_eq_cons_filter hnodup hmem

theorem keys_redirect : (g.redirect r t).active.map Prod.fst = g.active.map Prod.fst := by
  unfold redirect
  rw [List.map_map]
  refine List.map_congr_left ?_
  intro e _
  simp only [Function.comp_apply]
  split
  next he => exact he.symm
  next => rfl

theorem lookup_cons_ite (r r' : RootId) (o : ObjId) (active : List (RootId × ObjId)) :
    ((r, o) :: active).lookup r' = if r' = r then some o else active.lookup r' := by
  rw [List.lookup_cons]
  by_cases hr : r' = r
  · simp [hr]
  · rw [beq_false_of_ne hr, if_neg hr]

theorem lookup_filter_ne (r r' : RootId) (active : List (RootId × ObjId)) :
    (active.filter (·.1 ≠ r)).lookup r' = if r' = r then none else active.lookup r' := by
  induction active with
  | nil => simp
  | cons e active ih =>
      obtain ⟨s, o⟩ := e
      by_cases hs : s = r
      · rw [List.filter_cons_of_neg (by simpa using hs), ih, lookup_cons_ite, hs]
        split_ifs <;> rfl
      · rw [List.filter_cons_of_pos (by simpa using hs), lookup_cons_ite, lookup_cons_ite, ih]
        by_cases hr : r' = s
        · rw [if_pos hr, if_pos hr, if_neg (hr ▸ hs)]
        · rw [if_neg hr, if_neg hr]

theorem target?_acquire (r' : RootId) :
    (g.acquire t).2.target? r' = if r' = g.next then some t else g.target? r' :=
  lookup_cons_ite g.next r' t g.active

theorem target?_of_without {r' : RootId} (h : (g.without r).target? r' = some t) :
    g.target? r' = some t := by
  have hlookup := lookup_filter_ne r r' g.active
  unfold target? without at *
  rw [hlookup] at h
  split_ifs at h
  exact h

/-- A root of a registry that was redirected points where it did, or at the new target. -/
theorem target?_of_redirect {r' : RootId} {t' : ObjId}
    (h : (g.redirect r t).target? r' = some t') : g.target? r' = some t' ∨ t' = t := by
  unfold target? redirect at *
  dsimp only at h
  generalize g.active = active at *
  induction active with
  | nil => simp at h
  | cons e active ih =>
      obtain ⟨s, o⟩ := e
      rw [List.map_cons] at h
      rw [lookup_cons_ite]
      by_cases hs : s = r
      · subst hs
        rw [if_pos rfl, lookup_cons_ite] at h
        split_ifs at h ⊢
        · exact .inr (Option.some.inj h).symm
        · exact ih h
      · rw [if_neg hs, lookup_cons_ite] at h
        split_ifs at h ⊢
        · exact .inl h
        · exact ih h

end RootedHeap.Registry
