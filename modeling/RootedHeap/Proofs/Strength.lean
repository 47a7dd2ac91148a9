import Mathlib.Algebra.BigOperators.Group.Finset.Piecewise
import RootedHeap.Proofs.Interleaving
import RootedHeap.Proofs.Runs

/-! # Strong counts are exact

Between calls every strong reference is one of a root or one of a slot, and the strong counts say how
many there are (`Client.Reached.strong_exact`). A collected object that is to be put away has none
left: the values of all that were collected with it are dropped by then, and nothing else referred
to it.
-/

namespace RootedHeap

open World

namespace World

variable {w : World} {todo : Multiset Task} {held : Multiset Holding}

/-- How many active roots there are for `o`. -/
def rootCount (w : World) (o : ObjId) : Nat :=
  ∑ g ∈ Finset.range w.heaps.size, (w.rootsAt g).countP fun e => e.2 = o

/-- How many fields and list elements there are that point at `o`, in objects or outside them. -/
def slotCount (w : World) (o : ObjId) : Nat :=
  ∑ s ∈ Finset.range w.slots.size, (w.slotAt s).targets.count o

/-- A sum over some slots of all there are, the others adding nothing. -/
theorem sum_slots {slots : Multiset SlotId} {size : Nat} {f : SlotId → Nat} (hnodup : slots.Nodup)
    (hlt : ∀ s ∈ slots, s < size) (hidle : ∀ s ∉ slots, f s = 0) :
    (slots.map f).sum = ∑ s ∈ Finset.range size, f s := by
  have hsubset : (⟨slots, hnodup⟩ : Finset SlotId) ⊆ Finset.range size := by
    intro s hs
    exact Finset.mem_range.mpr (hlt s hs)
  exact Finset.sum_subset hsubset fun s _ hs => hidle s hs

/-- Each strong reference of a holding is that of a root or that of a slot. -/
theorem count_targets {x : Holding} (hx : ∀ a, x = .root a → a.heap < w.heaps.size) (o : ObjId) :
    (x.targets w).count o = (x.slots.map fun s => (w.slotAt s).targets.count o).sum +
      ∑ g ∈ Finset.range w.heaps.size, (x.entries g).countP fun e => e.2 = o := by
  cases x with
  | slot s => simp [Holding.targets, Holding.slots, Holding.entries]
  | weak => simp [Holding.targets, Holding.slots, Holding.entries]
  | root a =>
      have hlt := hx a rfl
      have hentry (g : HeapId) : ((Holding.root a).entries g).countP (fun e => e.2 = o) =
          if a.heap = g then if a.obj = o then 1 else 0 else 0 := by
        by_cases hg : a.heap = g
        · rw [Holding.entries, if_pos hg, if_pos hg, ← Multiset.cons_zero, Multiset.countP_cons,
            Multiset.countP_zero, zero_add]
        · simp [Holding.entries, hg]
      have hcount : (Holding.targets w (.root a)).count o = if a.obj = o then 1 else 0 := by
        simp [Holding.targets, Multiset.count_singleton, eq_comm]
      simp only [hentry, hcount, Holding.slots, Multiset.map_zero, Multiset.sum_zero, zero_add]
      rw [Finset.sum_ite_eq, if_pos (Finset.mem_range.mpr hlt)]

theorem count_bind_targets {xs : Multiset Holding}
    (hxs : ∀ a, .root a ∈ xs → a.heap < w.heaps.size) (o : ObjId) :
    (xs.bind (Holding.targets w)).count o =
      ((xs.bind Holding.slots).map fun s => (w.slotAt s).targets.count o).sum +
        ∑ g ∈ Finset.range w.heaps.size, (xs.bind (Holding.entries g)).countP fun e => e.2 = o := by
  induction xs using Multiset.induction with
  | empty => simp
  | cons x xs ih =>
      have hx : ∀ a, x = .root a → a.heap < w.heaps.size := by
        rintro a rfl
        exact hxs a (Multiset.mem_cons_self _ _)
      simp only [Multiset.cons_bind, Multiset.count_add, Multiset.map_add, Multiset.sum_add,
        Multiset.countP_add, Finset.sum_add_distrib]
      rw [count_targets hx, ih fun a ha => hxs a (Multiset.mem_cons_of_mem ha)]
      omega

/-- While no task is left, strong references are those of roots and those of slots. -/
theorem Accounted.strong_eq_add {strong : ObjId → Nat} (h : w.Accounted strong 0 held)
    (hguarded : w.Guarded 0 held) (o : ObjId) : strong o = w.rootCount o + w.slotCount o := by
  have hheap : ∀ a, .root a ∈ w.ledger 0 held → a.heap < w.heaps.size := by
    intro a ha
    obtain ⟨heap, hheap⟩ := hguarded.heap_some _ _ (hguarded.handle_owned a ha)
    exact (Array.getElem?_eq_some_iff.mp hheap).1
  have hroots : w.rootCount o = ∑ g ∈ Finset.range w.heaps.size,
      ((w.ledger 0 held).bind (Holding.entries g)).countP fun e => e.2 = o := by
    unfold rootCount
    simp only [← h.roots_eq, Multiset.coe_countP]
  have hslots : (((w.ledger 0 held).bind Holding.slots).map fun s =>
      (w.slotAt s).targets.count o).sum = w.slotCount o := by
    apply sum_slots h.slots_nodup h.slots_lt
    intro s hs
    rw [h.slots_idle s hs]
    rfl
  rw [h.strong_eq, refs, Multiset.zero_bind, add_zero, count_bind_targets hheap, hslots, hroots,
    add_comm]

end World

namespace Client

variable {c : Client}

/-- The first of the tasks that are left are carried out, and the others are left then. -/
theorem Reached.settle_first {first rest : List Task} (h : c.Reached)
    (htodo : c.todo = first ++ rest) :
    ∃ w, settle first c.world = .ok () w ∧ Reached { c with world := w, todo := rest } := by
  obtain ⟨w, held, heaps, todo, incoming⟩ := c
  dsimp only at htodo ⊢
  subst htodo
  fun_induction settle first w with
  | case1 w => exact ⟨w, rfl, h⟩
  | case2 t first w more w' hstep ih =>
      have hnext := h.stepped rfl hstep
      rw [List.append_eq, ← List.append_assoc] at hnext
      exact ih hnext
  | case3 t first w f w' hfault =>
      have horderly := h.sound.orderly
      unfold Orderly at horderly
      rw [List.cons_append, ← Multiset.cons_coe] at horderly
      exact ((Task.step_ends horderly).of_error hfault).elim

/-- Nothing refers to a collected object that is put away by the first tasks that are left, none of
which gives up a reference. -/
theorem Reached.strongAt_eq_zero {first rest : List Task} (h : c.Reached)
    (htodo : c.todo = first ++ rest) (hidle : ∀ u ∈ first, u.targets c.world = 0) {t : Task}
    (ht : t ∈ first) {o : ObjId} (ho : t.retires = some o) : c.world.strongAt o = 0 := by
  have hcrowd := (h.interleaved ()).sound
  have hmem : t ∈ (c.among ()).todo := by
    rw [todo_among, htodo]
    exact Multiset.mem_coe.mpr (List.mem_append_left _ ht)
  have hpairwise : c.todo.Pairwise c.world.Forsakes := hcrowd.pairwise ()
  -- what is put away is gone, so that only tasks can refer to it; the first ones do no longer, and
  -- the later ones come after it
  have hgone := hcrowd.gone hmem ho
  rw [h.sound.orderly.accounted.strong_eq]
  apply Multiset.count_eq_zero.mpr
  intro hrefs
  obtain ⟨u, hu, hou⟩ := h.sound.orderly.guarded.exists_task hgone hrefs
  rw [htodo] at hu hpairwise
  rcases List.mem_append.mp (Multiset.mem_coe.mp hu) with hu | hu
  · rw [hidle u hu] at hou
    cases hou
  · exact (List.pairwise_append.mp hpairwise).2.2 t ht u hu o ho hou

/-- Between calls the strong count of an object is the number of active roots for it and of fields and
list elements that point at it. When the values of all that a session collected are dropped, with
whatever that led to, none of them has a strong count left; so none is ever found to be referred to
still. -/
theorem Reached.strong_exact (h : c.Reached) :
    (c.AtRest → ∀ (o : ObjId) (ob : Object), c.world.objects[o]? = some ob →
      ob.strong = c.world.rootCount o + c.world.slotCount o) ∧
    (∀ g dead rest, c.todo = Task.finalizing g dead ++ rest →
      ∃ w, settle (dead.map .dropValue) c.world = .ok () w ∧ ∀ o ∈ dead, w.strongAt o = 0) ∧
    ∀ e ∈ c.world.log.toList, e.leaks = false := by
  refine ⟨fun hrest o ob hob => ?_, fun g dead rest htodo => ?_, (h.interleaved ()).sound.unleaked⟩
  · have hsteady := h.sound.steady hrest
    have hstrong := hsteady.accounted.strong_eq_add hsteady.guarded o
    rwa [strongAt, hob] at hstrong
  · rw [Task.finalizing, List.append_assoc] at htodo
    obtain ⟨w, hsettle, hnext⟩ := h.settle_first htodo
    refine ⟨w, hsettle, fun o ho => ?_⟩
    refine hnext.strongAt_eq_zero rfl (fun u hu => ?_) (List.mem_map_of_mem ho) rfl
    obtain ⟨p, -, rfl⟩ := List.mem_map.mp hu
    rfl

/-- A client with a node that points at itself. -/
def loop : Client :=
  (((({} : Client).call (.createHeap {})).call (.newField none)).call (.alloc 0 "node" (.slot 0))).call
    (.setField ⟨0, 1, 0⟩ 0 (some ⟨0, 1, 0⟩))

/-- Its handle is dropped, and the node is collected. -/
def unloop : Client :=
  (loop.begin (.drop ⟨0, 1, 0⟩)).advance

theorem loop_reached : loop.Reached ∧ loop.AtRest := by
  have hheaps : ((({} : Client).call (.createHeap {})).call (.newField none)).heaps = {0} := by cbv
  have hslots : ((({} : Client).call (.createHeap {})).call (.newField none)).held = {.slot 0} := by cbv
  have hheld : (((({} : Client).call (.createHeap {})).call (.newField none)).call
      (.alloc 0 "node" (.slot 0))).held = {.root ⟨0, 1, 0⟩} := by cbv
  have hvalue : (((({} : Client).call (.createHeap {})).call (.newField none)).call
      (.alloc 0 "node" (.slot 0))).world.valueAt 0 = .slot 0 := by cbv
  have hnode : (((({} : Client).call (.createHeap {})).call (.newField none)).call
      (.alloc 0 "node" (.slot 0))).Sees (.root ⟨0, 1, 0⟩) :=
    .held (hheld ▸ Multiset.mem_singleton_self _)
  refine Reached.call (Reached.call (Reached.call (Reached.call ⟨.start, rfl, rfl⟩ rfl (by cbv))
    ?_ (by cbv)) ⟨?_, by decide, ?_⟩ (by cbv)) ⟨hnode, ⟨.within hnode ?_, none, by cbv⟩, ?_⟩ (by cbv)
  · rintro b ⟨⟩
  · rw [hheaps]
    exact Multiset.mem_singleton_self 0
  · rw [hslots]
    exact le_refl _
  · rw [hvalue]
    exact List.mem_singleton_self _
  · rintro b ⟨⟩
    exact hnode

theorem unloop_reached : unloop.Reached := by
  have hheld : loop.held = {.root ⟨0, 1, 0⟩} := by cbv
  obtain ⟨hreached, hrest⟩ := loop_reached
  refine Reached.advance (hreached.begin hrest ?_ rfl)
  change _ ∈ loop.held
  rw [hheld]
  exact Multiset.mem_singleton_self _

/-- The node has a root and a slot, itself; once its value is dropped, it has neither. -/
theorem loop_strong_exact :
    (∃ ob, loop.world.objects[0]? = some ob ∧ ob.strong = 2 ∧ loop.world.rootCount 0 = 1 ∧
      ob.strong = loop.world.rootCount 0 + loop.world.slotCount 0) ∧
    unloop.world.strongAt 0 = 1 ∧
    ∃ w, settle [.dropValue 0] unloop.world = .ok () w ∧ w.strongAt 0 = 0 := by
  have hnode : loop.world.objects[0]? =
      some { heap := 0, typeName := "node", value := .slot 0, strong := 2 } := by cbv
  have htodo : unloop.todo = Task.finalizing 0 [0] ++ [.leave 0] := by cbv
  obtain ⟨w, hsettle, hstrong⟩ := unloop_reached.strong_exact.2.1 0 [0] [.leave 0] htodo
  refine ⟨⟨_, hnode, rfl, by cbv, ?_⟩, by cbv, w, hsettle, ?_⟩
  · exact loop_reached.1.strong_exact.1 loop_reached.2 0 _ hnode
  · exact hstrong 0 (List.mem_singleton_self 0)

end Client

end RootedHeap
