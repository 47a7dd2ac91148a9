import Mathlib.Data.Set.Card
import RootedHeap.Proofs.Counters

/-! # The greatest garbage set

Reclaiming looks below the suspects for objects that no root reaches. Among these, a set is garbage
if its members account for all strong references to them. There is a greatest such set, and it is what
is collected (`reclaim_greatest`). Nothing has to be known of the world for this but that the strong
counts cover the edges between live objects.
-/

namespace RootedHeap

namespace World

/-- The edges into `o` from the objects of `sources`, each as often as it is reported. -/
def edgesInto (w : World) (sources : Finset ObjId) (o : ObjId) : Nat :=
  ∑ p ∈ sources, (w.out p).count o

/-- A live object that no root reaches, and that `unrooted` leads to along such objects. -/
def Exposed (w : World) (unrooted : List ObjId) (o : ObjId) : Prop :=
  ∃ u ∈ unrooted, w.candidate u = true ∧ Reach (fun p => (w.out p).filter w.candidate) u o

/-- Objects below `unrooted` that account for all strong references to them. -/
structure Enclosed (w : World) (unrooted : List ObjId) (D : Finset ObjId) : Prop where
  exposed : ∀ o ∈ D, w.Exposed unrooted o
  strong_le : ∀ o ∈ D, w.strongAt o ≤ w.edgesInto D o

variable {w : World} {unrooted : List ObjId} {o : ObjId}

theorem mem_garbage_order_iff : o ∈ (w.garbage unrooted).order ↔ w.Exposed unrooted o :=
  mem_garbage_order

theorem Exposed.candidate (h : w.Exposed unrooted o) : w.candidate o = true :=
  candidate_of_garbage (mem_garbage_order_iff.mpr h)

theorem Exposed.mem_lives (h : w.Exposed unrooted o) : o ∈ w.lives.toFinset :=
  Multiset.mem_toFinset.mpr (World.mem_lives.mpr (candidateIn_iff.mp h.candidate).1)

theorem finite_exposed (w : World) (unrooted : List ObjId) : {o | w.Exposed unrooted o}.Finite :=
  (Finset.finite_toSet w.lives.toFinset).subset fun _ ho => Exposed.mem_lives ho

/-- No more objects are exposed than are live. -/
theorem ncard_exposed_le (w : World) (unrooted : List ObjId) :
    {o | w.Exposed unrooted o}.ncard ≤ w.liveCount := by
  calc
    {o | w.Exposed unrooted o}.ncard ≤ (w.lives.toFinset : Set ObjId).ncard :=
      Set.ncard_le_ncard (fun _ ho => Exposed.mem_lives ho) (Finset.finite_toSet _)
    _ = w.lives.toFinset.card := Set.ncard_coe_finset _
    _ ≤ w.lives.card := Multiset.toFinset_card_le _
    _ = w.liveCount := (liveCount_eq_card w).symm

/-- The edges that a candidate receives from what was examined. -/
theorem count_order_eq (ho : w.candidate o = true) :
    ((w.garbage unrooted).order.flatMap (w.candidateEdges w.tallies)).count o =
      w.edgesInto (w.garbage unrooted).order.toFinset o := by
  have hnodup : (w.garbage unrooted).order.Nodup := nodup_order
  rw [edgesInto, List.sum_toFinset _ hnodup, List.count_flatMap]
  refine congrArg List.sum (List.map_congr_left fun p _ => ?_)
  exact List.count_filter ho

theorem edgesInto_mono {D E : Finset ObjId} (h : D ⊆ E) (o : ObjId) :
    w.edgesInto D o ≤ w.edgesInto E o :=
  Finset.sum_le_sum_of_subset h

/-- What is lost accounts for all strong references to it: what is examined does, and an edge from
what is kept would lead to another object that is kept. -/
theorem enclosed_lost : w.Enclosed unrooted (w.garbage unrooted).lost.toFinset := by
  constructor
  · intro o ho
    exact mem_garbage_order_iff.mp (mem_garbage_lost.mp (List.mem_toFinset.mp ho)).1
  · intro o ho
    obtain ⟨horder, hkept⟩ := mem_garbage_lost.mp (List.mem_toFinset.mp ho)
    have hcand := candidate_of_garbage horder
    have hstrong : w.strongAt o ≤ w.edgesInto (w.garbage unrooted).order.toFinset o := by
      rw [← count_order_eq hcand]
      by_contra hlt
      exact hkept (mem_garbage_kept.mpr ⟨o, horder, Nat.lt_of_not_le hlt, .refl⟩)
    -- no edge into `o` comes from what is kept
    have hinner : w.edgesInto (w.garbage unrooted).lost.toFinset o =
        w.edgesInto (w.garbage unrooted).order.toFinset o := by
      refine Finset.sum_subset (fun p hp => ?_) fun p hp hlost => ?_
      · exact List.mem_toFinset.mpr (mem_garbage_lost.mp (List.mem_toFinset.mp hp)).1
      · rw [List.mem_toFinset, mem_garbage_lost, not_and_not_right] at hlost
        obtain ⟨z, hz, hsupported, hreach⟩ := mem_garbage_kept.mp (hlost (List.mem_toFinset.mp hp))
        refine List.count_eq_zero.mpr fun hedge => hkept (mem_garbage_kept.mpr ?_)
        exact ⟨z, hz, hsupported, hreach.tail (mem_candidateEdges.mpr ⟨hedge, hcand⟩)⟩
    exact hinner ▸ hstrong

/-- What a supported object leads to has a strong reference that no enclosed set accounts for. The
supported object has one from outside all that was examined; on the way from it, the edge taken is
not from the set. -/
theorem Enclosed.notMem_of_kept {D : Finset ObjId} (h : w.Enclosed unrooted D)
    (hstrong : ∀ o < w.objects.size, w.edgesInto w.lives.toFinset o ≤ w.strongAt o)
    (ho : o ∈ (w.garbage unrooted).kept) : o ∉ D := by
  obtain ⟨z, hz, hsupported, hreach⟩ := mem_garbage_kept.mp ho
  have hcand := candidate_of_garbage hz
  -- along the path from `z`, no object is in `D`
  induction hreach with
  | refl =>
      intro hmem
      have hsub : D ⊆ (w.garbage unrooted).order.toFinset := fun p hp =>
        List.mem_toFinset.mpr (mem_garbage_order_iff.mpr (h.exposed p hp))
      rw [count_order_eq hcand] at hsupported
      have := h.strong_le z hmem
      have := edgesInto_mono (w := w) hsub z
      omega
  | @tail p q hzp hpq ih =>
      intro hmem
      have hp : p ∉ D := ih (mem_garbage_kept.mpr ⟨z, hz, hsupported, hzp⟩)
      have hlive : p ∈ w.lives.toFinset :=
        Multiset.mem_toFinset.mpr
          (mem_lives.mpr (candidateIn_iff.mp (candidate_of_reach hcand hzp)).1)
      have hlt : w.edgesInto D q < w.edgesInto w.lives.toFinset q :=
        Finset.sum_lt_sum_of_subset (fun x hx => (h.exposed x hx).mem_lives) hlive hp
          (List.count_pos_iff.mpr (mem_candidateEdges.mp hpq).1) fun _ _ _ => Nat.zero_le _
      have := h.strong_le q hmem
      have := hstrong q (lt_size_of_candidateEdges hpq)
      omega

/-- The trial deletion loses the greatest enclosed set. -/
theorem isGreatest_lost
    (hstrong : ∀ o < w.objects.size, w.edgesInto w.lives.toFinset o ≤ w.strongAt o) :
    IsGreatest {D | w.Enclosed unrooted D} (w.garbage unrooted).lost.toFinset := by
  refine ⟨enclosed_lost, fun D hD o ho => ?_⟩
  rw [List.mem_toFinset, mem_garbage_lost]
  refine ⟨mem_garbage_order_iff.mpr (hD.exposed o ho), fun hkept => ?_⟩
  exact hD.notMem_of_kept hstrong hkept ho

end World

open World

/-- Reclaiming collects what the trial deletion loses, if the heap counts that many objects. -/
theorem reclaim_lost (h : HeapId) (s : Session) :
    Ends (reclaim h) s (fun dead _ => dead = (s.world.garbage s.unrooted).lost) fun _ _ =>
      ∃ heap, s.world.heaps[h]? = some heap ∧
        heap.live < (s.world.garbage s.unrooted).lost.length := by
  unfold Ends reclaim
  dsimp only
  split_ifs with hnone hempty hkept
  · have hnil : s.unrooted = [] := List.isEmpty_iff.mp hnone
    simp [hnil, garbage, trial, explore]
  · exact (List.isEmpty_iff.mp hempty).symm
  · exact (List.isEmpty_iff.mp hempty).symm
  · have hcondemned : (s.world.condemn (s.world.garbage s.unrooted).lost).heaps =
        s.world.heaps := rfl
    rw [hcondemned]
    cases s.world.heaps[h]? with
    | none => rfl
    | some heap =>
        dsimp only
        by_cases hlt : heap.live < (s.world.garbage s.unrooted).lost.length
        · rw [if_pos hlt]
          exact ⟨heap, rfl, hlt⟩
        · rw [if_neg hlt]

/-- Whenever strong counts cover the edges between live objects and the heap counts as many objects
as are exposed, reclaiming collects the greatest enclosed set, each object once. It marks these
objects and moves them from the count of live objects to that of collected ones, and changes nothing
else about tallies, slots and objects. -/
theorem reclaim_greatest {w : World} {h : HeapId} {heap : Heap} (unrooted : List ObjId)
    (hheap : w.heaps[h]? = some heap)
    (hstrong : ∀ o < w.objects.size, w.edgesInto w.lives.toFinset o ≤ w.strongAt o)
    (hlive : {o | w.Exposed unrooted o}.ncard ≤ heap.live) :
    ∃ (dead : List ObjId) (s' : Session), reclaim h ⟨w, unrooted⟩ = .ok dead s' ∧ dead.Nodup ∧
      IsGreatest {D | w.Enclosed unrooted D} dead.toFinset ∧
      (∀ o : ObjId, s'.world.objects[o]? = w.objects[o]?.map fun ob =>
        if o ∈ dead then { ob with state := .collecting } else ob) ∧
      s'.world.tallies = w.tallies ∧ s'.world.slots = w.slots ∧ dead.length ≤ heap.live ∧
      ∃ heap' : Heap, s'.world.heaps[h]? = some heap' ∧ heap'.live = heap.live - dead.length ∧
        heap'.counters.collected = heap.counters.collected + dead.length := by
  have hgreatest : IsGreatest {D | w.Enclosed unrooted D} (w.garbage unrooted).lost.toFinset :=
    isGreatest_lost hstrong
  have hroom : (w.garbage unrooted).lost.length ≤ heap.live := by
    refine le_trans ?_ hlive
    rw [← List.toFinset_card_of_nodup nodup_garbage_lost, ← Set.ncard_coe_finset]
    exact Set.ncard_le_ncard (fun o ho => hgreatest.1.exposed o ho) (finite_exposed w unrooted)
  have hends : Ends (reclaim h) ⟨w, unrooted⟩ (fun dead s' =>
      dead = (w.garbage unrooted).lost ∧ w.Condemns h dead s'.world) fun _ _ => False := by
    apply ((reclaim_lost h ⟨w, unrooted⟩).and (reclaim_condemns h ⟨w, unrooted⟩)).mono
    · exact fun _ _ => id
    · rintro f s' ⟨⟨heap', hheap', hlt⟩, -⟩
      cases hheap.symm.trans hheap'
      exact absurd hlt (Nat.not_lt.mpr hroom)
  obtain ⟨_, s', hrun, rfl, hcondemns⟩ := hends.exists_ok
  -- the heap is still there, with other numbers
  have hsize : h < s'.world.heaps.size := by
    rw [hcondemns.size]
    exact (Array.getElem?_eq_some_iff.mp hheap).1
  have hheap' := Array.getElem?_eq_getElem hsize
  have hloses := hcondemns.heaps h heap _ hheap hheap'
  rw [if_pos rfl] at hloses
  exact ⟨_, s', hrun, hcondemns.nodup, hgreatest, hcondemns.object, hcondemns.tallies,
    hcondemns.slots, hroom, _, hheap', hloses.live, hloses.collected⟩

/-- A cycle of two objects, and a third object that one of them lists and a detached slot owns. No root
is left. -/
def floating : World where
  heaps := #[{ config := {}, live := 3 }]
  objects := #[{ heap := 0, typeName := "node", value := .slot 0 },
    { heap := 0, typeName := "node", value := .slot 1 },
    { heap := 0, typeName := "leaf", value := .plain, strong := 2 }]
  tallies := #[.empty, .empty, .empty]
  slots := #[.one (some 1), .many [0, 2], .one (some 2)]

/-- Only the cycle is collected. -/
theorem floating_reclaim : ∃ (dead : List ObjId) (s' : Session),
    reclaim 0 ⟨floating, [2, 0, 0]⟩ = .ok dead s' ∧
      IsGreatest {D | floating.Enclosed [2, 0, 0] D} dead.toFinset ∧ dead = [0, 1] ∧
        s'.world.isLive 2 = true := by
  have hstrong : ∀ o < floating.objects.size,
      floating.edgesInto floating.lives.toFinset o ≤ floating.strongAt o := by decide
  have hlive : {o | floating.Exposed [2, 0, 0] o}.ncard ≤ 3 := ncard_exposed_le floating [2, 0, 0]
  obtain ⟨dead, s', hrun, -, hgreatest, hobject, -⟩ :=
    reclaim_greatest (h := 0) [2, 0, 0] rfl hstrong hlive
  have hdead : dead = [0, 1] := by
    have hlost := reclaim_lost 0 ⟨floating, [2, 0, 0]⟩
    rw [Ends, hrun] at hlost
    exact hlost.trans (by cbv)
  refine ⟨dead, s', hrun, hgreatest, hdead, ?_⟩
  rw [isLive, hobject, hdead]
  rfl

end RootedHeap
