import RootedHeap.Proofs.Runs

/-! # What tallies say

Whatever a client that behaves well has done, the tally of a live object counts, for each root, the
root itself and the edges from objects that the root reaches, and nothing else.
-/

namespace RootedHeap

open World

variable {w : World} {todo : Multiset Task} {held : Multiset Holding} {owed : HeapId → ℤ}

/-- A root supports its registered target, once. -/
theorem World.Sound.support_eq {ts : Tallies} {strong : ObjId → Nat} {suspects : List ObjId}
    (h : w.Sound ts strong w.support suspects todo held owed) {g : HeapId} {o : ObjId}
    (ho : w.owns g o = true) (r : RootId) :
    w.support r o = if (w.registryAt g).target? r = some o then 1 else 0 := by
  have hnodup := h.accounted.roots_nodup g
  have hactive : (w.rootsAt g : Multiset (RootId × ObjId)).Nodup :=
    Multiset.coe_nodup.mpr hnodup.of_map
  rw [support_of_owns ho]
  split_ifs with htarget
  · exact Multiset.count_eq_one_of_mem hactive ((Registry.target?_eq_some_iff hnodup).mp htarget)
  · exact Multiset.count_eq_zero.mpr fun hmem =>
      htarget ((Registry.target?_eq_some_iff hnodup).mpr hmem)

/-- The registered target of a root is an object of the heap, and live. -/
theorem World.Sound.target {ts : Tallies} {strong : ObjId → Nat} {suspects : List ObjId}
    (h : w.Sound ts strong w.support suspects todo held owed) {g : HeapId} {r : RootId}
    {t : ObjId} (ht : (w.registryAt g).target? r = some t) :
    w.owns g t = true ∧ w.isLive t = true ∧ 0 < w.support r t := by
  have hactive := (Registry.target?_eq_some_iff (h.accounted.roots_nodup g)).mp ht
  obtain ⟨hlive, hown, hsupport⟩ := h.handle (h.accounted.exists_handle hactive)
  exact ⟨hown, hlive, hsupport⟩

/-- An object is tagged by a root exactly when the root is active and leads to it. -/
theorem World.Sound.count_pos_iff {ts : Tallies} {strong : ObjId → Nat} {suspects : List ObjId}
    (h : w.Sound ts strong w.support suspects todo held owed) {g : HeapId} {o : ObjId}
    (ho : w.owns g o = true) (r : RootId) :
    0 < ts.count o r ↔ ∃ t, (w.registryAt g).target? r = some t ∧ Reach w.out t o := by
  rw [(h.tallied.balanced r).count_pos_iff]
  constructor
  · rintro ⟨t, ht, hreach⟩
    have hlive := h.tallied.supported r t ht
    obtain ⟨g', hg'⟩ := exists_owns hlive
    have hgg : g' = g := owns_unique (h.guarded.owns_of_reach hlive hg' hreach) ho
    rw [h.support_eq (hgg ▸ hg')] at ht
    refine ⟨t, ?_, hreach⟩
    split at ht
    next htarget => exact htarget
    next => cases ht
  · rintro ⟨t, htarget, hreach⟩
    exact ⟨t, (h.target htarget).2.2, hreach⟩

/-- In every state of a client that behaves well, the tally of an object for a root is one if the
root is registered for the object, and one more for each edge from an object that the root tags; it
is positive exactly when the root is active and leads to the object; and every entry of the tally is
positive and of an active root. -/
theorem Client.Reached.tally_exact {c : Client} (h : c.Reached) {o : ObjId} {ob : Object}
    (hob : c.world.objects[o]? = some ob) :
    (∀ r, c.world.tallies.count o r =
      (if (c.world.registryAt ob.heap).target? r = some o then 1 else 0) +
        ∑ p ∈ (Finset.range c.world.objects.size).filter fun p => 0 < c.world.tallies.count p r,
          (c.world.out p).count o) ∧
    (∀ r, 0 < c.world.tallies.count o r ↔
      ∃ t, (c.world.registryAt ob.heap).target? r = some t ∧ Reach c.world.out t o) ∧
    ∀ tally, c.world.tallies[o]? = some tally → ∀ e ∈ tally.entries,
      0 < e.2 ∧ ∃ t, (c.world.registryAt ob.heap).target? e.1 = some t := by
  have hsound := h.sound.orderly
  have hown : c.world.owns ob.heap o = true := owns_iff.mpr ⟨ob, hob, rfl⟩
  refine ⟨fun r => ?_, fun r => World.Sound.count_pos_iff hsound hown r, fun tally htally e he => ?_⟩
  · have hcount := (hsound.tallied.balanced r).count_eq o
    rw [World.Sound.support_eq hsound hown] at hcount
    rw [hcount, Tallies.inflow, Tallies.tags, hsound.tallied.size_eq]
  · refine ⟨tally.valid.positive e he, ?_⟩
    have hroot : e.1 ∈ (c.world.tallies[o]?.getD .empty).roots := by
      rw [htally]
      exact List.mem_map_of_mem he
    obtain ⟨t, ht, -⟩ :=
      (World.Sound.count_pos_iff hsound hown e.1).mp (Tallies.mem_roots_iff.mp hroot)
    exact ⟨t, ht⟩

/-- The leaf of the chain is tagged by the root of the node, through the node's edge. -/
theorem Client.chain_tally_exact :
    chain.world.isLive 0 = true ∧ chain.world.tallies.count 0 2 =
      (if (chain.world.registryAt 0).target? 2 = some 0 then 1 else 0) +
        ∑ p ∈ (Finset.range chain.world.objects.size).filter fun p =>
          0 < chain.world.tallies.count p 2, (chain.world.out p).count 0 := by
  have hleaf : chain.world.objects[0]? =
      some { heap := 0, typeName := "leaf", value := .plain, strong := 2 } := by cbv
  exact ⟨by cbv, (chain_reached.1.tally_exact hleaf).1 2⟩

end RootedHeap
