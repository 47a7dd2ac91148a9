import RootedHeap.Proofs.Shedding
import RootedHeap.Proofs.Strength

/-! # Taking out of a field

A field's reference can be taken out, or copied before the field is cleared. Either way the new root
tags what the reference leads to before the owner's roots lose it, so that nothing is collected, and
in the end everything is the same (`Client.Reached.take_eq_get_set`).
-/

namespace RootedHeap

open World

namespace World

section Field

variable {w : World} {todo : Multiset Task} {held : Multiset Holding} {owed : HeapId → ℤ}
  {a : Handle} {s : SlotId} (h : w.Steady todo held owed) (ha : .root a ∈ w.ledger todo held)
  (hs : s ∈ (w.valueAt a.obj).connectSlots)

include h ha hs

/-- Clearing a field after its reference was copied collects nothing: the copy still roots it. -/
theorem Steady.clear_field {b : Handle} (hslot : w.slotAt s = .one (some b.obj))
    (hb : .root b ∈ w.ledger todo held) :
    ∃ w', a.setField s none w = .ok () w' ∧ w'.Steady todo held owed ∧
      (w.writeSlot s (.one none)).Alike w' := by
  have hnone : ∀ t ∈ (none : Option ObjId), w.isLive t = true ∧ w.owns a.heap t = true := by simp
  have hreturns := Handle.storeField_returns (h.settled a.heap) ha hs hslot hnone
  obtain ⟨w', hrun, hsteady, halike, -⟩ := run_quiet (b := ()) <| hreturns.mono (fun _ s' hs => by
    refine ⟨rfl, hs.1, fun u hu => ⟨b, hb, ?_⟩⟩
    obtain ⟨o, ho, hreach⟩ := (hs.2 u hu).resolve_left List.not_mem_nil
    cases ho
    exact hreach) fun _ _ hf => hf
  exact ⟨w', hrun, hsteady, halike⟩

/-- A null field is cleared again. -/
theorem Steady.clear_null (hslot : w.slotAt s = .one none) :
    ∃ w', a.setField s none w = .ok () w' ∧ w'.Steady todo held owed ∧ w.Alike w' := by
  have hnone : ∀ t ∈ (none : Option ObjId), w.isLive t = true ∧ w.owns a.heap t = true := by simp
  have hreturns := Handle.storeField_returns (h.settled a.heap) ha hs hslot hnone
  rw [← hslot, writeSlot_self] at hreturns
  obtain ⟨w', hrun, hsteady, halike, -⟩ := run_quiet (b := ()) <| hreturns.mono (fun _ s' hs => by
    refine ⟨rfl, hs.1, fun u hu => ?_⟩
    obtain ⟨o, ho, -⟩ := (hs.2 u hu).resolve_left List.not_mem_nil
    cases ho) fun _ _ hf => hf
  exact ⟨w', hrun, hsteady, halike⟩

/-- Reading a field that points at `o`. -/
theorem Steady.get_field (hpos : 0 < w.holdersAt a.heap) {o : ObjId}
    (hslot : w.slotAt s = .one (some o)) :
    ∃ w', a.getField s w = .ok (some (w.issue a.heap o)) w' ∧
      w'.Steady todo (.root (w.issue a.heap o) ::ₘ held) owed ∧
      ((w.issued a.heap o).enter a.heap).Alike w' := by
  have hsettled := h.settled a.heap
  obtain ⟨heap, hheap⟩ := h.accounted.exists_heap ha
  obtain ⟨hlive, hown⟩ := hsettled.of_mem_slot ha hs (o := o) (by simp [hslot, Slot.targets])
  obtain ⟨w', hrun, hsteady, halike, -⟩ :=
    run_issues (Handle.readField_issues hsettled hheap hslot hlive hown) hpos
  refine ⟨w'.enter a.heap, ?_, hsteady, halike⟩
  rw [Handle.getField, bind_of_ok hrun]
  rfl

/-- Taking a reference to `o` out of a field. -/
theorem Steady.take_field (hpos : 0 < w.holdersAt a.heap) {o : ObjId}
    (hslot : w.slotAt s = .one (some o)) :
    ∃ w', a.takeField s w = .ok (some (w.issue a.heap o)) w' ∧
      w'.Steady todo (.root (w.issue a.heap o) ::ₘ held) owed ∧
      (((w.issued a.heap o).enter a.heap).writeSlot s (.one none)).Alike w' := by
  obtain ⟨w', hrun, hsteady, halike, -⟩ :=
    run_issues (Handle.unloadField_returns (h.settled a.heap) ha hs hslot) hpos
  refine ⟨w'.enter a.heap, ?_, hsteady, halike⟩
  rw [Handle.takeField, bind_of_ok hrun]
  rfl

end Field

/-- A null field yields nothing. -/
theorem get_null {w : World} {a : Handle} {s : SlotId} (hslot : w.slotAt s = .one none) :
    a.getField s w = .ok none w := by
  have hread : run a.heap (a.readField s) w = .ok none w := by
    apply run_idle
    unfold Handle.readField
    rw [Ends.bind_iff, Locked.ends_look, fieldAt_eq hslot]
    exact ⟨rfl, rfl⟩
  rw [Handle.getField, bind_of_ok hread]
  rfl

theorem take_null {w : World} {a : Handle} {s : SlotId} (hs : s ∈ (w.valueAt a.obj).connectSlots)
    (hslot : w.slotAt s = .one none) : a.takeField s w = .ok none w := by
  have hunload : run a.heap (a.unloadField s) w = .ok none w :=
    run_idle (Handle.unloadField_null (s := ⟨w, []⟩) hs hslot)
  rw [Handle.takeField, bind_of_ok hunload]
  rfl

end World

namespace Client

variable {c : Client} {a : Handle} {s : SlotId}

/-- Taking a field's reference out returns what reading the field and then clearing it returns, and
comes to the same tallies, strong counts, slots, registries and live objects. -/
theorem Reached.take_eq_get_set {target : Option ObjId} (h : c.Reached) (ha : c.Sees (.root a))
    (hs : s ∈ (c.world.valueAt a.obj).connectSlots) (hslot : c.world.slotAt s = .one target) :
    ∃ found w w₁ w', a.takeField s c.world = .ok found w ∧
      a.getField s c.world = .ok found w₁ ∧ a.setField s none w₁ = .ok () w' ∧
      found = target.map (c.world.issue a.heap) ∧ w.tallies = w'.tallies ∧
      w.strongAt = w'.strongAt ∧ w.slots = w'.slots ∧ w.registryAt = w'.registryAt ∧
      w.isLive = w'.isLive := by
  have horderly := h.sound.orderly
  have hsteady : c.world.Steady c.todo c.holds (dues c.todo c.heaps c.incoming) := horderly.steady
  have hmem := horderly.mem_ledger_holds ha
  have hpos : 0 < c.world.holdersAt a.heap := horderly.holdersAt_pos (.inr ⟨a, ha, rfl⟩)
  cases target with
  | none =>
      obtain ⟨w', hset, hsteady', halike⟩ := hsteady.clear_null hmem hs hslot
      obtain ⟨htallies, hstrong⟩ := hsteady.counts_eq hsteady' halike
      exact ⟨none, c.world, c.world, w', take_null hs hslot, get_null hslot, hset, rfl, htallies,
        hstrong, halike.slots.symm, halike.registryAt.symm, halike.isLive.symm⟩
  | some o =>
      obtain ⟨w, htake, htaken, htook⟩ := hsteady.take_field hmem hs hpos hslot
      obtain ⟨w₁, hget, hgot, hread⟩ := hsteady.get_field hmem hs hpos hslot
      -- the owner still reports the field, which still points at `o`
      have hmem' : .root a ∈ w₁.ledger c.todo (.root (c.world.issue a.heap o) ::ₘ c.holds) := by
        rw [hread.ledger, ledger_cons_held]
        exact Multiset.mem_cons_of_mem hmem
      have hs' : s ∈ (w₁.valueAt a.obj).connectSlots := by
        rw [hread.valueAt]
        exact hs
      have hslot' : w₁.slotAt s = .one (some (c.world.issue a.heap o).obj) := by
        rw [hread.slotAt]
        exact hslot
      obtain ⟨w', hset, hcleared, hwrote⟩ := hgot.clear_field hmem' hs' hslot'
        (mem_ledger_of_held (Multiset.mem_cons_self _ _))
      have halike := (htook.symm.trans (hread.writeSlot s (.one none))).trans hwrote
      obtain ⟨htallies, hstrong⟩ := htaken.counts_eq hcleared halike
      exact ⟨_, w, w₁, w', htake, hget, hset, rfl, htallies, hstrong, halike.slots.symm,
        halike.registryAt.symm, halike.isLive.symm⟩

/-- The node that points at itself is taken out of its own field. -/
theorem loop_take_eq_get_set : loop.world.slotAt 0 = .one (some 0) ∧ ∃ w w₁ w',
    Handle.takeField ⟨0, 1, 0⟩ 0 loop.world = .ok (some ⟨0, 2, 0⟩) w ∧
      Handle.getField ⟨0, 1, 0⟩ 0 loop.world = .ok (some ⟨0, 2, 0⟩) w₁ ∧
      Handle.setField ⟨0, 1, 0⟩ 0 none w₁ = .ok () w' ∧ w.tallies = w'.tallies ∧
      w.strongAt = w'.strongAt := by
  have hheld : loop.held = {.root ⟨0, 1, 0⟩} := by cbv
  have hslot : loop.world.slotAt 0 = .one (some 0) := by cbv
  have hvalue : loop.world.valueAt 0 = .slot 0 := by cbv
  have hnode : loop.Sees (.root ⟨0, 1, 0⟩) := .held (hheld ▸ Multiset.mem_singleton_self _)
  have hreported : 0 ∈ (loop.world.valueAt 0).connectSlots := by
    rw [hvalue]
    exact List.mem_singleton_self _
  obtain ⟨found, w, w₁, w', htake, hget, hset, rfl, htallies, hstrong, -⟩ :=
    loop_reached.1.take_eq_get_set hnode hreported hslot
  have hissue : loop.world.issue 0 0 = ⟨0, 2, 0⟩ := by cbv
  rw [Option.map_some, hissue] at htake hget
  exact ⟨hslot, w, w₁, w', htake, hget, hset, htallies, hstrong⟩

end Client

end RootedHeap
