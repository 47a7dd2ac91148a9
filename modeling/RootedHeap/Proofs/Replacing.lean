import RootedHeap.Proofs.Lockstep

/-! # Replacing an element of a list

An element of a list can be replaced at once, or the new one is inserted before it and the old one is
then removed and dropped. Between the two the new root of the removed element tags what it leads to, so
that nothing is collected before that root is dropped; what is given up then is what the replacement
gives up (`Client.Sound.set_item`).
-/

namespace RootedHeap

open World

namespace World

/-- Nothing tells the worlds apart but how they came about: the roots to be issued next, the counters,
and what was reported and dropped in which order. -/
structure Concurs (w w' : World) : Prop where
  tallies : w.tallies = w'.tallies
  strong : w.strongAt = w'.strongAt
  slots : w.slots = w'.slots
  roots : ∀ g r, (w.registryAt g).target? r = (w'.registryAt g).target? r
  live : w.isLive = w'.isLive

theorem Steady.concurs {w w' : World} {held : Multiset Holding} {owed owed' : HeapId → ℤ}
    (h : w.Steady 0 held owed) (h' : w'.Steady 0 held owed') (hmirrors : w.Mirrors w') :
    w.Concurs w' := by
  have hledger : w.ledger 0 held = w'.ledger 0 held := by rw [hmirrors.ledger]
  have hslots (s : SlotId) (_ : .slot s ∈ w.ledger 0 held) : w.slotAt s = w'.slotAt s := by
    rw [hmirrors.slotAt]
  exact ⟨h.tallies_eq h' hledger hslots hmirrors.size.symm hmirrors.valueAt.symm hmirrors.owns.symm,
    h.strongAt_eq h' hledger hslots, hmirrors.slots.symm, h.target?_eq h' hledger,
    hmirrors.isLive.symm⟩

/-- A slot that a live object reports is there. -/
theorem Steady.lt_size_of_reported {w : World} {todo : Multiset Task} {held : Multiset Holding}
    {owed : HeapId → ℤ} {p : ObjId} {s : SlotId} (h : w.Steady todo held owed)
    (hp : w.isLive p = true) (hs : s ∈ (w.valueAt p).connectSlots) : s < w.slots.size := by
  have hmem : .slot s ∈ w.ledger todo held :=
    mem_ledger_of_live hp (Value.mem_holdings_of_reported hs)
  exact h.accounted.slots_lt s (Multiset.mem_bind.mpr ⟨_, hmem, Multiset.mem_singleton_self s⟩)

theorem writeSlot_writeSlot (w : World) (s : SlotId) (content content' : Slot) :
    (w.writeSlot s content).writeSlot s content' = w.writeSlot s content' := by
  simp [World.writeSlot, Array.setIfInBounds_setIfInBounds]

section List

variable {w : World} {held : Multiset Holding} {owed : HeapId → ℤ} {a : Handle} {s : SlotId}
  {items : List ObjId} (h : w.Steady 0 held owed) (ha : .root a ∈ w.ledger 0 held)
  (hs : s ∈ (w.valueAt a.obj).connectSlots) (hslot : w.slotAt s = .many items)

include h ha hs hslot

/-- Inserting an element suspects nothing. -/
theorem Steady.insert_item {item : Handle} (hitem : .root item ∈ w.ledger 0 held)
    (hheap : item.heap = a.heap) {index : Nat} (hindex : index ≤ items.length) :
    ∃ w', a.insertItem s index item w = .ok () w' ∧ w'.Steady 0 held owed ∧
      (w.writeSlot s (.many (items.insertIdx index item.obj))).Alike w' ∧ w.Peers w' := by
  obtain ⟨hlive, hown, -⟩ := Sound.handle h hitem
  have hreturns := Handle.enlist_returns (h.settled a.heap) ha hs hslot
    (show (some index).getD items.length ≤ items.length from hindex) hlive (hheap ▸ hown)
  obtain ⟨w', hrun, hsteady, halike, s', log, hsession, hended⟩ := run_quiet (b := ()) <|
    hreturns.mono (fun _ s' hs => by
      refine ⟨rfl, hs.1, fun u hu => ?_⟩
      rw [hs.2] at hu
      cases hu) fun _ _ hf => hf
  refine ⟨w', ?_, hsteady, halike, ?_⟩
  · unfold Handle.insertItem Handle.storing
    rw [if_pos hheap]
    exact hrun
  · have hscreens := Handle.enlist_screens a s ⟨w, []⟩ (some index) item.obj
    exact .of_ended (hscreens.of_ok hsession).1 hended

/-- Removing an element roots it. -/
theorem Steady.remove_item (hpos : 0 < w.holdersAt a.heap) {index : Nat} {o : ObjId}
    (hitem : items[index]? = some o) :
    ∃ n w', a.removeItem s index w = .ok n w' ∧ n.obj = o ∧ n.heap = a.heap ∧
      w'.Steady 0 (.root n ::ₘ held) owed ∧
      (w.writeSlot s (.many (items.eraseIdx index))).Mirrors w' ∧ w.Peers w' := by
  obtain ⟨w', hrun, hsteady, halike, s', log, hsession, hended⟩ :=
    run_issues (Handle.removeAt_returns (h.settled a.heap) ha hs hslot hitem) hpos
  refine ⟨(w.writeSlot s (.many (items.eraseIdx index))).issue a.heap o, w'.enter a.heap, ?_, rfl, rfl,
    hsteady, ?_, ?_⟩
  · rw [Handle.removeItem, bind_of_ok hrun]
    rfl
  · have hissued : (w.writeSlot s (.many (items.eraseIdx index))).Mirrors
        (((w.writeSlot s (.many (items.eraseIdx index))).issued a.heap o).enter a.heap) :=
      ⟨rfl, rfl, fun _ => rfl⟩
    exact hissued.trans halike.mirrors
  · have hscreens := Handle.removeAt_screens a s ⟨w, []⟩ index
    exact (Peers.of_ended (hscreens.of_ok hsession).1 hended).trans (.of_trades (.enter w' a.heap))

end List

end World

namespace Client

variable {c : Client} {a item : Handle} {s : SlotId} {items : List ObjId}

/-- An element of another heap is refused, no matter how it is to be stored. -/
theorem refuse_item (hheap : item.heap ≠ a.heap) (index : Nat) (w : World) :
    ∃ f u, a.setItem s index item w = .error f u ∧ a.insertItem s index item w = .error f u ∧
      f.upFront = true ∧ w.Concurs u := by
  refine ⟨.violation (.protocol (w.typeName a.obj) .foreignStore),
    w.note (.violated (.protocol (w.typeName a.obj) .foreignStore)), ?_, ?_, rfl,
    rfl, rfl, rfl, fun _ _ => rfl, rfl⟩
  · unfold Handle.setItem Handle.storing
    rw [if_neg hheap]
    rfl
  · unfold Handle.insertItem Handle.storing
    rw [if_neg hheap]
    rfl

/-- Replacing an element comes to the same as inserting the new one before it and dropping what is
removed after that. -/
theorem Sound.set_item (h : c.Sound) (hrest : c.AtRest) (ha : c.Sees (.root a))
    (hs : s ∈ (c.world.valueAt a.obj).connectSlots) (hslot : c.world.slotAt s = .many items)
    (hitem : c.Sees (.root item)) (hheap : item.heap = a.heap) {index : Nat}
    (hindex : index < items.length) :
    ∃ n w w₁ w₂ w', a.setItem s index item c.world = .ok () w ∧
      a.insertItem s index item c.world = .ok () w₁ ∧ a.removeItem s (index + 1) w₁ = .ok n w₂ ∧
      n.drop w₂ = .ok () w' ∧ w.Concurs w' := by
  have hsteady := h.steady hrest
  have hmem := h.mem_ledger hrest ha
  have hstored := h.mem_ledger hrest hitem
  obtain ⟨howner, -, -⟩ := Sound.handle hsteady hmem
  obtain ⟨hlive, hown, -⟩ := Sound.handle hsteady hstored
  obtain ⟨old, hold⟩ : ∃ old, items[index]? = some old := ⟨_, List.getElem?_eq_getElem hindex⟩
  have hop := Handle.replace_returns (hsteady.settled a.heap) hmem hs hslot hold hlive (hheap ▸ hown)
  obtain ⟨w₁, hinsert, hinserted, hmore, hpeers₁⟩ :=
    hsteady.insert_item hmem hs hslot hstored hheap (Nat.le_of_lt hindex)
  -- the owner still reports the list, in which the old element comes after the new one
  have hmem₁ : .root a ∈ w₁.ledger 0 c.held := by
    rw [hmore.ledger]
    exact hmem
  have hs₁ : s ∈ (w₁.valueAt a.obj).connectSlots := by
    rw [hmore.valueAt]
    exact hs
  have hslot₁ : w₁.slotAt s = .many (items.insertIdx index item.obj) := by
    rw [hmore.slotAt, slotAt_writeSlot_self (hsteady.lt_size_of_reported howner hs)]
  have hold₁ : (items.insertIdx index item.obj)[index + 1]? = some old := by
    rw [List.getElem?_insertIdx_of_gt (Nat.lt_succ_self index)]
    exact hold
  have hpos : 0 < w₁.holdersAt a.heap := by
    rw [hmore.holdersAt]
    exact h.orderly.holdersAt_pos (.inr ⟨a, ha, rfl⟩)
  obtain ⟨n, w₂, hremove, rfl, hn, hremoved, hless, hpeers₂⟩ :=
    hinserted.remove_item hmem₁ hs₁ hslot₁ hpos hold₁
  have hsame : (items.insertIdx index item.obj).eraseIdx (index + 1) = items.set index item.obj := by
    rw [← List.insertIdx_eraseIdx_of_le hindex (le_refl index),
      List.insertIdx_eraseIdx_self (Nat.ne_of_lt hindex)]
  have hbetween : (c.world.writeSlot s (.many (items.set index item.obj))).Mirrors w₂ := by
    have hwritten := hmore.mirrors.writeSlot s (.many (items.set index item.obj))
    rw [writeSlot_writeSlot] at hwritten
    rw [hsame] at hless
    exact hwritten.trans hless
  rw [← hn] at hop
  have hscreens := Handle.replace_screens a s ⟨c.world, []⟩ index item.obj
  obtain ⟨w, w', hrun, hdrop, hset, hdropped, hmirrors, -⟩ := run_mirrors_drop
    (hpeers₁.trans hpeers₂) hscreens hop hremoved hbetween rfl
    (hn ▸ Knows.mono (.inr ⟨a, ha, rfl⟩) (le_refl _) (le_refl _) fun _ _ => rfl)
  refine ⟨n, w, w₁, w₂, w', ?_, hinsert, hremove, hdrop, hset.concurs hdropped hmirrors⟩
  unfold Handle.setItem Handle.storing
  rw [if_pos hheap, ← hn]
  exact hrun

end Client

end RootedHeap
