import RootedHeap.Proofs.Exactness

/-! # What is collected

An object is anchored when something outside the graph refers to it. In a heap that a client owns,
the objects that anchored ones lead to are exactly the live ones, as soon as a call is over; and
they are never collected, not even while a call is under way.
-/

namespace RootedHeap

open World

/-- An object that is referred to from outside the graph: by an active root, by a slot that the client
holds, be it detached or part of a value that was not allocated yet, or by a slot that the value of
a live object has but does not report. -/
inductive Client.Anchors (c : Client) (t : ObjId) : Prop
  | root {g : HeapId} {r : RootId} (h : (c.world.registryAt g).target? r = some t)
  | detached {s : SlotId} (hs : .slot s ∈ c.held) (ht : t ∈ (c.world.slotAt s).targets)
  | unvisited {p : ObjId} {s : SlotId} (hp : c.world.isLive p = true)
      (hs : .slot s ∈ (c.world.valueAt p).holdings) (hnot : s ∉ (c.world.visits p).map (·.slot))
      (ht : t ∈ (c.world.slotAt s).targets)

variable {c : Client}

theorem Client.Sound.live_of_anchors (h : c.Sound) {t : ObjId} (ht : c.Anchors t) :
    c.world.isLive t = true := by
  cases ht with
  | root htarget => exact (World.Sound.target h.orderly htarget).2.1
  | detached hs ht => exact h.orderly.live_of_sees (.held hs) (Multiset.mem_coe.mpr ht)
  | @unvisited p s hp hs _ ht =>
      exact h.orderly.guarded.value_live p hp (.slot s) hs t (Multiset.mem_coe.mpr ht)

/-- A handle to a live object can be dereferenced. -/
theorem Handle.deref_of_live {a : Handle} {w : World} (h : w.isLive a.obj = true) :
    a.deref w = .ok () w := by
  obtain ⟨ob, hob, hstate⟩ := isLive_iff.mp h
  have hfresh : a.stale w = false := by
    unfold Handle.stale
    cases w.heaps[a.heap]? <;> simp [hob, hstate]
  simp only [Handle.deref, Bind.bind, EStateM.bind, get, getThe, MonadStateOf.get, EStateM.get,
    hfresh, Bool.false_eq_true, if_false]
  rfl

/-- At no time is an object collected that an anchored one leads to, and a handle that a client can
get at, or is about to get, can be dereferenced. -/
theorem Client.Reached.survives (h : c.Reached) :
    (∀ t o, c.Anchors t → Reach c.world.out t o →
      c.world.isLive o = true ∧ o ∉ c.world.dropped) ∧
    ∀ a, c.Sees (.root a) ∨ a ∈ c.incoming → a.deref c.world = .ok () c.world := by
  have hsound := h.sound
  refine ⟨fun t o ht hreach => ?_, fun a ha => ?_⟩
  · have hlive := hsound.orderly.guarded.live_of_reach (hsound.live_of_anchors ht) hreach
    refine ⟨hlive, fun hdropped => ?_⟩
    have hgone := (hsound.orderly.guarded.dropped o hdropped).2
    rw [hlive] at hgone
    cases hgone
  · refine Handle.deref_of_live ?_
    rcases ha with ha | ha
    · exact (hsound.orderly.handle ha).1
    · have hmem : .root a ∈ c.world.ledger c.todo
          ((c.incoming.map Holding.root : List Holding) + c.held) :=
        mem_ledger_of_held (Multiset.mem_add.mpr (.inl (List.mem_map_of_mem ha)))
      exact (World.Sound.handle hsound.orderly hmem).1

/-- The leaf of the chain survives, since the root of the node leads to it. -/
theorem Client.chain_survives :
    (chain.world.isLive 0 = true ∧ 0 ∉ chain.world.dropped) ∧
      Handle.deref ⟨0, 1, 0⟩ chain.world = .ok () chain.world := by
  have hedges : chain.world.out 1 = [0] := by cbv
  have hheld : chain.held = {.root ⟨1, 2, 0⟩, .root ⟨0, 1, 0⟩} := by cbv
  have hroot : (chain.world.registryAt 0).target? 2 = some 1 := by cbv
  obtain ⟨hlive, hderef⟩ := chain_reached.1.survives
  refine ⟨hlive 1 0 (.root hroot) (.single ?_), hderef _ (.inl (.held ?_))⟩
  · rw [hedges]
    exact List.mem_singleton_self 0
  · rw [hheld]
    exact Multiset.mem_cons_of_mem (Multiset.mem_singleton_self _)

/-- An object that may be garbage and is referred to from outside the graph is anchored. -/
theorem Client.Sound.anchors_of_outer (h : c.Sound) (htodo : c.todo = []) {y : ObjId}
    (hy : y ∈ c.world.outer c.todo ((c.incoming.map Holding.root : List Holding) + c.held))
    (hcand : c.world.candidateIn c.world.tallies y = true) : c.Anchors y := by
  have hsound := h.orderly
  -- the target of a handle is tagged
  have hroot {a : Handle} (ha : .root a ∈ c.world.ledger c.todo
      ((c.incoming.map Holding.root : List Holding) + c.held)) (hya : y ∈ ({a.obj} : Multiset ObjId)) :
      c.Anchors y := by
    cases Multiset.mem_singleton.mp hya
    have hpos := (hsound.tallied.balanced a.root).count_pos_of_support
      (World.Sound.handle hsound ha).2.2
    exact absurd hcand (hsound.tallied.not_candidate hpos .refl)
  rw [outer, htodo, Multiset.coe_nil, Multiset.zero_bind, add_zero] at hy
  obtain ⟨x, hx, hyx⟩ := Multiset.mem_bind.mp hy
  have hoff := hx
  rw [offGraph, Multiset.zero_bind, add_zero] at hx
  rcases Multiset.mem_add.mp hx with hx | hx
  · obtain ⟨p, hp, hx⟩ := Multiset.mem_bind.mp hx
    have hp := mem_lives.mp hp
    have hx := Multiset.mem_of_le (unseen_le_holdings hsound.guarded.matched p) hx
    cases x with
    | slot s =>
        refine .unvisited hp (Multiset.mem_coe.mp hx) (fun hs => ?_) (Multiset.mem_coe.mp hyx)
        have hnodup := hsound.accounted.slots_nodup
        rw [htodo] at hnodup
        refine notMem_offGraph hsound.guarded.matched hnodup hp ?_ hoff
        exact contains_visits.mp (List.contains_iff_mem.mpr hs)
    | root a => exact hroot (mem_ledger_of_live hp (Multiset.mem_coe.mp hx)) hyx
    | weak => cases hyx
  · cases x with
    | slot s =>
        refine .detached ?_ (Multiset.mem_coe.mp hyx)
        refine (Multiset.mem_add.mp hx).resolve_left fun hmem => ?_
        obtain ⟨a, -, ha⟩ := List.mem_map.mp (Multiset.mem_coe.mp hmem)
        cases ha
    | root a => exact hroot (mem_ledger_of_held hx) hyx
    | weak => cases hyx

/-- In a heap that the client owns, what is live when a call is over is led to by an anchored
object. -/
theorem Client.Sound.anchored (h : c.Sound) (htodo : c.todo = []) {g : HeapId} (hg : g ∈ c.heaps)
    {o : ObjId} (hlive : c.world.isLive o = true) (hown : c.world.owns g o = true) :
    ∃ t, c.Anchors t ∧ Reach c.world.out t o := by
  have hsound := h.orderly
  by_cases hempty : c.world.tallies.isEmptyAt o = true
  · have hexists : c.world.heapExists g = true := by
      simpa [heapExists_eq] using h.orderly.holdersAt_pos (.inl hg)
    obtain ⟨y, hy, hcand, hreach⟩ :=
      hsound.anchored g o hown hexists (candidateIn_iff.mpr ⟨hlive, hempty⟩)
    refine ⟨y, h.anchors_of_outer htodo (hy.resolve_left List.not_mem_nil) hcand, ?_⟩
    exact Relation.ReflTransGen.mono (fun _ _ hstep => (mem_candidateEdges.mp hstep).1) _ _ hreach
  · rw [Tallies.isEmptyAt_iff] at hempty
    push Not at hempty
    obtain ⟨r, hr⟩ := hempty
    obtain ⟨t, ht, hreach⟩ :=
      (World.Sound.count_pos_iff hsound hown r).mp (Nat.pos_of_ne_zero hr)
    exact ⟨t, .root ht, hreach⟩

/-- When a call is over, every live object of a heap that the client owns is led to by an anchored
object, along live ones; so objects that nothing else leads to, however they are linked among
themselves, are gone. -/
theorem Client.Reached.collects (h : c.Reached) (hrest : c.AtRest) {g : HeapId}
    (hg : g ∈ c.heaps) :
    (∀ o, c.world.isLive o = true → c.world.owns g o = true →
      ∃ t, c.Anchors t ∧ c.world.isLive t = true ∧
        Reach (fun p => (c.world.out p).filter c.world.isLive) t o) ∧
    ∀ garbage : Set ObjId, (∀ o ∈ garbage, ¬ c.Anchors o) →
      (∀ p, c.world.isLive p = true → ∀ o ∈ garbage, o ∈ c.world.out p → p ∈ garbage) →
      ∀ o ∈ garbage, c.world.owns g o = true → c.world.isLive o = false := by
  have hsound := h.sound
  refine ⟨fun o hlive hown => ?_, fun garbage hfree hclosed o ho hown => ?_⟩
  · obtain ⟨t, ht, hreach⟩ := hsound.anchored hrest.1 hg hlive hown
    have htlive := hsound.live_of_anchors ht
    refine ⟨t, ht, htlive, ?_⟩
    refine (Reach.congr_of_closed (P := fun p => c.world.isLive p = true) ?_ ?_ htlive hreach).2
    · exact fun p q hp hq => hsound.orderly.guarded.live_of_out hp hq
    · exact fun p q hp hq =>
        List.mem_filter.mpr ⟨hq, hsound.orderly.guarded.live_of_out hp hq⟩
  · by_contra hlive
    rw [Bool.not_eq_false] at hlive
    obtain ⟨t, ht, hreach⟩ := hsound.anchored hrest.1 hg hlive hown
    -- going back along the path never leaves the garbage
    have hback : t ∈ garbage := by
      have htlive := hsound.live_of_anchors ht
      clear ht
      induction hreach using Relation.ReflTransGen.head_induction_on with
      | refl => exact ho
      | @head p q hstep _ ih =>
          have hq := hsound.orderly.guarded.live_of_out htlive hstep
          exact hclosed p htlive q (ih hq) hstep
    exact hfree t hback ht

/-- The leaf of the chain is led to by an anchored object. -/
theorem Client.chain_collects :
    0 ∈ chain.heaps ∧ ∃ t, chain.Anchors t ∧ chain.world.isLive t = true ∧
      Reach (fun p => (chain.world.out p).filter chain.world.isLive) t 0 := by
  have hheaps : chain.heaps = {0} := by cbv
  have hg : 0 ∈ chain.heaps := hheaps ▸ Multiset.mem_singleton_self 0
  obtain ⟨hreached, hrest⟩ := chain_reached
  exact ⟨hg, (hreached.collects hrest hg).1 0 (by cbv) (by cbv)⟩

end RootedHeap
