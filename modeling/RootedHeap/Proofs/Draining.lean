import Mathlib.Tactic.IntervalCases
import RootedHeap.Proofs.Replacing

/-! # Emptying a list

A list can be cleared at once, or its elements are popped and dropped one by one. The one gives all
references up in one session, the other collects in between. What is left alive in either case is
what is sustained once the list is empty (`Client.Sound.clear_items`, `Client.Sound.drain_items`),
unless a heap goes on the way while objects of it are alive.
-/

namespace RootedHeap

open World

/-- Pop elements of the list and drop them until there are none left, `n` times at most. Whether none
were left. -/
def Handle.drain (a : Handle) (s : SlotId) : Nat → Op Bool
  | 0 => pure false
  | n + 1 => do
    match ← a.popItem s with
    | none => pure true
    | some b =>
      b.drop
      a.drain s n

/-- A slot is what it owns, and of what kind it is. -/
theorem Slot.ext_targets {x y : Slot} (hkind : x.emptied = y.emptied) (htargets : x.targets = y.targets) :
    x = y := by
  cases x <;> cases y <;> cases hkind
  case one.one t t' =>
    cases t <;> cases t' <;> cases htargets
    · rfl
    · rfl
  case many.many => exact congrArg Slot.many htargets

namespace World

/-- No object is left alive without its heap, if its heap was there before. -/
def Keeps (w w' : World) : Prop :=
  ∀ g o, w'.isLive o = true → w'.owns g o = true → w.heapExists g = true → w'.heapExists g = true

theorem lt_size_of_heapExists {w : World} {g : HeapId} (h : w.heapExists g = true) :
    g < w.heaps.size := by
  by_contra hge
  rw [heapExists, Array.getElem?_eq_none (Nat.le_of_not_lt hge)] at h
  cases h

/-- Handles, in name only, to all live objects whose heap is gone. -/
def strays (w : World) : Multiset Holding :=
  w.lives.bind fun o =>
    match w.objects[o]? with
    | some ob => if w.heapExists ob.heap then 0 else {.root ⟨o, 0, ob.heap⟩}
    | none => 0

theorem strands_strays (w : World) : w.Strands w.strays := by
  intro x hx
  obtain ⟨o, ho, hx⟩ := Multiset.mem_bind.mp hx
  split at hx
  next ob hob =>
    split_ifs at hx with hgone
    · cases hx
    · rw [Multiset.mem_singleton.mp hx]
      exact ⟨_, rfl, mem_lives.mp ho, owns_iff.mpr ⟨ob, hob, rfl⟩, Bool.eq_false_iff.mpr hgone⟩
  next => cases hx

theorem mem_strays {w : World} {g : HeapId} {o : ObjId} (hlive : w.isLive o = true)
    (hown : w.owns g o = true) (hgone : w.heapExists g = false) : .root ⟨o, 0, g⟩ ∈ w.strays := by
  obtain ⟨ob, hob, rfl⟩ := owns_iff.mp hown
  refine Multiset.mem_bind.mpr ⟨o, mem_lives.mpr hlive, ?_⟩
  simp [hob, hgone]

theorem slots_ext {w w' : World} (hkinds : w.kinds = w'.kinds)
    (htargets : ∀ s, (w.slotAt s).targets = (w'.slotAt s).targets) : w.slots = w'.slots := by
  have hsize := congrArg Array.size hkinds
  rw [kinds, kinds, Array.size_map, Array.size_map] at hsize
  refine Array.ext hsize fun i hi hi' => Slot.ext_targets ?_ ?_
  · have hkind := congrArg (·[i]?) hkinds
    simpa [kinds, hi, hi'] using hkind
  · simpa [slotAt, hi, hi'] using htargets i

section Outcome

variable {w₀ v w w' : World} {kept : Multiset Holding} {owed owed' : HeapId → ℤ}

/-- What is live has its heap, or was a stray to begin with. -/
theorem Wanes.housed {kept : Multiset Holding} (h : v.Wanes kept w) (hlive : v.isLive = w₀.isLive)
    (howns : v.owns = w₀.owns) (hkeeps : w₀.Keeps w) (g : HeapId) (o : ObjId)
    (ho : w.isLive o = true) (hown : w.owns g o = true) :
    w.heapExists g = true ∨ ∃ x ∈ w₀.strays, o ∈ x.targets w := by
  by_cases hexists : w₀.heapExists g = true
  · exact .inl (hkeeps g o ho hown hexists)
  · refine .inr ⟨_, mem_strays (hlive ▸ h.live o ho) ?_ (Bool.eq_false_iff.mpr hexists),
      Multiset.mem_singleton_self o⟩
    rwa [← howns, ← h.owns]

/-- Whatever way things take from the same world, they come to the same, unless a heap goes and leaves
live objects behind. -/
theorem Wanes.concurs (h : v.Wanes (w₀.strays + kept) w) (h' : v.Wanes (w₀.strays + kept) w')
    (hlive : v.isLive = w₀.isLive) (howns : v.owns = w₀.owns) (hkinds : w.kinds = w'.kinds)
    (hsteady : w.Steady 0 kept owed) (hsteady' : w'.Steady 0 kept owed')
    (hkeeps : w₀.Keeps w) (hkeeps' : w₀.Keeps w') : w.Concurs w' := by
  have hagrees := h.agrees h' hsteady hsteady' (h.housed hlive howns hkeeps)
    (h'.housed hlive howns hkeeps')
  obtain ⟨hledger, hslots⟩ := h.slotAt_eq h' hagrees.live
  exact ⟨hagrees.tallies, hagrees.strong,
    slots_ext hkinds (hsteady.targets_slotAt_eq hsteady' hledger hslots), hagrees.roots, hagrees.live⟩

end Outcome

section Empty

variable {w w' : World} {kept : Multiset Holding} {s : SlotId}

theorem slotAt_empty (w : World) (s : SlotId) : (w.writeSlot s (.many [])).slotAt s = .many [] := by
  by_cases hs : s < w.slots.size
  · exact slotAt_writeSlot_self hs
  · have hnone : (w.writeSlot s (.many [])).slots[s]? = none :=
      Array.getElem?_eq_none (size_slots_writeSlot.symm ▸ Nat.le_of_not_lt hs)
    rw [slotAt, hnone, Option.getD_none]

/-- Nothing is owned by an emptied slot. -/
theorem mem_targets_of_empty {x : Holding} {o : ObjId}
    (ho : o ∈ x.targets (w.writeSlot s (.many []))) : o ∈ x.targets w := by
  cases x with
  | slot s' =>
      refine Multiset.mem_coe.mpr ((mem_targets_writeSlot (Multiset.mem_coe.mp ho)).resolve_right ?_)
      rintro ⟨-, hnil⟩
      cases hnil
  | weak | root => exact ho

theorem mem_out_of_empty {p o : ObjId} (ho : o ∈ (w.writeSlot s (.many [])).out p) : o ∈ w.out p := by
  rw [out_eq] at ho ⊢
  obtain ⟨s', hs', ho⟩ := List.mem_flatMap.mp ho
  refine List.mem_flatMap.mpr ⟨s', hs', (mem_targets_writeSlot ho).resolve_right ?_⟩
  rintro ⟨-, hnil⟩
  cases hnil

theorem Guarded.empty (h : w.Guarded 0 kept) (s : SlotId) :
    (w.writeSlot s (.many [])).Guarded 0 kept where
  matched := h.matched
  heap_some := h.heap_some
  verify := h.verify
  closed p hp c hc := h.closed p hp c (mem_out_of_empty hc)
  value_live p hp x hx c hc := h.value_live p hp x hx c (mem_targets_of_empty hc)
  held_live x hx c hc := h.held_live x hx c (mem_targets_of_empty hc)
  handle_owned := h.handle_owned
  buried _ ht := absurd ht (Multiset.notMem_zero _)
  dropped := h.dropped

/-- What is sustained while a slot is empty is sustained all the more while it is not. -/
theorem Sustained.of_empty {X : Set ObjId} (h : (w.writeSlot s (.many [])).Sustained kept X) :
    w.Sustained kept X := by
  intro o ho
  obtain ⟨hlive, x, hx, t, ht, hreach⟩ := h o ho
  exact ⟨hlive, x, hx, t, mem_targets_of_empty ht,
    Relation.ReflTransGen.mono (fun _ _ hstep => mem_out_of_empty hstep) _ _ hreach⟩

/-- What goes on with a slot goes on as well when it is empty. -/
theorem Wanes.empty (h : w.Wanes kept w') (s : SlotId) :
    (w.writeSlot s (.many [])).Wanes kept (w'.writeSlot s (.many [])) where
  guarded := h.guarded.empty s
  size := h.size
  value := h.value
  owns := h.owns
  live := h.live
  slots s' hs' := by
    by_cases hs : s' = s
    · rw [hs, slotAt_empty, slotAt_empty]
    · rw [slotAt_writeSlot_of_ne hs, slotAt_writeSlot_of_ne hs]
      exact h.slots s' hs'
  collected := h.collected
  outlast X hX := h.outlast X hX.of_empty

theorem Wanes.of_mirrors (h : w.Mirrors w') (hguarded : w'.Guarded 0 kept)
    (hcollected : w'.collectedAt = w.collectedAt) : w.Wanes kept w' := by
  refine ⟨hguarded, h.size, h.valueAt, h.owns, fun o ho => h.isLive ▸ ho,
    fun s _ => congrFun h.slotAt s, fun g => ?_, fun X hX o ho => h.isLive ▸ (hX o ho).1⟩
  rw [hcollected, aliveAt, aliveAt, lives_congr h.size h.isLive, h.owns]

/-- A list stays a list. -/
theorem Reduces.write_items {items : List ObjId} (hslot : w.slotAt s = .many items)
    (items' : List ObjId) : w.Reduces (w.writeSlot s (.many items')) :=
  ⟨kinds_writeSlot (by rw [hslot]; rfl), rfl, fun _ => id, fun _ _ _ _ => rfl⟩

theorem issued_mirrors (w : World) (g : HeapId) (t : ObjId) :
    w.Mirrors ((w.issued g t).enter g) := ⟨rfl, rfl, fun _ => rfl⟩

/-- A new handle changes little, if its heap is there. -/
theorem Reduces.issue {g : HeapId} (hexists : w.heapExists g = true) (t : ObjId) :
    w.Reduces ((w.issued g t).enter g) := by
  refine .of_mirrors (issued_mirrors w g t) fun g' hg' => ?_
  have hissued : (w.issued g t).heapExists = w.heapExists := heapExists_setRegistry
  rwa [heapExists_enter (hissued ▸ hexists), hissued] at hg'

end Empty

end World

/-- A session, with all that becomes of what it collects. -/
theorem run_wanes {α : Type} {g : HeapId} {w v : World} {op : Locked α} {b : α}
    {held strays : Multiset Holding} {heaps : Multiset HeapId} {own : SlotId → Prop}
    (hop : Ends op ⟨w, []⟩ (fun a s => a = b ∧ s.Sound g v v.support 0 held (dues 0 heaps []))
      fun _ _ => False)
    (hconfined : op.Confined w.isLive own) (hclosed : w.Closed w.isLive own)
    (hcollected : v.collectedAt = w.collectedAt) (hexists : v.heapExists g = true)
    (hstrays : v.Strands strays) :
    ∃ w', run g op w = .ok b w' ∧ Client.Sound ⟨w', held, heaps, [], []⟩ ∧
      v.Wanes (strays + held) w' ∧ v.Reduces w' := by
  have hsession : Ends op ⟨w, []⟩ (fun a s => (a = b ∧ v.Alike s.world ∧
      s.world.collectedAt = v.collectedAt) ∧ s.Settled g 0 held (dues 0 heaps []))
      fun _ _ => False := by
    refine (hop.and (hconfined ⟨w, []⟩ hclosed)).mono ?_ fun _ _ hf => hf.1
    rintro a s ⟨⟨hab, hsound⟩, hleads⟩
    exact ⟨⟨hab, hsound.alike, hleads.spares.collectedAt.trans hcollected.symm⟩, hsound.settled⟩
  obtain ⟨⟨a, dead⟩, w₁, hlocked, hsteady, s, ⟨rfl, halike, hsame⟩, hreclaimed⟩ :=
    ((locked_ends hsession).mono (fun _ _ hs => hs) fun _ _ ⟨_, hf, _⟩ => hf).exists_ok
  have hreduces := Reduces.locked (hop.mono (fun _ _ hs => hs.2) fun _ _ => id) hexists hlocked
  have hdues : dues 0 heaps [] = dues (Task.finalizing g dead) heaps [] := by
    rw [← dues_finalizing g dead, add_zero]
  have hsound : Client.Sound ⟨w₁, held, heaps, Task.finalizing g dead, []⟩ := by
    apply Client.sound_of_steady
    rwa [add_zero, hdues] at hsteady
  obtain ⟨w', hsettle, hdone, hwanes, hreduces'⟩ :=
    hsound.settle_wanes rfl (hreduces.strands hstrays)
  have hreclaimed := hreclaimed.add_strays (hreduces.strands hstrays)
  have hguarded : w₁.Guarded 0 (strays + held) := hsteady.guarded.dropTasks.add_strays
    (hreduces.strands hstrays)
  refine ⟨w', Call.run_of_locked hlocked hsettle, hdone, ?_, hreduces.trans hreduces'⟩
  exact ((Wanes.of_mirrors halike.mirrors hreclaimed.guarded hsame).trans
    (hreclaimed.wanes hguarded)).trans hwanes

/-- Once a list is empty, nothing is popped. -/
theorem pop_empty {w : World} {a : Handle} {s : SlotId} (hs : s ∈ (w.valueAt a.obj).connectSlots)
    (hslot : w.slotAt s = .many []) : a.popItem s w = .ok none w := by
  have hrun : run a.heap (a.removeLast s) w = .ok none w :=
    run_idle (Handle.removeLast_empty (s := ⟨w, []⟩) hs hslot)
  rw [Handle.popItem, bind_of_ok hrun]
  rfl

namespace Client

variable {c : Client} {a : Handle} {s : SlotId} {items : List ObjId} {strays : Multiset Holding}

section Items

variable (h : c.Sound) (hrest : c.AtRest) (ha : c.Sees (.root a))
  (hs : s ∈ (c.world.valueAt a.obj).connectSlots) (hstrays : c.world.Strands strays)

include h hrest ha hs hstrays

/-- Clearing a list leaves what is sustained without it. -/
theorem Sound.clear_items (hslot : c.world.slotAt s = .many items) :
    ∃ w, a.clearItems s c.world = .ok () w ∧ Sound ⟨w, c.held, c.heaps, [], []⟩ ∧
      (c.world.writeSlot s (.many [])).Wanes (strays + c.held) w ∧ c.world.Reduces w := by
  have hsteady := h.steady hrest
  have hmem := h.mem_ledger hrest ha
  have hexists : c.world.heapExists a.heap = true := by
    simpa [heapExists_eq] using h.orderly.holdersAt_pos (.inr ⟨a, ha, rfl⟩)
  have hreported : .slot s ∈ c.world.ledger 0 c.held :=
    mem_ledger_of_live (World.Sound.handle hsteady hmem).1 (Value.mem_holdings_of_reported hs)
  have hempty := Reduces.write_items hslot []
  have hreturns := Handle.removeAll_returns (hsteady.settled a.heap) hmem hs hslot
  obtain ⟨w, hrun, hsound, hwanes, hreduces⟩ := run_wanes (b := ())
    (hreturns.mono (fun _ _ hs => ⟨rfl, hs⟩) fun _ _ hf => hf)
    (Handle.removeAll_confined a hreported) hsteady.guarded.closed_world rfl hexists
    (hempty.strands hstrays)
  exact ⟨w, hrun, hsound, hwanes, hempty.trans hreduces⟩

/-- Popping an element and dropping it leaves what is sustained without the element. -/
theorem Sound.pop_item {o : ObjId} (hslot : c.world.slotAt s = .many (items ++ [o])) :
    ∃ n w₁ w, a.popItem s c.world = .ok (some n) w₁ ∧ n.drop w₁ = .ok () w ∧
      Sound ⟨w, c.held, c.heaps, [], []⟩ ∧
      (c.world.writeSlot s (.many items)).Wanes (strays + c.held) w ∧ c.world.Reduces w := by
  have hsteady := h.steady hrest
  have hmem := h.mem_ledger hrest ha
  have hpos : 0 < c.world.holdersAt a.heap := h.orderly.holdersAt_pos (.inr ⟨a, ha, rfl⟩)
  have hexists : (c.world.writeSlot s (.many items)).heapExists a.heap = true := by
    rw [heapExists_eq]
    exact decide_eq_true hpos
  have hreported : .slot s ∈ c.world.ledger 0 c.held :=
    mem_ledger_of_live (World.Sound.handle hsteady hmem).1 (Value.mem_holdings_of_reported hs)
  -- popping roots the element, and dropping its handle lets it go
  obtain ⟨w₀, hrun, hpopped, halike, s₁, log, hsession, hended⟩ :=
    run_issues (Handle.removeLast_returns (hsteady.settled a.heap) hmem hs hslot) hpos
  have hsound : Sound ⟨w₀.enter a.heap, _, c.heaps, [], []⟩ := sound_of_steady hpopped
  have hissued : (c.world.writeSlot s (.many items)).Reduces (w₀.enter a.heap) :=
    .trans (.issue hexists o) (.of_alike halike)
  have hreduces := (Reduces.write_items hslot items).trans hissued
  obtain ⟨w, hdrop, hdropped, hwanes, hreduces'⟩ :=
    hsound.drop ⟨rfl, rfl⟩ (Multiset.mem_cons_self _ _) (hreduces.strands hstrays)
  rw [Multiset.sub_singleton, Multiset.erase_cons_head] at hdropped hwanes
  refine ⟨_, w₀.enter a.heap, w, ?_, hdrop, hdropped, .trans (.of_mirrors
    ((issued_mirrors _ _ _).trans halike.mirrors) ?_ ?_) hwanes, hreduces.trans hreduces'⟩
  · rw [Handle.popItem, bind_of_ok hrun]
    rfl
  · have hguarded : (w₀.enter a.heap).Guarded 0 c.held :=
      hpopped.guarded.of_le (Multiset.le_cons_self _ _)
    exact hguarded.add_strays (hreduces.strands hstrays)
  · have hconfined : Locked.Confined c.world.isLive (fun s => .slot s ∈ c.world.ledger 0 c.held)
        (a.removeLast s) := Handle.removeLast_confined a hreported
    have hleads := (hconfined ⟨c.world, []⟩ hsteady.guarded.closed_world).of_ok hsession
    have henter : (w₀.enter a.heap).collectedAt = w₀.collectedAt :=
      Grows.collectedAt_modifyHeap fun _ => rfl
    have hcollected : w₀.collectedAt = s₁.world.collectedAt := by rw [hended]; rfl
    rw [henter, hcollected, hleads.spares.collectedAt]
    rfl

end Items

/-- Whatever becomes of the objects, the owner of a list is alive as long as it is seen, and the list is
as it was left. -/
theorem Sound.slotAt_of_wanes {w : World} {content : Slot} (h : c.Sound) (ha : c.Sees (.root a))
    (hs : s ∈ (c.world.valueAt a.obj).connectSlots) (hsound : Sound ⟨w, c.held, c.heaps, [], []⟩)
    (hwanes : (c.world.writeSlot s content).Wanes (strays + c.held) w) :
    Sees ⟨w, c.held, c.heaps, [], []⟩ (.root a) ∧ s ∈ (w.valueAt a.obj).connectSlots ∧
      w.slotAt s = content := by
  have ha' : Sees ⟨w, c.held, c.heaps, [], []⟩ (.root a) :=
    ha.mono (le_refl _) fun b _ => congrFun hwanes.value b.obj
  have hs' : s ∈ (w.valueAt a.obj).connectSlots := by
    rw [hwanes.value]
    exact hs
  have hreported : .slot s ∈ w.ledger 0 (strays + c.held) := mem_ledger_of_live
    (hsound.orderly.handle ha').1 (Value.mem_holdings_of_reported hs')
  have hsize := h.orderly.steady.lt_size_of_reported (h.orderly.handle ha).1 hs
  refine ⟨ha', hs', ?_⟩
  rw [hwanes.slots s hreported, slotAt_writeSlot_self hsize]

/-- Popping and dropping all elements of a list leaves what is sustained without it. -/
theorem Sound.drain_items (h : c.Sound) (hrest : c.AtRest) (ha : c.Sees (.root a))
    (hs : s ∈ (c.world.valueAt a.obj).connectSlots) (hstrays : c.world.Strands strays)
    (hslot : c.world.slotAt s = .many items) :
    ∃ w, a.drain s (items.length + 1) c.world = .ok true w ∧ Sound ⟨w, c.held, c.heaps, [], []⟩ ∧
      (c.world.writeSlot s (.many [])).Wanes (strays + c.held) w ∧ c.world.Reduces w := by
  induction items using List.reverseRecOn generalizing c with
  | nil =>
      have hguarded := (h.steady hrest).guarded
      obtain ⟨w, held, heaps, todo, incoming⟩ := c
      obtain ⟨rfl, rfl⟩ := hrest
      rw [← hslot, writeSlot_self]
      refine ⟨w, ?_, h, .refl (hguarded.add_strays hstrays), .refl w⟩
      rw [List.length_nil, Handle.drain, bind_of_ok (pop_empty hs hslot)]
      rfl
  | append_singleton items o ih =>
      obtain ⟨n, w₁, w₂, hpop, hdrop, hsound, hwanes, hreduces⟩ :=
        h.pop_item hrest ha hs hstrays hslot
      obtain ⟨ha₂, hs₂, hslot₂⟩ := h.slotAt_of_wanes ha hs hsound hwanes
      obtain ⟨w, hdrain, hdrained, hwanes', hreduces'⟩ :=
        ih hsound ⟨rfl, rfl⟩ ha₂ hs₂ (hreduces.strands hstrays) hslot₂
      have hempty := hwanes.empty s
      rw [writeSlot_writeSlot] at hempty
      refine ⟨w, ?_, hdrained, hempty.trans hwanes', hreduces.trans hreduces'⟩
      rw [List.length_append, List.length_singleton, Handle.drain, bind_of_ok hpop]
      exact (bind_of_ok hdrop).trans hdrain

/-- What is done to a list at once comes to the same as what is done to it element by element. A list
can be cleared, or popped and dropped until it is empty; that comes to the same unless a heap goes on
the way and leaves live objects of its own behind. An element can be replaced, or the new one is
inserted before it and then it is removed and dropped. -/
theorem Reached.list_at_once (h : c.Reached) (hrest : c.AtRest) (ha : c.Sees (.root a))
    (hs : s ∈ (c.world.valueAt a.obj).connectSlots) (hslot : c.world.slotAt s = .many items) :
    (∃ w w', a.clearItems s c.world = .ok () w ∧ a.drain s (items.length + 1) c.world = .ok true w' ∧
      w.slotAt s = .many [] ∧ w'.slotAt s = .many [] ∧
      (c.world.Keeps w → c.world.Keeps w' → w.Concurs w')) ∧
    ∀ index < items.length, ∀ item, c.Sees (.root item) →
      (item.heap = a.heap → ∃ n w w₁ w₂ w', a.setItem s index item c.world = .ok () w ∧
        a.insertItem s index item c.world = .ok () w₁ ∧ a.removeItem s (index + 1) w₁ = .ok n w₂ ∧
        n.drop w₂ = .ok () w' ∧ w.Concurs w') ∧
      (item.heap ≠ a.heap → ∃ f u, a.setItem s index item c.world = .error f u ∧
        a.insertItem s index item c.world = .error f u ∧ f.upFront = true ∧ c.world.Concurs u) := by
  have hsound := h.sound
  refine ⟨?_, fun index hindex item hitem => ⟨fun hheap => ?_, fun hheap => ?_⟩⟩
  · have hstrays := strands_strays c.world
    obtain ⟨w, hclear, hcleared, hwanes, hreduces⟩ := hsound.clear_items hrest ha hs hstrays hslot
    obtain ⟨w', hdrain, hdrained, hwanes', hreduces'⟩ := hsound.drain_items hrest ha hs hstrays hslot
    obtain ⟨-, -, hempty⟩ := hsound.slotAt_of_wanes ha hs hcleared hwanes
    obtain ⟨-, -, hempty'⟩ := hsound.slotAt_of_wanes ha hs hdrained hwanes'
    refine ⟨w, w', hclear, hdrain, hempty, hempty', fun hkeeps hkeeps' => ?_⟩
    exact hwanes.concurs hwanes' rfl rfl (hreduces.kinds.trans hreduces'.kinds.symm)
      (hcleared.steady ⟨rfl, rfl⟩) (hdrained.steady ⟨rfl, rfl⟩) hkeeps hkeeps'
  · exact hsound.set_item hrest ha hs hslot hitem hheap hindex
  · exact refuse_item hheap index c.world

/-- Heaps that the client owns stay. -/
theorem Sound.keeps {w : World} (h : Sound ⟨w, c.held, c.heaps, [], []⟩)
    (hheaps : ∀ g, c.world.heapExists g = true → g ∈ c.heaps) : c.world.Keeps w := by
  intro g o _ _ hexists
  simpa [heapExists_eq] using h.orderly.holdersAt_pos (.inl (hheaps g hexists))

/-- An owner whose list has a leaf twice, next to a leaf of another heap. -/
def bundle : Client :=
  (((lone.call (.createHeap {})).call (.alloc 1 "leaf" .plain)).call
    (.newList [⟨1, 1, 1⟩, ⟨1, 1, 1⟩])).call (.alloc 1 "owner" (.slot 0))

theorem bundle_reached : bundle.Reached ∧ bundle.AtRest := by
  have hheaps : (lone.call (.createHeap {})).heaps = {1, 0} := by cbv
  have hleaves : ((lone.call (.createHeap {})).call (.alloc 1 "leaf" .plain)).held =
      {.root ⟨1, 1, 1⟩, .root ⟨0, 1, 0⟩} := by cbv
  have hlist : (((lone.call (.createHeap {})).call (.alloc 1 "leaf" .plain)).call
      (.newList [⟨1, 1, 1⟩, ⟨1, 1, 1⟩])).held = {.slot 0, .root ⟨1, 1, 1⟩, .root ⟨0, 1, 0⟩} := by cbv
  have hheaps' : (((lone.call (.createHeap {})).call (.alloc 1 "leaf" .plain)).call
      (.newList [⟨1, 1, 1⟩, ⟨1, 1, 1⟩])).heaps = {1, 0} := by cbv
  refine Reached.call (Reached.call (Reached.call (Reached.call lone_reached rfl (by cbv))
    ⟨?_, by decide, Multiset.zero_le _⟩ (by cbv)) (fun b hb => .held ?_) (by cbv))
    ⟨?_, by decide, ?_⟩ (by cbv)
  · rw [hheaps]
    exact Multiset.mem_cons_self _ _
  · obtain rfl : b = ⟨1, 1, 1⟩ := by simpa using hb
    rw [hleaves]
    exact Multiset.mem_cons_self _ _
  · rw [hheaps']
    exact Multiset.mem_cons_self _ _
  · rw [hlist]
    exact Multiset.singleton_le.mpr (Multiset.mem_cons_self _ _)

/-- The list is emptied, or the owner put in the place of the first leaf; the other heap's leaf is
refused. -/
theorem bundle_list_at_once :
    (∃ w w', Handle.clearItems ⟨2, 2, 1⟩ 0 bundle.world = .ok () w ∧
      Handle.drain ⟨2, 2, 1⟩ 0 3 bundle.world = .ok true w' ∧ w.Concurs w') ∧
    (∃ n w w₁ w₂ w', Handle.setItem ⟨2, 2, 1⟩ 0 0 ⟨2, 2, 1⟩ bundle.world = .ok () w ∧
      Handle.insertItem ⟨2, 2, 1⟩ 0 0 ⟨2, 2, 1⟩ bundle.world = .ok () w₁ ∧
      Handle.removeItem ⟨2, 2, 1⟩ 0 1 w₁ = .ok n w₂ ∧ n.drop w₂ = .ok () w' ∧ w.Concurs w') ∧
    ∃ f u, Handle.setItem ⟨2, 2, 1⟩ 0 0 ⟨0, 1, 0⟩ bundle.world = .error f u ∧
      Handle.insertItem ⟨2, 2, 1⟩ 0 0 ⟨0, 1, 0⟩ bundle.world = .error f u ∧
      f.upFront = true ∧ bundle.world.Concurs u := by
  have hheld : bundle.held = {.root ⟨2, 2, 1⟩, .root ⟨1, 1, 1⟩, .root ⟨0, 1, 0⟩} := by cbv
  have hslot : bundle.world.slotAt 0 = .many [1, 1] := by cbv
  have hvalue : bundle.world.valueAt 2 = .slot 0 := by cbv
  have howner : bundle.Sees (.root ⟨2, 2, 1⟩) := .held (hheld ▸ Multiset.mem_cons_self _ _)
  have hstranger : bundle.Sees (.root ⟨0, 1, 0⟩) := .held (by rw [hheld]; simp)
  have hreported : 0 ∈ (bundle.world.valueAt 2).connectSlots := by
    rw [hvalue]
    exact List.mem_singleton_self _
  obtain ⟨hreached, hrest⟩ := bundle_reached
  have hkeeps {w : World} (h : Sound ⟨w, bundle.held, bundle.heaps, [], []⟩) :
      bundle.world.Keeps w := by
    refine h.keeps fun g hg => ?_
    have hheaps : bundle.heaps = {1, 0} := by cbv
    have hsize : bundle.world.heaps.size = 2 := by cbv
    have hlt : g < 2 := hsize ▸ lt_size_of_heapExists hg
    rw [hheaps]
    interval_cases g <;> decide
  obtain ⟨⟨w, w', hclear, hdrain, -, -, hconcurs⟩, hstore⟩ :=
    hreached.list_at_once hrest howner hreported hslot
  refine ⟨⟨w, w', hclear, hdrain, hconcurs ?_ ?_⟩, (hstore 0 (by decide) _ howner).1 rfl,
    (hstore 0 (by decide) _ hstranger).2 (by decide)⟩
  · obtain ⟨v, hrun, hsound, -⟩ :=
      hreached.sound.clear_items hrest howner hreported (strands_zero _) hslot
    cases hclear.symm.trans hrun
    exact hkeeps hsound
  · obtain ⟨v, hrun, hsound, -⟩ :=
      hreached.sound.drain_items hrest howner hreported (strands_zero _) hslot
    cases hdrain.symm.trans hrun
    exact hkeeps hsound

/-! ## A heap that goes on the way -/

/-- A client that holds nothing but the owner of a list can get at the list. -/
theorem sees_list (hheld : c.held = {.root a}) (hvalue : c.world.valueAt a.obj = .slot s)
    (hitems : c.world.slotAt s = .many items) : c.Sees (.root a) ∧ c.SeesList s := by
  have howner : c.Sees (.root a) := .held (hheld ▸ Multiset.mem_singleton_self _)
  refine ⟨howner, .within howner ?_, items, hitems⟩
  rw [hvalue]
  exact List.mem_singleton_self _

/-- A client whose node has a leaf of another heap in a field that is not reported. -/
def tailed : Client :=
  ((lone.call (.createHeap {})).call (.newField (some ⟨0, 1, 0⟩))).call
    (.alloc 1 "tail" (.record [(.skipped, .slot 0)]))

/-- Another node refers to the first one, and holds a handle of the leaf. -/
def headed : Client :=
  (tailed.call (.newField (some ⟨1, 1, 1⟩))).call
    (.alloc 1 "head" (.ofList .record [.root ⟨0, 1, 0⟩, .slot 1]))

/-- Both nodes are in a list. -/
def stocked : Client :=
  (headed.call (.newList [⟨2, 2, 1⟩, ⟨1, 1, 1⟩])).call (.alloc 1 "owner" (.slot 2))

/-- The client gives up all but the owner of the list. -/
def released : Client := (stocked.complete (.drop ⟨2, 2, 1⟩) 2).complete (.drop ⟨1, 1, 1⟩) 2

/-- It gives up the leaf's heap as well, which is left to the handle in the list. -/
def parting : Client := released.complete (.dropHeap 0) 1

/-- The node that is popped first is still referred to by the other one. -/
def lessened : Client := (parting.call (.popItem ⟨3, 3, 1⟩ 2)).complete (.drop ⟨1, 4, 1⟩) 2

/-- With the other node, both are collected. -/
def drained : Client := (lessened.call (.popItem ⟨3, 3, 1⟩ 2)).complete (.drop ⟨2, 5, 1⟩) 12

theorem tailed_reached : tailed.Reached ∧ tailed.AtRest := by
  obtain ⟨hcreate, hheld, hfield, hheaps, hheld', halloc⟩ :
      lone.accepts (.createHeap {}) = true ∧
      (lone.call (.createHeap {})).held = {.root ⟨0, 1, 0⟩} ∧
      (lone.call (.createHeap {})).accepts (.newField (some ⟨0, 1, 0⟩)) = true ∧
      ((lone.call (.createHeap {})).call (.newField (some ⟨0, 1, 0⟩))).heaps = {1, 0} ∧
      ((lone.call (.createHeap {})).call (.newField (some ⟨0, 1, 0⟩))).held =
        {.slot 0, .root ⟨0, 1, 0⟩} ∧
      ((lone.call (.createHeap {})).call (.newField (some ⟨0, 1, 0⟩))).accepts
        (.alloc 1 "tail" (.record [(.skipped, .slot 0)])) = true := by cbv
  refine Reached.call (Reached.call (Reached.call lone_reached rfl hcreate) ?_ hfield) ?_ halloc
  · rintro b ⟨⟩
    exact .held (hheld ▸ Multiset.mem_singleton_self _)
  · refine ⟨?_, by decide, ?_⟩
    · rw [hheaps]
      decide
    · rw [hheld']
      decide

theorem headed_reached : headed.Reached ∧ headed.AtRest := by
  obtain ⟨hheld, hfield, hheaps, hheld', halloc⟩ :
      tailed.held = {.root ⟨1, 1, 1⟩, .root ⟨0, 1, 0⟩} ∧
      tailed.accepts (.newField (some ⟨1, 1, 1⟩)) = true ∧
      (tailed.call (.newField (some ⟨1, 1, 1⟩))).heaps = {1, 0} ∧
      (tailed.call (.newField (some ⟨1, 1, 1⟩))).held =
        {.slot 1, .root ⟨1, 1, 1⟩, .root ⟨0, 1, 0⟩} ∧
      (tailed.call (.newField (some ⟨1, 1, 1⟩))).accepts
        (.alloc 1 "head" (.ofList .record [.root ⟨0, 1, 0⟩, .slot 1])) = true := by cbv
  refine Reached.call (Reached.call tailed_reached ?_ hfield) ?_ halloc
  · rintro b ⟨⟩
    exact .held (hheld ▸ Multiset.mem_cons_self _ _)
  · refine ⟨?_, by decide, ?_⟩
    · rw [hheaps]
      decide
    · rw [hheld']
      decide

theorem stocked_reached : stocked.Reached ∧ stocked.AtRest := by
  obtain ⟨hheld, hlist, hheaps, hheld', halloc⟩ :
      headed.held = {.root ⟨2, 2, 1⟩, .root ⟨1, 1, 1⟩} ∧
      headed.accepts (.newList [⟨2, 2, 1⟩, ⟨1, 1, 1⟩]) = true ∧
      (headed.call (.newList [⟨2, 2, 1⟩, ⟨1, 1, 1⟩])).heaps = {1, 0} ∧
      (headed.call (.newList [⟨2, 2, 1⟩, ⟨1, 1, 1⟩])).held =
        {.slot 2, .root ⟨2, 2, 1⟩, .root ⟨1, 1, 1⟩} ∧
      (headed.call (.newList [⟨2, 2, 1⟩, ⟨1, 1, 1⟩])).accepts (.alloc 1 "owner" (.slot 2)) = true := by
    cbv
  refine Reached.call (Reached.call headed_reached ?_ hlist) ?_ halloc
  · intro b hb
    refine .held ?_
    rw [hheld]
    revert b
    decide
  · refine ⟨?_, by decide, ?_⟩
    · rw [hheaps]
      decide
    · rw [hheld']
      decide

theorem parting_reached : parting.Reached ∧ parting.AtRest := by
  obtain ⟨hheld, hfirst, hheld', hsecond, hheaps, hthird⟩ :
      stocked.held = {.root ⟨3, 3, 1⟩, .root ⟨2, 2, 1⟩, .root ⟨1, 1, 1⟩} ∧
      (stocked.starts (.drop ⟨2, 2, 1⟩) = true ∧ (stocked.complete (.drop ⟨2, 2, 1⟩) 2).AtRest) ∧
      (stocked.complete (.drop ⟨2, 2, 1⟩) 2).held = {.root ⟨3, 3, 1⟩, .root ⟨1, 1, 1⟩} ∧
      ((stocked.complete (.drop ⟨2, 2, 1⟩) 2).starts (.drop ⟨1, 1, 1⟩) = true ∧ released.AtRest) ∧
      released.heaps = {1, 0} ∧ (released.starts (.dropHeap 0) = true ∧ parting.AtRest) := by cbv
  refine (Reached.complete (.dropHeap 0) 1 (Reached.complete (.drop ⟨1, 1, 1⟩) 2
    (Reached.complete (.drop ⟨2, 2, 1⟩) 2 stocked_reached ?_ rfl hfirst).1 ?_ rfl hsecond).1
    ?_ rfl hthird).1
  · change _ ∈ Client.held _
    rw [hheld]
    decide
  · change _ ∈ Client.held _
    rw [hheld']
    decide
  · change _ ∈ Client.heaps _
    rw [← released, hheaps]
    decide

theorem lessened_reached (hseen : parting.Sees (.root ⟨3, 3, 1⟩) ∧ parting.SeesList 2) :
    (lessened.Reached ∧ lessened.AtRest) ∧
      Handle.drop ⟨1, 4, 1⟩ (parting.call (.popItem ⟨3, 3, 1⟩ 2)).world = .ok () lessened.world := by
  obtain ⟨hpop, hheld, hcompletes⟩ : parting.accepts (.popItem ⟨3, 3, 1⟩ 2) = true ∧
      (parting.call (.popItem ⟨3, 3, 1⟩ 2)).held = {.root ⟨1, 4, 1⟩, .root ⟨3, 3, 1⟩} ∧
      (parting.call (.popItem ⟨3, 3, 1⟩ 2)).starts (.drop ⟨1, 4, 1⟩) = true ∧ lessened.AtRest := by
    cbv
  have hpopped : (parting.call (.popItem ⟨3, 3, 1⟩ 2)).Reached ∧
      (parting.call (.popItem ⟨3, 3, 1⟩ 2)).AtRest := Reached.call parting_reached hseen hpop
  refine Reached.complete (.drop ⟨1, 4, 1⟩) 2 hpopped ?_ rfl hcompletes
  change _ ∈ Client.held _
  rw [hheld]
  decide

theorem drained_reached (hreached : lessened.Reached ∧ lessened.AtRest) :
    (drained.Reached ∧ drained.AtRest) ∧
      Handle.drop ⟨2, 5, 1⟩ (lessened.call (.popItem ⟨3, 3, 1⟩ 2)).world = .ok () drained.world := by
  obtain ⟨hseen, hvalue, hitems, hpop, hheld, hcompletes⟩ : lessened.held = {.root ⟨3, 3, 1⟩} ∧
      lessened.world.valueAt 3 = .slot 2 ∧ lessened.world.slotAt 2 = .many [2] ∧
      lessened.accepts (.popItem ⟨3, 3, 1⟩ 2) = true ∧
      (lessened.call (.popItem ⟨3, 3, 1⟩ 2)).held = {.root ⟨2, 5, 1⟩, .root ⟨3, 3, 1⟩} ∧
      (lessened.call (.popItem ⟨3, 3, 1⟩ 2)).starts (.drop ⟨2, 5, 1⟩) = true ∧ drained.AtRest := by
    cbv
  have hpopped : (lessened.call (.popItem ⟨3, 3, 1⟩ 2)).Reached ∧
      (lessened.call (.popItem ⟨3, 3, 1⟩ 2)).AtRest :=
    Reached.call hreached (sees_list hseen hvalue hitems) hpop
  refine Reached.complete (.drop ⟨2, 5, 1⟩) 12 hpopped ?_ rfl hcompletes
  change _ ∈ Client.held _
  rw [hheld]
  decide

theorem parting_drain (hseen : parting.Sees (.root ⟨3, 3, 1⟩) ∧ parting.SeesList 2) :
    Handle.drain ⟨3, 3, 1⟩ 2 3 parting.world = .ok true drained.world := by
  obtain ⟨hfirst, hsecond, hnone⟩ :
      Handle.popItem ⟨3, 3, 1⟩ 2 parting.world =
        .ok (some ⟨1, 4, 1⟩) (parting.call (.popItem ⟨3, 3, 1⟩ 2)).world ∧
      Handle.popItem ⟨3, 3, 1⟩ 2 lessened.world =
        .ok (some ⟨2, 5, 1⟩) (lessened.call (.popItem ⟨3, 3, 1⟩ 2)).world ∧
      Handle.popItem ⟨3, 3, 1⟩ 2 drained.world = .ok none drained.world := by cbv
  obtain ⟨hlessened, hdrop⟩ := lessened_reached hseen
  obtain ⟨-, hdrop'⟩ := drained_reached hlessened
  rw [Handle.drain, bind_of_ok hfirst]
  refine (bind_of_ok hdrop).trans ?_
  rw [Handle.drain, bind_of_ok hsecond]
  refine (bind_of_ok hdrop').trans ?_
  rw [Handle.drain, bind_of_ok hnone]
  rfl

/-- The leaf is given up by the nodes in the order in which they are collected. If its handle goes
last, it is collected as well; otherwise its heap goes with the handle, and the leaf is left. -/
theorem parting_diverges : ¬ ∀ (c : Client) (a : Handle) (s : SlotId) (items : List ObjId)
    (w w' : World), c.Reached → c.AtRest → c.Sees (.root a) →
    s ∈ (c.world.valueAt a.obj).connectSlots → c.world.slotAt s = .many items →
    a.clearItems s c.world = .ok () w → a.drain s (items.length + 1) c.world = .ok true w' →
    w.Concurs w' := by
  intro hall
  obtain ⟨hheld, hvalue, hitems, hcompletes, hdead, hlive⟩ : parting.held = {.root ⟨3, 3, 1⟩} ∧
      parting.world.valueAt 3 = .slot 2 ∧ parting.world.slotAt 2 = .many [2, 1] ∧
      (parting.starts (.clearItems ⟨3, 3, 1⟩ 2) = true ∧
        (parting.complete (.clearItems ⟨3, 3, 1⟩ 2) 13).AtRest) ∧
      (parting.complete (.clearItems ⟨3, 3, 1⟩ 2) 13).world.isLive 0 = false ∧
      drained.world.isLive 0 = true := by cbv
  have hseen := sees_list hheld hvalue hitems
  have hclear := (Reached.complete (.clearItems ⟨3, 3, 1⟩ 2) 13 parting_reached hseen rfl
    hcompletes).2
  have hconcurs := hall parting ⟨3, 3, 1⟩ 2 [2, 1] _ _ parting_reached.1 parting_reached.2 hseen.1
    (by rw [hvalue]; decide) hitems hclear (parting_drain hseen)
  rw [hconcurs.live, hlive] at hdead
  cases hdead

end Client

end RootedHeap
