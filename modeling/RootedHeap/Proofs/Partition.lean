import RootedHeap.Proofs.Confines

/-! # Worlds with separate heaps

Allocations that fail leave objects behind that nobody has a handle of, and these may hold objects of
another heap. What can still be got at is sane: the objects that handles point at and slots own, where
no edge leaves the heap. `World.Parted` says that heaps are separate as far as the sane objects go.
-/

namespace RootedHeap

open World

/-- All slots that values report, and all slots that are held. -/
def World.slotsOf (w : World) (held : Multiset Holding) : Multiset SlotId :=
  (Multiset.range w.objects.size).bind
      (fun o => ((w.valueAt o).connectSlots : Multiset SlotId)) + held.bind Holding.slots

/-- Heaps are separate as far as sane objects go: slots own sane objects only, each slot in one
place, and sane objects lead to objects of their own heap. What is held, by the client or by values,
fits. -/
structure World.Parted (sane : ObjId → Prop) (held : Multiset Holding) (heaps : Multiset HeapId)
    (w : World) : Prop where
  verify : ∀ (g : HeapId) (heap : Heap), w.heaps[g]? = some heap → heap.config.verify = true
  settled : ∀ g o, w.owns g o = true → g < w.heaps.size
  size_eq : w.tallies.size = w.objects.size
  owned : ∀ o, sane o → ∃ g, w.owns g o = true
  matched : ∀ o, (w.valueAt o).Matched
  filled : ∀ s, ∀ c ∈ (w.slotAt s).targets, sane c
  closed : ∀ g p, sane p → w.owns g p = true → ∀ c ∈ w.out p, w.owns g c = true
  slots_nodup : (w.slotsOf held).Nodup
  slots_lt : ∀ s ∈ w.slotsOf held, s < w.slots.size
  fits : ∀ x ∈ held, x.Fits sane w
  values_fit : ∀ o, ∀ x ∈ (w.valueAt o).holdings, x.Fits sane w
  heaps_lt : ∀ g ∈ heaps, g < w.heaps.size

/-- What a matched value reports is among the slots that it holds. -/
theorem Value.Matched.connectSlots_le {v : Value} (hv : v.Matched) :
    (v.connectSlots : Multiset SlotId) ≤ (v.holdings : Multiset Holding).bind Holding.slots := by
  have hmap : ((v.connectSlots.map Holding.slot : List Holding) : Multiset Holding).bind
      Holding.slots = (v.connectSlots : Multiset SlotId) := by
    rw [← Multiset.map_coe, Multiset.bind_map]
    exact (Multiset.bind_singleton _ id).trans (Multiset.map_id _)
  rw [hv.holdings_eq, Multiset.add_bind, hmap]
  exact Multiset.le_add_right _ _

section Parted

variable {sane : ObjId → Prop} {held held' : Multiset Holding} {heaps heaps' : Multiset HeapId}
  {site : Option HeapId} {w w' : World}

namespace World

theorem slotsOf_add (more : Multiset Holding) :
    w.slotsOf (more + held) = more.bind Holding.slots + w.slotsOf held := by
  simp only [slotsOf, Multiset.add_bind]
  abel

theorem mem_range_of_reported {p : ObjId} {s : SlotId} (hs : s ∈ (w.valueAt p).connectSlots) :
    p ∈ Multiset.range w.objects.size := by
  rw [Multiset.mem_range]
  by_contra hge
  rw [valueAt, Array.getElem?_eq_none (Nat.le_of_not_lt hge)] at hs
  simp [Value.connectSlots, Value.reported] at hs

theorem mem_slotsOf_of_reported {p : ObjId} {s : SlotId} (hs : s ∈ (w.valueAt p).connectSlots) :
    s ∈ w.slotsOf held :=
  Multiset.mem_add.mpr (.inl (Multiset.mem_bind.mpr ⟨p, mem_range_of_reported hs, hs⟩))

theorem Heeds.slotsOf (h : w.Heeds site sane w') : w'.slotsOf held = w.slotsOf held := by
  rw [World.slotsOf, World.slotsOf, h.values, h.extent]

namespace Parted

/-- There is nothing in an empty world. -/
theorem empty : World.Parted (fun _ => False) 0 0 {} where
  verify := by simp
  settled := by simp [World.owns]
  size_eq := rfl
  owned := fun _ h => h.elim
  matched := by
    have hplain : Value.plain.Matched := by decide
    simpa [valueAt] using hplain
  filled := by simp [slotAt, Slot.targets]
  closed := fun _ _ h => h.elim
  slots_nodup := by simp [World.slotsOf]
  slots_lt := by simp [World.slotsOf]
  fits := by simp
  values_fit := by simp [valueAt, Value.holdings]
  heaps_lt := by simp

/-- Each slot is reported by one object at most. -/
theorem reporter (h : w.Parted sane held heaps) {p q : ObjId} {s : SlotId}
    (hp : s ∈ (w.valueAt p).connectSlots) (hq : s ∈ (w.valueAt q).connectSlots) : p = q := by
  have hnodup := (Multiset.nodup_add.mp h.slots_nodup).1
  by_contra hne
  have hrest : q ∈ (Multiset.range w.objects.size).erase p :=
    (Multiset.mem_erase_of_ne (Ne.symm hne)).mpr (mem_range_of_reported hq)
  rw [← Multiset.cons_erase (mem_range_of_reported hp), Multiset.cons_bind, Multiset.nodup_add] at hnodup
  exact Multiset.disjoint_left.mp hnodup.2.2 (Multiset.mem_coe.mpr hp)
    (Multiset.mem_bind.mpr ⟨q, hrest, hq⟩)

/-- A client that has less is no danger. -/
theorem anti (h : w.Parted sane held heaps) (hheld : held' ≤ held) (hheaps : heaps' ≤ heaps) :
    w.Parted sane held' heaps' := by
  have hle : w.slotsOf held' ≤ w.slotsOf held := by
    obtain ⟨rest, rfl⟩ := Multiset.le_iff_exists_add.mp hheld
    rw [add_comm, slotsOf_add]
    exact Multiset.le_add_left _ _
  exact
    { h with
      slots_nodup := Multiset.nodup_of_le hle h.slots_nodup
      slots_lt := fun s hs => h.slots_lt s (Multiset.mem_of_le hle hs)
      fits := fun x hx => h.fits x (Multiset.mem_of_le hheld hx)
      heaps_lt := fun g hg => h.heaps_lt g (Multiset.mem_of_le hheaps hg) }

/-- A client that gets something else than a slot has what fits. -/
theorem gain (h : w.Parted sane held heaps) {more : Multiset Holding}
    (hmore : ∀ x ∈ more, x.slots = 0 ∧ x.Fits sane w) : w.Parted sane (more + held) heaps := by
  have hnone : more.bind Holding.slots = 0 := by
    rw [Multiset.bind_congr fun x hx => (hmore x hx).1, Multiset.bind_zero]
  have hslots : w.slotsOf (more + held) = w.slotsOf held := by
    rw [slotsOf_add, hnone, zero_add]
  refine
    { h with
      slots_nodup := by rw [hslots]; exact h.slots_nodup
      slots_lt := by rw [hslots]; exact h.slots_lt
      fits := fun x hx => ?_ }
  rcases Multiset.mem_add.mp hx with hx | hx
  · exact (hmore x hx).2
  · exact h.fits x hx

theorem own (h : w.Parted sane held heaps) {g : HeapId} (hg : g < w.heaps.size) :
    w.Parted sane held (g ::ₘ heaps) :=
  { h with heaps_lt := by simpa [hg] using h.heaps_lt }

/-- A step that keeps to one heap keeps heaps separate. -/
theorem heeds (h : w.Parted sane held heaps) (hw : w.Heeds site sane w') :
    w'.Parted sane held heaps := by
  have hheaps : w'.heaps.size = w.heaps.size := size_eq_of_map hw.configs
  refine
    { verify := fun g heap' hheap' => ?_
      settled := fun g o ho => ?_
      size_eq := by rw [hw.size, hw.extent, h.size_eq]
      owned := fun o ho => by rw [hw.owns]; exact h.owned o ho
      matched := by rw [hw.values]; exact h.matched
      filled := fun s c hc => ?_
      closed := fun g p hp howns c hc => ?_
      slots_nodup := by rw [hw.slotsOf]; exact h.slots_nodup
      slots_lt := by rw [hw.slotsOf, hw.room]; exact h.slots_lt
      fits := fun x hx => (h.fits x hx).heeds hw
      values_fit := fun o x hx => (h.values_fit o x (hw.values ▸ hx)).heeds hw
      heaps_lt := by rw [hheaps]; exact h.heaps_lt }
  · have hconfig := hw.configs g
    rw [hheap'] at hconfig
    obtain ⟨heap, hheap, hsame⟩ := Option.map_eq_some_iff.mp hconfig.symm
    have hverify := h.verify g heap hheap
    dsimp only at hsame
    rwa [hsame] at hverify
  · rw [hw.owns] at ho
    rw [hheaps]
    exact h.settled g o ho
  · rcases hw.slots s c hc with hc | ⟨-, hc, -⟩
    · exact h.filled s c hc
    · exact hc
  · rw [hw.owns] at howns ⊢
    obtain ⟨s, hs, hc⟩ := mem_out.mp hc
    rw [hw.values] at hs
    rcases hw.slots s c hc with hc | ⟨⟨q, -, ⟨g', hg', hq⟩, hs'⟩, -, ⟨g'', hg'', hc⟩⟩
    · exact h.closed g p hp howns c (mem_out.mpr ⟨s, hs, hc⟩)
    · -- only the one object that reports the slot may write to it
      cases h.reporter hs hs'
      cases owns_unique howns hq
      cases hg'.symm.trans hg''
      exact hc

/-- Each heap is fenced. -/
theorem fenced (h : w.Parted sane held heaps) {g : HeapId} (hg : g < w.heaps.size) :
    w.Fenced g sane w :=
  ⟨rfl, rfl, ⟨w.heaps[g], Array.getElem?_eq_getElem hg, h.verify g _ (Array.getElem?_eq_getElem hg)⟩,
    h.matched, h.filled, h.closed g⟩

/-- What leads from sane objects of a heap stays in the heap. -/
theorem owns_of_reach (h : w.Parted sane held heaps) {g : HeapId} {p o : ObjId} (hp : sane p)
    (howns : w.owns g p = true) (hreach : Reach w.out p o) : w.owns g o = true := by
  have hstays : sane o ∧ w.owns g o = true := by
    apply hreach.stays _ ⟨hp, howns⟩
    rintro p ⟨hp, howns⟩ c hc
    obtain ⟨s, -, hs⟩ := mem_out.mp hc
    exact ⟨h.filled s c hs, h.closed g p hp howns c hc⟩
  exact hstays.2

/-! ### New slots, heaps and objects -/

theorem addSlot (h : w.Parted sane held heaps) {content : Slot}
    (hcontent : ∀ c ∈ content.targets, sane c) :
    (w.addSlot content).2.Parted sane (.slot w.slots.size ::ₘ held) heaps := by
  have hslots : (w.addSlot content).2.slotsOf (.slot w.slots.size ::ₘ held) =
      w.slots.size ::ₘ w.slotsOf held := by
    rw [← Multiset.singleton_add, slotsOf_add, Multiset.singleton_bind]
    rfl
  have hroom : (w.addSlot content).2.slots.size = w.slots.size + 1 := Array.size_push _
  refine
    { h with
      filled := fun s c hc => ?_
      closed := fun g p hp howns c hc => ?_
      slots_nodup := ?_
      slots_lt := fun s hs => ?_
      fits := fun x hx => ?_
      values_fit := fun o x hx => ?_ }
  · by_cases hs : s = w.slots.size
    · subst hs
      rw [slotAt_addSlot_self] at hc
      exact hcontent c hc
    · rw [slotAt_addSlot_of_ne hs] at hc
      exact h.filled s c hc
  · obtain ⟨s, hs, hc⟩ := mem_out.mp hc
    -- no value reports the new slot yet
    have hlt := h.slots_lt s (mem_slotsOf_of_reported hs)
    rw [slotAt_addSlot_of_lt hlt] at hc
    exact h.closed g p hp howns c (mem_out.mpr ⟨s, hs, hc⟩)
  · rw [hslots, Multiset.nodup_cons]
    exact ⟨fun hmem => Nat.lt_irrefl _ (h.slots_lt _ hmem), h.slots_nodup⟩
  · rw [hroom]
    rw [hslots] at hs
    rcases Multiset.mem_cons.mp hs with rfl | hs
    · exact Nat.lt_succ_self _
    · exact Nat.lt_succ_of_lt (h.slots_lt s hs)
  · rcases Multiset.mem_cons.mp hx with rfl | hx
    · trivial
    · have hfits := h.fits x hx
      cases x <;> exact hfits
  · have hfits := h.values_fit o x hx
    cases x <;> exact hfits

theorem createHeap (h : w.Parted sane held heaps) {config : Config} (hverify : config.verify = true) :
    (w.found config).Parted sane held (w.heaps.size ::ₘ heaps) := by
  have hfits {x : Holding} (hx : x.Fits sane w) : x.Fits sane (w.found config) := by
    cases x with
    | slot | weak => exact hx
    | root a =>
        obtain ⟨hobj, howns, hissued, htarget⟩ := hx
        refine ⟨hobj, howns, ?_, ?_⟩
        · rwa [registryAt_found]
        · rwa [registryAt_found]
  have hsize : (w.found config).heaps.size = w.heaps.size + 1 := Array.size_push _
  refine
    { h with
      verify := fun g heap hheap => ?_
      settled := fun g o ho => ?_
      fits := fun x hx => hfits (h.fits x hx)
      values_fit := fun o x hx => hfits (h.values_fit o x hx)
      heaps_lt := fun g hg => ?_ }
  · rw [heaps_found] at hheap
    split_ifs at hheap
    · cases hheap
      exact hverify
    · exact h.verify g heap hheap
  · rw [hsize]
    exact Nat.lt_succ_of_lt (h.settled g o ho)
  · rw [hsize]
    rcases Multiset.mem_cons.mp hg with rfl | hg
    · exact Nat.lt_succ_self _
    · exact Nat.lt_succ_of_lt (h.heaps_lt g hg)

section Enroll

variable {g : HeapId} {n : String} {v : Value}

theorem owns_enroll (g' : HeapId) (o : ObjId) :
    (w.enroll g n v).owns g' o = if o = w.objects.size then decide (g = g') else w.owns g' o :=
  owns_birth g' o

theorem valueAt_enroll (o : ObjId) :
    (w.enroll g n v).valueAt o = if o = w.objects.size then v else w.valueAt o :=
  valueAt_birth o

theorem owns_enroll_of_owns {g' : HeapId} {o : ObjId} (ho : w.owns g' o = true) :
    (w.enroll g n v).owns g' o = true := by
  rwa [owns_enroll, if_neg]
  obtain ⟨ob, hob, -⟩ := owns_iff.mp ho
  exact Nat.ne_of_lt (Array.getElem?_eq_some_iff.mp hob).1

theorem slotsOf_enroll :
    (w.enroll g n v).slotsOf held = (v.connectSlots : Multiset SlotId) + w.slotsOf held := by
  have hsize : (w.enroll g n v).objects.size = w.objects.size + 1 := Array.size_push _
  have hold : (Multiset.range w.objects.size).bind
      (fun o => (((w.enroll g n v).valueAt o).connectSlots : Multiset SlotId)) =
        (Multiset.range w.objects.size).bind
          (fun o => ((w.valueAt o).connectSlots : Multiset SlotId)) := by
    apply Multiset.bind_congr
    intro o ho
    rw [valueAt_enroll, if_neg (Nat.ne_of_lt (Multiset.mem_range.mp ho))]
  rw [slotsOf, hsize, Multiset.range_succ, Multiset.cons_bind, hold, valueAt_enroll, if_pos rfl,
    slotsOf, add_assoc]

theorem slotsOf_enroll_le (hv : v.Matched) (hle : (v.holdings : Multiset Holding) ≤ held) :
    (w.enroll g n v).slotsOf (held - (v.holdings : Multiset Holding)) ≤ w.slotsOf held := by
  rw [slotsOf_enroll]
  conv_rhs => rw [← add_tsub_cancel_of_le hle, slotsOf_add]
  exact Multiset.add_le_add_right hv.connectSlots_le

theorem fits_enroll {x : Holding} (hx : x.Fits sane w) : x.Fits sane (w.enroll g n v) := by
  cases x with
  | slot | weak => exact hx
  | root a =>
      obtain ⟨hobj, howns, hissued, htarget⟩ := hx
      have hregistry : (w.enroll g n v).registryAt = w.registryAt :=
        registryAt_modifyHeap (w := w) fun _ => rfl
      refine ⟨hobj, owns_enroll_of_owns howns, by rwa [hregistry], ?_⟩
      intro t ht
      obtain ⟨hsane, hown⟩ := htarget t (hregistry ▸ ht)
      exact ⟨hsane, owns_enroll_of_owns hown⟩

/-- A new object takes its slots over from what is held. It is not sane yet: its slots may hold
objects of any heap. -/
theorem enroll (h : w.Parted sane held heaps) (hg : g ∈ heaps) (hv : v.Matched)
    (hle : (v.holdings : Multiset Holding) ≤ held) :
    (w.enroll g n v).Parted sane (held - (v.holdings : Multiset Holding)) heaps := by
  have hslots := slotsOf_enroll_le (w := w) (g := g) (n := n) hv hle
  have hsize : (w.enroll g n v).heaps.size = w.heaps.size := Array.size_modify
  refine
    { verify := fun g' heap hheap => ?_
      settled := fun g' o ho => ?_
      size_eq := ?_
      owned := fun o ho => ?_
      matched := fun o => ?_
      filled := h.filled
      closed := fun g' p hp howns c hc => ?_
      slots_nodup := Multiset.nodup_of_le hslots h.slots_nodup
      slots_lt := fun s hs => h.slots_lt s (Multiset.mem_of_le hslots hs)
      fits := fun x hx => fits_enroll (h.fits x (Multiset.mem_of_le (Multiset.sub_le_self _ _) hx))
      values_fit := fun o x hx => ?_
      heaps_lt := by rw [hsize]; exact h.heaps_lt }
  · have hheaps : (w.enroll g n v).heaps[g']? = _ := heaps_modifyHeap g'
    rw [hheaps] at hheap
    obtain ⟨heap', hheap', rfl⟩ := Option.map_eq_some_iff.mp hheap
    have hverify := h.verify g' heap' hheap'
    split <;> exact hverify
  · rw [hsize]
    rw [owns_enroll] at ho
    split_ifs at ho
    · exact of_decide_eq_true ho ▸ h.heaps_lt g hg
    · exact h.settled g' o ho
  · have htallies : (w.enroll g n v).tallies.size = w.tallies.size + 1 := Array.size_push _
    have hobjects : (w.enroll g n v).objects.size = w.objects.size + 1 := Array.size_push _
    rw [htallies, hobjects, h.size_eq]
  · obtain ⟨g', hg'⟩ := h.owned o ho
    exact ⟨g', owns_enroll_of_owns hg'⟩
  · rw [valueAt_enroll]
    split_ifs
    · exact hv
    · exact h.matched o
  · -- a sane object is not the new one, so it has the edges it had
    obtain ⟨g'', hg''⟩ := h.owned p hp
    cases owns_unique howns (owns_enroll_of_owns hg'')
    obtain ⟨ob, hob, -⟩ := owns_iff.mp hg''
    obtain ⟨s, hs, hc⟩ := mem_out.mp hc
    rw [valueAt_enroll, if_neg (Nat.ne_of_lt (Array.getElem?_eq_some_iff.mp hob).1)] at hs
    exact owns_enroll_of_owns (h.closed _ p hp hg'' c (mem_out.mpr ⟨s, hs, hc⟩))
  · rw [valueAt_enroll] at hx
    split_ifs at hx
    · exact fits_enroll (h.fits x (Multiset.mem_of_le hle (Multiset.mem_coe.mpr hx)))
    · exact fits_enroll (h.values_fit o x hx)

/-- An object whose edges stay in its heap may count as sane. -/
theorem adopt (h : w.Parted sane held heaps) {o : ObjId} (howns : w.owns g o = true)
    (hedges : ∀ c ∈ w.out o, w.owns g c = true) :
    w.Parted (fun p => sane p ∨ p = o) held heaps := by
  have hfits {x : Holding} (hx : x.Fits sane w) : x.Fits (fun p => sane p ∨ p = o) w := by
    cases x with
    | slot => trivial
    | weak p => exact .inl hx
    | root a =>
        obtain ⟨hobj, hown, hissued, htarget⟩ := hx
        exact ⟨.inl hobj, hown, hissued, fun t ht => ⟨.inl (htarget t ht).1, (htarget t ht).2⟩⟩
  refine
    { h with
      owned := fun p hp => ?_
      filled := fun s c hc => .inl (h.filled s c hc)
      closed := fun g' p hp hown c hc => ?_
      fits := fun x hx => hfits (h.fits x hx)
      values_fit := fun p x hx => hfits (h.values_fit p x hx) }
  · rcases hp with hp | rfl
    · exact h.owned p hp
    · exact ⟨g, howns⟩
  · rcases hp with hp | rfl
    · exact h.closed g' p hp hown c hc
    · cases owns_unique howns hown
      exact hedges c hc

end Enroll

end Parted

end World

end Parted

end RootedHeap
