import RootedHeap.Proofs.Waning

/-! # The order in which handles are dropped

Whatever order handles are dropped in, the same objects are left, with the same tallies, counts, slots
and roots, and as many were collected (`Client.Reached.drop_perm`). What is left alive is the largest
set that the remaining holdings sustain, and that does not depend on the order; everything else is
determined by what is live.
-/

namespace RootedHeap

open World

namespace World

/-- Two worlds that only differ in how they came about: in what was reported, in how often something
was collected, and in what became of collected objects. -/
structure Agrees (w w' : World) : Prop where
  live : w.isLive = w'.isLive
  value : w.valueAt = w'.valueAt
  tallies : w.tallies = w'.tallies
  strong : w.strongAt = w'.strongAt
  slots : ∀ o, w.isLive o = true → ∀ s, .slot s ∈ (w.valueAt o).holdings → w.slotAt s = w'.slotAt s
  roots : ∀ g r, (w.registryAt g).target? r = (w'.registryAt g).target? r
  collected : w.collectedAt = w'.collectedAt

section Agreement

variable {w w' : World} {held : Multiset Holding} {owed owed' : HeapId → ℤ}
  (h : w.Steady 0 held owed) (h' : w'.Steady 0 held owed')
  (hledger : w.ledger 0 held = w'.ledger 0 held)
  (hslots : ∀ s, .slot s ∈ w.ledger 0 held → w.slotAt s = w'.slotAt s)

include h h' hledger

/-- The active roots are those of the handles there are. -/
theorem Steady.target?_eq (g : HeapId) (r : RootId) :
    (w.registryAt g).target? r = (w'.registryAt g).target? r := by
  have hroots : (w.rootsAt g : Multiset (RootId × ObjId)) = w'.rootsAt g := by
    rw [h.accounted.roots_eq, h'.accounted.roots_eq, hledger]
  ext t
  rw [Registry.target?_eq_some_iff (h.accounted.roots_nodup g),
    Registry.target?_eq_some_iff (h'.accounted.roots_nodup g)]
  exact (Multiset.coe_eq_coe.mp hroots).mem_iff

include hslots

/-- Slots that nobody has hold nothing. -/
theorem Steady.targets_slotAt_eq (s : SlotId) : (w.slotAt s).targets = (w'.slotAt s).targets := by
  by_cases hs : .slot s ∈ w.ledger 0 held
  · rw [hslots s hs]
  · have hidle {x : Holding} (hx : s ∈ x.slots) : x = .slot s := by
      cases x with
      | slot s' => rw [Multiset.mem_singleton.mp hx]
      | weak | root => cases hx
    have hnone : s ∉ (w.ledger 0 held).bind Holding.slots := by
      intro hmem
      obtain ⟨x, hx, hsx⟩ := Multiset.mem_bind.mp hmem
      exact hs (hidle hsx ▸ hx)
    rw [h.accounted.slots_idle s hnone, h'.accounted.slots_idle s (hledger ▸ hnone)]

theorem Steady.targets_eq : Holding.targets w = Holding.targets w' := by
  funext x
  cases x with
  | slot s => rw [Holding.targets, Holding.targets, h.targets_slotAt_eq h' hledger hslots]
  | weak | root => rfl

theorem Steady.strongAt_eq : w.strongAt = w'.strongAt := by
  funext o
  rw [h.accounted.strong_eq, h'.accounted.strong_eq, refs, refs, hledger,
    h.targets_eq h' hledger hslots]

/-- Tallies are determined by the roots and the edges. -/
theorem Steady.tallies_eq (hsize : w.objects.size = w'.objects.size) (hvalue : w.valueAt = w'.valueAt)
    (howns : w.owns = w'.owns) : w.tallies = w'.tallies := by
  have hout : w.out = w'.out := by
    funext o
    rw [out_eq, out_eq, hvalue]
    apply List.flatMap_congr
    intro s _
    exact h.targets_slotAt_eq h' hledger hslots s
  have hsupport (r : RootId) (o : ObjId) : w.support r o = w'.support r o := by
    by_cases ho : ∃ g, w.owns g o = true
    · obtain ⟨g, ho⟩ := ho
      rw [h.support_eq ho, h'.support_eq (howns ▸ ho), h.target?_eq h' hledger]
    · have hnone {w : World} (ho : ¬ ∃ g, w.owns g o = true) : w.support r o = 0 := by
        unfold support
        cases hob : w.objects[o]? with
        | none => rfl
        | some ob => exact absurd ⟨ob.heap, owns_iff.mpr ⟨ob, hob, rfl⟩⟩ ho
      rw [hnone ho, hnone (howns ▸ ho)]
  apply Tallies.ext_count
  · rw [h.tallied.size_eq, h'.tallied.size_eq, hsize]
  · intro o r
    have hbalanced := (h'.tallied.balanced r).congr_support (hsupport r)
    rw [← hout] at hbalanced
    exact (h.tallied.balanced r).count_unique hbalanced o

end Agreement

section Ends

variable {w₀ w w' : World} {kept strays : Multiset Holding} {owed owed' : HeapId → ℤ}

/-- When nothing is left to be done, what is live is all that was sustained; so as much is live as in
any other world that things have come to. -/
theorem Wanes.live_of_live (h : w₀.Wanes (strays + kept) w) (h' : w₀.Wanes (strays + kept) w')
    (hsteady : w.Steady 0 kept owed)
    (hhoused : ∀ g o, w.isLive o = true → w.owns g o = true → w.heapExists g = true ∨
      ∃ x ∈ strays, o ∈ x.targets w) {o : ObjId} (ho : w.isLive o = true) : w'.isLive o = true := by
  have hsustained := (h.sustained_iff fun _ => id).mp (hsteady.sustained hhoused)
  exact h'.outlast _ hsustained o ho

/-- With the same objects live, the same slots are in use, and they own the same. -/
theorem Wanes.slotAt_eq (h : w₀.Wanes (strays + kept) w) (h' : w₀.Wanes (strays + kept) w')
    (hlive : w.isLive = w'.isLive) : w.ledger 0 kept = w'.ledger 0 kept ∧
      ∀ s, .slot s ∈ w.ledger 0 kept → w.slotAt s = w'.slotAt s := by
  have hle : kept ≤ strays + kept := Multiset.le_add_left _ _
  have hlives := lives_congr (h.size.trans h'.size.symm) hlive
  have hledger : w.ledger 0 kept = w'.ledger 0 kept :=
    ledger_congr hlives (h.value.trans h'.value.symm)
  refine ⟨hledger, fun s hs => ?_⟩
  rw [(h.of_le hle).slots s hs, (h'.of_le hle).slots s (hledger ▸ hs)]

/-- The worlds that things come to are the same but for how they came about. -/
theorem Wanes.agrees (h : w₀.Wanes (strays + kept) w) (h' : w₀.Wanes (strays + kept) w')
    (hsteady : w.Steady 0 kept owed) (hsteady' : w'.Steady 0 kept owed')
    (hhoused : ∀ g o, w.isLive o = true → w.owns g o = true → w.heapExists g = true ∨
      ∃ x ∈ strays, o ∈ x.targets w)
    (hhoused' : ∀ g o, w'.isLive o = true → w'.owns g o = true → w'.heapExists g = true ∨
      ∃ x ∈ strays, o ∈ x.targets w') :
    w.Agrees w' := by
  have hlive : w.isLive = w'.isLive := funext fun o => Bool.eq_iff_iff.mpr
    ⟨h.live_of_live h' hsteady hhoused, h'.live_of_live h hsteady' hhoused'⟩
  have hsize := h.size.trans h'.size.symm
  have hvalue := h.value.trans h'.value.symm
  have howns := h.owns.trans h'.owns.symm
  obtain ⟨hledger, hslots⟩ := h.slotAt_eq h' hlive
  refine ⟨hlive, hvalue, hsteady.tallies_eq hsteady' hledger hslots hsize hvalue howns,
    hsteady.strongAt_eq hsteady' hledger hslots,
    fun o ho s hs => hslots s (mem_ledger_of_live ho hs),
    hsteady.target?_eq hsteady' hledger, funext fun g => ?_⟩
  have hcollected := (h.collected g).trans (h'.collected g).symm
  rw [aliveAt, aliveAt, lives_congr hsize hlive, howns] at hcollected
  exact Nat.add_right_cancel hcollected

end Ends

end World

namespace Client

variable {c : Client}

/-- Nothing that is sustained goes with a task. -/
theorem Sound.step_wanes {strays : Multiset Holding} {t : Task} {rest more : List Task} {w : World}
    (h : c.Sound) (hincoming : c.incoming = []) (htodo : c.todo = t :: rest)
    (hstep : t.step c.world = .ok more w) (hstrays : c.world.Strands strays) :
    c.world.Wanes (strays + c.held) w ∧ c.world.Reduces w := by
  have hadvances := h.advances htodo hstep
  have horderly := h.orderly
  unfold Orderly at horderly
  rw [htodo, hincoming, ← Multiset.cons_coe] at horderly
  rw [hincoming] at hadvances
  have hreduces := horderly.reduces hstep
  exact ⟨horderly.wanes hadvances (hreduces.strands hstrays), hreduces⟩

/-- All tasks are carried out, and nothing that is sustained goes. -/
theorem Sound.settle_wanes {strays : Multiset Holding} (h : c.Sound) (hincoming : c.incoming = [])
    (hstrays : c.world.Strands strays) :
    ∃ w, RootedHeap.settle c.todo c.world = .ok () w ∧ Sound { c with world := w, todo := [] } ∧
      c.world.Wanes (strays + c.held) w ∧ c.world.Reduces w := by
  have hguarded : c.world.Guarded 0 c.held := by
    have horderly := h.orderly.steady.guarded
    rw [holds, hincoming, List.map_nil, Multiset.coe_nil, zero_add,
      ← add_zero (c.todo : Multiset Task)] at horderly
    exact horderly.dropTasks
  have hstep : ∀ (c' : Client) (t : Task) (rest more : List Task) (w : World),
      (c'.Sound ∧ c'.held = c.held ∧ c'.incoming = [] ∧
        c.world.Wanes (strays + c.held) c'.world ∧ c.world.Reduces c'.world) →
      c'.todo = t :: rest → t.step c'.world = .ok more w →
        (Sound { c' with world := w, todo := more ++ rest } ∧ c'.held = c.held ∧ c'.incoming = [] ∧
          c.world.Wanes (strays + c.held) w ∧ c.world.Reduces w) := by
    rintro c' t rest more w ⟨hsound, hheld, hnone, hwanes, hreduces⟩ htodo hstep
    obtain ⟨hwanes', hreduces'⟩ := hsound.step_wanes hnone htodo hstep (hreduces.strands hstrays)
    rw [hheld] at hwanes'
    exact ⟨hsound.step htodo hstep, hheld, hnone, hwanes.trans hwanes', hreduces.trans hreduces'⟩
  -- the invariant of the agenda: the client is sound, and its world wanes
  obtain ⟨w, hsettle, hsound, -, -, -, hwanes, hreduces⟩ :=
    h.settle ⟨h, rfl, hincoming, .refl (hguarded.add_strays hstrays), .refl _⟩ hstep
  exact ⟨w, hsettle, hsound, hwanes, hreduces⟩

/-- A client at rest begins to drop a handle. -/
theorem Sound.dropping {a : Handle} (h : c.Sound) (hrest : c.AtRest) (ha : .root a ∈ c.held) :
    Sound ⟨c.world, c.held - {.root a}, c.heaps, [.dropHandle a], []⟩ := by
  have hallowed : (Call.drop a).Allowed c := ha
  have hstart : (Call.drop a).start c.world = .ok ({}, [.dropHandle a]) c.world := rfl
  have hopened := h.opened hrest hallowed ((Call.begins h.orderly hallowed).of_ok hstart)
  have heq : c.opened (.drop a) {} [.dropHandle a] c.world =
      ⟨c.world, c.held - {.root a}, c.heaps, [.dropHandle a], []⟩ := by
    rw [Client.opened]
    congr 1
    · exact zero_add _
    · rw [Multiset.coe_nil, zero_add]
      exact tsub_zero _
  rwa [heq] at hopened

/-- A client at rest drops a handle. -/
theorem Sound.drop {a : Handle} {strays : Multiset Holding} (h : c.Sound) (hrest : c.AtRest)
    (ha : .root a ∈ c.held) (hstrays : c.world.Strands strays) :
    ∃ w, a.drop c.world = .ok () w ∧ Sound ⟨w, c.held - {.root a}, c.heaps, [], []⟩ ∧
      c.world.Wanes (strays + (c.held - {.root a})) w ∧ c.world.Reduces w :=
  (h.dropping hrest ha).settle_wanes rfl hstrays

/-- Handles are dropped one by one. -/
theorem Sound.dropAll {handles : List Handle} (h : c.Sound) (hrest : c.AtRest)
    (hheld : (handles.map .root : List Holding) ≤ c.held) :
    ∃ w, handles.forM Handle.drop c.world = .ok () w ∧
      Sound ⟨w, c.held - (handles.map .root : List Holding), c.heaps, [], []⟩ ∧
      c.world.Wanes (c.held - (handles.map .root : List Holding)) w := by
  induction handles generalizing c with
  | nil =>
      have hguarded := (h.steady hrest).guarded
      obtain ⟨w, held, heaps, todo, incoming⟩ := c
      obtain ⟨rfl, rfl⟩ := hrest
      rw [List.map_nil, Multiset.coe_nil, tsub_zero]
      exact ⟨w, rfl, h, .refl hguarded⟩
  | cons a rest ih =>
      rw [List.map_cons, ← Multiset.cons_coe, ← Multiset.singleton_add] at hheld ⊢
      have ha : .root a ∈ c.held := Multiset.mem_of_le hheld (by simp)
      obtain ⟨w₁, hdrop, hsound, hwanes, -⟩ := h.drop hrest ha (strands_zero c.world)
      rw [zero_add] at hwanes
      obtain ⟨w, hdrops, hsound, hwanes'⟩ := ih hsound ⟨rfl, rfl⟩ (le_tsub_of_add_le_left hheld)
      dsimp only at hdrops hsound hwanes'
      rw [tsub_tsub] at hsound hwanes'
      refine ⟨w, ?_, hsound, (hwanes.of_le ?_).trans hwanes'⟩
      · exact (bind_of_ok hdrop).trans hdrops
      · rw [← tsub_tsub]
        exact tsub_le_iff_right.mpr (Multiset.le_add_right _ _)

/-- In whatever order handles are dropped, no matter what else is dropped or collected on the way, the
same is left, and as much was collected. -/
theorem Reached.drop_perm {handles handles' : List Handle} (h : c.Reached) (hrest : c.AtRest)
    (hheaps : ∀ g < c.world.heaps.size, g ∈ c.heaps)
    (hheld : (handles.map .root : List Holding) ≤ c.held) (hperm : handles.Perm handles') :
    ∃ w w', handles.forM Handle.drop c.world = .ok () w ∧
      handles'.forM Handle.drop c.world = .ok () w' ∧ w.Agrees w' := by
  have hsame : (handles.map .root : List Holding) =
      ((handles'.map .root : List Holding) : Multiset Holding) :=
    Multiset.coe_eq_coe.mpr (hperm.map _)
  obtain ⟨w, hdrops, hsound, hwanes⟩ := h.sound.dropAll hrest hheld
  obtain ⟨w', hdrops', hsound', hwanes'⟩ := h.sound.dropAll hrest (hsame ▸ hheld)
  rw [← hsame] at hsound' hwanes'
  rw [← zero_add (c.held - _)] at hwanes hwanes'
  have hsteady := hsound.steady ⟨rfl, rfl⟩
  have hsteady' := hsound'.steady ⟨rfl, rfl⟩
  -- every live object has its heap still, since the client owns all heaps
  have hhoused {w : World} {held kept : Multiset Holding}
      (hsound : Sound ⟨w, held, c.heaps, [], []⟩) (hwanes : c.world.Wanes kept w) (g : HeapId)
      (o : ObjId) (hlive : w.isLive o = true) (hown : w.owns g o = true) :
      w.heapExists g = true ∨ ∃ x ∈ (0 : Multiset Holding), o ∈ x.targets w := by
    rw [hwanes.owns] at hown
    obtain ⟨heap, hheap⟩ := (h.sound.steady hrest).guarded.heap_some g o hown
    have hg := hheaps g (Array.getElem?_eq_some_iff.mp hheap).1
    exact .inl (by simpa [heapExists_eq] using hsound.orderly.holdersAt_pos (.inl hg))
  refine ⟨w, w', hdrops, hdrops', ?_⟩
  exact hwanes.agrees hwanes' hsteady hsteady' (hhoused hsound hwanes) (hhoused hsound' hwanes')

/-- A client with a leaf, and a node whose value embeds a handle to it. -/
def keepsake : Client :=
  (lone.call (.clone ⟨0, 1, 0⟩)).call (.alloc 0 "node" (.root ⟨0, 2, 0⟩))

theorem keepsake_reached : keepsake.Reached ∧ keepsake.AtRest := by
  have hheld : lone.held = {.root ⟨0, 1, 0⟩} := by cbv
  have hhandles : (lone.call (.clone ⟨0, 1, 0⟩)).held = {.root ⟨0, 2, 0⟩, .root ⟨0, 1, 0⟩} := by cbv
  have hheaps : (lone.call (.clone ⟨0, 1, 0⟩)).heaps = {0} := by cbv
  have hleaf : lone.Sees (.root ⟨0, 1, 0⟩) := .held (hheld ▸ Multiset.mem_singleton_self _)
  refine Reached.call (Reached.call lone_reached hleaf (by cbv)) ⟨?_, by decide, ?_⟩ (by cbv)
  · rw [hheaps]
    exact Multiset.mem_singleton_self 0
  · rw [hhandles]
    exact Multiset.singleton_le.mpr (Multiset.mem_cons_self _ _)

/-- If the node's handle goes first, the handle in its value goes with it, and the leaf goes with its own;
if the leaf's handle goes first, the leaf goes when the node is finalized. -/
theorem keepsake_drop_perm :
    keepsake.world.valueAt 1 = .root ⟨0, 2, 0⟩ ∧ ∃ w w',
      [⟨1, 3, 0⟩, ⟨0, 1, 0⟩].forM Handle.drop keepsake.world = .ok () w ∧
      [⟨0, 1, 0⟩, ⟨1, 3, 0⟩].forM Handle.drop keepsake.world = .ok () w' ∧ w.Agrees w' := by
  have hheld : keepsake.held = {.root ⟨1, 3, 0⟩, .root ⟨0, 1, 0⟩} := by cbv
  have hheaps : keepsake.heaps = {0} := by cbv
  have hsize : keepsake.world.heaps.size = 1 := by cbv
  obtain ⟨hreached, hrest⟩ := keepsake_reached
  refine ⟨by cbv, hreached.drop_perm hrest ?_ ?_ (.swap _ _ _)⟩
  · intro g hg
    rw [hheaps, Multiset.mem_singleton]
    omega
  · rw [hheld]
    exact le_refl _

end Client

end RootedHeap
