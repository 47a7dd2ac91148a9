import RootedHeap.Proofs.Meters
import RootedHeap.Proofs.Moves
import RootedHeap.Proofs.Orphans

/-! # Worlds that differ in what is counted and reported only

Tallies, strong and weak counts, counters and the log of a world change all the time during a
session. `World.Alike` worlds agree on the rest, and what soundness says of a world is said of that
rest.
-/

namespace RootedHeap

/-- What of an object only its collection changes. -/
def Object.face (ob : Object) : HeapId × Value × Bool := (ob.heap, ob.value, ob.state = .live)

/-- What of a heap is more than reported. -/
def Heap.face (heap : Heap) : Config × Registry × Nat × Nat :=
  (heap.config, heap.roots, heap.live, heap.holders)

namespace World

section Face

variable (w : World)

theorem isLive_face (o : ObjId) :
    w.isLive o =
      ((w.objects[o]?.map Object.face).map fun f => f.2.2).getD false := by
  unfold isLive
  cases w.objects[o]? <;> rfl

theorem owns_face (g : HeapId) (o : ObjId) :
    w.owns g o = ((w.objects[o]?.map Object.face).map fun f => decide (f.1 = g)).getD false := by
  unfold owns
  cases w.objects[o]? <;> rfl

theorem valueAt_face (o : ObjId) :
    w.valueAt o = ((w.objects[o]?.map Object.face).map fun f => f.2.1).getD .plain := by
  unfold valueAt
  cases w.objects[o]? <;> rfl

theorem support_face (r : RootId) (o : ObjId) :
    w.support r o = ((w.objects[o]?.map Object.face).map
      fun f => (w.rootsAt f.1 : Multiset (RootId × ObjId)).count (r, o)).getD 0 := by
  unfold support
  cases w.objects[o]? <;> rfl

theorem registryAt_face (g : HeapId) :
    w.registryAt g = ((w.heaps[g]?.map Heap.face).map fun f => f.2.1).getD .empty := by
  unfold registryAt
  cases w.heaps[g]? <;> rfl

theorem holdersAt_face (g : HeapId) :
    w.holdersAt g = ((w.heaps[g]?.map Heap.face).map fun f => f.2.2.2).getD 0 := by
  unfold holdersAt
  cases w.heaps[g]? <;> rfl

theorem heapExists_face (g : HeapId) :
    w.heapExists g =
      ((w.heaps[g]?.map Heap.face).map fun f => decide (0 < f.2.2.2)).getD false := by
  unfold heapExists
  cases w.heaps[g]? <;> rfl

end Face

/-- The graph of what live objects report has no cycle. -/
def Acyclic (w : World) : Prop := ∀ o, w.isLive o = true → ¬ OnCycle w.out o

/-- The worlds have the same objects, of which the same are live, and the same slots. -/
structure Mirrors (w w' : World) : Prop where
  slots : w'.slots = w.slots
  size : w'.objects.size = w.objects.size
  objects : ∀ o : ObjId, w'.objects[o]?.map Object.face = w.objects[o]?.map Object.face

namespace Mirrors

variable {w w' w'' : World}

theorem trans (h : w.Mirrors w') (h' : w'.Mirrors w'') : w.Mirrors w'' :=
  ⟨h'.slots.trans h.slots, h'.size.trans h.size, fun o => (h'.objects o).trans (h.objects o)⟩

theorem symm (h : w.Mirrors w') : w'.Mirrors w :=
  ⟨h.slots.symm, h.size.symm, fun o => (h.objects o).symm⟩

theorem object_eq (h : w.Mirrors w') {o : ObjId} {ob : Object} (hob : w.objects[o]? = some ob) :
    ∃ ob', w'.objects[o]? = some ob' ∧ ob'.face = ob.face := by
  have hface := h.objects o
  rw [hob] at hface
  exact Option.map_eq_some_iff.mp hface

theorem slotAt (h : w.Mirrors w') : w'.slotAt = w.slotAt := by
  funext s
  rw [World.slotAt, World.slotAt, h.slots]

theorem isLive (h : w.Mirrors w') : w'.isLive = w.isLive := by
  funext o
  rw [isLive_face, isLive_face, h.objects]

theorem gone (h : w.Mirrors w') : w'.Gone = w.Gone := by
  funext o
  rw [Gone, Gone, h.size, h.isLive]

theorem owns (h : w.Mirrors w') : w'.owns = w.owns := by
  funext g o
  rw [owns_face, owns_face, h.objects]

theorem valueAt (h : w.Mirrors w') : w'.valueAt = w.valueAt := by
  funext o
  rw [valueAt_face, valueAt_face, h.objects]

theorem out (h : w.Mirrors w') : w'.out = w.out := by
  funext o
  rw [out_eq, out_eq, h.valueAt, h.slotAt]

theorem back (h : w.Mirrors w') : w'.back = w.back := by
  funext o
  rw [back_eq, back_eq, h.valueAt, h.slotAt]

theorem lives (h : w.Mirrors w') : w'.lives = w.lives := by
  rw [World.lives, World.lives, h.size, h.isLive]

theorem targets (h : w.Mirrors w') : Holding.targets w' = Holding.targets w := by
  funext x
  cases x with
  | slot s => rw [Holding.targets, Holding.targets, h.slotAt]
  | weak | root => rfl

theorem holdings (h : w.Mirrors w') : Task.holdings w' = Task.holdings w := by
  funext t
  cases t with
  | dropValue o => rw [Task.holdings, Task.holdings, h.valueAt]
  | dropSlot | release | dropWeak | dropHandle | leave | retire => rfl

theorem ledger (h : w.Mirrors w') : w'.ledger = w.ledger := by
  funext todo held
  rw [World.ledger, World.ledger, h.lives, h.valueAt, h.holdings]

theorem refs (h : w.Mirrors w') : w'.refs = w.refs := by
  funext todo held
  rw [World.refs, World.refs, h.ledger, h.targets]

theorem outer (h : w.Mirrors w') : w'.outer = w.outer := by
  funext todo held
  rw [World.outer, World.outer, World.offGraph, World.offGraph, h.lives, h.valueAt, h.holdings,
    h.targets]

theorem candidateIn (h : w.Mirrors w') : w'.candidateIn = w.candidateIn := by
  funext ts o
  rw [World.candidateIn, World.candidateIn, h.isLive]

theorem candidateEdges (h : w.Mirrors w') : w'.candidateEdges = w.candidateEdges := by
  funext ts o
  rw [World.candidateEdges, World.candidateEdges, h.out, h.candidateIn]

theorem acyclic (h : w.Mirrors w') : w'.Acyclic = w.Acyclic := by
  rw [Acyclic, Acyclic, h.isLive, h.out]

end Mirrors

/-- The worlds differ in tallies, strong and weak counts, counters and log at most. -/
structure Alike (w w' : World) : Prop where
  slots : w'.slots = w.slots
  dropped : w'.dropped = w.dropped
  size : w'.objects.size = w.objects.size
  objects : ∀ o : ObjId, w'.objects[o]?.map Object.face = w.objects[o]?.map Object.face
  heaps : ∀ h : HeapId, w'.heaps[h]?.map Heap.face = w.heaps[h]?.map Heap.face

namespace Alike

variable {w w' w'' : World}

theorem refl (w : World) : w.Alike w := ⟨rfl, rfl, rfl, fun _ => rfl, fun _ => rfl⟩

theorem trans (h : w.Alike w') (h' : w'.Alike w'') : w.Alike w'' :=
  ⟨h'.slots.trans h.slots, h'.dropped.trans h.dropped, h'.size.trans h.size,
    fun o => (h'.objects o).trans (h.objects o), fun g => (h'.heaps g).trans (h.heaps g)⟩

theorem symm (h : w.Alike w') : w'.Alike w :=
  ⟨h.slots.symm, h.dropped.symm, h.size.symm, fun o => (h.objects o).symm,
    fun g => (h.heaps g).symm⟩

theorem modifyObject (w : World) (o : ObjId) {f : Object → Object}
    (hf : ∀ ob, w.objects[o]? = some ob → (f ob).face = ob.face) :
    w.Alike (w.modifyObject o f) := by
  refine ⟨rfl, rfl, Array.size_modify, fun o' => ?_, fun _ => rfl⟩
  simp only [World.modifyObject, Array.getElem?_modify]
  split
  next heq =>
    subst heq
    cases hob : w.objects[o]? with
    | none => rfl
    | some ob => simp [hf ob hob]
  next => rfl

theorem modifyHeap (w : World) (g : HeapId) {f : Heap → Heap}
    (hf : ∀ heap, (f heap).face = heap.face) : w.Alike (w.modifyHeap g f) := by
  refine ⟨rfl, rfl, rfl, fun _ => rfl, fun g' => ?_⟩
  simp only [World.modifyHeap, Array.getElem?_modify]
  split
  · cases w.heaps[g']? <;> simp [hf]
  · rfl

theorem note (w : World) (e : Event) : w.Alike (w.note e) :=
  ⟨rfl, rfl, rfl, fun _ => rfl, fun _ => rfl⟩

theorem writeSlot (h : w.Alike w') (s : SlotId) (content : Slot) :
    (w.writeSlot s content).Alike (w'.writeSlot s content) :=
  ⟨congrArg (·.setIfInBounds s content) h.slots, h.dropped, h.size, h.objects, h.heaps⟩

theorem setRegistry (h : w.Alike w') (g : HeapId) (roots : Registry) :
    (w.setRegistry g roots).Alike (w'.setRegistry g roots) := by
  refine ⟨h.slots, h.dropped, h.size, h.objects, fun g' => ?_⟩
  have hset (o : Option Heap) :
      (o.map fun heap => if g' = g then { heap with roots := roots } else heap).map Heap.face =
        (o.map Heap.face).map fun f => if g' = g then (f.1, roots, f.2.2) else f := by
    cases o with
    | none => rfl
    | some heap =>
        simp only [Option.map_some]
        split <;> rfl
  rw [heaps_setRegistry, heaps_setRegistry, hset, hset, h.heaps]

/-- A registry can be set along with counters, and logged. -/
theorem register (h : w.Alike w') (g : HeapId) {roots : Registry} {f : Heap → Heap}
    (hf : ∀ heap, (f heap).face = ({ heap with roots := roots } : Heap).face) (e : Event) :
    (w.setRegistry g roots).Alike ((w'.modifyHeap g f).note e) := by
  refine (h.setRegistry g roots).trans ⟨rfl, rfl, rfl, fun _ => rfl, fun g' => ?_⟩
  simp only [World.note, World.setRegistry, World.modifyHeap, Array.getElem?_modify]
  split
  · cases w'.heaps[g']? <;> simp [hf]
  · rfl

theorem mirrors (h : w.Alike w') : w.Mirrors w' := ⟨h.slots, h.size, h.objects⟩

theorem object_eq (h : w.Alike w') {o : ObjId} {ob : Object} (hob : w.objects[o]? = some ob) :
    ∃ ob', w'.objects[o]? = some ob' ∧ ob'.face = ob.face :=
  h.mirrors.object_eq hob

theorem heap_eq (h : w.Alike w') {g : HeapId} {heap : Heap} (hheap : w.heaps[g]? = some heap) :
    ∃ heap', w'.heaps[g]? = some heap' ∧ heap'.face = heap.face := by
  have hface := h.heaps g
  rw [hheap] at hface
  exact Option.map_eq_some_iff.mp hface

theorem slotAt (h : w.Alike w') : w'.slotAt = w.slotAt := h.mirrors.slotAt

theorem isLive (h : w.Alike w') : w'.isLive = w.isLive := h.mirrors.isLive

theorem gone (h : w.Alike w') : w'.Gone = w.Gone := h.mirrors.gone

theorem owns (h : w.Alike w') : w'.owns = w.owns := h.mirrors.owns

theorem valueAt (h : w.Alike w') : w'.valueAt = w.valueAt := h.mirrors.valueAt

theorem out (h : w.Alike w') : w'.out = w.out := h.mirrors.out

theorem back (h : w.Alike w') : w'.back = w.back := h.mirrors.back

theorem lives (h : w.Alike w') : w'.lives = w.lives := h.mirrors.lives

theorem targets (h : w.Alike w') : Holding.targets w' = Holding.targets w := h.mirrors.targets

theorem holdings (h : w.Alike w') : Task.holdings w' = Task.holdings w := h.mirrors.holdings

theorem ledger (h : w.Alike w') : w'.ledger = w.ledger := h.mirrors.ledger

theorem refs (h : w.Alike w') : w'.refs = w.refs := h.mirrors.refs

theorem outer (h : w.Alike w') : w'.outer = w.outer := h.mirrors.outer

theorem registryAt (h : w.Alike w') : w'.registryAt = w.registryAt := by
  funext g
  rw [registryAt_face, registryAt_face, h.heaps]

theorem rootsAt (h : w.Alike w') : w'.rootsAt = w.rootsAt := by
  funext g
  rw [World.rootsAt, World.rootsAt, h.registryAt]

theorem holdersAt (h : w.Alike w') : w'.holdersAt = w.holdersAt := by
  funext g
  rw [holdersAt_face, holdersAt_face, h.heaps]

theorem heapExists (h : w.Alike w') : w'.heapExists = w.heapExists := by
  funext g
  rw [heapExists_face, heapExists_face, h.heaps]

theorem support (h : w.Alike w') : w'.support = w.support := by
  funext r o
  rw [support_face, support_face, h.objects, h.rootsAt]

theorem candidateIn (h : w.Alike w') : w'.candidateIn = w.candidateIn := h.mirrors.candidateIn

theorem candidateEdges (h : w.Alike w') : w'.candidateEdges = w.candidateEdges := h.mirrors.candidateEdges

end Alike

/-- No orphan was found from `w` to `w'`, provided that the graph has no cycle. -/
def Barren (w w' : World) : Prop := w.Acyclic → w.Ticks Counters.SameOrphans w'

namespace Barren

variable {w w' w'' : World}

theorem of_ticks (h : w.Ticks Counters.SameOrphans w') : w.Barren w' := fun _ => h

theorem refl (w : World) : w.Barren w := of_ticks fun _ => rfl

theorem ticks (h : w.Barren w') (h' : w'.Ticks Counters.SameOrphans w'') : w.Barren w'' :=
  fun hacyclic => (h hacyclic).trans Counters.waxing_sameOrphans.toWaning h'

/-- A registry can be set along with counters, and logged. -/
theorem register (h : w.Barren w') (g : HeapId) (roots : Registry)
    {f : Heap → Heap}
    (hf : ∀ heap, (f heap).counters.orphansFound = heap.counters.orphansFound) (e : Event) :
    (w.setRegistry g roots).Barren ((w'.modifyHeap g f).note e) := by
  intro hacyclic
  have hmirrors : w.Mirrors (w.setRegistry g roots) := ⟨rfl, rfl, fun _ => rfl⟩
  have hset : (w.setRegistry g roots).countersAt = w.countersAt :=
    countersAt_modifyHeap w g fun _ => rfl
  have hwaning := Counters.waxing_sameOrphans.toWaning
  have hback : (w.setRegistry g roots).Ticks Counters.SameOrphans w := .of_eq hwaning hset.symm
  exact hback.trans hwaning ((h (hmirrors.acyclic ▸ hacyclic)).trans hwaning
    (.modifyHeap hwaning w' g hf))

end Barren

/-! ## Soundness depends only on what alike worlds have in common -/

section Congr

variable {w w' : World} {ts : Tallies} {strong : ObjId → Nat} {support : RootId → ObjId → Nat}
  {suspects : List ObjId} {todo : Multiset Task} {held : Multiset Holding} {owed : HeapId → ℤ}

theorem Accounted.congr (h : w.Accounted strong todo held) (halike : w.Alike w') :
    w'.Accounted strong todo held where
  strong_eq := by
    rw [halike.refs]
    exact h.strong_eq
  slots_nodup := by
    rw [halike.ledger]
    exact h.slots_nodup
  slots_lt := by
    rw [halike.ledger, halike.slots]
    exact h.slots_lt
  slots_idle := by
    rw [halike.ledger, halike.slotAt]
    exact h.slots_idle
  roots_eq := by
    rw [halike.ledger, halike.rootsAt]
    exact h.roots_eq
  roots_nodup := by
    rw [halike.rootsAt]
    exact h.roots_nodup
  roots_lt := by
    rw [halike.rootsAt, halike.registryAt]
    exact h.roots_lt
  live_eq g heap hheap := by
    obtain ⟨heap', hheap', hface⟩ := halike.symm.heap_eq hheap
    simp only [Heap.face, Prod.mk.injEq] at hface
    rw [halike.lives, halike.owns, ← hface.2.2.1]
    exact h.live_eq g heap' hheap'

theorem Guarded.congr (h : w.Guarded todo held) (halike : w.Alike w') : w'.Guarded todo held where
  matched := by
    rw [halike.valueAt]
    exact h.matched
  heap_some g o ho := by
    rw [halike.owns] at ho
    obtain ⟨heap, hheap⟩ := h.heap_some g o ho
    obtain ⟨heap', hheap', -⟩ := halike.heap_eq hheap
    exact ⟨heap', hheap'⟩
  verify g heap hheap := by
    obtain ⟨heap', hheap', hface⟩ := halike.symm.heap_eq hheap
    simp only [Heap.face, Prod.mk.injEq] at hface
    rw [← hface.1]
    exact h.verify g heap' hheap'
  closed := by
    rw [halike.isLive, halike.out, halike.owns]
    exact h.closed
  value_live := by
    rw [halike.isLive, halike.valueAt, halike.targets]
    exact h.value_live
  held_live := by
    rw [halike.isLive, halike.targets]
    exact h.held_live
  handle_owned := by
    rw [halike.ledger, halike.owns]
    exact h.handle_owned
  buried := by
    rw [halike.gone]
    exact h.buried
  dropped := by
    rw [halike.gone, halike.dropped]
    exact h.dropped

theorem Tallied.congr (h : w.Tallied ts support) (halike : w.Alike w') : w'.Tallied ts support where
  size_eq := by
    rw [halike.size]
    exact h.size_eq
  balanced := by
    rw [halike.out]
    exact h.balanced
  supported := by
    rw [halike.isLive]
    exact h.supported

theorem Sound.congr (h : w.Sound ts strong support suspects todo held owed) (halike : w.Alike w') :
    w'.Sound ts strong support suspects todo held owed where
  accounted := h.accounted.congr halike
  guarded := h.guarded.congr halike
  tallied := h.tallied.congr halike
  anchored := by
    unfold Anchored
    rw [halike.owns, halike.heapExists, halike.candidateIn, halike.candidateEdges, halike.outer]
    exact h.anchored
  attended := by
    unfold Attended
    rw [halike.holdersAt, halike.rootsAt]
    exact h.attended

end Congr

end World

end RootedHeap
