import Mathlib.Algebra.Order.Group.Multiset
import Mathlib.Data.Multiset.Bind
import Mathlib.Data.Multiset.Range
import Mathlib.Tactic.Abel
import RootedHeap.Finalize
import RootedHeap.Proofs.Visits

/-! # Who refers to what

Everything that refers to objects is held by exactly one party: by the value of a live object, by a
task that is still to be done, or by a client. `World.ledger` lists what they hold, and
`World.refs` the objects these holdings refer to. The references split into the edges of live
objects, which passes follow, and the `World.outer` ones, which no pass sees.
-/

namespace RootedHeap

/-- The slots in a holding. -/
def Holding.slots : Holding → Multiset SlotId
  | .slot s => {s}
  | .weak _ | .root _ => 0

/-- The entries that a holding has in the registry of heap `h`. -/
def Holding.entries (h : HeapId) : Holding → Multiset (RootId × ObjId)
  | .root a => if a.heap = h then {(a.root, a.obj)} else 0
  | .slot _ | .weak _ => 0

/-- The objects that a holding has strong references to. -/
def Holding.targets (w : World) : Holding → Multiset ObjId
  | .slot s => ((w.slotAt s).targets : Multiset ObjId)
  | .root a => {a.obj}
  | .weak _ => 0

/-- What a task is still to give up. -/
def Task.holdings (w : World) : Task → Multiset Holding
  | .dropValue o => ((w.valueAt o).holdings : Multiset Holding)
  | .dropSlot s => {.slot s}
  | .dropWeak o => {.weak o}
  | .dropHandle a => {.root a}
  | .release _ | .leave _ | .retire _ _ => 0

/-- The strong reference that a task is still to give up, its slot being gone already. -/
def Task.released : Task → Multiset ObjId
  | .release o => {o}
  | .dropValue _ | .dropSlot _ | .dropWeak _ | .dropHandle _ | .leave _ | .retire _ _ => 0

/-- What a value holds apart from the slots that it reports. -/
def Value.unseen (v : Value) : Multiset Holding :=
  (v.holdings : Multiset Holding) - (v.connectSlots.map Holding.slot : List Holding)

theorem Value.Matched.holdings_eq {v : Value} (h : v.Matched) :
    (v.holdings : Multiset Holding) =
      (v.connectSlots.map Holding.slot : List Holding) + v.unseen := by
  have hnodup : (v.connectSlots.map Holding.slot).Nodup :=
    h.nodup.map fun _ _ heq => Holding.slot.inj heq
  have hle : ((v.connectSlots.map Holding.slot : List Holding) : Multiset Holding) ≤
      (v.holdings : Multiset Holding) := by
    refine (Multiset.le_iff_subset (Multiset.coe_nodup.mpr hnodup)).mpr ?_
    intro x hx
    obtain ⟨s, hs, rfl⟩ := List.mem_map.mp (Multiset.mem_coe.mp hx)
    exact Multiset.mem_coe.mpr (Value.mem_holdings_of_reported hs)
  rw [Multiset.add_comm]
  exact (Multiset.sub_add_cancel hle).symm

namespace World

/-- The live objects. -/
def lives (w : World) : Multiset ObjId :=
  (Multiset.range w.objects.size).filter fun o => w.isLive o = true

theorem isLive_iff {w : World} {o : ObjId} :
    w.isLive o = true ↔ ∃ ob, w.objects[o]? = some ob ∧ ob.state = .live := by
  unfold isLive
  cases w.objects[o]? <;> simp

theorem lt_size_of_isLive {w : World} {o : ObjId} (h : w.isLive o = true) :
    o < w.objects.size := by
  obtain ⟨ob, hob, _⟩ := isLive_iff.mp h
  exact (Array.getElem?_eq_some_iff.mp hob).1

@[simp] theorem mem_lives {w : World} {o : ObjId} : o ∈ w.lives ↔ w.isLive o = true := by
  rw [lives, Multiset.mem_filter, Multiset.mem_range]
  exact ⟨And.right, fun h => ⟨lt_size_of_isLive h, h⟩⟩

theorem nodup_lives (w : World) : w.lives.Nodup := (Multiset.nodup_range _).filter _

/-- All that is held, by live objects, tasks and clients. -/
def ledger (w : World) (todo : Multiset Task) (held : Multiset Holding) : Multiset Holding :=
  w.lives.bind (fun o => ((w.valueAt o).holdings : Multiset Holding)) +
    todo.bind (Task.holdings w) + held

/-- All strong references that there are. -/
def refs (w : World) (todo : Multiset Task) (held : Multiset Holding) : Multiset ObjId :=
  (w.ledger todo held).bind (Holding.targets w) + todo.bind Task.released

/-- What is held apart from the slots that live objects report. -/
def offGraph (w : World) (todo : Multiset Task) (held : Multiset Holding) : Multiset Holding :=
  w.lives.bind (fun o => (w.valueAt o).unseen) + todo.bind (Task.holdings w) + held

/-- The strong references that are no edges of live objects. -/
def outer (w : World) (todo : Multiset Task) (held : Multiset Holding) : Multiset ObjId :=
  (w.offGraph todo held).bind (Holding.targets w) + todo.bind Task.released

variable {w : World} {todo : Multiset Task} {held : Multiset Holding}

theorem ledger_add_tasks (more : Multiset Task) :
    w.ledger (more + todo) held = more.bind (Task.holdings w) + w.ledger todo held := by
  simp only [ledger, Multiset.add_bind]
  abel

theorem ledger_add_held (more : Multiset Holding) :
    w.ledger todo (more + held) = more + w.ledger todo held := by
  simp only [ledger]
  abel

@[simp] theorem ledger_cons_task (t : Task) :
    w.ledger (t ::ₘ todo) held = t.holdings w + w.ledger todo held := by
  rw [← Multiset.singleton_add, ledger_add_tasks, Multiset.singleton_bind]

@[simp] theorem ledger_cons_held (x : Holding) :
    w.ledger todo (x ::ₘ held) = x ::ₘ w.ledger todo held := by
  rw [← Multiset.singleton_add, ledger_add_held, Multiset.singleton_add]

theorem offGraph_add_tasks (more : Multiset Task) :
    w.offGraph (more + todo) held = more.bind (Task.holdings w) + w.offGraph todo held := by
  simp only [offGraph, Multiset.add_bind]
  abel

theorem offGraph_add_held (more : Multiset Holding) :
    w.offGraph todo (more + held) = more + w.offGraph todo held := by
  simp only [offGraph]
  abel

theorem refs_add_tasks (more : Multiset Task) :
    w.refs (more + todo) held = (more.bind (Task.holdings w)).bind (Holding.targets w) +
      more.bind Task.released + w.refs todo held := by
  simp only [refs, ledger_add_tasks, Multiset.add_bind]
  abel

theorem refs_add_held (more : Multiset Holding) :
    w.refs todo (more + held) = more.bind (Holding.targets w) + w.refs todo held := by
  simp only [refs, ledger_add_held, Multiset.add_bind]
  abel

@[simp] theorem refs_cons_task (t : Task) :
    w.refs (t ::ₘ todo) held =
      (t.holdings w).bind (Holding.targets w) + t.released + w.refs todo held := by
  rw [← Multiset.singleton_add, refs_add_tasks, Multiset.singleton_bind, Multiset.singleton_bind]

@[simp] theorem refs_cons_held (x : Holding) :
    w.refs todo (x ::ₘ held) = x.targets w + w.refs todo held := by
  rw [← Multiset.singleton_add, refs_add_held, Multiset.singleton_bind]

theorem outer_add_tasks (more : Multiset Task) :
    w.outer (more + todo) held = (more.bind (Task.holdings w)).bind (Holding.targets w) +
      more.bind Task.released + w.outer todo held := by
  simp only [outer, offGraph_add_tasks, Multiset.add_bind]
  abel

theorem outer_add_held (more : Multiset Holding) :
    w.outer todo (more + held) = more.bind (Holding.targets w) + w.outer todo held := by
  simp only [outer, offGraph_add_held, Multiset.add_bind]
  abel

@[simp] theorem outer_cons_task (t : Task) :
    w.outer (t ::ₘ todo) held =
      (t.holdings w).bind (Holding.targets w) + t.released + w.outer todo held := by
  rw [← Multiset.singleton_add, outer_add_tasks, Multiset.singleton_bind, Multiset.singleton_bind]

@[simp] theorem outer_cons_held (x : Holding) :
    w.outer todo (x ::ₘ held) = x.targets w + w.outer todo held := by
  rw [← Multiset.singleton_add, outer_add_held, Multiset.singleton_bind]

@[simp] theorem bind_holdings_releases (os : Multiset ObjId) :
    (os.map Task.release).bind (Task.holdings w) = 0 := by
  rw [Multiset.bind_map]
  simp [Task.holdings]

@[simp] theorem bind_released_releases (os : Multiset ObjId) :
    (os.map Task.release).bind Task.released = os := by
  rw [Multiset.bind_map]
  exact (Multiset.bind_singleton os id).trans (Multiset.map_id os)

/-- How dropping a value's holdings is accounted for. -/
theorem bind_holdings_ofHolding (m : Multiset Holding) :
    (m.map Task.ofHolding).bind (Task.holdings w) = m := by
  rw [Multiset.bind_map]
  refine (Multiset.bind_congr ?_).trans (Multiset.bind_singleton m id |>.trans (Multiset.map_id m))
  intro x _
  cases x <;> rfl

theorem bind_released_ofHolding (m : Multiset Holding) :
    (m.map Task.ofHolding).bind Task.released = 0 := by
  rw [Multiset.bind_map]
  refine (Multiset.bind_congr ?_).trans (Multiset.bind_zero m)
  intro x _
  cases x <;> rfl

section Split

variable (hmatched : ∀ o, (w.valueAt o).Matched)

include hmatched

/-- The ledger splits into the slots that live objects report and the rest. -/
theorem ledger_eq :
    w.ledger todo held =
      w.lives.bind (fun o => ((w.valueAt o).connectSlots.map Holding.slot : List Holding)) +
        w.offGraph todo held := by
  have hsplit : w.lives.bind (fun o => ((w.valueAt o).holdings : Multiset Holding)) =
      w.lives.bind (fun o => ((w.valueAt o).connectSlots.map Holding.slot : List Holding)) +
        w.lives.bind (fun o => (w.valueAt o).unseen) := by
    rw [← Multiset.bind_add]
    exact Multiset.bind_congr fun o _ => (hmatched o).holdings_eq
  rw [ledger, offGraph, hsplit]
  abel

/-- The references split into the edges of live objects and the outer ones. -/
theorem refs_eq :
    w.refs todo held = w.lives.bind (fun o => (w.out o : Multiset ObjId)) + w.outer todo held := by
  have hedges : (w.lives.bind fun o =>
      ((w.valueAt o).connectSlots.map Holding.slot : List Holding)).bind (Holding.targets w) =
        w.lives.bind (fun o => (w.out o : Multiset ObjId)) := by
    rw [Multiset.bind_assoc]
    refine Multiset.bind_congr fun o _ => ?_
    rw [out_eq, ← Multiset.coe_bind, ← Multiset.map_coe, Multiset.bind_map]
    rfl
  rw [refs, outer, ledger_eq hmatched, Multiset.add_bind, hedges]
  abel

theorem unseen_le_holdings (o : ObjId) :
    (w.valueAt o).unseen ≤ ((w.valueAt o).holdings : Multiset Holding) := by
  rw [(hmatched o).holdings_eq]
  exact Multiset.le_add_left _ _

end Split

theorem mem_ledger_of_live {o : ObjId} (ho : w.isLive o = true) {x : Holding}
    (hx : x ∈ (w.valueAt o).holdings) : x ∈ w.ledger todo held := by
  unfold ledger
  refine Multiset.mem_add.mpr (.inl (Multiset.mem_add.mpr (.inl ?_)))
  exact Multiset.mem_bind.mpr ⟨o, mem_lives.mpr ho, Multiset.mem_coe.mpr hx⟩

theorem mem_ledger_of_held {x : Holding} (hx : x ∈ held) : x ∈ w.ledger todo held :=
  Multiset.mem_add.mpr (.inr hx)

/-! ## Writing slots -/

section Write

variable {s : SlotId} {content : Slot}

@[simp] theorem isLive_writeSlot (o : ObjId) :
    (w.writeSlot s content).isLive o = w.isLive o := rfl

@[simp] theorem valueAt_writeSlot (o : ObjId) :
    (w.writeSlot s content).valueAt o = w.valueAt o := rfl

@[simp] theorem lives_writeSlot : (w.writeSlot s content).lives = w.lives := rfl

@[simp] theorem ledger_writeSlot :
    (w.writeSlot s content).ledger todo held = w.ledger todo held := rfl

@[simp] theorem offGraph_writeSlot :
    (w.writeSlot s content).offGraph todo held = w.offGraph todo held := rfl

theorem slotAt_writeSlot_self (hs : s < w.slots.size) :
    (w.writeSlot s content).slotAt s = content := by
  simp [writeSlot, slotAt, hs]

theorem slotAt_writeSlot_of_ne {s' : SlotId} (hs : s' ≠ s) :
    (w.writeSlot s content).slotAt s' = w.slotAt s' := by
  simp [writeSlot, slotAt, Ne.symm hs]

/-- What a slot owns after a write, it owned before or was given by the write. -/
theorem mem_targets_writeSlot {s' : SlotId} {c : ObjId}
    (hc : c ∈ ((w.writeSlot s content).slotAt s').targets) :
    c ∈ (w.slotAt s').targets ∨ s' = s ∧ c ∈ content.targets := by
  by_cases hs : s' = s
  · subst hs
    by_cases hlt : s' < w.slots.size
    · rw [slotAt_writeSlot_self hlt] at hc
      exact .inr ⟨rfl, hc⟩
    · have hsame : (w.writeSlot s' content).slots = w.slots :=
        Array.setIfInBounds_eq_of_size_le (Nat.le_of_not_lt hlt)
      rw [slotAt, hsame] at hc
      exact .inl hc
  · rw [slotAt_writeSlot_of_ne hs] at hc
    exact .inl hc

/-- Only the holder of a slot notices a write. -/
theorem bind_targets_writeSlot {m : Multiset Holding} (hs : .slot s ∉ m) :
    m.bind (Holding.targets (w.writeSlot s content)) = m.bind (Holding.targets w) := by
  refine Multiset.bind_congr ?_
  intro x hx
  cases x with
  | slot s' =>
      have hne : s' ≠ s := by
        rintro rfl
        exact hs hx
      simp only [Holding.targets, slotAt_writeSlot_of_ne hne]
  | weak | root => rfl

theorem outer_writeSlot (hs : .slot s ∉ w.offGraph todo held) :
    (w.writeSlot s content).outer todo held = w.outer todo held := by
  rw [outer, offGraph_writeSlot, bind_targets_writeSlot hs, outer]

theorem out_writeSlot_of_notMem {o : ObjId} (hs : s ∉ (w.valueAt o).connectSlots) :
    (w.writeSlot s content).out o = w.out o := by
  rw [out_eq, out_eq, valueAt_writeSlot]
  refine List.flatMap_congr ?_
  intro s' hs'
  rw [slotAt_writeSlot_of_ne]
  rintro rfl
  exact hs hs'

/-- A write to a slot that is reported once exchanges its targets. -/
theorem count_out_writeSlot {o : ObjId} (hs : s ∈ (w.valueAt o).connectSlots)
    (hnodup : (w.valueAt o).connectSlots.Nodup) (hlt : s < w.slots.size) (x : ObjId) :
    (w.out o).count x + content.targets.count x =
      ((w.writeSlot s content).out o).count x + (w.slotAt s).targets.count x := by
  rw [out_eq, out_eq, valueAt_writeSlot]
  have hperm := List.perm_cons_erase hs
  rw [((hperm.flatMap_right fun s => (w.slotAt s).targets).count_eq x),
    ((hperm.flatMap_right fun s' => ((w.writeSlot s content).slotAt s').targets).count_eq x),
    List.flatMap_cons, List.flatMap_cons, List.count_append, List.count_append,
    slotAt_writeSlot_self hlt]
  have hrest : ((w.valueAt o).connectSlots.erase s).flatMap
        (fun s' => ((w.writeSlot s content).slotAt s').targets) =
      ((w.valueAt o).connectSlots.erase s).flatMap fun s' => (w.slotAt s').targets := by
    refine List.flatMap_congr ?_
    intro s' hs'
    rw [slotAt_writeSlot_of_ne]
    rintro rfl
    exact (hnodup.mem_erase_iff.mp hs').1 rfl
  rw [hrest]
  omega

end Write

/-! ## Slots have one holder -/

section Holder

variable (hmatched : ∀ o, (w.valueAt o).Matched)
  (hnodup : ((w.ledger todo held).bind Holding.slots).Nodup)

include hmatched hnodup

theorem notMem_offGraph {o : ObjId} {s : SlotId} (ho : w.isLive o = true)
    (hs : s ∈ (w.valueAt o).connectSlots) : .slot s ∉ w.offGraph todo held := by
  intro hmem
  rw [ledger_eq hmatched, Multiset.add_bind] at hnodup
  have hgraph : s ∈ (w.lives.bind fun o =>
      ((w.valueAt o).connectSlots.map Holding.slot : List Holding)).bind Holding.slots := by
    refine Multiset.mem_bind.mpr ⟨.slot s, ?_, Multiset.mem_singleton_self s⟩
    exact Multiset.mem_bind.mpr ⟨o, mem_lives.mpr ho,
      Multiset.mem_coe.mpr (List.mem_map_of_mem hs)⟩
  refine Multiset.disjoint_left.mp (Multiset.nodup_add.mp hnodup).2.2 hgraph ?_
  exact Multiset.mem_bind.mpr ⟨.slot s, hmem, Multiset.mem_singleton_self s⟩

/-- No two live objects report the same slot. -/
theorem eq_of_mem_connectSlots {p q : ObjId} {s : SlotId} (hp : w.isLive p = true)
    (hq : w.isLive q = true) (hsp : s ∈ (w.valueAt p).connectSlots)
    (hsq : s ∈ (w.valueAt q).connectSlots) : p = q := by
  by_contra hne
  rw [ledger_eq hmatched, Multiset.add_bind, Multiset.bind_assoc] at hnodup
  have hlives := (Multiset.nodup_add.mp hnodup).1
  obtain ⟨rest, hrest⟩ := Multiset.exists_cons_of_mem (mem_lives.mpr hp)
  have hqrest : q ∈ rest := by
    have := mem_lives.mpr hq
    rw [hrest] at this
    exact (Multiset.mem_cons.mp this).resolve_left fun h => hne h.symm
  rw [hrest, Multiset.cons_bind] at hlives
  have hslots {o : ObjId} (hs : s ∈ (w.valueAt o).connectSlots) :
      s ∈ Multiset.bind ((w.valueAt o).connectSlots.map Holding.slot : List Holding)
        Holding.slots :=
    Multiset.mem_bind.mpr ⟨.slot s, Multiset.mem_coe.mpr (List.mem_map_of_mem hs),
      Multiset.mem_singleton_self s⟩
  refine Multiset.disjoint_left.mp (Multiset.nodup_add.mp hlives).2.2 (hslots hsp) ?_
  exact Multiset.mem_bind.mpr ⟨q, hqrest, hslots hsq⟩

theorem out_writeSlot_of_ne {p q : ObjId} {s : SlotId} {content : Slot} (hp : w.isLive p = true)
    (hq : w.isLive q = true) (hsp : s ∈ (w.valueAt p).connectSlots) (hne : q ≠ p) :
    (w.writeSlot s content).out q = w.out q :=
  out_writeSlot_of_notMem fun hsq => hne (eq_of_mem_connectSlots hmatched hnodup hq hp hsq hsp)

end Holder

end World

end RootedHeap
