import Mathlib.Algebra.Group.Action.Defs
import RootedHeap.Proofs.Collection
import RootedHeap.Proofs.Concurrency
import RootedHeap.Proofs.Counters
import RootedHeap.Proofs.Readings

/-! # A client with the only heap

A client at rest that owns the only heap there is (`Client.Sole`) goes from one such state to the next
with every operation. What there was has its value still (`World.Extends`), slots that no object has yet
are as they were (`World.Leaves`), and nothing that there was differs unless something is given up or a
field is written (`World.Adds`).
-/

namespace RootedHeap

open World

variable {w w' w'' : World}

namespace World

/-- What there was has its value still. -/
structure Extends (w w' : World) : Prop where
  size_le : w.objects.size ≤ w'.objects.size
  valueAt : ∀ o < w.objects.size, w'.valueAt o = w.valueAt o

/-- What there was has its value still, and the slots that are held are as they were. -/
structure Leaves (held : Multiset Holding) (w w' : World) : Prop extends Extends w w' where
  slotAt : ∀ s, .slot s ∈ held → w'.slotAt s = w.slotAt s

/-- What there was is as it was. -/
structure Adds (w w' : World) : Prop extends Extends w w' where
  isLive : ∀ o < w.objects.size, w'.isLive o = w.isLive o
  slots_le : w.slots.size ≤ w'.slots.size
  slotAt : ∀ s < w.slots.size, w'.slotAt s = w.slotAt s

/-- A new slot, and nothing else. -/
structure Opens (content : Slot) (w w' : World) : Prop extends Adds w w' where
  size_eq : w'.objects.size = w.objects.size
  slots_eq : w'.slots.size = w.slots.size + 1
  slotAt_new : w'.slotAt w.slots.size = content
  heaps : w'.heaps = w.heaps

/-- A new object, and nothing else. -/
structure Bears (v : Value) (w w' : World) : Prop extends Adds w w' where
  size_eq : w'.objects.size = w.objects.size + 1
  slots_eq : w'.slots = w.slots
  isLive_new : w'.isLive w.objects.size = true
  valueAt_new : w'.valueAt w.objects.size = v

theorem Extends.refl (w : World) : w.Extends w := ⟨Nat.le_refl _, fun _ _ => rfl⟩

theorem Extends.trans (h : w.Extends w') (h' : w'.Extends w'') : w.Extends w'' :=
  ⟨Nat.le_trans h.size_le h'.size_le, fun o ho =>
    (h'.valueAt o (Nat.lt_of_lt_of_le ho h.size_le)).trans (h.valueAt o ho)⟩

theorem Leaves.refl (held : Multiset Holding) (w : World) : w.Leaves held w :=
  ⟨.refl w, fun _ _ => rfl⟩

theorem Leaves.trans {held : Multiset Holding} (h : w.Leaves held w') (h' : w'.Leaves held w'') :
    w.Leaves held w'' :=
  ⟨h.toExtends.trans h'.toExtends, fun s hs => (h'.slotAt s hs).trans (h.slotAt s hs)⟩

theorem Leaves.mono {held held' : Multiset Holding} (h : w.Leaves held w') (hle : held' ≤ held) :
    w.Leaves held' w' :=
  ⟨h.toExtends, fun s hs => h.slotAt s (Multiset.mem_of_le hle hs)⟩

theorem Leaves.left {held held' : Multiset Holding} (h : w.Leaves (held + held') w') :
    w.Leaves held w' := h.mono (Multiset.le_add_right _ _)

theorem Leaves.right {held held' : Multiset Holding} (h : w.Leaves (held + held') w') :
    w.Leaves held' w' := h.mono (Multiset.le_add_left _ _)

theorem Adds.trans (h : w.Adds w') (h' : w'.Adds w'') : w.Adds w'' :=
  ⟨h.toExtends.trans h'.toExtends, fun o ho =>
    (h'.isLive o (Nat.lt_of_lt_of_le ho h.size_le)).trans (h.isLive o ho),
    Nat.le_trans h.slots_le h'.slots_le, fun s hs =>
      (h'.slotAt s (Nat.lt_of_lt_of_le hs h.slots_le)).trans (h.slotAt s hs)⟩

theorem Mirrors.adds (h : w.Mirrors w') : w.Adds w' :=
  ⟨⟨Nat.le_of_eq h.size.symm, fun o _ => congrFun h.valueAt o⟩, fun o _ => congrFun h.isLive o,
    Nat.le_of_eq (congrArg Array.size h.slots).symm, fun s _ => congrFun h.slotAt s⟩

theorem Wanes.leaves {kept : Multiset Holding} (h : w.Wanes kept w') : w.Leaves kept w' :=
  ⟨⟨Nat.le_of_eq h.size.symm, fun o _ => congrFun h.value o⟩, fun s hs =>
    h.slots s (mem_ledger_of_held hs)⟩

theorem opens_addSlot (w : World) (content : Slot) : w.Opens content (w.addSlot content).2 := by
  refine ⟨⟨⟨Nat.le_refl _, fun _ _ => rfl⟩, fun _ _ => rfl, ?_, fun s hs => slotAt_addSlot_of_lt hs⟩,
    rfl, ?_, slotAt_addSlot_self, rfl⟩
  · simp [addSlot]
  · simp [addSlot]

theorem Mirrors.opens {content : Slot} (h : w.Mirrors w') (hheaps : w'.heaps = w.heaps)
    (h' : w'.Opens content w'') : w.Opens content w'' :=
  ⟨h.adds.trans h'.toAdds, h'.size_eq.trans h.size, h.slots ▸ h'.slots_eq, h.slots ▸ h'.slotAt_new,
    h'.heaps.trans hheaps⟩

theorem mirrors_retain (w : World) (o : ObjId) : w.Mirrors (w.retain o) :=
  Alike.mirrors (Alike.modifyObject w o (f := fun ob => { ob with strong := ob.strong + 1 })
    fun _ _ => rfl)

theorem bears_of_objects {g : HeapId} {n : String} {v : Value}
    (hobjects : w'.objects = w.objects.push { heap := g, typeName := n, value := v })
    (hslots : w'.slots = w.slots) : w.Bears v w' := by
  have hmirrors : (w.birth g n v).Mirrors w' := by
    refine ⟨hslots, ?_, fun o => ?_⟩ <;> rw [hobjects] <;> rfl
  have hlive (o : ObjId) := congrFun hmirrors.isLive o
  have hvalue (o : ObjId) := congrFun hmirrors.valueAt o
  simp only [isLive_birth, valueAt_birth] at hlive hvalue
  refine ⟨⟨⟨?_, fun o ho => ?_⟩, fun o ho => ?_, Nat.le_of_eq (congrArg Array.size hslots).symm,
    fun s _ => congrFun hmirrors.slotAt s⟩, hmirrors.size.trans size_birth, hslots, ?_, ?_⟩
  · rw [hmirrors.size, size_birth]
    exact Nat.le_succ _
  · rw [hvalue, if_neg (Nat.ne_of_lt ho)]
  · rw [hlive, decide_eq_false (Nat.ne_of_lt ho), Bool.false_or]
  · rw [hlive, decide_eq_true rfl, Bool.true_or]
  · rw [hvalue, if_pos rfl]

/-- Live and collected objects make up what was allocated, live and released roots what was acquired. -/
theorem Tidy.balance {todo : List Task} {g : HeapId} {c : Counters} (h : w.Tidy todo)
    (hreads : w.Reads g c) : w.lives.card + c.collected = c.allocations ∧
      (w.rootsAt g).length + c.rootsReleased = c.rootsAcquired := by
  obtain ⟨heap, hheap, rfl⟩ := hreads
  have hroots : w.rootsAt g = heap.roots.active := by
    rw [World.rootsAt, World.registryAt, hheap]
  rw [hroots, ← h.live_eq g heap hheap]
  exact ⟨h.total g heap hheap, (h.reckoned g heap hheap).balance⟩

end World

namespace Client

/-- A client at rest that owns the only heap, in a world that counts right. -/
structure Sole (held : Multiset Holding) (w : World) : Prop where
  sound : Sound ⟨w, held, {0}, [], []⟩
  tidy : w.Tidy []

namespace Sole

variable {held : Multiset Holding} {a b : Handle} {s : SlotId}

theorem steady (h : Sole held w) : w.Steady 0 held (dues 0 {0} []) := h.sound.steady ⟨rfl, rfl⟩

theorem exists_heap (h : Sole held w) : ∃ heap, w.heaps[0]? = some heap :=
  h.sound.orderly.exists_heap (.inl (Multiset.mem_singleton_self 0))

theorem size_heaps (h : Sole held w) : w.heaps.size = 1 := by
  obtain ⟨heap, hheap⟩ := h.exists_heap
  have hpos := (Array.getElem?_eq_some_iff.mp hheap).1
  have hle := h.tidy.single
  omega

theorem reads (h : Sole held w) : w.Reads 0 (w.countersAt 0) := by
  obtain ⟨heap, hheap⟩ := h.exists_heap
  exact ⟨heap, hheap, (countersAt_eq hheap).symm⟩

theorem heap_eq (h : Sole held w) (ha : .root a ∈ held) : a.heap = 0 := by
  have hsees : Sees ⟨w, held, {0}, [], []⟩ (.root a) := .held ha
  obtain ⟨heap, hheap⟩ := h.sound.orderly.exists_heap (.inr ⟨a, hsees, rfl⟩)
  have hlt : a.heap < w.heaps.size := (Array.getElem?_eq_some_iff.mp hheap).1
  rw [h.size_heaps] at hlt
  exact Nat.lt_one_iff.mp hlt

theorem handle (h : Sole held w) (ha : .root a ∈ held) :
    w.isLive a.obj = true ∧ w.owns 0 a.obj = true := by
  have hsees : Sees ⟨w, held, {0}, [], []⟩ (.root a) := .held ha
  obtain ⟨hlive, hown⟩ := h.sound.orderly.handle hsees
  rw [h.heap_eq ha] at hown
  exact ⟨hlive, hown⟩

theorem lt_slots (h : Sole held w) (hs : .slot s ∈ w.ledger 0 held) : s < w.slots.size :=
  h.steady.accounted.slots_lt s (Multiset.mem_bind.mpr ⟨_, hs, Multiset.mem_singleton_self s⟩)

/-- Slots that the client holds are none of those that are new. -/
theorem leaves (h : Sole held w) (hadds : w.Adds w') : w.Leaves held w' :=
  ⟨hadds.toExtends, fun s hs => hadds.slotAt s (h.lt_slots (mem_ledger_of_held hs))⟩

/-- Slots that the client holds are none of those that an object reports. -/
theorem leaves_writeSlot (h : Sole held w) {o : ObjId} (ho : w.isLive o = true)
    (hs : s ∈ (w.valueAt o).connectSlots) (content : Slot) :
    w.Leaves held (w.writeSlot s content) := by
  have hnotMem := notMem_offGraph h.steady.guarded.matched h.steady.accounted.slots_nodup ho hs
  refine ⟨⟨Nat.le_refl _, fun _ _ => rfl⟩, fun s' hs' => slotAt_writeSlot_of_ne ?_⟩
  rintro rfl
  exact hnotMem (Multiset.mem_add.mpr (.inr hs'))

/-- No slot is held twice. -/
theorem nodup_slots {slots : List SlotId}
    (h : Sole ((slots.map Holding.slot : List Holding) + held) w) : slots.Nodup := by
  have hnodup := h.steady.accounted.slots_nodup
  rw [ledger, Multiset.add_bind] at hnodup
  have hheld := (Multiset.nodup_add.mp hnodup).2.1
  rw [Multiset.add_bind, ← Multiset.map_coe, Multiset.bind_map] at hheld
  have hslots := (Multiset.nodup_add.mp hheld).1
  have hself : (slots : Multiset SlotId).bind (fun s => Holding.slots (.slot s)) = slots :=
    (Multiset.bind_singleton _ id).trans (Multiset.map_id _)
  exact Multiset.coe_nodup.mp (hself ▸ hslots)

/-- After a call, the client owns the only heap still. -/
theorem after {held' : Multiset Holding} {call : Call} {r : Receipt} (h : Sole held w)
    (hcall : ∀ config, call ≠ .createHeap config) (hnames : ∀ g ∈ call.heaps, g = 0)
    (hrun : call.run w = .ok r w') (hsound : Sound ⟨w', held', {0}, [], []⟩) : Sole held' w' := by
  have hsingle : call.Single ⟨w, held, {0}, [], []⟩ := by
    refine ⟨fun config heq => absurd heq (hcall config), fun g hg => ?_⟩
    rw [hnames g hg, h.size_heaps]
    exact Nat.zero_lt_one
  exact ⟨hsound, (Call.run_tidy h.tidy hsingle).of_ok hrun⟩

/-- A call that returns a slot. -/
theorem after_slot {call : Call} (h : Sole held w) (hcall : ∀ config, call ≠ .createHeap config)
    (hspends : call.spends = []) (hleaves : call.leaves = [])
    (hallowed : call.Allowed ⟨w, held, {0}, [], []⟩) (hnames : ∀ g ∈ call.heaps, g = 0)
    (hrun : call.run w = .ok { others := [.slot s] } w') : Sole (.slot s ::ₘ held) w' := by
  have hafter := (Call.run_ends h.sound ⟨rfl, rfl⟩ hallowed).of_ok hrun
  rw [Client.after, hspends, hleaves] at hafter
  refine h.after hcall hnames hrun ?_
  simpa using hafter

/-- A call to store `b` in a field names the only heap. -/
theorem after_store (h : Sole held w) (ha : .root a ∈ held) (hb : .root b ∈ held)
    (hrun : a.setField s (some b) w = .ok () w')
    (hsound : Sound ⟨w', held, {0}, [], []⟩) : Sole held w' := by
  have hcall : (Call.setField a s (some b)).run w = .ok {} w' := bind_of_ok hrun
  refine h.after (by simp) (fun g hg => ?_) hcall hsound
  simp only [Call.heaps, Option.toList_some, List.map_cons, List.map_nil, List.mem_cons,
    List.not_mem_nil, or_false] at hg
  rcases hg with rfl | rfl
  · exact h.heap_eq ha
  · exact h.heap_eq hb

/-! ## Operations -/

/-- A new field. -/
theorem newField (h : Sole held w) (target : Option Handle) (htarget : ∀ b ∈ target, .root b ∈ held) :
    Ends (RootedHeap.newField target) w (fun s w' => s = w.slots.size ∧
      Sole (.slot s ::ₘ held) w' ∧ w.Opens (.one (target.map Handle.obj)) w') fun _ _ => False := by
  obtain ⟨w', hnew, hopens⟩ : ∃ w', RootedHeap.newField target w = .ok w.slots.size w' ∧
      w.Opens (.one (target.map Handle.obj)) w' := by
    cases target with
    | none => exact ⟨_, rfl, opens_addSlot w _⟩
    | some b => exact ⟨_, rfl, (mirrors_retain w b.obj).opens rfl (opens_addSlot _ _)⟩
  have hcall : (Call.newField target).run w = .ok { others := [.slot w.slots.size] } w' :=
    bind_of_ok hnew
  have hallowed : (Call.newField target).Allowed ⟨w, held, {0}, [], []⟩ :=
    fun b hb => .held (htarget b hb)
  refine .of_eq hnew ⟨rfl, h.after_slot (by simp) rfl rfl hallowed ?_ hcall, hopens⟩
  intro g hg
  obtain ⟨b, hb, rfl⟩ := List.mem_map.mp hg
  exact h.heap_eq (htarget b (Option.mem_toList.mp hb))

/-- A new list without elements. -/
theorem newList (h : Sole held w) :
    Ends (RootedHeap.newList []) w (fun s w' => s = w.slots.size ∧
      Sole (.slot s ::ₘ held) w' ∧ w.Opens (.many []) w') fun _ _ => False := by
  have hcall : (Call.newList []).run w =
      .ok { others := [.slot w.slots.size] } (w.addSlot (.many [])).2 := rfl
  have hallowed : (Call.newList []).Allowed ⟨w, held, {0}, [], []⟩ := by simp [Call.Allowed]
  exact ⟨rfl, h.after_slot (by simp) rfl rfl hallowed (by simp [Call.heaps]) hcall, opens_addSlot w _⟩

/-- What is live belongs to the only heap. -/
theorem owns (h : Sole held w) {o : ObjId} (ho : w.isLive o = true) : w.owns 0 o = true := by
  obtain ⟨g, hown⟩ := exists_owns ho
  obtain ⟨ob, hob, rfl⟩ := owns_iff.mp hown
  have hlt := h.tidy.housed o ob hob
  rw [h.size_heaps] at hlt
  rwa [Nat.lt_one_iff.mp hlt] at hown

/-- A value takes over the slots that the client gives it. -/
theorem alloc {n : String} {v : Value} (h : Sole (v.holdings + held) w) (hv : v.Matched) :
    Ends (RootedHeap.alloc 0 n v) w (fun a w' => a.obj = w.objects.size ∧
      Sole (.root a ::ₘ held) w' ∧ w.Bears v w' ∧
      w'.countersAt 0 = (w.countersAt 0).allocated) fun _ _ => False := by
  have hholdings : (v.holdings : Multiset Holding) ≤ v.holdings + held := Multiset.le_add_right _ _
  have hown : ∀ s ∈ v.connectSlots, ∀ o ∈ (w.slotAt s).targets, w.owns 0 o = true := by
    intro s hs o ho
    have hheld := Multiset.mem_of_le hholdings
      (Multiset.mem_coe.mpr (Value.mem_holdings_of_reported hs))
    exact h.owns (h.steady.guarded.held_live _ hheld o (Multiset.mem_coe.mpr ho))
  obtain ⟨a, w', halloc, hobj, -, hsound, hobjects, hslots, hreads⟩ :=
    h.sound.alloc (n := n) ⟨rfl, rfl⟩ (Multiset.mem_singleton_self 0) hv hholdings hown h.reads
  have hcall : (Call.alloc 0 n v).run w = .ok { handles := [a] } w' := bind_of_ok halloc
  dsimp only at hsound
  rw [add_tsub_cancel_left] at hsound
  exact .of_eq halloc ⟨hobj, h.after (by simp) (by simp [Call.heaps]) hcall hsound,
    bears_of_objects hobjects hslots, hreads.countersAt⟩

theorem clone (h : Sole held w) (ha : .root a ∈ held) :
    Ends a.clone w (fun b w' => b.obj = a.obj ∧ Sole (.root b ::ₘ held) w' ∧ w.Mirrors w' ∧
      w'.countersAt 0 = (w.countersAt 0).rooted) fun _ _ => False := by
  have hheap := h.heap_eq ha
  obtain ⟨b, w', hclone, hobj, -, hsound, hmirrors, hreads⟩ :=
    h.sound.clone ⟨rfl, rfl⟩ (.held ha) (hheap ▸ h.reads)
  have hcall : (Call.clone a).run w = .ok { handles := [b] } w' := bind_of_ok hclone
  exact .of_eq hclone ⟨hobj, h.after (by simp) (by simp [Call.heaps, hheap]) hcall hsound, hmirrors,
    (hheap ▸ hreads).countersAt⟩

section Fields

variable (h : Sole held w) (ha : .root a ∈ held) (hs : s ∈ (w.valueAt a.obj).connectSlots)

include h ha hs

theorem get {o : ObjId} (hslot : w.slotAt s = .one (some o)) :
    Ends (a.getField s) w (fun found w' => ∃ b, found = some b ∧ b.obj = o ∧
      Sole (.root b ::ₘ held) w' ∧ w.Mirrors w' ∧ w'.countersAt 0 = (w.countersAt 0).rooted)
      fun _ _ => False := by
  have hheap := h.heap_eq ha
  obtain ⟨b, w', hget, hobj, -, hsound, hmirrors, hreads⟩ :=
    h.sound.get_field ⟨rfl, rfl⟩ (.held ha) hs hslot (hheap ▸ h.reads)
  have hcall : (Call.getField a s).run w = .ok { handles := [b] } w' := bind_of_ok hget
  exact .of_eq hget ⟨b, rfl, hobj, h.after (by simp) (by simp [Call.heaps, hheap]) hcall hsound,
    hmirrors, (hheap ▸ hreads).countersAt⟩

/-- An empty field is filled. -/
theorem fill (hslot : w.slotAt s = .one none) (hb : .root b ∈ held) :
    Ends (a.setField s (some b)) w (fun _ w' => Sole held w' ∧
      (w.writeSlot s (.one (some b.obj))).Mirrors w' ∧ w'.countersAt 0 =
        (w.countersAt 0).linked (w.tallies[a.obj]?.getD .empty).roots.length) fun _ _ => False := by
  have hheap := h.heap_eq ha
  obtain ⟨w', hset, hsound, hmirrors, hreads⟩ := h.sound.fill_field ⟨rfl, rfl⟩ (.held ha) hs hslot
    (.held hb) ((h.heap_eq hb).trans hheap.symm) (hheap ▸ h.reads)
  exact .of_eq hset ⟨h.after_store ha hb hset hsound, hmirrors, (hheap ▸ hreads).countersAt⟩

/-- A field is written, and what it held before given up. -/
theorem set {old : Option ObjId} (hslot : w.slotAt s = .one old) (hb : .root b ∈ held) :
    Ends (a.setField s (some b)) w (fun _ w' => Sole held w' ∧
      (w.writeSlot s (.one (some b.obj))).Wanes held w' ∧
      Counters.SameIntake (w.countersAt 0) (w'.countersAt 0)) fun _ _ => False := by
  have hheap := (h.heap_eq hb).trans (h.heap_eq ha).symm
  have htarget : ∀ b' ∈ some b, Sees ⟨w, held, {0}, [], []⟩ (.root b') ∧ b'.heap = a.heap := by
    rintro _ ⟨⟩
    exact ⟨.held hb, hheap⟩
  obtain ⟨w', hset, hsound, hwanes⟩ := h.sound.store_field ⟨rfl, rfl⟩ (.held ha) hs hslot htarget
  have hticks := run_ticks Counters.relinking_sameIntake.toWaning
    (Locked.Ticks.storeField Counters.relinking_sameIntake a s (some b.obj)) a.heap
  have haccepts : a.accepts (some b) = true := decide_eq_true hheap
  have hrun := hset
  rw [Handle.setField, if_pos haccepts] at hrun
  exact .of_eq hset ⟨h.after_store ha hb hset hsound, hwanes, (hticks.ends w).of_ok hrun 0⟩

end Fields

theorem deref (h : Sole held w) (ha : .root a ∈ held) : a.deref w = .ok () w :=
  Handle.deref_of_live (h.handle ha).1

section Drop

variable (h : Sole (.root a ::ₘ held) w)

include h

theorem drop :
    Ends a.drop w (fun _ w' => Sole held w' ∧ w.Wanes held w' ∧ w.Reduces w' ∧
      Counters.Spent (w.countersAt 0) (w'.countersAt 0)) fun _ _ => False := by
  obtain ⟨w', hdrop, hsound, hwanes, hreduces⟩ :=
    h.sound.drop ⟨rfl, rfl⟩ (Multiset.mem_cons_self _ _) (strands_zero w)
  dsimp only at hsound hwanes
  rw [Multiset.sub_singleton, Multiset.erase_cons_head] at hsound hwanes
  rw [zero_add] at hwanes
  have hcall : (Call.drop a).run w = .ok {} w' := bind_of_ok hdrop
  have hticks := settle_ticks Counters.waning_spent [.dropHandle a]
  exact .of_eq hdrop ⟨h.after (by simp)
    (by simp [Call.heaps, h.heap_eq (Multiset.mem_cons_self _ _)]) hcall hsound, hwanes,
    hreduces, (hticks.ends w).of_ok hdrop 0⟩

/-- The first session of giving a handle up collects `dead`, and the rest only finalizes that. -/
theorem drop_opens (hdrop : a.drop w = .ok () w') :
    ∃ dead w₁, w.Wanes held w₁ ∧ w₁.Tidy (Task.finalizing 0 dead ++ [.leave 0]) ∧
      w₁.Reads 0 ((w.countersAt 0).released.emptied dead.length) ∧
      settle (Task.finalizing 0 dead ++ [.leave 0]) w₁ = .ok () w' := by
  have hheap := h.heap_eq (Multiset.mem_cons_self _ _)
  have hdropping := h.sound.dropping ⟨rfl, rfl⟩ (Multiset.mem_cons_self _ _)
  dsimp only at hdropping
  rw [Multiset.sub_singleton, Multiset.erase_cons_head] at hdropping
  have htidy : w.Tidy [.dropHandle a] := (h.tidy.quiet (.refl w) (by simp [Task.buries])).1
  have hreads : w.Reads a.heap (w.countersAt 0) := hheap ▸ h.reads
  have hsettle : settle [.dropHandle a] w = .ok () w' := hdrop
  cases hstep : (Task.dropHandle a).step w with
  | error f w₁ =>
      rw [settle_of_fault hstep] at hsettle
      cases hsettle
  | ok more w₁ =>
      obtain ⟨dead, rfl, hcounted⟩ := Task.dropHandle_reads hreads hstep
      rw [hheap] at hcounted hstep
      have hwanes := (hdropping.step_wanes rfl rfl hstep (strands_zero w)).1
      have hafter := ((Task.step_tidy htidy).of_ok hstep).1
      rw [settle_of_step hstep, List.append_nil] at hsettle
      rw [zero_add] at hwanes
      rw [List.append_nil] at hafter
      exact ⟨dead, w₁, hwanes, hafter, hcounted, hsettle⟩

end Drop

/-- A new heap, without anything in it. -/
theorem found (config : Config) (hverify : config.verify = true) (hpoison : config.poison = true) :
    Ends (createHeap config) {} (fun g w => g = 0 ∧ Sole 0 w ∧ w.countersAt 0 = {} ∧
      w.objects.size = 0 ∧ w.slots.size = 0) fun _ _ => False := by
  have hcall : (Call.createHeap config).run {} = .ok { heaps := [0] } _ := rfl
  have hallowed : (Call.createHeap config).Allowed {} := hverify
  have hsound := (Reached.ran .start ⟨rfl, rfl⟩ hallowed hcall).sound
  have hsingle : (Call.createHeap config).Single {} := by
    refine ⟨?_, by simp [Call.heaps]⟩
    rintro _ ⟨⟩
    exact ⟨rfl, hpoison⟩
  exact ⟨rfl, ⟨hsound, (Call.run_tidy (c := {}) tidy_empty hsingle).of_ok hcall⟩, rfl, rfl, rfl⟩

/-! ## What is counted -/

/-- Without handles in values, the roots are those of the handles that the client holds. -/
theorem rootsAt_eq (h : Sole held w) (hplain : w.Plain) :
    (w.rootsAt 0 : Multiset (RootId × ObjId)) = held.bind (Holding.entries 0) := by
  have hnone : (w.lives.bind fun o => ((w.valueAt o).holdings : Multiset Holding)).bind
      (Holding.entries 0) = 0 := by
    refine Multiset.eq_zero_of_forall_notMem fun e he => ?_
    obtain ⟨x, hx, hex⟩ := Multiset.mem_bind.mp he
    obtain ⟨o, -, hx⟩ := Multiset.mem_bind.mp hx
    rw [(h.steady.guarded.matched o).holdings_eq] at hx
    rcases Multiset.mem_add.mp hx with hx | hx
    · obtain ⟨s, -, rfl⟩ := List.mem_map.mp (Multiset.mem_coe.mp hx)
      cases hex
    · cases x with
      | root b => exact Multiset.singleton_ne_zero _ (hplain o _ hx)
      | slot | weak => cases hex
  rw [h.steady.accounted.roots_eq, ledger, Multiset.zero_bind, add_zero, Multiset.add_bind, hnone,
    zero_add]

theorem liveObjects (h : Sole held w) : (w.stats 0).liveObjects = w.lives.card := by
  obtain ⟨heap, hheap⟩ := h.exists_heap
  rw [World.stats, hheap]
  exact h.tidy.live_eq 0 heap hheap

theorem balance (h : Sole held w) :
    w.lives.card + (w.countersAt 0).collected = (w.countersAt 0).allocations ∧
    (w.rootsAt 0).length + (w.countersAt 0).rootsReleased = (w.countersAt 0).rootsAcquired :=
  h.tidy.balance h.reads

/-- A handle that the client holds is registered. -/
theorem entries_eq (h : Sole held w) (ha : .root a ∈ held) :
    Holding.entries 0 (.root a) = {(a.root, a.obj)} := if_pos (h.heap_eq ha)

/-- A client that holds nothing but handles holds all roots that were not released. -/
theorem card_held (h : Sole held w) (hplain : w.Plain) (hheld : ∀ x ∈ held, ∃ a, x = .root a) :
    held.card + (w.countersAt 0).rootsReleased = (w.countersAt 0).rootsAcquired := by
  have hcard := congrArg Multiset.card (h.rootsAt_eq hplain)
  have hone : ∀ x ∈ held, (Multiset.card ∘ Holding.entries 0) x = 1 := by
    intro x hx
    obtain ⟨a, rfl⟩ := hheld x hx
    rw [Function.comp_apply, h.entries_eq hx, Multiset.card_singleton]
  rw [Multiset.coe_card, Multiset.card_bind, Multiset.map_congr rfl hone, Multiset.map_const',
    Multiset.sum_replicate, smul_eq_mul, mul_one] at hcard
  rw [← hcard]
  exact h.balance.2

open Classical in
/-- An object is tagged by as many roots as there are handles that lead to it. -/
theorem length_roots (h : Sole held w) (hplain : w.Plain) {o : ObjId} (ho : w.isLive o = true) :
    (w.tallies[o]?.getD .empty).roots.length =
      ((held.bind (Holding.entries 0)).filter fun e => Reach w.out e.2 o).card := by
  have hnodup := h.steady.accounted.roots_nodup 0
  have hroots : ((w.tallies[o]?.getD .empty).roots : Multiset RootId) =
      ((held.bind (Holding.entries 0)).filter fun e => Reach w.out e.2 o).map Prod.fst := by
    rw [← h.rootsAt_eq hplain, Multiset.filter_coe, Multiset.map_coe, Multiset.coe_eq_coe]
    refine (List.perm_ext_iff_of_nodup (Tally.nodup_roots _)
      (hnodup.sublist (List.filter_sublist.map _))).mpr fun r => ?_
    rw [Tallies.mem_roots_iff, World.Sound.count_pos_iff h.steady (h.owns ho)]
    simp only [Registry.target?_eq_some_iff hnodup, List.mem_map, List.mem_filter,
      decide_eq_true_eq]
    constructor
    · rintro ⟨t, hactive, hreach⟩
      exact ⟨(r, t), ⟨hactive, hreach⟩, rfl⟩
    · rintro ⟨⟨_, t⟩, ⟨hactive, hreach⟩, rfl⟩
      exact ⟨t, hactive, hreach⟩
  have hcard := congrArg Multiset.card hroots
  rwa [Multiset.coe_card, Multiset.card_map] at hcard

theorem not_live (h : Sole 0 w) (hplain : w.Plain) (o : ObjId) : w.isLive o = false := by
  have hexists : w.heapExists 0 = true := by
    simpa [heapExists_eq] using h.sound.orderly.holdersAt_pos (.inl (Multiset.mem_singleton_self 0))
  refine h.steady.not_live (by simp) hplain (fun g o ho hown => ?_) o
  rwa [owns_unique hown (h.owns ho)]

/-- When everything is given up, nothing is left. -/
theorem vacated (h : Sole 0 w) (hplain : w.Plain) :
    w.stats 0 = .capture { w.countersAt 0 with
      collected := (w.countersAt 0).allocations
      rootsReleased := (w.countersAt 0).rootsAcquired } 0 0 := by
  obtain ⟨heap, hheap⟩ := h.exists_heap
  have hlives : w.lives = 0 := Multiset.filter_eq_nil.mpr fun o _ => by simp [h.not_live hplain o]
  have hnone : w.rootsAt 0 = [] := by
    have hroots := h.rootsAt_eq hplain
    rwa [Multiset.zero_bind, Multiset.coe_eq_zero] at hroots
  have hactive : heap.roots.size = 0 := by
    rw [World.rootsAt, World.registryAt, hheap] at hnone
    exact congrArg List.length hnone
  obtain ⟨hobjects, hroots⟩ := h.balance
  have hlive := h.tidy.live_eq 0 heap hheap
  rw [hlives, Multiset.card_zero] at hlive hobjects
  rw [hnone, List.length_nil] at hroots
  rw [countersAt_eq hheap, zero_add] at hobjects hroots
  rw [World.stats, hheap, countersAt_eq hheap, ← hobjects, ← hroots]
  simp only [hlive, hactive]

end Sole

end Client

end RootedHeap
