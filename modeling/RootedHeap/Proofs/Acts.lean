import RootedHeap.Demo.Scenario
import RootedHeap.Proofs.Sole

/-! # Carrying acts out

What an act of a demonstration comes to, step by step, when its thread is carried out on its own
(`Demo.Act.Gives`), and what the operations that demonstrations are made of do to a client with the
only heap.
-/

namespace RootedHeap

open World

variable {α β : Type} {w w' : World}

/-! ## Values of fields -/

/-- The value has these slots, in this order, reports all of them, and has nothing else. -/
structure Value.Fields (v : Value) (slots : List SlotId) : Prop where
  holdings : v.holdings = slots.map .slot
  connects : v.connectSlots = slots
  disconnects : v.disconnectSlots = slots

theorem Value.Fields.matched {v : Value} {slots : List SlotId} (h : v.Fields slots)
    (hnodup : slots.Nodup) : v.Matched :=
  ⟨.of_eq (h.disconnects.trans h.connects.symm), h.connects ▸ hnodup⟩

theorem Value.Fields.unseen {v : Value} {slots : List SlotId} (h : v.Fields slots) : v.unseen = 0 := by
  rw [Value.unseen, h.holdings, h.connects, tsub_self]

theorem World.plain_of_fields
    (h : ∀ o < w.objects.size, ∃ slots, (w.valueAt o).Fields slots) : w.Plain := by
  intro o y hy
  by_cases ho : o < w.objects.size
  · obtain ⟨slots, hfields⟩ := h o ho
    rw [hfields.unseen] at hy
    cases hy
  · rw [World.valueAt, Array.getElem?_eq_none (Nat.le_of_not_lt ho)] at hy
    cases hy

namespace Demo

theorem fields_valueA (b : SlotId) : (valueA b).Fields [b] := ⟨rfl, rfl, rfl⟩

theorem fields_valueB (c : SlotId) : (valueB c).Fields [c] := ⟨rfl, rfl, rfl⟩

theorem fields_valueC (a0 a1 : SlotId) : (valueC a0 a1 .empty).Fields [a0, a1] := ⟨rfl, rfl, rfl⟩

theorem fields_valueNode (next children : SlotId) :
    (valueNode next children).Fields [next, children] := ⟨rfl, rfl, rfl⟩

theorem slotOf_eq {a : Handle} {slots : List SlotId} (h : (w.valueAt a.obj).Fields slots)
    (index : Nat) : slotOf a index w = slots[index]?.getD w.slots.size := by
  have hslots (select : Holding → Option SlotId) (hselect : ∀ s, select (.slot s) = some s)
      {v : Value} (hv : v.holdings = slots.map .slot) : v.holdings.filterMap select = slots := by
    rw [hv, List.filterMap_map, show select ∘ Holding.slot = some from funext hselect]
    exact List.filterMap_some
  have hholdings := h.holdings
  unfold World.valueAt at hholdings
  unfold slotOf
  cases hob : w.objects[a.obj]? with
  | none =>
      rw [hob] at hholdings
      have hnil : slots = [] := List.map_eq_nil_iff.mp hholdings.symm
      simp [hnil]
  | some ob =>
      rw [hob] at hholdings
      exact congrArg (fun slots => slots[index]?.getD w.slots.size)
        (hslots _ (fun _ => rfl) hholdings)

/-! ## Acts on their own -/

namespace Act

/-- Carried out in world `w`, the act gives a result to what comes after it, and leaves a world, of
which `Q` is true. -/
def Gives (x : Act α) (w : World) (Q : α → World → Prop) : Prop :=
  ∃ a w', Q a w' ∧ ∀ next, (x next).run w = (next a).run w'

variable {x : Act α} {Q Q' : α → World → Prop} {R : β → World → Prop}

theorem Gives.mono (h : x.Gives w Q) (hmono : ∀ a w', Q a w' → Q' a w') : x.Gives w Q' := by
  obtain ⟨a, w', hQ, hrun⟩ := h
  exact ⟨a, w', hmono a w' hQ, hrun⟩

theorem Gives.bind {f : α → Act β} (h : x.Gives w Q) (hf : ∀ a w', Q a w' → (f a).Gives w' R) :
    (x >>= f).Gives w R := by
  obtain ⟨a, w', hQ, hrun⟩ := h
  obtain ⟨b, w'', hR, hrun'⟩ := hf a w' hQ
  exact ⟨b, w'', hR, fun next => (hrun _).trans (hrun' next)⟩

theorem gives_pure {a : α} (h : Q a w) : (pure a : Act α).Gives w Q := ⟨a, w, h, fun _ => rfl⟩

theorem gives_once {op : Op α} (h : Ends op w Q fun _ _ => False) : (once op).Gives w Q := by
  obtain ⟨a, w', hop, hQ⟩ := h.exists_ok
  exact ⟨a, w', hQ, fun _ => bind_of_ok hop⟩

end Act

theorem gives_expectLive {g : HeapId} {live : Nat} {scenario : String}
    (h : (w.stats g).liveObjects = live) : (expectLive g live scenario).Gives w fun _ w' => w' = w := by
  refine Act.Gives.bind (Q := fun stats w' => stats = w.stats g ∧ w' = w)
    (Act.gives_once ⟨rfl, rfl⟩) ?_
  rintro _ _ ⟨rfl, rfl⟩
  rw [if_pos h]
  exact Act.gives_pure rfl

/-- What storing in a field comes to, to point it at an object. -/
theorem gives_setAt {held : Multiset Holding} {a b : Handle} {slots : List SlotId} {index : Nat}
    {s : SlotId} {Q : Unit → World → Prop} (h : Client.Sole held w) (ha : .root a ∈ held)
    (hfields : (w.valueAt a.obj).Fields slots) (hs : slots[index]? = some s)
    (hset : Ends (a.setField s (some b)) w Q fun _ _ => False) : (setAt a index b).Gives w Q := by
  have hslot : slotOf a index w = s := by rw [slotOf_eq hfields, hs, Option.getD_some]
  rw [← hslot] at hset
  exact Act.gives_once (Ends.bind_of_eq (h.deref ha) hset)

/-- A demonstration that ends with nothing live reports what its heap has counted. -/
theorem Scenario.run_of_thread (scenario : Scenario) {options : Options} {w₀ : World}
    (hcreate : createHeap { name := scenario.name } {} = .ok 0 w₀)
    (hrun : (scenario.act 0 options).thread.run w₀ = .ok none w)
    (hlive : (w.stats 0).liveObjects = 0) :
    scenario.run options = .ok ⟨scenario.name, w.stats 0⟩ := by
  simp only [Scenario.run, Bind.bind, EStateM.bind, hcreate, hrun, get, getThe, MonadStateOf.get,
    EStateM.get, hlive, if_true, pure, EStateM.pure]

theorem Scenario.run_of_gives (scenario : Scenario) {options : Options} {stats : Stats} {w₀ : World}
    (hcreate : createHeap { name := scenario.name } {} = .ok 0 w₀)
    (h : (scenario.act 0 options).Gives w₀ fun _ w => w.stats 0 = stats)
    (hlive : stats.liveObjects = 0) : scenario.run options = .ok ⟨scenario.name, stats⟩ := by
  obtain ⟨_, w, rfl, hrun⟩ := h
  exact scenario.run_of_thread hcreate (hrun fun _ => .done) hlive

end Demo

end RootedHeap
