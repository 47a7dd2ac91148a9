import Mathlib.Data.List.Perm.Basic
import Mathlib.Data.List.Nodup
import RootedHeap.World

/-! # What a value reports

Which slots a value reports does not depend on what they hold. The value is `Matched` when both
halves report the same slots, each of them once: the edges of its object then are the contents of
its reported slots, and the two halves differ in their order at most.
-/

namespace RootedHeap

theorem Role.arrange_map {α β : Type} (f : α → β) (parts : List (Role × α)) :
    Role.arrange (parts.map fun e => (e.1, f e.2)) = (Role.arrange parts).map f := by
  simp [Role.arrange, List.filter_map, Function.comp_def]

theorem Role.mem_arrange {α : Type} {parts : List (Role × α)} {a : α}
    (h : a ∈ Role.arrange parts) : ∃ e ∈ parts, e.2 = a := by
  unfold Role.arrange at h
  rcases List.mem_append.mp h with h | h
  · obtain ⟨e, he, heq⟩ := List.mem_map.mp h
    exact ⟨e, List.mem_of_mem_filter he, heq⟩
  · obtain ⟨e, he, heq⟩ := List.mem_map.mp h
    exact ⟨e, List.mem_of_mem_filter he, heq⟩

mutual

/-- The slots that a value reports, in order; `times` chooses between the two halves. -/
def Value.reported (times : Nat → Nat → Nat) : Value → List SlotId
  | .plain | .weak _ | .root _ => []
  | .slot s => [s]
  | .uneven s connects disconnects => List.replicate (times connects disconnects) s
  | .group _ parts => (Role.arrange (parts.reported times)).flatten
  | .map entries => entries.reported times

/-- The slots that each part reports. -/
def Parts.reported (times : Nat → Nat → Nat) : Parts → List (Role × List SlotId)
  | .nil => []
  | .cons role value rest => (role, value.reported times) :: rest.reported times

def Entries.reported (times : Nat → Nat → Nat) : Entries → List SlotId
  | .nil => []
  | .cons _ value rest => value.reported times ++ rest.reported times

end

/-- The slots reported when connecting, in order. -/
def Value.connectSlots (v : Value) : List SlotId := v.reported fun connects _ => connects

/-- The slots reported when disconnecting, in order. -/
def Value.disconnectSlots (v : Value) : List SlotId := v.reported fun _ disconnects => disconnects

section Visits

variable (read : SlotId → Slot)

theorem flatten_replicate_visits (n : Nat) (s : SlotId) :
    (List.replicate n ((read s).visits s)).flatten =
      (List.replicate n s).flatMap fun s => (read s).visits s := by
  induction n with
  | zero => rfl
  | succ n ih => rw [List.replicate_succ, List.replicate_succ, List.flatten_cons,
      List.flatMap_cons, ih]

theorem flatten_map_flatMap (parts : List (List SlotId)) :
    (parts.map fun slots => slots.flatMap fun s => (read s).visits s).flatten =
      parts.flatten.flatMap fun s => (read s).visits s := by
  induction parts with
  | nil => rfl
  | cons slots parts ih =>
      rw [List.map_cons, List.flatten_cons, List.flatten_cons, List.flatMap_append, ih]

mutual

/-- The connecting half reports each of its slots with its content. -/
theorem Value.connectVisits_eq (v : Value) :
    v.connectVisits read = v.connectSlots.flatMap fun s => (read s).visits s := by
  cases v with
  | plain | weak | root =>
      simp [Value.connectVisits, Value.connectSlots, Value.reported]
  | slot s => simp [Value.connectVisits, Value.connectSlots, Value.reported]
  | uneven s connects _ =>
      rw [Value.connectVisits, Value.connectSlots, Value.reported, flatten_replicate_visits]
  | group _ parts =>
      rw [Value.connectVisits, Value.connectSlots, Value.reported, Parts.connectVisits_eq parts,
        Role.arrange_map, flatten_map_flatMap]
  | map entries =>
      rw [Value.connectVisits, Value.connectSlots, Value.reported, Entries.connectVisits_eq entries]

theorem Parts.connectVisits_eq (parts : Parts) :
    parts.connectVisits read = (parts.reported fun connects _ => connects).map
      fun e => (e.1, e.2.flatMap fun s => (read s).visits s) := by
  cases parts with
  | nil => simp [Parts.connectVisits, Parts.reported]
  | cons role value rest =>
      rw [Parts.connectVisits, Parts.reported, List.map_cons, Value.connectVisits_eq value,
        Parts.connectVisits_eq rest, Value.connectSlots]

theorem Entries.connectVisits_eq (entries : Entries) :
    entries.connectVisits read = (entries.reported fun connects _ => connects).flatMap
      fun s => (read s).visits s := by
  cases entries with
  | nil => simp [Entries.connectVisits, Entries.reported]
  | cons _ value rest =>
      rw [Entries.connectVisits, Entries.reported, List.flatMap_append, Value.connectVisits_eq value,
        Entries.connectVisits_eq rest, Value.connectSlots]

end

mutual

/-- The disconnecting half reports each of its slots with its content. -/
theorem Value.disconnectVisits_eq (v : Value) :
    v.disconnectVisits read = v.disconnectSlots.flatMap fun s => (read s).visits s := by
  cases v with
  | plain | weak | root =>
      simp [Value.disconnectVisits, Value.disconnectSlots, Value.reported]
  | slot s => simp [Value.disconnectVisits, Value.disconnectSlots, Value.reported]
  | uneven s _ disconnects =>
      rw [Value.disconnectVisits, Value.disconnectSlots, Value.reported, flatten_replicate_visits]
  | group _ parts =>
      rw [Value.disconnectVisits, Value.disconnectSlots, Value.reported, Parts.disconnectVisits_eq parts,
        Role.arrange_map, flatten_map_flatMap]
  | map entries =>
      rw [Value.disconnectVisits, Value.disconnectSlots, Value.reported,
        Entries.disconnectVisits_eq entries]

theorem Parts.disconnectVisits_eq (parts : Parts) :
    parts.disconnectVisits read = (parts.reported fun _ disconnects => disconnects).map
      fun e => (e.1, e.2.flatMap fun s => (read s).visits s) := by
  cases parts with
  | nil => simp [Parts.disconnectVisits, Parts.reported]
  | cons role value rest =>
      rw [Parts.disconnectVisits, Parts.reported, List.map_cons, Value.disconnectVisits_eq value,
        Parts.disconnectVisits_eq rest, Value.disconnectSlots]

theorem Entries.disconnectVisits_eq (entries : Entries) :
    entries.disconnectVisits read = (entries.reported fun _ disconnects => disconnects).flatMap
      fun s => (read s).visits s := by
  cases entries with
  | nil => simp [Entries.disconnectVisits, Entries.reported]
  | cons _ value rest =>
      rw [Entries.disconnectVisits, Entries.reported, List.flatMap_append,
        Value.disconnectVisits_eq value, Entries.disconnectVisits_eq rest, Value.disconnectSlots]

end

theorem Slot.slot_of_mem_visits {s : SlotId} {content : Slot} {v : Visit}
    (h : v ∈ content.visits s) : v.slot = s := by
  cases content with
  | one target => simp_all [Slot.visits]
  | many items =>
      rcases List.mem_cons.mp h with rfl | h
      · rfl
      · obtain ⟨o, _, rfl⟩ := List.mem_map.mp h
        rfl

/-- Even a slot that owns nothing is reported. -/
theorem Slot.exists_mem_visits (s : SlotId) (content : Slot) :
    ∃ v ∈ content.visits s, v.slot = s := by
  cases content with
  | one target => exact ⟨_, List.mem_cons_self, rfl⟩
  | many items => exact ⟨_, List.mem_cons_self, rfl⟩

theorem Slot.targets_visits (s : SlotId) (content : Slot) :
    Visit.targets (content.visits s) = content.targets := by
  cases content with
  | one target => cases target <;> rfl
  | many items =>
      have hitems : (items.map fun o => (⟨s, some o⟩ : Visit)).filterMap (·.target) = items := by
        rw [List.filterMap_map]
        exact List.filterMap_some
      exact hitems

theorem targets_flatMap_visits (slots : List SlotId) :
    Visit.targets (slots.flatMap fun s => (read s).visits s) =
      slots.flatMap fun s => (read s).targets := by
  induction slots with
  | nil => rfl
  | cons s slots ih =>
      rw [List.flatMap_cons, List.flatMap_cons, ← ih, ← Slot.targets_visits s (read s)]
      exact List.filterMap_append

/-- Which slots a value reports can be read off any report. -/
theorem Value.mem_connectSlots {v : Value} {s : SlotId} :
    s ∈ (v.connectVisits read).map (·.slot) ↔ s ∈ v.connectSlots := by
  rw [Value.connectVisits_eq, List.mem_map]
  constructor
  · rintro ⟨e, he, rfl⟩
    obtain ⟨s, hs, he⟩ := List.mem_flatMap.mp he
    exact Slot.slot_of_mem_visits he ▸ hs
  · intro hs
    obtain ⟨e, he, heq⟩ := Slot.exists_mem_visits s (read s)
    exact ⟨e, List.mem_flatMap.mpr ⟨s, hs, he⟩, heq⟩

end Visits

mutual

/-- A value holds every slot that it reports. -/
theorem Value.mem_holdings_of_reported {times : Nat → Nat → Nat} {v : Value} {s : SlotId}
    (h : s ∈ v.reported times) : Holding.slot s ∈ v.holdings := by
  cases v with
  | plain | weak | root => simp [Value.reported] at h
  | slot s' =>
      rw [Value.reported, List.mem_singleton] at h
      rw [h, Value.holdings]
      exact List.mem_singleton_self _
  | uneven s' connects disconnects =>
      rw [Value.reported] at h
      rw [List.eq_of_mem_replicate h, Value.holdings]
      exact List.mem_singleton_self _
  | group _ parts =>
      rw [Value.reported] at h
      obtain ⟨slots, hslots, hs⟩ := List.mem_flatten.mp h
      obtain ⟨e, he, rfl⟩ := Role.mem_arrange hslots
      rw [Value.holdings]
      exact Parts.mem_holdings_of_reported he hs
  | map entries =>
      rw [Value.reported] at h
      rw [Value.holdings]
      exact Entries.mem_holdings_of_reported h

theorem Parts.mem_holdings_of_reported {times : Nat → Nat → Nat} {parts : Parts}
    {e : Role × List SlotId} {s : SlotId} (he : e ∈ parts.reported times) (hs : s ∈ e.2) :
    Holding.slot s ∈ parts.holdings := by
  cases parts with
  | nil => simp [Parts.reported] at he
  | cons role value rest =>
      rw [Parts.holdings]
      rw [Parts.reported] at he
      rcases List.mem_cons.mp he with rfl | he
      · exact List.mem_append_left _ (Value.mem_holdings_of_reported hs)
      · exact List.mem_append_right _ (Parts.mem_holdings_of_reported he hs)

theorem Entries.mem_holdings_of_reported {times : Nat → Nat → Nat} {entries : Entries} {s : SlotId}
    (h : s ∈ entries.reported times) : Holding.slot s ∈ entries.holdings := by
  cases entries with
  | nil => simp [Entries.reported] at h
  | cons key value rest =>
      rw [Entries.holdings]
      rw [Entries.reported] at h
      refine List.mem_append_right _ ?_
      rcases List.mem_append.mp h with h | h
      · exact List.mem_append_left _ (Value.mem_holdings_of_reported h)
      · exact List.mem_append_right _ (Entries.mem_holdings_of_reported h)

end

/-- Both halves report the same slots, and each of them once. -/
structure Value.Matched (v : Value) : Prop where
  perm : v.disconnectSlots.Perm v.connectSlots
  nodup : v.connectSlots.Nodup

instance (v : Value) : Decidable v.Matched :=
  decidable_of_iff (v.disconnectSlots.Perm v.connectSlots ∧ v.connectSlots.Nodup)
    ⟨fun h => ⟨h.1, h.2⟩, fun h => ⟨h.perm, h.nodup⟩⟩

namespace World

/-- The value of `o`; an object that does not exist is plain data. -/
def valueAt (w : World) (o : ObjId) : Value :=
  match w.objects[o]? with
  | some ob => ob.value
  | none => .plain

/-- The edges of an object are the contents of the slots it reports. -/
theorem out_eq (w : World) (o : ObjId) :
    w.out o = (w.valueAt o).connectSlots.flatMap fun s => (w.slotAt s).targets := by
  unfold out visits valueAt
  cases w.objects[o]? with
  | none => simp [Value.connectSlots, Value.reported, Visit.targets]
  | some ob =>
      simp only
      rw [Value.connectVisits_eq, targets_flatMap_visits]

theorem back_eq (w : World) (o : ObjId) :
    w.back o = (w.valueAt o).disconnectSlots.flatMap fun s => (w.slotAt s).targets := by
  unfold back valueAt
  cases w.objects[o]? with
  | none => simp [Value.disconnectSlots, Value.reported]
  | some ob =>
      simp only
      rw [Value.disconnectVisits_eq, targets_flatMap_visits]

/-- The two halves of a matched value lead to the same objects. -/
theorem back_perm {w : World} {o : ObjId} (h : (w.valueAt o).Matched) :
    (w.back o).Perm (w.out o) := by
  rw [back_eq, out_eq]
  exact h.perm.flatMap_right _

theorem mem_out {w : World} {o c : ObjId} :
    c ∈ w.out o ↔ ∃ s ∈ (w.valueAt o).connectSlots, c ∈ (w.slotAt s).targets := by
  rw [out_eq, List.mem_flatMap]

/-- What a check against the reports of `o` asks for. -/
theorem contains_visits {w : World} {o : ObjId} {s : SlotId} :
    ((w.visits o).map (·.slot)).contains s = true ↔ s ∈ (w.valueAt o).connectSlots := by
  rw [List.contains_iff_mem]
  unfold visits valueAt
  cases w.objects[o]? with
  | none => simp [Value.connectSlots, Value.reported]
  | some ob => exact Value.mem_connectSlots _

end World

end RootedHeap
