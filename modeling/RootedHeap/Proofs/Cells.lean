import RootedHeap.Proofs.Calls
import RootedHeap.Script.Cell

/-! # Cells match

The two halves of a value match when each part of it reports its slot as often in the one as in the
other, at most once, and no slot stands in two places. A client never holds a slot twice. So it may
allocate a cell whenever the odd slot of the cell is reported in both halves, or in neither.
-/

namespace RootedHeap

/-- Arranging parts by their roles drops some of them, and repeats none. -/
theorem Role.flatten_arrange_le {α : Type} (parts : List (Role × List α)) :
    ((Role.arrange parts).flatten : Multiset α) ≤ ((parts.map (·.2)).flatten : List α) := by
  induction parts with
  | nil => exact le_rfl
  | cons part parts ih =>
      obtain ⟨role, slots⟩ := part
      rw [List.map_cons, List.flatten_cons, ← Multiset.coe_add]
      cases role with
      | skipped => exact ih.trans (Multiset.le_add_left _ _)
      | base =>
          have hfirst : (Role.arrange ((Role.base, slots) :: parts)).flatten =
              slots ++ (Role.arrange parts).flatten := by
            simp [Role.arrange]
          rw [hfirst, ← Multiset.coe_add]
          exact add_le_add_right ih _
      | owned =>
          have hlater : (Role.arrange ((Role.owned, slots) :: parts)).flatten.Perm
              (slots ++ (Role.arrange parts).flatten) := by
            simpa [Role.arrange] using List.perm_append_comm_assoc _ _ _
          rw [Multiset.coe_eq_coe.mpr hlater, ← Multiset.coe_add]
          exact add_le_add_right ih _

mutual

/-- Each part reports its slot in both halves or in neither, and at most once. -/
def Value.Even : Value → Prop
  | .plain | .slot _ | .weak _ | .root _ => True
  | .uneven _ connects disconnects => connects = disconnects ∧ connects ≤ 1
  | .group _ parts => parts.Even
  | .map entries => entries.Even

def Parts.Even : Parts → Prop
  | .nil => True
  | .cons _ value rest => value.Even ∧ rest.Even

/-- Keys report nothing, so nothing is asked of them. -/
def Entries.Even : Entries → Prop
  | .nil => True
  | .cons _ value rest => value.Even ∧ rest.Even

end

@[simp] theorem Parts.even_ofList (parts : List (Role × Value)) :
    (Parts.ofList parts).Even ↔ ∀ e ∈ parts, e.2.Even := by
  induction parts with
  | nil => simp [Parts.ofList, Parts.Even]
  | cons e parts ih => simp [Parts.ofList, Parts.Even, ih]

@[simp] theorem Value.even_ofList (container : Container) (values : List Value) :
    (Value.ofList container values).Even ↔ ∀ v ∈ values, v.Even := by
  simp [Value.ofList, Value.Even]

@[simp] theorem Entries.even_ofList (entries : List (Value × Value)) :
    (Entries.ofList entries).Even ↔ ∀ e ∈ entries, e.2.Even := by
  induction entries with
  | nil => simp [Entries.ofList, Entries.Even]
  | cons e entries ih => simp [Entries.ofList, Entries.Even, ih]

@[simp] theorem Value.even_ofEntries (entries : List (Value × Value)) :
    (Value.ofEntries entries).Even ↔ ∀ e ∈ entries, e.2.Even := by
  simp [Value.ofEntries, Value.Even]

@[simp] theorem Value.even_record (parts : List (Role × Value)) :
    (Value.record parts).Even ↔ ∀ e ∈ parts, e.2.Even := by
  simp [Value.record, Value.Even]

mutual

theorem Value.Even.disconnectSlots_eq {v : Value} (h : v.Even) :
    v.disconnectSlots = v.connectSlots := by
  cases v with
  | plain | slot | weak | root => simp [Value.disconnectSlots, Value.connectSlots, Value.reported]
  | uneven s connects disconnects =>
      obtain ⟨rfl, -⟩ := h
      simp [Value.disconnectSlots, Value.connectSlots, Value.reported]
  | group _ parts =>
      rw [Value.disconnectSlots, Value.connectSlots, Value.reported, Value.reported,
        Parts.Even.reported_eq h]
  | map entries =>
      rw [Value.disconnectSlots, Value.connectSlots, Value.reported, Value.reported,
        Entries.Even.reported_eq h]

theorem Parts.Even.reported_eq {parts : Parts} (h : parts.Even) :
    (parts.reported fun _ disconnects => disconnects) =
      parts.reported fun connects _ => connects := by
  cases parts with
  | nil => simp [Parts.reported]
  | cons role value rest =>
      obtain ⟨hvalue, hrest⟩ := h
      have hslots := Value.Even.disconnectSlots_eq hvalue
      unfold Value.disconnectSlots Value.connectSlots at hslots
      rw [Parts.reported, Parts.reported, hslots, Parts.Even.reported_eq hrest]

theorem Entries.Even.reported_eq {entries : Entries} (h : entries.Even) :
    (entries.reported fun _ disconnects => disconnects) =
      entries.reported fun connects _ => connects := by
  cases entries with
  | nil => simp [Entries.reported]
  | cons key value rest =>
      obtain ⟨hvalue, hrest⟩ := h
      have hslots := Value.Even.disconnectSlots_eq hvalue
      unfold Value.disconnectSlots Value.connectSlots at hslots
      rw [Entries.reported, Entries.reported, hslots, Entries.Even.reported_eq hrest]

end

mutual

/-- An even value reports no slot more often than it holds it. -/
theorem Value.Even.connectSlots_le {v : Value} (h : v.Even) :
    (v.connectSlots : Multiset SlotId) ≤ (v.holdings : Multiset Holding).bind Holding.slots := by
  cases v with
  | plain | weak | root => simp [Value.connectSlots, Value.reported]
  | slot s => simp [Value.connectSlots, Value.reported, Value.holdings, Holding.slots]
  | uneven s connects disconnects =>
      obtain ⟨-, hle⟩ := h
      have hone : (List.replicate connects s).Sublist [s] :=
        (List.replicate_sublist_replicate s).mpr hle
      rw [Value.connectSlots, Value.reported, Value.holdings, Multiset.coe_singleton,
        Multiset.singleton_bind]
      exact Multiset.coe_le.mpr hone.subperm
  | group _ parts =>
      rw [Value.connectSlots, Value.reported, Value.holdings]
      exact (Role.flatten_arrange_le _).trans (Parts.Even.reported_le h)
  | map entries =>
      rw [Value.connectSlots, Value.reported, Value.holdings]
      exact Entries.Even.reported_le h

theorem Parts.Even.reported_le {parts : Parts} (h : parts.Even) :
    (((parts.reported fun connects _ => connects).map (·.2)).flatten : Multiset SlotId) ≤
      (parts.holdings : Multiset Holding).bind Holding.slots := by
  cases parts with
  | nil => simp [Parts.reported]
  | cons role value rest =>
      obtain ⟨hvalue, hrest⟩ := h
      rw [Parts.reported, Parts.holdings, List.map_cons, List.flatten_cons, ← Multiset.coe_add,
        ← Multiset.coe_add, Multiset.add_bind]
      exact add_le_add (Value.Even.connectSlots_le hvalue) (Parts.Even.reported_le hrest)

theorem Entries.Even.reported_le {entries : Entries} (h : entries.Even) :
    ((entries.reported fun connects _ => connects : List SlotId) : Multiset SlotId) ≤
      (entries.holdings : Multiset Holding).bind Holding.slots := by
  cases entries with
  | nil => simp [Entries.reported]
  | cons key value rest =>
      obtain ⟨hvalue, hrest⟩ := h
      rw [Entries.reported, Entries.holdings, ← Multiset.coe_add, ← Multiset.coe_add,
        ← Multiset.coe_add, Multiset.add_bind, Multiset.add_bind]
      exact (add_le_add (Value.Even.connectSlots_le hvalue) (Entries.Even.reported_le hrest)).trans
        (Multiset.le_add_left _ _)

end

/-- An even value matches if it holds no slot twice. -/
theorem Value.Even.matched {v : Value} (h : v.Even)
    (hnodup : ((v.holdings : Multiset Holding).bind Holding.slots).Nodup) : v.Matched where
  perm := by rw [h.disconnectSlots_eq]
  nodup := Multiset.coe_nodup.mp (Multiset.nodup_of_le h.connectSlots_le hnodup)

/-- No part of what a client holds has a slot twice. -/
theorem Client.Sound.nodup_of_held {c : Client} (h : c.Sound) {part : Multiset Holding}
    (hpart : part ≤ c.held) : (part.bind Holding.slots).Nodup := by
  have hledger : c.held ≤
      c.world.ledger c.todo ((c.incoming.map Holding.root : List Holding) + c.held) :=
    (Multiset.le_add_left _ _).trans (Multiset.le_add_left _ _)
  obtain ⟨rest, hrest⟩ := Multiset.le_iff_exists_add.mp (hpart.trans hledger)
  have hnodup := h.orderly.accounted.slots_nodup
  rw [hrest, Multiset.add_bind] at hnodup
  exact Multiset.nodup_of_le (Multiset.le_add_right _ _) hnodup

namespace Script

theorem Shape.even_value (shape : Shape SlotId SlotId) : shape.value.Even := by
  cases shape <;> simp [Shape.value, Value.Even]

theorem Cell.even_value {cell : Slots} (hmode : cell.mode = .both ∨ cell.mode = .never) :
    (Cell.value cell).Even := by
  have hodd : cell.mode.connects = cell.mode.disconnects ∧ cell.mode.connects ≤ 1 := by
    rcases hmode with hmode | hmode
    · simp [hmode, Mode.connects, Mode.disconnects]
    · simp [hmode, Mode.connects, Mode.disconnects]
  simp only [Cell.value, Value.even_record, Value.even_ofList, Value.even_ofEntries,
    List.forall_mem_cons, List.forall_mem_map]
  simp [Value.Even, Shape.even_value, hodd.1, hodd.1 ▸ hodd.2]

end Script

/-- A client may allocate the cells it has the parts of, if their odd slot is reported in both halves
or in neither. -/
theorem Client.Reached.allowed_cell {c : Client} (h : c.Reached) {g : HeapId} (hg : g ∈ c.heaps)
    (typeName : String) {cell : Script.Slots} (hmode : cell.mode = .both ∨ cell.mode = .never)
    (hheld : ((Script.Cell.value cell).holdings : Multiset Holding) ≤ c.held) :
    (Call.alloc g typeName (Script.Cell.value cell)).Allowed c := by
  exact ⟨hg, (Script.Cell.even_value hmode).matched (h.sound.nodup_of_held hheld), hheld⟩

end RootedHeap
