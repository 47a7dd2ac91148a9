import RootedHeap.Proofs.Cells

/-! # The two halves of a value

What a value ought to report can be told from its shape alone: the slots that stand under no skipped
part, and in no key of a map. A value is `Regular` when none of its parts reports its slot other than
once in each half. Its two halves then make the same visits: one for each exposed field, null or not,
and for each exposed list one for the list and one for each element. A check of a slot against the
reports accepts the exposed slots and no other. So a slot in the key of a map keeps what it owns
alive, but no pass goes through it and no write to it passes a check.
-/

namespace RootedHeap

mutual

/-- The slots that stand under no skipped part, in declaration order; those in the keys of maps are
left out unless `keyed`. -/
def Value.unskipped (keyed : Bool) : Value → List SlotId
  | .plain | .weak _ | .root _ => []
  | .slot s | .uneven s _ _ => [s]
  | .group _ parts => parts.unskipped keyed
  | .map entries => entries.unskipped keyed

def Parts.unskipped (keyed : Bool) : Parts → List SlotId
  | .nil => []
  | .cons role value rest =>
    (if role = .skipped then [] else value.unskipped keyed) ++ rest.unskipped keyed

def Entries.unskipped (keyed : Bool) : Entries → List SlotId
  | .nil => []
  | .cons key value rest =>
    (if keyed then key.unskipped keyed else []) ++ (value.unskipped keyed ++ rest.unskipped keyed)

end

/-- The slots that stand under no skipped part and in no key of a map. -/
def Value.exposed (v : Value) : List SlotId := v.unskipped false

mutual

/-- Each part reports its slot once in each half. -/
def Value.Regular : Value → Prop
  | .plain | .slot _ | .weak _ | .root _ => True
  | .uneven _ connects disconnects => connects = 1 ∧ disconnects = 1
  | .group _ parts => parts.Regular
  | .map entries => entries.Regular

def Parts.Regular : Parts → Prop
  | .nil => True
  | .cons _ value rest => value.Regular ∧ rest.Regular

def Entries.Regular : Entries → Prop
  | .nil => True
  | .cons _ value rest => value.Regular ∧ rest.Regular

end

@[simp] theorem Parts.regular_ofList (parts : List (Role × Value)) :
    (Parts.ofList parts).Regular ↔ ∀ e ∈ parts, e.2.Regular := by
  induction parts with
  | nil => simp [Parts.ofList, Parts.Regular]
  | cons e parts ih => simp [Parts.ofList, Parts.Regular, ih]

@[simp] theorem Value.regular_ofList (container : Container) (values : List Value) :
    (Value.ofList container values).Regular ↔ ∀ v ∈ values, v.Regular := by
  simp [Value.ofList, Value.Regular]

@[simp] theorem Entries.regular_ofList (entries : List (Value × Value)) :
    (Entries.ofList entries).Regular ↔ ∀ e ∈ entries, e.2.Regular := by
  induction entries with
  | nil => simp [Entries.ofList, Entries.Regular]
  | cons e entries ih => simp [Entries.ofList, Entries.Regular, ih]

@[simp] theorem Value.regular_ofEntries (entries : List (Value × Value)) :
    (Value.ofEntries entries).Regular ↔ ∀ e ∈ entries, e.2.Regular := by
  simp [Value.ofEntries, Value.Regular]

@[simp] theorem Value.regular_record (parts : List (Role × Value)) :
    (Value.record parts).Regular ↔ ∀ e ∈ parts, e.2.Regular := by
  simp [Value.record, Value.Regular]

mutual

theorem Value.Regular.even {v : Value} (h : v.Regular) : v.Even := by
  cases v with
  | plain | slot | weak | root => exact trivial
  | uneven s connects disconnects =>
      obtain ⟨rfl, rfl⟩ := h
      exact ⟨rfl, le_rfl⟩
  | group _ parts => exact Parts.Regular.even h
  | map entries => exact Entries.Regular.even h

theorem Parts.Regular.even {parts : Parts} (h : parts.Regular) : parts.Even := by
  cases parts with
  | nil => exact trivial
  | cons role value rest => exact ⟨Value.Regular.even h.1, Parts.Regular.even h.2⟩

theorem Entries.Regular.even {entries : Entries} (h : entries.Regular) : entries.Even := by
  cases entries with
  | nil => exact trivial
  | cons key value rest => exact ⟨Value.Regular.even h.1, Entries.Regular.even h.2⟩

end

/-- Arranging parts by their roles drops the skipped ones and reorders the others. -/
theorem Role.flatten_arrange_perm {α : Type} (parts : List (Role × List α)) :
    (Role.arrange parts).flatten.Perm
      ((parts.filter fun e => e.1 ≠ .skipped).map (·.2)).flatten := by
  induction parts with
  | nil => exact .nil
  | cons part parts ih =>
      obtain ⟨role, slots⟩ := part
      cases role with
      | skipped => simpa [Role.arrange] using ih
      | base => simpa [Role.arrange] using ih.append_left slots
      | owned =>
          have hlater : (Role.arrange ((Role.owned, slots) :: parts)).flatten.Perm
              (slots ++ (Role.arrange parts).flatten) := by
            simpa [Role.arrange] using List.perm_append_comm_assoc _ _ _
          simpa using hlater.trans (ih.append_left slots)

mutual

/-- A regular value reports what it exposes, each slot as often as it stands there. -/
theorem Value.Regular.connectSlots_perm {v : Value} (h : v.Regular) :
    v.connectSlots.Perm v.exposed := by
  cases v with
  | plain | slot | weak | root =>
      simp [Value.connectSlots, Value.reported, Value.exposed, Value.unskipped]
  | uneven s connects disconnects =>
      obtain ⟨rfl, -⟩ := h
      simp [Value.connectSlots, Value.reported, Value.exposed, Value.unskipped]
  | group _ parts =>
      rw [Value.connectSlots, Value.reported, Value.exposed, Value.unskipped]
      exact (Role.flatten_arrange_perm _).trans (Parts.Regular.reported_perm h)
  | map entries =>
      rw [Value.connectSlots, Value.reported, Value.exposed, Value.unskipped]
      exact Entries.Regular.reported_perm h

theorem Parts.Regular.reported_perm {parts : Parts} (h : parts.Regular) :
    (((parts.reported fun connects _ => connects).filter fun e => e.1 ≠ .skipped).map
      (·.2)).flatten.Perm (parts.unskipped false) := by
  cases parts with
  | nil => simp [Parts.reported, Parts.unskipped]
  | cons role value rest =>
      have hvalue := Value.Regular.connectSlots_perm h.1
      have hrest := Parts.Regular.reported_perm h.2
      rw [Value.connectSlots, Value.exposed] at hvalue
      rw [Parts.reported, Parts.unskipped]
      by_cases hrole : role = .skipped
      · simpa [hrole] using hrest
      · simpa [hrole] using hvalue.append hrest

theorem Entries.Regular.reported_perm {entries : Entries} (h : entries.Regular) :
    (entries.reported fun connects _ => connects).Perm (entries.unskipped false) := by
  cases entries with
  | nil => simp [Entries.reported, Entries.unskipped]
  | cons key value rest =>
      have hvalue := Value.Regular.connectSlots_perm h.1
      have hrest := Entries.Regular.reported_perm h.2
      rw [Value.connectSlots, Value.exposed] at hvalue
      rw [Entries.reported, Entries.unskipped]
      simpa using hvalue.append hrest

end

/-- The reports of one slot among those of several: its own, once for each time it stands there. -/
theorem filter_flatMap_visits (read : SlotId → Slot) (slots : List SlotId) (s : SlotId) :
    (slots.flatMap fun s => (read s).visits s).filter (·.slot = s) =
      (List.replicate (slots.count s) ((read s).visits s)).flatten := by
  induction slots with
  | nil => rfl
  | cons s' slots ih =>
      rw [List.flatMap_cons, List.filter_append, ih]
      by_cases hs : s' = s
      · subst hs
        have hself : ((read s').visits s').filter (·.slot = s') = (read s').visits s' :=
          List.filter_eq_self.mpr fun e he => by simpa using Slot.slot_of_mem_visits he
        rw [hself, List.count_cons_self, List.replicate_succ, List.flatten_cons]
      · have hnone : ((read s').visits s').filter (·.slot = s) = [] :=
          List.filter_eq_nil_iff.mpr fun e he => by
            rw [Slot.slot_of_mem_visits he]
            simpa using hs
        rw [hnone, List.nil_append, List.count_cons_of_ne hs]

/-- A slot is refused if it has to be verified and the value does not report it; what is refused
changes nothing. -/
theorem Locked.verifySlot_eq (h : HeapId) (o : ObjId) (slot : SlotId) (s : Session) :
    verifySlot h o slot s =
      if mustVerify s.world h o slot = true ∧ slot ∉ (s.world.valueAt o).connectSlots then
        .error (.violation (.protocol (s.world.typeName o) .unvisitedSlot))
          { s with
            world := s.world.note (.violated (.protocol (s.world.typeName o) .unvisitedSlot)) }
      else .ok () s := by
  have hrefused : (mustVerify s.world h o slot &&
      !((s.world.visits o).map (·.slot)).contains slot) = true ↔
        mustVerify s.world h o slot = true ∧ slot ∉ (s.world.valueAt o).connectSlots := by
    rw [Bool.and_eq_true, Bool.not_eq_true', ← Bool.not_eq_true, World.contains_visits]
  simp only [← hrefused]
  have hrun : verifySlot h o slot s =
      (if (mustVerify s.world h o slot && !((s.world.visits o).map (·.slot)).contains slot) = true
        then do violate (.protocol (← look (·.typeName o)) .unvisitedSlot)
        else pure () : Locked Unit) s := rfl
  rw [hrun]
  split <;> rfl

theorem Script.Shape.regular_value (shape : Shape SlotId SlotId) : shape.value.Regular := by
  cases shape <;> simp [Shape.value, Value.Regular]

theorem Script.Cell.regular_value {cell : Slots} (hmode : cell.mode = .both) :
    (Cell.value cell).Regular := by
  simp only [Cell.value, Value.regular_record, Value.regular_ofList, Value.regular_ofEntries,
    List.forall_mem_cons, List.forall_mem_map]
  simp [Value.Regular, Shape.regular_value, hmode, Mode.connects, Mode.disconnects]

/-- The two halves of a regular value make the same visits, whatever its slots hold. They go through
the exposed slots in one order: a field is visited once, null or not, a list once for itself and once
for each element, and the edges are what the slots own, in that order. A check of a slot against the
reports accepts exactly the exposed slots. Cells are regular if their odd slot is reported in both
halves. -/
theorem halves_report_exposed :
    (∀ cell : Script.Slots, cell.mode = .both → (Script.Cell.value cell).Regular) ∧
      ∀ v : Value, v.Regular →
        (∃ order : List SlotId, order.Perm v.exposed ∧ ∀ read : SlotId → Slot,
          v.disconnectVisits read = v.connectVisits read ∧
          v.connectVisits read = order.flatMap (fun s => (read s).visits s) ∧
          Visit.targets (v.connectVisits read) = order.flatMap (fun s => (read s).targets) ∧
          (∀ s target, read s = .one target → (v.connectVisits read).filter (·.slot = s) =
            List.replicate (v.exposed.count s) ⟨s, target⟩) ∧
          ∀ s items, read s = .many items → (v.connectVisits read).filter (·.slot = s) =
            (List.replicate (v.exposed.count s)
              (⟨s, none⟩ :: items.map fun o => ⟨s, some o⟩)).flatten) ∧
        ∀ h o slot (s : Session), s.world.valueAt o = v →
          Locked.verifySlot h o slot s =
            if Locked.mustVerify s.world h o slot = true ∧ slot ∉ v.exposed then
              .error (.violation (.protocol (s.world.typeName o) .unvisitedSlot))
                { s with world :=
                    s.world.note (.violated (.protocol (s.world.typeName o) .unvisitedSlot)) }
            else .ok () s := by
  refine ⟨fun cell => Script.Cell.regular_value, fun v hv => ?_⟩
  have hperm := hv.connectSlots_perm
  have hslots := hv.even.disconnectSlots_eq
  refine ⟨⟨v.connectSlots, hperm, fun read => ?_⟩, fun h o slot s hvalue => ?_⟩
  · have hfilter (s : SlotId) : (v.connectVisits read).filter (·.slot = s) =
        (List.replicate (v.exposed.count s) ((read s).visits s)).flatten := by
      rw [Value.connectVisits_eq, filter_flatMap_visits, hperm.count_eq]
    refine ⟨?_, v.connectVisits_eq read, ?_, fun s target hs => ?_, fun s items hs => ?_⟩
    · rw [Value.disconnectVisits_eq, Value.connectVisits_eq, hslots]
    · rw [Value.connectVisits_eq, targets_flatMap_visits]
    · rw [hfilter, hs]
      exact List.flatten_replicate_singleton
    · rw [hfilter, hs]
      rfl
  · simp only [Locked.verifySlot_eq, hvalue, hperm.mem_iff]

/-- A cell with slots in every kind of place. -/
def Script.crowdedCell : Slots where
  left := 0
  right := 1
  items := 2
  hidden := 3
  hiddenList := 4
  stray := 5
  vec := [6, 7]
  boxed := 8
  opt := some 9
  parent := 10
  deque := [11]
  arr := (12, 13)
  bmap := [("a", 14)]
  hmap := [("b", 15)]
  pair := (16, 17)
  shape := .two 18 19
  mode := .both
  odd := 20
  weak := ⟨none⟩
  held := none

/-- A session in which the first object is that cell. -/
def Script.crowded : Session :=
  ⟨{ objects := #[{ heap := 0, typeName := "Cell", value := Cell.value crowdedCell }] }, []⟩

/-- The list of the cell is reported with its elements, a null field by itself, a hidden field not
at all; so the boxed field passes a check, and the stray one does not. -/
theorem crowdedCell_reports :
    let v := Script.Cell.value Script.crowdedCell
    let read := fun s : SlotId => if s = 2 then Slot.many [5, 6] else .one none
    Script.crowdedCell.mode = .both ∧ v.disconnectVisits read = v.connectVisits read ∧
      (v.connectVisits read).filter (·.slot = 2) = [⟨2, none⟩, ⟨2, some 5⟩, ⟨2, some 6⟩] ∧
      (v.connectVisits read).filter (·.slot = 0) = [⟨0, none⟩] ∧
      (v.connectVisits read).filter (·.slot = 3) = [] ∧
      Locked.verifySlot 0 0 8 Script.crowded = .ok () Script.crowded ∧
      ∃ fault s', Locked.verifySlot 0 0 5 Script.crowded = .error fault s' := by
  intro v read
  obtain ⟨⟨order, -, hvisits⟩, hverify⟩ :=
    halves_report_exposed.2 v (halves_report_exposed.1 Script.crowdedCell rfl)
  obtain ⟨hsame, -, -, hfield, hlist⟩ := hvisits read
  refine ⟨rfl, hsame, hlist 2 [5, 6] rfl, hfield 0 none rfl, hfield 3 none rfl, ?_, ?_⟩
  · rw [hverify 0 0 8 Script.crowded rfl, if_neg]
    exact fun h => h.2 (by decide)
  · refine ⟨_, _, (hverify 0 0 5 Script.crowded rfl).trans (if_pos ⟨?_, ?_⟩)⟩
    · decide
    · decide

/-- A map with one entry, whose key owns a slot. -/
def keyedMap : Value := .ofEntries [(.record [(.owned, .slot 0)], .plain)]

/-- A session in which the first object of a heap is `v`, with or without checks of every write. -/
def Session.holding (v : Value) (verify : Bool) : Session :=
  ⟨{ heaps := #[{ config := { verify } }], objects := #[{ heap := 0, typeName := "T", value := v }] },
    []⟩

/-- Not every slot that stands under no skipped part is reported, nor is every slot that is accepted
one of those. The slot in the key of a map is under no skipped part, yet both halves pass it by and a
check refuses it. A slot of a hidden field is accepted if it is stored inline and the heap does not
check such writes: no report is asked for then. -/
theorem keyedMap_unreported :
    (keyedMap.Regular ∧ 0 ∈ keyedMap.unskipped true ∧
      (∀ read : SlotId → Slot, keyedMap.connectVisits read = [] ∧ keyedMap.disconnectVisits read = []) ∧
      ∃ fault s', Locked.verifySlot 0 0 0 (.holding keyedMap true) = .error fault s') ∧
    let hidden := Script.Cell.value Script.crowdedCell
    hidden.Regular ∧ 3 ∉ hidden.unskipped true ∧
      Locked.verifySlot 0 0 3 (.holding hidden false) = .ok () (.holding hidden false) := by
  refine ⟨⟨?_, by decide, fun read => ⟨rfl, rfl⟩, ?_⟩, ?_⟩
  · simp [keyedMap, Value.Regular]
  · refine ⟨_, _, (Locked.verifySlot_eq ..).trans (if_pos ⟨?_, ?_⟩)⟩
    · decide
    · decide
  · refine ⟨Script.Cell.regular_value rfl, by decide, (Locked.verifySlot_eq ..).trans (if_neg ?_)⟩
    exact fun h => absurd h.1 (by decide)

end RootedHeap
