import RootedHeap.Proofs.Reclaim

/-! # Turns

What one turn of a client does to the world, be it the session of a call or a task: the world grows,
and what is collected at the end of a session leaves it. A `World.Turn` says what becomes of the
objects, of the slots and of the log, and what the tasks to come may refer to.
-/

namespace RootedHeap

/-- The object whose value a task drops. -/
def Task.drops : Task → Option ObjId
  | .dropValue o => some o
  | .dropSlot _ | .release _ | .dropWeak _ | .dropHandle _ | .leave _ | .retire _ _ => none

/-- The object that a task puts away. -/
def Task.retires : Task → Option ObjId
  | .retire _ o => some o
  | .dropValue _ | .dropSlot _ | .release _ | .dropWeak _ | .dropHandle _ | .leave _ => none

/-- The objects that a task is still to give up references to. -/
def Task.targets (w : World) (t : Task) : Multiset ObjId :=
  (t.holdings w).bind (Holding.targets w) + t.released

@[simp] theorem Task.targets_ofHolding (w : World) (x : Holding) :
    (Task.ofHolding x).targets w = x.targets w := by
  cases x <;> simp [targets, ofHolding, holdings, released]

theorem Task.buries_of_retires {t : Task} {o : ObjId} (h : t.retires = some o) :
    t.buries = some o := by
  cases t <;> first | exact h | cases h

theorem Task.retires_of_idle {t : Task} (h : t.buries = none) : t.retires = none := by
  cases t <;> first | rfl | cases h

theorem Task.drops_of_idle {t : Task} (h : t.buries = none) : t.drops = none := by
  cases t <;> first | rfl | cases h

/-- Of the tasks that a session leads to, each object collected has its value dropped by one, and is
put away by one. -/
theorem Task.filterMap_drops {g : HeapId} {dead : List ObjId} {tail : List Task}
    (hidle : ∀ u ∈ tail, u.buries = none) :
    (finalizing g dead ++ tail).filterMap drops = dead := by
  have htail : tail.filterMap drops = [] :=
    List.filterMap_eq_nil_iff.mpr fun u hu => drops_of_idle (hidle u hu)
  simp [finalizing, htail, List.filterMap_map, Function.comp_def, drops]

theorem Task.filterMap_retires {g : HeapId} {dead : List ObjId} {tail : List Task}
    (hidle : ∀ u ∈ tail, u.buries = none) :
    (finalizing g dead ++ tail).filterMap retires = dead := by
  have htail : tail.filterMap retires = [] :=
    List.filterMap_eq_nil_iff.mpr fun u hu => retires_of_idle (hidle u hu)
  simp [finalizing, htail, List.filterMap_map, Function.comp_def, retires]

/-- Whether an event reports that a heap went with live objects left. -/
def Event.abandons : Event → Bool
  | .heapDropped .. => true
  | _ => false

namespace World

/-- The objects on their way out. -/
def departed (w : World) : Multiset ObjId :=
  (Multiset.range w.objects.size).filter fun o => w.isLive o = false

/-- What `t` puts away, `u` does not refer to. -/
def Forsakes (w : World) (t u : Task) : Prop := ∀ o, t.retires = some o → o ∉ u.targets w

/-- As long as no heap went with live objects left, every live object has its heap. -/
def Housed (w : World) : Prop :=
  (∀ e ∈ w.log.toList, e.abandons = false) →
    ∀ h o, w.isLive o = true → w.owns h o = true → w.heapExists h = true

/-- An event of a turn from `w` to a world with `size` objects: it marks objects that were live or
are new, and reports a leak only if the task `spent` puts an object away that is referred to. -/
structure Admits (w : World) (size : Nat) (spent : Option Task) (e : Event) : Prop where
  marks : ∀ o ∈ e.marks, w.isLive o = true ∨ w.objects.size ≤ o ∧ o < size
  leaks : e.leaks = true → ∃ t ∈ spent, ∃ o, t.retires = some o ∧ w.strongAt o ≠ 0

/-- `w'` has what `w` had, and live objects besides. Only slots that are owned may differ. -/
structure Grows (own : SlotId → Prop) (spent : Option Task) (w w' : World) : Prop where
  size_le : w.objects.size ≤ w'.objects.size
  objects : ∀ o : ObjId, o < w.objects.size →
    w'.objects[o]?.map Object.face = w.objects[o]?.map Object.face
  born : ∀ o, w.objects.size ≤ o → o < w'.objects.size → w'.isLive o = true
  dropped : w'.dropped.toList = w.dropped.toList ++ (spent.bind Task.drops).toList
  collected : w'.collectedAt = w.collectedAt
  slots : ∀ s < w.slots.size, ¬ own s → w'.slotAt s = w.slotAt s
  housed : w.Housed → w'.Housed
  log : ∃ added, w'.log.toList = w.log.toList ++ added ∧
    ∀ e ∈ added, w.Admits w'.objects.size spent e

variable {own own' : SlotId → Prop} {spent : Option Task} {w w' w₁ : World} {todo : Multiset Task}
  {held : Multiset Holding} {g : HeapId} {dead : List ObjId} {tail : List Task}

@[simp] theorem mem_departed {o : ObjId} : o ∈ w.departed ↔ w.Gone o := by
  rw [departed, Multiset.mem_filter, Multiset.mem_range, Gone]

theorem nodup_departed (w : World) : w.departed.Nodup := (Multiset.nodup_range _).filter _

namespace Grows

theorem isLive (h : Grows own spent w w') {o : ObjId} (ho : o < w.objects.size) :
    w'.isLive o = w.isLive o := by
  rw [isLive_face, isLive_face, h.objects o ho]

theorem valueAt (h : Grows own spent w w') {o : ObjId} (ho : o < w.objects.size) :
    w'.valueAt o = w.valueAt o := by
  rw [valueAt_face, valueAt_face, h.objects o ho]

/-- What is new is live. -/
theorem gone_iff (h : Grows own spent w w') {o : ObjId} : w'.Gone o ↔ w.Gone o := by
  constructor
  · rintro ⟨hlt, hdead⟩
    by_cases ho : o < w.objects.size
    · exact ⟨ho, h.isLive ho ▸ hdead⟩
    · rw [h.born o (Nat.le_of_not_lt ho) hlt] at hdead
      cases hdead
  · rintro ⟨hlt, hdead⟩
    exact ⟨Nat.lt_of_lt_of_le hlt h.size_le, (h.isLive hlt).trans hdead⟩

theorem refl (w : World) : Grows own none w w :=
  ⟨le_refl _, fun _ _ => rfl, fun _ hle hlt => absurd hlt (Nat.not_lt.mpr hle), by simp, rfl,
    fun _ _ _ => rfl, id, [], by simp, by simp⟩

/-- Heaps that stay house the live objects there were. -/
theorem housed_of_objects (hobjects : ∀ o : ObjId,
      w'.objects[o]?.map Object.face = w.objects[o]?.map Object.face)
    (hexists : ∀ h, w.heapExists h = true → w'.heapExists h = true)
    (hlog : ∃ added, w'.log.toList = w.log.toList ++ added) (h : w.Housed) : w'.Housed := by
  intro hkept h' o hlive hown
  obtain ⟨added, hlog⟩ := hlog
  rw [isLive_face, hobjects, ← isLive_face] at hlive
  rw [owns_face, hobjects, ← owns_face] at hown
  refine hexists h' (h (fun e he => hkept e ?_) h' o hlive hown)
  rw [hlog]
  exact List.mem_append_left _ he

/-- A session goes on from where its world had grown to. -/
theorem trans_spares (h : Grows own spent w w₁) (hspares : w₁.Spares w₁.isLive own' w')
    (hslots : ∀ s < w.slots.size, ¬ own s → w'.slotAt s = w₁.slotAt s) : Grows own spent w w' := by
  obtain ⟨added, hlog, hadmits⟩ := h.log
  obtain ⟨added', hlog', hfair⟩ := hspares.log
  refine ⟨hspares.size ▸ h.size_le, fun o ho => (hspares.objects o).trans (h.objects o ho),
    fun o hle hlt => ?_, hspares.dropped ▸ h.dropped, hspares.collectedAt.trans h.collected,
    fun s hs hown => (hslots s hs hown).trans (h.slots s hs hown), fun hw => ?_,
    added ++ added', ?_, fun e he => ?_⟩
  · rw [hspares.isLive]
    exact h.born o hle (hspares.size ▸ hlt)
  · apply housed_of_objects hspares.objects _ ⟨_, hlog'⟩ (h.housed hw)
    intro g hg
    rw [heapExists_eq] at hg ⊢
    rwa [hspares.holdersAt]
  · rw [hlog', hlog, List.append_assoc]
  · rw [hspares.size]
    rcases List.mem_append.mp he with he | he
    · exact hadmits e he
    · refine ⟨fun o ho => ?_, fun hleak => ?_⟩
      · have hlive := (hfair e he).marks o ho
        by_cases hlt : o < w.objects.size
        · exact .inl (h.isLive hlt ▸ hlive)
        · exact .inr ⟨Nat.le_of_not_lt hlt, lt_size_of_isLive hlive⟩
      · rw [(hfair e he).leaks] at hleak
        cases hleak

theorem of_spares (h : w.Spares w.isLive own w') : Grows own none w w' :=
  (refl w).trans_spares h fun s _ hs => h.slots s hs

/-- Changes that neither objects nor slots nor the log notice. -/
theorem of_eq (hobjects : ∀ o : ObjId,
      w'.objects[o]?.map Object.face = w.objects[o]?.map Object.face)
    (hsize : w'.objects.size = w.objects.size) (hdropped : w'.dropped = w.dropped)
    (hcollected : w'.collectedAt = w.collectedAt)
    (hexists : ∀ h, w.heapExists h = true → w'.heapExists h = true)
    (hslots : ∀ s < w.slots.size, ¬ own s → w'.slotAt s = w.slotAt s) (hlog : w'.log = w.log) :
    Grows own none w w' := by
  refine ⟨le_of_eq hsize.symm, fun o _ => hobjects o, fun o hle hlt => ?_, by simp [hdropped],
    hcollected, hslots, housed_of_objects hobjects hexists ⟨[], by simp [hlog]⟩, [],
    by simp [hlog], by simp⟩
  exact absurd (hsize ▸ hlt) (Nat.not_lt.mpr hle)

theorem collectedAt_modifyHeap {g : HeapId} {f : Heap → Heap}
    (hf : ∀ heap, (f heap).counters.collected = heap.counters.collected) :
    (w.modifyHeap g f).collectedAt = w.collectedAt := by
  funext g'
  exact match_heaps_modifyHeap (d := 0) (φ := fun heap => heap.counters.collected) hf g'

theorem enter (w : World) (g : HeapId) : Grows own none w (w.enter g) := by
  refine of_eq (fun _ => rfl) rfl rfl (collectedAt_modifyHeap fun _ => rfl) (fun h hh => ?_)
    (fun _ _ _ => rfl) rfl
  simp only [World.heapExists, World.enter, heaps_modifyHeap] at hh ⊢
  cases hheap : w.heaps[h]? with
  | none => simp [hheap] at hh
  | some heap =>
      simp only [hheap, Option.map_some] at hh ⊢
      split
      · simp
      · exact hh

theorem modifyObject (w : World) (o : ObjId) {f : Object → Object}
    (hf : ∀ ob, w.objects[o]? = some ob → (f ob).face = ob.face) :
    Grows own none w (w.modifyObject o f) := by
  have halike := Alike.modifyObject w o hf
  exact of_eq halike.objects halike.size rfl rfl (fun _ => id) (fun _ _ _ => rfl) rfl

end Grows

/-- A task that drops no value is spent. -/
theorem Grows.spend {t : Task} (h : Grows own none w w') (ht : t.drops = none) :
    Grows own (some t) w w' := by
  obtain ⟨added, hlog, hadmits⟩ := h.log
  refine ⟨h.size_le, h.objects, h.born, ?_, h.collected, h.slots, h.housed, added, hlog,
    fun e he => ⟨(hadmits e he).marks, fun hleak => ?_⟩⟩
  · rw [h.dropped, Option.bind_some, ht]
    rfl
  · obtain ⟨t', ht', -⟩ := (hadmits e he).leaks hleak
    cases ht'

/-- Nobody else has the slots of a task. -/
theorem Accounted.apart {strong : ObjId → Nat} {u : Task} {others : Multiset Holding}
    (h : w.Accounted strong todo held) (hle : u.holdings w + others ≤ w.ledger todo held)
    {s : SlotId} (hs : .slot s ∈ u.holdings w) : s < w.slots.size ∧ .slot s ∉ others := by
  obtain ⟨rest, hledger⟩ := Multiset.le_iff_exists_add.mp hle
  have hlt := h.slots_lt s
  have hnodup := h.slots_nodup
  rw [hledger, Multiset.add_bind, Multiset.add_bind] at hlt hnodup
  have hmem : s ∈ (u.holdings w).bind Holding.slots :=
    Multiset.mem_bind.mpr ⟨_, hs, Multiset.mem_singleton_self s⟩
  constructor
  · exact hlt (Multiset.mem_add.mpr (.inl (Multiset.mem_add.mpr (.inl hmem))))
  · intro hother
    have hpair := Multiset.nodup_add.mp (Multiset.nodup_add.mp hnodup).1
    exact Multiset.disjoint_left.mp hpair.2.2 hmem
      (Multiset.mem_bind.mpr ⟨_, hother, Multiset.mem_singleton_self s⟩)

/-- A turn: the world grows, and `dead` are collected, with what is to be done next. -/
structure Turn (own : SlotId → Prop) (spent : Option Task) (todo : Multiset Task)
    (held : Multiset Holding) (g : HeapId) (dead : List ObjId) (tail : List Task) (w w' : World) :
    Prop where
  collects : ∃ w₁, Grows own spent w w₁ ∧ w₁.Reclaimed g todo held dead w'
  /-- The slots of the tasks there were are nobody else's. -/
  apart : ∀ u ∈ todo, ∀ s, .slot s ∈ u.holdings w → s < w.slots.size ∧ ¬ own s
  idle : ∀ u ∈ tail, u.buries = none
  doomed : ∀ o ∈ dead, ∀ u ∈ tail, o ∉ u.targets w'
  fresh : ∀ u ∈ tail, ∀ o ∈ u.targets w', w.Gone o → ∃ t ∈ spent, o ∈ t.targets w

/-- A turn that comes to `more`. -/
def Turns (own : SlotId → Prop) (spent : Option Task) (todo : Multiset Task)
    (held : Multiset Holding) (more : List Task) (w w' : World) : Prop :=
  ∃ g dead tail, more = Task.finalizing g dead ++ tail ∧
    Turn own spent todo held g dead tail w w'

/-- A turn without a session. -/
theorem Turns.of_grows {more : List Task} (hgrows : Grows own spent w w')
    (hguarded : w'.Guarded todo held)
    (hapart : ∀ u ∈ todo, ∀ s, .slot s ∈ u.holdings w → s < w.slots.size ∧ ¬ own s)
    (hidle : ∀ u ∈ more, u.buries = none)
    (hfresh : ∀ u ∈ more, ∀ o ∈ u.targets w', w.Gone o → ∃ t ∈ spent, o ∈ t.targets w) :
    Turns own spent todo held more w w' := by
  refine ⟨0, [], more, rfl, ⟨w', hgrows, ?_⟩, hapart, hidle, by simp, hfresh⟩
  exact ⟨hguarded, .nil, by simp, by simp, by simp, by simp, w'.alike_collect_nil 0, by simp,
    [], by simp, by simp⟩

/-- A turn that is a session, after which nothing that refers to objects is to be done. -/
theorem Turns.of_session (hgrows : Grows own spent w w₁)
    (hreclaimed : w₁.Reclaimed g todo held dead w')
    (hapart : ∀ u ∈ todo, ∀ s, .slot s ∈ u.holdings w → s < w.slots.size ∧ ¬ own s)
    (htail : ∀ u ∈ tail, u.buries = none ∧ ∀ w, u.targets w = 0) :
    Turns own spent todo held (Task.finalizing g dead ++ tail) w w' := by
  refine ⟨g, dead, tail, rfl, ⟨w₁, hgrows, hreclaimed⟩, hapart, fun u hu => (htail u hu).1,
    fun o _ u hu => ?_, fun u hu o ho => ?_⟩
  · rw [(htail u hu).2]
    exact Multiset.notMem_zero o
  · rw [(htail u hu).2] at ho
    cases ho

/-- A turn that is a session. -/
theorem Turns.of_collect (hgrows : Grows own spent w w₁)
    (hreclaimed : w₁.Reclaimed g todo held dead w')
    (hapart : ∀ u ∈ todo, ∀ s, .slot s ∈ u.holdings w → s < w.slots.size ∧ ¬ own s) :
    Turns own spent todo held (Task.finalizing g dead) w w' := by
  rw [← List.append_nil (Task.finalizing g dead)]
  exact .of_session hgrows hreclaimed hapart (by simp)

namespace Turn

variable (h : Turn own spent todo held g dead tail w w')

include h

theorem valueAt {o : ObjId} (ho : o < w.objects.size) : w'.valueAt o = w.valueAt o := by
  obtain ⟨w₁, hgrows, hreclaimed⟩ := h.collects
  rw [hreclaimed.alike.valueAt, valueAt_collect, hgrows.valueAt ho]

theorem slotAt {s : SlotId} (hs : s < w.slots.size) (hown : ¬ own s) :
    w'.slotAt s = w.slotAt s := by
  obtain ⟨w₁, hgrows, hreclaimed⟩ := h.collects
  rw [hreclaimed.alike.slotAt]
  exact hgrows.slots s hs hown

theorem nodup : dead.Nodup := h.collects.choose_spec.2.nodup

theorem gone_iff {o : ObjId} : w'.Gone o ↔ w.Gone o ∨ o ∈ dead := by
  obtain ⟨w₁, hgrows, hreclaimed⟩ := h.collects
  rw [hreclaimed.alike.gone, ← hgrows.gone_iff]
  by_cases ho : o ∈ dead
  · exact ⟨fun _ => .inr ho, fun _ => gone_collect_of_mem (hreclaimed.live o ho) ho⟩
  · constructor
    · rintro ⟨hlt, hgone⟩
      rw [size_collect] at hlt
      refine .inl ⟨hlt, Bool.eq_false_iff.mpr fun hlive => ?_⟩
      rw [isLive_collect.mpr ⟨hlive, ho⟩] at hgone
      cases hgone
    · rintro (hgone | hmem)
      · exact hgone.collect
      · exact absurd hmem ho

/-- Nothing is collected twice. -/
theorem not_gone {o : ObjId} (ho : o ∈ dead) : ¬ w.Gone o := by
  obtain ⟨w₁, hgrows, hreclaimed⟩ := h.collects
  intro hgone
  have hlive := hreclaimed.live o ho
  rw [(hgrows.gone_iff.mpr hgone).2] at hlive
  cases hlive

theorem departed : w'.departed = w.departed + dead := by
  have hnodup : (w.departed + (dead : Multiset ObjId)).Nodup := by
    refine Multiset.nodup_add.mpr ⟨w.nodup_departed, h.nodup, ?_⟩
    exact Multiset.disjoint_left.mpr fun hgone hdead => h.not_gone hdead (mem_departed.mp hgone)
  apply (Multiset.Nodup.ext w'.nodup_departed hnodup).mpr
  intro o
  rw [mem_departed, h.gone_iff, Multiset.mem_add, mem_departed, Multiset.mem_coe]

theorem dropped : w'.dropped.toList = w.dropped.toList ++ (spent.bind Task.drops).toList := by
  obtain ⟨w₁, hgrows, hreclaimed⟩ := h.collects
  rw [hreclaimed.alike.dropped]
  exact hgrows.dropped

theorem log : ∃ added, w'.log.toList = w.log.toList ++ added ∧
    ∀ e ∈ added, w.Admits w'.objects.size spent e := by
  obtain ⟨w₁, hgrows, hreclaimed⟩ := h.collects
  obtain ⟨added, hlog, hadmits⟩ := hgrows.log
  obtain ⟨added', hlog', hplain⟩ := hreclaimed.log
  have hsize : w'.objects.size = w₁.objects.size := hreclaimed.alike.size.trans size_collect
  refine ⟨added ++ added', by rw [hlog', hlog, List.append_assoc], fun e he => ?_⟩
  rcases List.mem_append.mp he with he | he
  · exact hsize ▸ hadmits e he
  · obtain ⟨hmarks, hleaks⟩ := hplain e he
    exact ⟨by simp [hmarks], by simp [hleaks]⟩

theorem housed (hw : w.Housed) : w'.Housed := by
  obtain ⟨w₁, hgrows, hreclaimed⟩ := h.collects
  obtain ⟨added, hlog, -⟩ := hreclaimed.log
  intro hkept g' o hlive hown
  rw [hreclaimed.alike.isLive] at hlive
  rw [hreclaimed.alike.owns, owns_collect] at hown
  rw [hreclaimed.alike.heapExists, heapExists_collect]
  refine hgrows.housed hw (fun e he => hkept e ?_) g' o (isLive_collect.mp hlive).1 hown
  rw [hlog]
  exact List.mem_append_left _ he

/-- Tasks that there were go on to give up what they were to give up. -/
theorem targets {u : Task} (hu : u ∈ todo) : u.targets w' = u.targets w := by
  obtain ⟨w₁, hgrows, hreclaimed⟩ := h.collects
  have hholdings : u.holdings w' = u.holdings w := by
    cases u with
    | dropValue o =>
        have hgone := hgrows.gone_iff.mp (hreclaimed.guarded.buried _ hu o rfl)
        rw [Task.holdings, Task.holdings, h.valueAt hgone.1]
    | dropSlot | release | dropWeak | dropHandle | leave | retire => rfl
  rw [Task.targets, Task.targets, hholdings]
  congr 1
  apply Multiset.bind_congr
  intro x hx
  cases x with
  | slot s =>
      obtain ⟨hlt, hown⟩ := h.apart u hu s hx
      rw [Holding.targets, Holding.targets, h.slotAt hlt hown]
  | weak | root => rfl

/-- No other task refers to what was collected. -/
theorem notMem_targets {o : ObjId} (ho : o ∈ dead) {u : Task} (hu : u ∈ todo) :
    o ∉ u.targets w' := by
  obtain ⟨w₁, hgrows, hreclaimed⟩ := h.collects
  have htargets : u.targets w' = u.targets w₁ := by
    rw [Task.targets, Task.targets, hreclaimed.alike.holdings, hreclaimed.alike.targets,
      holdings_collect]
    rfl
  rw [htargets]
  intro hmem
  apply hreclaimed.outer o ho
  obtain ⟨rest, rfl⟩ := Multiset.exists_cons_of_mem hu
  rw [outer_cons_task]
  exact Multiset.mem_add.mpr (.inl hmem)

/-- What follows refers to objects on their way out only as the task spent did. -/
theorem fresh_tasks {u : Task} (hu : u ∈ Task.finalizing g dead ++ tail) {o : ObjId}
    (ho : o ∈ u.targets w') (hgone : w.Gone o) : ∃ t ∈ spent, o ∈ t.targets w := by
  rcases List.mem_append.mp hu with hu | hu
  · obtain ⟨w₁, hgrows, hreclaimed⟩ := h.collects
    rcases List.mem_append.mp hu with hu | hu
    · -- a live object refers to live objects only
      obtain ⟨p, hp, rfl⟩ := List.mem_map.mp hu
      rw [Task.targets, Task.holdings, Task.released, add_zero, hreclaimed.alike.valueAt,
        valueAt_collect, hreclaimed.alike.targets] at ho
      obtain ⟨x, hx, ho⟩ := Multiset.mem_bind.mp ho
      have hlive := hreclaimed.guarded.value_live p (hreclaimed.live p hp) x hx o ho
      rw [(hgrows.gone_iff.mpr hgone).2] at hlive
      cases hlive
    · obtain ⟨p, -, rfl⟩ := List.mem_map.mp hu
      cases ho
  · exact h.fresh u hu o ho hgone

/-- What a turn collected, no task there was refers to. -/
theorem forsakes {t u : Task} (ht : t ∈ Task.finalizing g dead ++ tail) (hu : u ∈ todo) :
    w'.Forsakes t u := by
  intro o ho
  rcases List.mem_append.mp ht with ht | ht
  · rcases List.mem_append.mp ht with ht | ht
    · obtain ⟨p, -, rfl⟩ := List.mem_map.mp ht
      cases ho
    · obtain ⟨p, hp, rfl⟩ := List.mem_map.mp ht
      cases ho
      exact h.notMem_targets hp hu
  · rw [Task.retires_of_idle (h.idle t ht)] at ho
    cases ho

/-- What is put away elsewhere, the tasks that a turn leads to do not refer to. -/
theorem forsaken {t u : Task} (hu : u ∈ Task.finalizing g dead ++ tail)
    (hgone : ∀ o, t.retires = some o → w.Gone o) (hspent : ∀ t' ∈ spent, w.Forsakes t t') :
    w'.Forsakes t u := by
  intro o ho hmem
  obtain ⟨t', ht', ho'⟩ := h.fresh_tasks hu hmem (hgone o ho)
  exact hspent t' ht' o ho ho'

/-- The tasks that a turn leads to put nothing away that later ones refer to. -/
theorem pairwise {rest : List Task} (hmem : ∀ u ∈ rest, u ∈ todo)
    (hrest : rest.Pairwise w.Forsakes) :
    (Task.finalizing g dead ++ tail ++ rest).Pairwise w'.Forsakes := by
  have hnone {t u : Task} (ht : t.retires = none) : w'.Forsakes t u := by
    intro o ho
    rw [ht] at ho
    cases ho
  have hretire {o : ObjId} (ho : o ∈ dead) {u : Task} (hu : u ∈ tail ++ rest) : o ∉ u.targets w' := by
    rcases List.mem_append.mp hu with hu | hu
    · exact h.doomed o ho u hu
    · exact h.notMem_targets ho (hmem u hu)
  -- values are dropped first, then objects are put away, and idle tasks follow
  rw [List.append_assoc, Task.finalizing, List.append_assoc]
  refine List.pairwise_append.mpr ⟨?_, List.pairwise_append.mpr ⟨?_, ?_, ?_⟩, ?_⟩
  · refine List.pairwise_map.mpr (List.pairwise_of_forall fun o o' => ?_)
    exact hnone rfl
  · refine List.pairwise_map.mpr (List.pairwise_of_forall fun o o' => ?_)
    exact fun _ _ => Multiset.notMem_zero _
  · refine List.pairwise_append.mpr ⟨List.pairwise_of_forall_mem_list fun t ht u hu => ?_, ?_, ?_⟩
    · exact hnone (Task.retires_of_idle (h.idle t ht))
    · refine hrest.imp_of_mem fun _ hu hforsakes o ho => ?_
      rw [h.targets (hmem _ hu)]
      exact hforsakes o ho
    · exact fun t ht u hu => hnone (Task.retires_of_idle (h.idle t ht))
  · intro t ht u hu o ho
    obtain ⟨o', ho', rfl⟩ := List.mem_map.mp ht
    cases ho
    exact hretire ho' hu
  · intro t ht u hu
    obtain ⟨o, -, rfl⟩ := List.mem_map.mp ht
    exact hnone rfl

end Turn

/-- What is on its way out, only tasks refer to. -/
theorem Guarded.exists_task (h : w.Guarded todo held) {o : ObjId} (hgone : w.Gone o)
    (ho : o ∈ w.refs todo held) : ∃ u ∈ todo, o ∈ u.targets w := by
  have hdead {x : Holding} (hx : o ∈ x.targets w)
      (hlive : ∀ c ∈ x.targets w, w.isLive c = true) : False := by
    have := hlive o hx
    rw [hgone.2] at this
    cases this
  rcases Multiset.mem_add.mp ho with ho | ho
  · obtain ⟨x, hx, hox⟩ := Multiset.mem_bind.mp ho
    rcases Multiset.mem_add.mp hx with hx | hx
    · rcases Multiset.mem_add.mp hx with hx | hx
      · obtain ⟨p, hp, hx⟩ := Multiset.mem_bind.mp hx
        exact (hdead hox (h.value_live p (mem_lives.mp hp) x (Multiset.mem_coe.mp hx))).elim
      · obtain ⟨u, hu, hx⟩ := Multiset.mem_bind.mp hx
        exact ⟨u, hu, Multiset.mem_add.mpr (.inl (Multiset.mem_bind.mpr ⟨x, hx, hox⟩))⟩
    · exact (hdead hox (h.held_live x hx)).elim
  · obtain ⟨u, hu, hou⟩ := Multiset.mem_bind.mp ho
    exact ⟨u, hu, Multiset.mem_add.mpr (.inr hou)⟩

end World

end RootedHeap
