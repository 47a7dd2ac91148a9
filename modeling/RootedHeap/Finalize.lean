import RootedHeap.Keeps

/-! # Finalization

Objects chosen for collection have their values dropped after the lock is released. Dropping a
value gives up what it holds, one thing at a time, and each of these may collect more. What is
still to be done is an agenda of tasks: a step carries out the first task and puts what follows from
it in front of the rest. Every step either uses up live objects or leaves a cheaper agenda, so the
agenda always comes to its end (`step_lt`).
-/

namespace RootedHeap

/-- Something that is still to be done outside a lock. -/
inductive Task where
  /-- Drop the value of a collected object. -/
  | dropValue (o : ObjId)
  /-- Drop a slot with what it owns. -/
  | dropSlot (s : SlotId)
  /-- Give up the strong reference that a dropped slot had to `o`. -/
  | release (o : ObjId)
  /-- Drop a weak reference. -/
  | dropWeak (o : ObjId)
  /-- Drop a root handle. -/
  | dropHandle (handle : Handle)
  /-- Give up a hold on a heap. -/
  | leave (h : HeapId)
  /-- Put a collected object away, once all values collected with it are dropped. -/
  | retire (h : HeapId) (o : ObjId)
  deriving DecidableEq, Repr

namespace Task

/-- How to drop something a value held. -/
def ofHolding : Holding → Task
  | .slot s => dropSlot s
  | .weak target => dropWeak target
  | .root handle => dropHandle handle

/-- What is to be done with the objects a session of `h` collected: all values are dropped before
any object is put away. -/
def finalizing (h : HeapId) (dead : List ObjId) : List Task :=
  dead.map dropValue ++ dead.map (retire h)

end Task

namespace World

/-- Put a collected object away: leaked if something still refers to it and that is checked, kept
as poisoned if so configured, otherwise left to its weak references. -/
def retire (w : World) (h : HeapId) (o : ObjId) : World :=
  match w.heaps[h]?, w.objects[o]? with
  | some heap, some ob =>
    if heap.config.balance ∧ ob.strong ≠ 0 then
      (w.note (.leaked heap.config.name ob.typeName ob.strong)).modifyObject o
        ({ · with state := .poisoned })
    else if heap.config.poison then w.modifyObject o ({ · with state := .poisoned })
    else w.releaseWeak o
  | _, _ => w

end World

namespace Task

/-- Carry out one task; the tasks returned are to be done next. -/
def step : Task → Op (List Task)
  | dropValue o => fun w =>
    match w.objects[o]? with
    | none => .ok [] w
    | some ob => .ok (ob.value.holdings.map ofHolding) { w with dropped := w.dropped.push o }
  | dropSlot s => fun w =>
    .ok ((w.slotAt s).targets.map release) (w.writeSlot s (w.slotAt s).emptied)
  | release o => fun w =>
    match w.objects[o]? with
    | none => .ok [] w
    | some ob =>
      if ob.state = .live ∧ w.heapExists ob.heap then
        match locked ob.heap (Locked.releaseStrong o) (w.enter ob.heap) with
        | .ok (_, dead) w => .ok (finalizing ob.heap dead ++ [leave ob.heap]) w
        | .error fault w => .error fault (w.leave ob.heap)
      else if ob.strong = 0 then .error (.strongUnderflow ob.typeName) w
      else .ok [] (w.modifyObject o fun ob => { ob with strong := ob.strong - 1 })
  | dropWeak o => fun w => .ok [] (w.releaseWeak o)
  | dropHandle handle => fun w =>
    match locked handle.heap (Locked.dropRoot handle.heap handle.root) w with
    | .ok (_, dead) w => .ok (finalizing handle.heap dead ++ [leave handle.heap]) w
    | .error fault w => .error fault (w.leave handle.heap)
  | leave h => fun w => .ok [] (w.leave h)
  | retire h o => fun w => .ok [] (w.retire h o)

end Task

/-- The tasks that dropping a holding comes to, while nothing is collected. -/
def Holding.cost (w : World) : Holding → Nat
  | .slot s => 1 + 2 * (w.slotAt s).targets.length
  | .weak _ => 1
  | .root _ => 2

/-- The tasks that a task comes to, while nothing is collected. -/
def Task.cost (w : World) : Task → Nat
  | dropValue o =>
    match w.objects[o]? with
    | some ob => 1 + sumOf (Holding.cost w) ob.value.holdings
    | none => 1
  | dropSlot s => 1 + 2 * (w.slotAt s).targets.length
  | release _ | dropHandle _ => 2
  | dropWeak _ | leave _ | retire _ _ => 1

/-- The cost of an agenda. -/
def agendaCost (w : World) (tasks : List Task) : Nat := sumOf (Task.cost w) tasks

theorem agendaCost_append (w : World) (a b : List Task) :
    agendaCost w (a ++ b) = agendaCost w a + agendaCost w b := by
  simp [agendaCost]

theorem agendaCost_cons (w : World) (t : Task) (rest : List Task) :
    agendaCost w (t :: rest) = t.cost w + agendaCost w rest := rfl

theorem cost_ofHolding (w : World) (held : Holding) :
    (Task.ofHolding held).cost w = held.cost w := by
  cases held <;> rfl

theorem agendaCost_holdings (w : World) (held : List Holding) :
    agendaCost w (held.map Task.ofHolding) = sumOf (Holding.cost w) held := by
  simp only [agendaCost, sumOf_map, cost_ofHolding]

theorem agendaCost_release (w : World) (os : List ObjId) :
    agendaCost w (os.map .release) = 2 * os.length := by
  induction os with
  | nil => rfl
  | cons o os ih => simp only [List.map_cons, agendaCost_cons, Task.cost, List.length_cons]; omega

/-- No task gets dearer when values stay and no slot grows. -/
theorem cost_le {w w' : World}
    (hvalue : ∀ o : ObjId, w'.objects[o]?.map Object.value = w.objects[o]?.map Object.value)
    (hslot : ∀ s, (w'.slotAt s).targets.length ≤ (w.slotAt s).targets.length) (t : Task) :
    t.cost w' ≤ t.cost w := by
  have hheld (held : Holding) : held.cost w' ≤ held.cost w := by
    cases held with
    | slot s => have := hslot s; simp only [Holding.cost]; omega
    | weak | root => exact Nat.le_refl _
  cases t with
  | dropValue o =>
    have h := hvalue o
    simp only [Task.cost]
    cases ho : w.objects[o]? with
    | none => cases ho' : w'.objects[o]? <;> simp_all
    | some ob =>
      cases ho' : w'.objects[o]? with
      | none => simp [ho, ho'] at h
      | some ob' =>
        simp only [ho, ho', Option.map_some, Option.some.injEq] at h
        simp only [h]
        have := sumOf_le hheld ob.value.holdings
        omega
  | dropSlot s => have := hslot s; simp only [Task.cost]; omega
  | release | dropHandle | dropWeak | leave | retire => exact Nat.le_refl _

theorem agendaCost_le {w w' : World}
    (hvalue : ∀ o : ObjId, w'.objects[o]?.map Object.value = w.objects[o]?.map Object.value)
    (hslot : ∀ s, (w'.slotAt s).targets.length ≤ (w.slotAt s).targets.length)
    (tasks : List Task) : agendaCost w' tasks ≤ agendaCost w tasks :=
  sumOf_le (cost_le hvalue hslot) tasks

theorem length_slotAt_writeSlot (w : World) (s s' : SlotId) :
    ((w.writeSlot s (w.slotAt s).emptied).slotAt s').targets.length ≤
      (w.slotAt s').targets.length := by
  simp only [World.writeSlot, World.slotAt, Array.getElem?_setIfInBounds]
  split
  next h =>
    subst h
    split
    · cases w.slots[s]? with
      | none => simp [Slot.emptied, Slot.targets]
      | some c => cases c <;> simp [Slot.emptied, Slot.targets]
    · rename_i hs
      simp [Array.getElem?_eq_none (Nat.le_of_not_lt hs), Slot.targets]
  next => exact Nat.le_refl _

theorem liveCount_modifyObject_le (w : World) (o : ObjId) {f : Object → Object}
    (h : ∀ ob, (f ob).state = .live → ob.state = .live) :
    (w.modifyObject o f).liveCount ≤ w.liveCount := by
  simp only [World.liveCount, World.modifyObject, Array.toList_modify]
  generalize w.objects.toList = l
  induction l generalizing o with
  | nil => simp
  | cons a l ih =>
    cases o with
    | zero =>
      have := h a
      by_cases hf : (f a).state = .live <;> simp_all [List.countP_cons]
    | succ o => simpa [List.countP_cons] using ih o

theorem getElem?_modifyObject_value (w : World) (o : ObjId) {f : Object → Object}
    (h : ∀ ob, (f ob).value = ob.value) (o' : ObjId) :
    (w.modifyObject o f).objects[o']?.map Object.value = w.objects[o']?.map Object.value := by
  simp only [World.modifyObject, Array.getElem?_modify]
  split
  · cases w.objects[o']? <;> simp [h]
  · rfl

/-- The measure of an agenda: live objects first, then its cost. -/
def agendaMeasure (tasks : List Task) (w : World) : Nat × Nat := (w.liveCount, agendaCost w tasks)

/-- A world with no more live objects, in which nothing became dearer. -/
structure World.Settling (w w' : World) : Prop where
  liveCount : w'.liveCount ≤ w.liveCount
  value : ∀ o : ObjId, w'.objects[o]?.map Object.value = w.objects[o]?.map Object.value
  slot : ∀ s, (w'.slotAt s).targets.length ≤ (w.slotAt s).targets.length

theorem World.SameShape.settling {w w' : World} (h : w.SameShape w') : w.Settling w' :=
  ⟨Nat.le_of_eq h.liveCount, h.getElem?, fun s => Nat.le_of_eq (by rw [h.slotAt])⟩

theorem measure_lt_of_settling {w w' : World} (h : w.Settling w') {t : Task}
    {more rest : List Task} (hcost : agendaCost w' more < t.cost w) :
    Prod.Lex (· < ·) (· < ·) (agendaMeasure (more ++ rest) w') (agendaMeasure (t :: rest) w) := by
  have hrest := agendaCost_le h.value h.slot rest
  rcases Nat.lt_or_eq_of_le h.liveCount with hlt | heq
  · exact .left _ _ hlt
  · unfold agendaMeasure
    rw [heq, agendaCost_append, agendaCost_cons]
    exact .right _ (by omega)

theorem settling_modifyObject (w : World) (o : ObjId) {f : Object → Object}
    (hvalue : ∀ ob, (f ob).value = ob.value)
    (hstate : ∀ ob, (f ob).state = .live → ob.state = .live) : w.Settling (w.modifyObject o f) :=
  ⟨liveCount_modifyObject_le w o hstate, getElem?_modifyObject_value w o hvalue,
    fun _ => Nat.le_refl _⟩

theorem leave_sameShape (w : World) (h : HeapId) : w.SameShape (w.leave h) := by
  unfold World.leave
  split
  · exact .refl w
  · simp only
    split <;> exact ⟨rfl, rfl⟩

theorem retire_settling (w : World) (h : HeapId) (o : ObjId) : w.Settling (w.retire h o) := by
  unfold World.retire
  split
  · split
    · next heap ob _ _ _ =>
      have h := settling_modifyObject (w.note (.leaked heap.config.name ob.typeName ob.strong)) o
        (f := ({ · with state := .poisoned })) (fun _ => rfl) (by simp)
      exact ⟨h.liveCount, h.value, h.slot⟩
    · split
      · exact settling_modifyObject w o (fun _ => rfl) (by simp)
      · exact settling_modifyObject w o (fun _ => rfl) (fun _ h => h)
  · exact (World.SameShape.refl w).settling

theorem measure_lt_of_locked {α : Type} {h h' : HeapId} {op : Locked α}
    (hop : Locked.KeepsShape op) {w w₁ w₂ : World} (hw : w.SameShape w₁) {a : α}
    {dead : List ObjId} (heq : locked h op w₁ = .ok (a, dead) w₂) {t : Task} (ht : t.cost w = 2)
    {rest : List Task} :
    Prod.Lex (· < ·) (· < ·)
      (agendaMeasure ((Task.finalizing h dead ++ [.leave h']) ++ rest) w₂)
      (agendaMeasure (t :: rest) w) := by
  rcases locked_ok hop heq with ⟨rfl, hsame⟩ | hlt
  · refine measure_lt_of_settling (hw.trans hsame).settling ?_
    rw [ht]
    simp [Task.finalizing, agendaCost, Task.cost]
  · rw [hw.liveCount] at hlt
    exact .left _ _ hlt

/-- Carrying out a task makes the measure of the agenda smaller. -/
theorem step_lt {t : Task} {w w' : World} {more rest : List Task}
    (h : t.step w = .ok more w') :
    Prod.Lex (· < ·) (· < ·) (agendaMeasure (more ++ rest) w') (agendaMeasure (t :: rest) w) := by
  -- a session either collects, and then fewer objects are live, or it leaves a cheaper agenda
  cases t with
  | dropValue o =>
    simp only [Task.step] at h
    split at h
    · cases h
      exact measure_lt_of_settling (World.SameShape.refl w).settling (by simp [agendaCost, Task.cost, *])
    · next ob hob =>
      cases h
      refine measure_lt_of_settling (World.SameShape.settling ⟨rfl, rfl⟩) ?_
      rw [agendaCost_holdings]
      have hsame : World.SameShape w { w with dropped := w.dropped.push o } := ⟨rfl, rfl⟩
      have hcost (held : Holding) :
          held.cost { w with dropped := w.dropped.push o } ≤ held.cost w := by
        cases held <;> simp [Holding.cost, hsame.slotAt]
      have := sumOf_le hcost ob.value.holdings
      simp only [Task.cost, hob]
      omega
  | dropSlot s =>
    simp only [Task.step] at h
    cases h
    have hset : w.Settling (w.writeSlot s (w.slotAt s).emptied) :=
      ⟨Nat.le_refl _, fun _ => rfl, length_slotAt_writeSlot w s⟩
    refine measure_lt_of_settling hset ?_
    rw [agendaCost_release]
    simp only [Task.cost]
    omega
  | release o =>
    simp only [Task.step] at h
    split at h
    · cases h
      exact measure_lt_of_settling (World.SameShape.refl w).settling (by simp [agendaCost, Task.cost])
    · split at h
      · split at h
        · next dead w₂ heq =>
          cases h
          exact measure_lt_of_locked (Locked.releaseStrong_keepsShape o) ⟨rfl, rfl⟩ heq rfl
        · cases h
      · split at h
        · cases h
        · cases h
          refine measure_lt_of_settling (settling_modifyObject w o ?_ ?_) ?_
          · exact fun _ => rfl
          · exact fun _ h => h
          · simp [agendaCost, Task.cost]
  | dropWeak o =>
    simp only [Task.step] at h
    cases h
    refine measure_lt_of_settling (settling_modifyObject w o ?_ ?_) ?_
    · exact fun _ => rfl
    · exact fun _ h => h
    · simp [agendaCost, Task.cost]
  | dropHandle handle =>
    simp only [Task.step] at h
    split at h
    · next dead w₂ heq =>
      cases h
      exact measure_lt_of_locked (Locked.dropRoot_keepsShape _ _) (.refl w) heq rfl
    · cases h
  | leave h' =>
    simp only [Task.step] at h
    cases h
    exact measure_lt_of_settling (leave_sameShape w h').settling (by simp [agendaCost, Task.cost])
  | retire h' o =>
    simp only [Task.step] at h
    cases h
    exact measure_lt_of_settling (retire_settling w h' o) (by simp [agendaCost, Task.cost])

/-- Carry out an agenda to its end, or to the first fault. A fault ends the whole agenda here, whereas
unwinding would still drop what is left of the value whose part failed. -/
def settle : List Task → Op Unit
  | [], w => .ok () w
  | t :: rest, w =>
    match _h : t.step w with
    | .ok more w' => settle (more ++ rest) w'
    | .error fault w' => .error fault w'
termination_by tasks w => agendaMeasure tasks w
decreasing_by exact step_lt ‹_›

/-- Run `op` under the lock of heap `h`, and finalize what it collected. -/
def run {α : Type} (h : HeapId) (op : Locked α) : Op α := do
  let (a, dead) ← locked h op
  settle (Task.finalizing h dead)
  pure a

end RootedHeap
