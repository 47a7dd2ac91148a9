import RootedHeap.Proofs.Turns

/-! # Settling

Between sessions a world is `World.Orderly`: it is sound, nothing is suspected, and each heap has a
holder for every root, for every owner and for every task that is still to give up a hold on it;
handles on their way to a client do not hold their heap yet. No task fails in an orderly world, and
every task leads to another one (`Task.step_ends`).
-/

namespace RootedHeap

namespace World

/-- A sound world outside of sessions. -/
def Steady (w : World) (todo : Multiset Task) (held : Multiset Holding) (owed : HeapId → ℤ) :
    Prop :=
  w.Sound w.tallies w.strongAt w.support [] todo held owed

/-- The holders that heap `h` has apart from its roots. -/
def dues (todo : Multiset Task) (heaps : Multiset HeapId) (incoming : List Handle)
    (h : HeapId) : ℤ :=
  heaps.count h + todo.count (.leave h) - (incoming.map Handle.heap).count h

/-- What holds of a world while tasks are to be done. Clients hold `held` and own `heaps`, and
`incoming` handles are on their way to them. -/
def Orderly (w : World) (todo : Multiset Task) (held : Multiset Holding)
    (heaps : Multiset HeapId) (incoming : List Handle) : Prop :=
  w.Steady todo ((incoming.map Holding.root : List Holding) + held) (dues todo heaps incoming)

variable {w w' : World} {ts : Tallies} {strong : ObjId → Nat} {support : RootId → ObjId → Nat}
  {suspects : List ObjId} {todo : Multiset Task} {held : Multiset Holding} {owed owed' : HeapId → ℤ}
  {heaps : Multiset HeapId} {incoming : List Handle}

theorem strongAt_modifyObject {o : ObjId} {f : Object → Object}
    (hf : ∀ ob, (f ob).strong = ob.strong) : (w.modifyObject o f).strongAt = w.strongAt := by
  funext x
  simp only [strongAt, modifyObject, Array.getElem?_modify]
  by_cases hx : o = x
  · subst hx
    cases w.objects[o]? <;> simp [hf]
  · simp [hx]

theorem Steady.of_alike (h : w.Sound w'.tallies w'.strongAt w.support [] todo held owed)
    (halike : w.Alike w') : w'.Steady todo held owed := by
  rw [Steady, halike.support]
  exact h.congr halike

/-- A session starts from a steady world. -/
theorem Steady.settled (h : w.Steady todo held owed) (g : HeapId) :
    Session.Settled g todo held owed ⟨w, []⟩ :=
  ⟨.refl w, h, by simp, .refl w⟩

/-- A session that was refused leaves a steady world. -/
theorem Steady.refused (h : w.Steady todo held owed) {ts : Tallies} {us : List ObjId} {s : Session}
    (hpassed : Session.Passed ⟨w, []⟩ ts us s) (hts : ts = w.tallies) :
    s.world.Steady todo held owed := by
  refine .of_alike ?_ hpassed.alike
  rw [hpassed.tallies, hpassed.strong, hts]
  exact h

/-! ## Tasks and what they come to -/

/-- What there is may change hands between tasks and clients. -/
theorem Sound.reassign {todo' : Multiset Task} {held' : Multiset Holding}
    (h : w.Sound ts strong support suspects todo held owed)
    (hslots : (w.ledger todo' held').bind Holding.slots = (w.ledger todo held).bind Holding.slots)
    (hentries : ∀ g, (w.ledger todo' held').bind (Holding.entries g) =
      (w.ledger todo held).bind (Holding.entries g))
    (hrefs : w.refs todo' held' = w.refs todo held)
    (houter : w.outer todo held ⊆ w.outer todo' held')
    (hroots : ∀ a, .root a ∈ w.ledger todo' held' → .root a ∈ w.ledger todo held)
    (hheld : ∀ x ∈ held', ∀ c ∈ x.targets w, w.isLive c = true)
    (hburied : ∀ t ∈ todo', ∀ o, t.buries = some o → w.Gone o) :
    w.Sound ts strong support suspects todo' held' owed := by
  refine ⟨⟨fun o => ?_, hslots ▸ h.accounted.slots_nodup, hslots ▸ h.accounted.slots_lt,
    hslots ▸ h.accounted.slots_idle, fun g => ?_, h.accounted.roots_nodup,
    h.accounted.roots_lt, h.accounted.live_eq⟩,
    ⟨h.guarded.matched, h.guarded.heap_some, h.guarded.verify, h.guarded.closed,
    h.guarded.value_live, hheld, fun a ha => h.guarded.handle_owned a (hroots a ha), hburied,
    h.guarded.dropped⟩, h.tallied,
    h.anchored.congr fun y _ hy => hy.imp id fun hmem => houter hmem, h.attended⟩
  · rw [h.accounted.strong_eq, hrefs]
  · rw [h.accounted.roots_eq, hentries]

/-- Tasks are as good as others when they are to give up the same. -/
theorem Sound.retask (less more : Multiset Task)
    (h : w.Sound ts strong support suspects (less + todo) held owed)
    (hslots : (more.bind (Task.holdings w)).bind Holding.slots =
      (less.bind (Task.holdings w)).bind Holding.slots)
    (hentries : ∀ g, (more.bind (Task.holdings w)).bind (Holding.entries g) =
      (less.bind (Task.holdings w)).bind (Holding.entries g))
    (htargets : (more.bind (Task.holdings w)).bind (Holding.targets w) + more.bind Task.released =
      (less.bind (Task.holdings w)).bind (Holding.targets w) + less.bind Task.released)
    (hroots : ∀ a, .root a ∈ more.bind (Task.holdings w) → .root a ∈ less.bind (Task.holdings w))
    (hburies : ∀ u ∈ more, u.buries = none) :
    w.Sound ts strong support suspects (more + todo) held owed := by
  refine h.reassign ?_ (fun g => ?_) ?_ (fun y hy => ?_) (fun a ha => ?_) h.guarded.held_live
    fun u hu o ho => ?_
  · rw [ledger_add_tasks, ledger_add_tasks, Multiset.add_bind, Multiset.add_bind, hslots]
  · rw [ledger_add_tasks, ledger_add_tasks, Multiset.add_bind, Multiset.add_bind, hentries]
  · rw [refs_add_tasks, refs_add_tasks, htargets]
  · rwa [outer_add_tasks, htargets, ← outer_add_tasks]
  · rw [ledger_add_tasks, Multiset.mem_add] at ha ⊢
    exact ha.imp (hroots a) id
  · rcases Multiset.mem_add.mp hu with hu | hu
    · rw [hburies u hu] at ho
      cases ho
    · exact h.guarded.buried u (Multiset.mem_add.mpr (.inr hu)) o ho

/-- A client gives something up: that is a task from now on. -/
theorem Sound.give {x : Holding}
    (h : w.Sound ts strong support suspects todo (x ::ₘ held) owed) :
    w.Sound ts strong support suspects (.ofHolding x ::ₘ todo) held owed := by
  have hholdings : (Task.ofHolding x).holdings w = {x} := by cases x <;> rfl
  have hreleased : (Task.ofHolding x).released = 0 := by cases x <;> rfl
  have hledger : w.ledger (.ofHolding x ::ₘ todo) held = w.ledger todo (x ::ₘ held) := by
    rw [ledger_cons_task, ledger_cons_held, hholdings, Multiset.singleton_add]
  refine h.reassign (by rw [hledger]) (fun g => by rw [hledger]) ?_ (fun y hy => ?_)
    (fun a ha => hledger ▸ ha) (fun y hy => ?_) fun u hu o ho => ?_
  · rw [refs_cons_task, refs_cons_held, hholdings, hreleased, Multiset.singleton_bind, add_zero]
  · rwa [outer_cons_task, hholdings, hreleased, Multiset.singleton_bind, add_zero,
      ← outer_cons_held]
  · exact h.guarded.held_live y (Multiset.mem_cons_of_mem hy)
  · rcases Multiset.mem_cons.mp hu with rfl | hu
    · cases x <;> cases ho
    · exact h.guarded.buried u hu o ho

theorem Sound.giveAll (xs : List Holding)
    (h : w.Sound ts strong support suspects todo (xs + held) owed) :
    w.Sound ts strong support suspects ((xs.map .ofHolding : List Task) + todo) held owed := by
  induction xs generalizing todo with
  | nil => simpa using h
  | cons x xs ih =>
      rw [← Multiset.cons_coe, Multiset.cons_add] at h
      have hgiven := ih h.give
      rwa [Multiset.add_cons, ← Multiset.cons_add, Multiset.cons_coe, ← List.map_cons] at hgiven

/-- Weak references hold nothing. -/
theorem Sound.addWeak (h : w.Sound ts strong support suspects todo held owed) (o : ObjId) :
    w.Sound ts strong support suspects todo (.weak o ::ₘ held) owed := by
  have hbind {α : Type} (f : Holding → Multiset α) (hf : f (.weak o) = 0) :
      (w.ledger todo (.weak o ::ₘ held)).bind f = (w.ledger todo held).bind f := by
    rw [ledger_cons_held, Multiset.cons_bind, hf, Multiset.zero_add]
  refine h.reassign (hbind _ rfl) (fun g => hbind _ rfl) ?_ (fun y hy => ?_) (fun a ha => ?_)
    (fun x hx c hc => ?_) h.guarded.buried
  · rw [refs_cons_held, Holding.targets, Multiset.zero_add]
  · rwa [outer_cons_held, Holding.targets, Multiset.zero_add]
  · rw [ledger_cons_held] at ha
    exact (Multiset.mem_cons.mp ha).resolve_left fun heq => by cases heq
  · rcases Multiset.mem_cons.mp hx with rfl | hx
    · cases hc
    · exact h.guarded.held_live x hx c hc

/-- A task that gives nothing up may be left out. -/
theorem Sound.skip {t : Task} (h : w.Sound ts strong support suspects (t ::ₘ todo) held owed)
    (hslots : (t.holdings w).bind Holding.slots = 0)
    (hentries : ∀ g, (t.holdings w).bind (Holding.entries g) = 0)
    (htargets : (t.holdings w).bind (Holding.targets w) = 0) (hreleased : t.released = 0) :
    w.Sound ts strong support suspects todo held owed := by
  rw [← Multiset.singleton_add] at h
  have hskipped := h.retask {t} 0 ?_ ?_ ?_ ?_ ?_
  · rwa [Multiset.zero_add] at hskipped
  · rw [Multiset.singleton_bind, hslots, Multiset.zero_bind, Multiset.zero_bind]
  · intro g
    rw [Multiset.singleton_bind, hentries, Multiset.zero_bind, Multiset.zero_bind]
  · rw [Multiset.singleton_bind, Multiset.singleton_bind, htargets, hreleased, Multiset.zero_bind,
      Multiset.zero_bind, Multiset.zero_bind]
  · simp
  · simp

/-- A heap may be left later on. -/
theorem Sound.addLeave (h : w.Sound ts strong support suspects todo held owed) (g : HeapId) :
    w.Sound ts strong support suspects (.leave g ::ₘ todo) held owed := by
  rw [← Multiset.zero_add todo] at h
  have hadded := h.retask 0 {.leave g} ?_ ?_ ?_ ?_ ?_
  · rwa [Multiset.singleton_add] at hadded
  all_goals simp [Task.holdings, Task.released, Task.buries]

/-- A value was dropped; its object was condemned before. -/
theorem Sound.push_dropped (h : w.Sound ts strong support suspects todo held owed) {o : ObjId}
    (ho : w.Gone o) :
    Sound { w with dropped := w.dropped.push o } ts strong support suspects todo held owed := by
  obtain ⟨⟨h₁, h₂, h₃, h₄, h₅, h₆, h₇, h₈⟩, hg, ⟨ht₁, ht₂, ht₃⟩, hanchored, hattended⟩ := h
  refine ⟨⟨h₁, h₂, h₃, h₄, h₅, h₆, h₇, h₈⟩, ⟨hg.matched, hg.heap_some, hg.verify, hg.closed,
    hg.value_live, hg.held_live, hg.handle_owned, hg.buried, fun o' ho' => ?_⟩, ⟨ht₁, ht₂, ht₃⟩,
    hanchored, hattended⟩
  rcases Array.mem_push.mp ho' with ho' | rfl
  · exact hg.dropped o' ho'
  · exact ho

/-! ## Dropped slots -/

section DropSlot

variable {s : SlotId} {content : Slot}

theorem ledger_dropSlot : w.ledger (.dropSlot s ::ₘ todo) held = .slot s ::ₘ w.ledger todo held := by
  rw [ledger_cons_task, Task.holdings, Multiset.singleton_add]

theorem slots_dropSlot : (w.ledger (.dropSlot s ::ₘ todo) held).bind Holding.slots =
    s ::ₘ (w.ledger todo held).bind Holding.slots := by
  rw [ledger_dropSlot, Multiset.cons_bind, Holding.slots, Multiset.singleton_add]

theorem ledger_writeSlot_releases {os : Multiset ObjId} :
    (w.writeSlot s content).ledger (os.map .release + todo) held = w.ledger todo held := by
  rw [ledger_add_releases]
  rfl

/-- Nobody else has a slot that is dropped. -/
theorem Accounted.notMem_of_dropSlot (h : w.Accounted strong (.dropSlot s ::ₘ todo) held) :
    .slot s ∉ w.ledger todo held := by
  intro hmem
  have hnodup := h.slots_nodup
  rw [slots_dropSlot, Multiset.nodup_cons] at hnodup
  exact hnodup.1 (Multiset.mem_bind.mpr ⟨_, hmem, Multiset.mem_singleton_self s⟩)

section Slots

variable (hnot : .slot s ∉ w.ledger todo held)

include hnot

theorem targets_writeSlot_of_mem {x : Holding} (hx : x ∈ w.ledger todo held) :
    x.targets (w.writeSlot s content) = x.targets w := by
  cases x with
  | slot s' =>
      have hne : s' ≠ s := fun heq => hnot (heq ▸ hx)
      rw [Holding.targets, Holding.targets, slotAt_writeSlot_of_ne hne]
  | weak | root => rfl

theorem out_writeSlot_of_live {p : ObjId} (hp : w.isLive p = true) :
    (w.writeSlot s content).out p = w.out p := by
  apply out_writeSlot_of_notMem
  intro hs
  exact hnot (mem_ledger_of_live hp (Value.mem_holdings_of_reported hs))

/-- The task gives up what the slot referred to. -/
theorem refs_dropSlot : (w.writeSlot s content).refs
    (((w.slotAt s).targets : Multiset ObjId).map .release + todo) held =
      w.refs (.dropSlot s ::ₘ todo) held := by
  rw [refs_add_releases, refs_cons_task, refs, refs, ledger_writeSlot,
    bind_targets_writeSlot hnot, Task.holdings, Task.released, Multiset.singleton_bind, add_zero]
  rfl

theorem outer_dropSlot (hmatched : ∀ o, (w.valueAt o).Matched) : (w.writeSlot s content).outer
    (((w.slotAt s).targets : Multiset ObjId).map .release + todo) held =
      w.outer (.dropSlot s ::ₘ todo) held := by
  have hoff : .slot s ∉ w.offGraph todo held := by
    intro hmem
    apply hnot
    rw [ledger_eq hmatched]
    exact Multiset.mem_add.mpr (.inr hmem)
  rw [outer_add_tasks, outer_cons_task, bind_holdings_releases, bind_released_releases,
    outer_writeSlot hoff, Task.holdings, Task.released, Multiset.singleton_bind,
    Multiset.zero_bind, Multiset.zero_add, add_zero]
  rfl

end Slots

theorem Accounted.dropSlot (h : w.Accounted strong (.dropSlot s ::ₘ todo) held)
    (hcontent : content.targets = []) : (w.writeSlot s content).Accounted strong
      (((w.slotAt s).targets : Multiset ObjId).map .release + todo) held := by
  have hnodup := h.slots_nodup
  have hlt := h.slots_lt
  rw [slots_dropSlot, Multiset.nodup_cons] at hnodup
  rw [slots_dropSlot] at hlt
  refine ⟨fun o => ?_, ?_, fun s' hs' => ?_, fun s' hs' => ?_, fun g => ?_, h.roots_nodup,
    h.roots_lt, h.live_eq⟩
  · rw [refs_dropSlot h.notMem_of_dropSlot]
    exact h.strong_eq o
  · rw [ledger_writeSlot_releases]
    exact hnodup.2
  · rw [ledger_writeSlot_releases] at hs'
    rw [size_slots_writeSlot]
    exact hlt s' (Multiset.mem_cons_of_mem hs')
  · rw [ledger_writeSlot_releases] at hs'
    by_cases hs : s' = s
    · rw [hs, slotAt_writeSlot_self (hlt s (Multiset.mem_cons_self _ _)), hcontent]
    · rw [slotAt_writeSlot_of_ne hs]
      apply h.slots_idle s'
      rw [slots_dropSlot, Multiset.mem_cons]
      exact fun hmem => hmem.elim hs hs'
  · have hroots := h.roots_eq g
    rw [ledger_dropSlot, Multiset.cons_bind, Holding.entries, Multiset.zero_add] at hroots
    rw [ledger_writeSlot_releases]
    exact hroots

theorem Guarded.dropSlot (h : w.Guarded (.dropSlot s ::ₘ todo) held)
    (hnot : .slot s ∉ w.ledger todo held) : (w.writeSlot s content).Guarded
      (((w.slotAt s).targets : Multiset ObjId).map .release + todo) held := by
  refine ⟨h.matched, h.heap_some, h.verify, fun p hp c hc => ?_, fun p hp x hx c hc => ?_,
    fun x hx c hc => ?_, fun a ha => ?_, fun t ht o ho => ?_, h.dropped⟩
  · rw [out_writeSlot_of_live hnot hp] at hc
    exact h.closed p hp c hc
  · rw [targets_writeSlot_of_mem hnot (mem_ledger_of_live hp hx)] at hc
    exact h.value_live p hp x hx c hc
  · rw [targets_writeSlot_of_mem hnot (mem_ledger_of_held hx)] at hc
    exact h.held_live x hx c hc
  · apply h.handle_owned a
    rw [ledger_dropSlot]
    rw [ledger_writeSlot_releases] at ha
    exact Multiset.mem_cons_of_mem ha
  · rcases Multiset.mem_add.mp ht with ht | ht
    · obtain ⟨o', _, rfl⟩ := Multiset.mem_map.mp ht
      cases ho
    · exact h.buried t (Multiset.mem_cons_of_mem ht) o ho

/-- A slot that a task drops is written while the task gives its references up. -/
theorem Sound.dropSlot (hcontent : content.targets = [])
    (h : w.Sound ts strong support suspects (.dropSlot s ::ₘ todo) held owed) :
    (w.writeSlot s content).Sound ts strong support suspects
      (((w.slotAt s).targets : Multiset ObjId).map .release + todo) held owed := by
  have hnot := h.accounted.notMem_of_dropSlot
  refine ⟨h.accounted.dropSlot hcontent, h.guarded.dropSlot hnot,
    ⟨h.tallied.size_eq, fun r => ?_, h.tallied.supported⟩, ?_, h.attended⟩
  · apply (h.tallied.balanced r).congr_edges
    intro p hp
    rw [out_writeSlot_of_live hnot (h.tallied.live_of_count h.guarded hp)]
  · refine h.anchored.transfer (fun g o hc hown hexists => .inl ⟨hc, hown, hexists⟩)
      (fun p c hp hc _ => ⟨hp, ?_⟩) fun y hy hsource => ⟨y, ?_, hy, .refl⟩
    · rwa [out_writeSlot_of_live hnot (candidateIn_iff.mp hp).1]
    · rwa [outer_dropSlot hnot h.guarded.matched]

end DropSlot

/-! ## Holders -/

/-- Change the number of heap `g`'s holders. -/
def rehold (w : World) (g : HeapId) (n : Nat → Nat) : World :=
  w.modifyHeap g fun heap => { heap with holders := n heap.holders }

section Rehold

variable {g : HeapId} {n : Nat → Nat}

theorem heaps_rehold (g' : HeapId) :
    (w.rehold g n).heaps[g']? = (w.heaps[g']?).map fun heap =>
      if g' = g then { heap with holders := n heap.holders } else heap :=
  heaps_modifyHeap g'

theorem registryAt_rehold : (w.rehold g n).registryAt = w.registryAt :=
  registryAt_modifyHeap fun _ => rfl

theorem rootsAt_rehold : (w.rehold g n).rootsAt = w.rootsAt := by
  funext g'
  rw [rootsAt, rootsAt, registryAt_rehold]

theorem holdersAt_rehold (g' : HeapId) (hpos : 0 < w.holdersAt g) :
    (w.rehold g n).holdersAt g' = if g' = g then n (w.holdersAt g') else w.holdersAt g' := by
  unfold holdersAt at hpos ⊢
  rw [heaps_rehold]
  by_cases hg : g' = g
  · subst hg
    cases hheap : w.heaps[g']? with
    | none => simp [hheap] at hpos
    | some heap => simp
  · cases w.heaps[g']? <;> simp [hg]

theorem Accounted.rehold (h : w.Accounted strong todo held) :
    (w.rehold g n).Accounted strong todo held :=
  { h with
    roots_eq := by
      rw [rootsAt_rehold]
      exact h.roots_eq
    roots_nodup := by
      rw [rootsAt_rehold]
      exact h.roots_nodup
    roots_lt := by
      rw [rootsAt_rehold, registryAt_rehold]
      exact h.roots_lt
    live_eq := by
      intro g' heap' hheap'
      rw [heaps_rehold] at hheap'
      obtain ⟨heap, hheap, rfl⟩ := Option.map_eq_some_iff.mp hheap'
      have := h.live_eq g' heap hheap
      split <;> exact this }

theorem Guarded.rehold (h : w.Guarded todo held) : (w.rehold g n).Guarded todo held :=
  { h with
    heap_some := by
      intro g' o ho
      obtain ⟨heap, hheap⟩ := h.heap_some g' o ho
      rw [heaps_rehold, hheap]
      exact ⟨_, rfl⟩
    verify := by
      intro g' heap' hheap'
      rw [heaps_rehold] at hheap'
      obtain ⟨heap, hheap, rfl⟩ := Option.map_eq_some_iff.mp hheap'
      have := h.verify g' heap hheap
      split <;> exact this }

/-- The number of holders of a heap that exists only matters for whether it still does, and for the
count of what is due. -/
theorem Sound.rehold (h : w.Sound ts strong support suspects todo held owed)
    (hpos : 0 < w.holdersAt g)
    (howed : ∀ g', owed' g' = owed g' + if g' = g then (n (w.holdersAt g) : ℤ) - w.holdersAt g
      else 0) :
    (w.rehold g n).Sound ts strong support suspects todo held owed' := by
  refine ⟨h.accounted.rehold, h.guarded.rehold,
    ⟨h.tallied.size_eq, h.tallied.balanced, h.tallied.supported⟩, fun g' x hown hx hcand => ?_,
    fun g' => ?_⟩
  · -- a heap exists afterwards only if it did before, as `g` has holders
    refine h.anchored g' x hown ?_ hcand
    rw [heapExists_eq, holdersAt_rehold g' hpos] at hx
    rw [heapExists_eq]
    split at hx
    next heq => simpa [heq] using hpos
    next => exact hx
  · have hattended := h.attended g'
    rw [holdersAt_rehold g' hpos, rootsAt_rehold, howed]
    split
    next heq =>
      subst heq
      omega
    next => omega

end Rehold

theorem Steady.rehold {g : HeapId} {n : Nat → Nat} (h : w.Steady todo held owed)
    (hpos : 0 < w.holdersAt g)
    (howed : ∀ g', owed' g' = owed g' + if g' = g then (n (w.holdersAt g) : ℤ) - w.holdersAt g
      else 0) :
    (w.rehold g n).Steady todo held owed' := by
  have hsupport : (w.rehold g n).support = w.support := by
    have hobjects : (w.rehold g n).objects = w.objects := rfl
    funext r o
    unfold support
    rw [rootsAt_rehold, hobjects]
  rw [Steady, hsupport]
  exact Sound.rehold h hpos howed

/-- One more holder of a heap that exists. -/
theorem Steady.enter {g : HeapId} (h : w.Steady todo held owed) (hpos : 0 < w.holdersAt g) :
    (w.enter g).Steady todo held fun g' => owed g' + if g' = g then 1 else 0 := by
  refine h.rehold (n := fun n => n + 1) hpos fun g' => ?_
  push_cast
  split <;> omega

/-- One holder of a heap less. -/
theorem Steady.leave {g : HeapId} (h : w.Steady todo held owed) (hpos : 0 < w.holdersAt g) :
    (w.leave g).Steady todo held fun g' => owed g' - if g' = g then 1 else 0 := by
  have hleft : (w.rehold g fun n => n - 1).Steady todo held fun g' =>
      owed g' - if g' = g then 1 else 0 := by
    apply h.rehold hpos
    intro g'
    split <;> omega
  unfold World.leave
  split
  next hnone => simp [holdersAt, hnone] at hpos
  next =>
    dsimp only
    split
    · exact .of_alike hleft (.note _ _)
    · exact hleft

/-! ## What is due -/

theorem dues_cons (t : Task) (g : HeapId) :
    dues (t ::ₘ todo) heaps incoming g =
      dues todo heaps incoming g + if t = .leave g then 1 else 0 := by
  unfold dues
  rw [Multiset.count_cons]
  by_cases ht : t = .leave g
  · rw [if_pos ht, if_pos ht.symm]
    push_cast
    omega
  · rw [if_neg ht, if_neg (Ne.symm ht)]
    push_cast
    omega

theorem dues_add (more : Multiset Task) (g : HeapId) :
    dues (more + todo) heaps incoming g = dues todo heaps incoming g + more.count (.leave g) := by
  unfold dues
  rw [Multiset.count_add]
  push_cast
  omega

theorem count_leave_finalizing (g g' : HeapId) (dead : List ObjId) :
    (Task.finalizing g dead : Multiset Task).count (.leave g') = 0 := by
  rw [Multiset.count_eq_zero]
  simp [Task.finalizing]

theorem dues_finalizing (g : HeapId) (dead : List ObjId) :
    dues (Task.finalizing g dead + todo) heaps incoming = dues todo heaps incoming := by
  funext g'
  rw [dues_add, count_leave_finalizing]
  simp

theorem card_entries_roots (handles : List Handle) (g : HeapId) :
    (((handles.map Holding.root : List Holding) : Multiset Holding).bind
      (Holding.entries g)).card = (handles.map Handle.heap).count g := by
  induction handles with
  | nil => simp
  | cons a handles ih =>
      have hentries : (Holding.entries g (.root a)).card = if a.heap = g then 1 else 0 := by
        by_cases hg : a.heap = g <;> simp [Holding.entries, hg]
      rw [List.map_cons, ← Multiset.cons_coe, Multiset.cons_bind, Multiset.card_add, hentries, ih,
        List.map_cons, List.count_cons]
      simp only [beq_iff_eq]
      omega

/-- How many roots a heap has, those on their way to a client and the rest. -/
theorem length_rootsAt
    (h : w.Accounted strong todo ((incoming.map Holding.root : List Holding) + held))
    (g : HeapId) :
    (w.rootsAt g).length = (incoming.map Handle.heap).count g +
      ((w.ledger todo held).bind (Holding.entries g)).card := by
  have hroots := congrArg Multiset.card (h.roots_eq g)
  rw [ledger_add_held, Multiset.add_bind, Multiset.card_add, card_entries_roots,
    Multiset.coe_card] at hroots
  exact hroots

/-- In which order handles are on their way does not matter. -/
theorem Orderly.perm {incoming' : List Handle} (h : w.Orderly todo held heaps incoming)
    (hperm : incoming.Perm incoming') : w.Orderly todo held heaps incoming' := by
  have hheld : (incoming'.map Holding.root : List Holding) + held =
      (incoming.map Holding.root : List Holding) + held := by
    rw [Multiset.coe_eq_coe.mpr (hperm.map Holding.root)]
  have hdues : dues todo heaps incoming' = dues todo heaps incoming := by
    funext g
    rw [dues, dues, (hperm.map Handle.heap).count_eq]
  rwa [Orderly, hheld, hdues]

/-- A heap with a handle, or with a task that is still to leave it, exists. -/
theorem Orderly.holdersAt_pos (h : w.Orderly todo held heaps incoming) {g : HeapId}
    (hg : (∃ a, .root a ∈ w.ledger todo held ∧ a.heap = g) ∨ .leave g ∈ todo ∨ g ∈ heaps) :
    0 < w.holdersAt g := by
  have hattended := h.attended g
  have hlength := length_rootsAt h.accounted g
  unfold dues at hattended
  rcases hg with ⟨a, ha, rfl⟩ | hleave | howner
  · have hentry : (a.root, a.obj) ∈ (w.ledger todo held).bind (Holding.entries a.heap) :=
      Multiset.mem_bind.mpr ⟨.root a, ha, by simp [Holding.entries]⟩
    have := Multiset.card_pos_iff_exists_mem.mpr ⟨_, hentry⟩
    omega
  · have := Multiset.count_pos.mpr hleave
    omega
  · have := Multiset.count_pos.mpr howner
    omega

end World

open World

variable {w : World} {todo : Multiset Task} {held : Multiset Holding} {owed : HeapId → ℤ}
  {heaps : Multiset HeapId} {incoming : List Handle}

/-- A session, and the reclaiming at its end. -/
theorem locked_ends {α : Type} {g : HeapId} {op : Locked α} {held' : α → Multiset Holding}
    {owed' : α → HeapId → ℤ} {P : α → Session → Prop} {E : Fault → Session → Prop}
    (hop : Ends op ⟨w, []⟩ (fun a s => P a s ∧ s.Settled g todo (held' a) (owed' a)) E) :
    Ends (locked g op) w
      (fun r w' => w'.Steady (Task.finalizing g r.2 + todo) (held' r.1) (owed' r.1) ∧
        ∃ s, P r.1 s ∧ s.world.Reclaimed g todo (held' r.1) r.2 w')
      fun f w' => ∃ s, E f s ∧ s.world = w' := by
  refine Ends.locked (hop.mono (fun _ _ => id) fun f s hE => ⟨s, hE, rfl⟩) ?_
  rintro a s ⟨hP, hsettled⟩
  apply (reclaim_ends hsettled).mono
  · rintro dead s' ⟨hsteady, hreclaimed⟩
    exact ⟨hsteady, s, hP, hreclaimed⟩
  · exact fun _ _ => False.elim

/-- Putting a collected object away changes nothing that matters. -/
theorem World.alike_retire {g : HeapId} {o : ObjId} (ho : w.isLive o = false) :
    w.Alike (w.retire g o) ∧ (w.retire g o).tallies = w.tallies ∧
      (w.retire g o).strongAt = w.strongAt := by
  have hpoisoned {w' : World} (hobjects : w'.objects = w.objects) (ob : Object)
      (hob : w'.objects[o]? = some ob) :
      ({ ob with state := .poisoned } : Object).face = ob.face := by
    rw [hobjects] at hob
    have hdead : ob.state ≠ .live := fun hstate => by
      rw [isLive_iff.mpr ⟨ob, hob, hstate⟩] at ho
      cases ho
    simp [Object.face, hdead]
  unfold World.retire
  split
  next heap ob _ _ =>
    split_ifs
    · refine ⟨World.Alike.trans (.note _ _) (.modifyObject _ _ (hpoisoned rfl)), rfl, ?_⟩
      exact strongAt_modifyObject fun _ => rfl
    · exact ⟨.modifyObject _ _ (hpoisoned rfl), rfl, strongAt_modifyObject fun _ => rfl⟩
    · exact ⟨.modifyObject _ _ fun _ _ => rfl, rfl, strongAt_modifyObject fun _ => rfl⟩
  next => exact ⟨.refl w, rfl, rfl⟩

/-- A heap that goes with live objects left says so. -/
theorem World.Grows.leave {own : SlotId → Prop} (g : HeapId)
    (hlive : ∀ (h : HeapId) (heap : Heap), w.heaps[h]? = some heap →
      heap.live = (w.lives.filter fun o => w.owns h o = true).card) :
    w.Grows own none (w.leave g) := by
  unfold World.leave
  cases hheap : w.heaps[g]? with
  | none => exact .refl w
  | some heap =>
      have hcollected :
          (w.modifyHeap g fun heap => { heap with holders := heap.holders - 1 }).collectedAt =
            w.collectedAt := Grows.collectedAt_modifyHeap fun _ => rfl
      dsimp only
      split_ifs with hlast
      · refine ⟨le_refl _, fun _ _ => rfl, fun _ hle hlt => absurd hlt (Nat.not_lt.mpr hle),
          by simp [World.note, World.modifyHeap], hcollected, fun _ _ _ => rfl, fun _ hkept => ?_,
          [.heapDropped heap.config.name heap.live], Array.toList_push, ?_⟩
        · have hsaid := hkept (.heapDropped heap.config.name heap.live)
            (by simp [World.note, World.modifyHeap])
          cases hsaid
        · simp only [List.mem_singleton, forall_eq]
          exact ⟨by simp [Event.marks], by simp [Event.leaks]⟩
      · refine ⟨le_refl _, fun _ _ => rfl, fun _ hle hlt => absurd hlt (Nat.not_lt.mpr hle),
          by simp [World.modifyHeap], hcollected, fun _ _ _ => rfl, fun hw hkept h o hlive' hown => ?_,
          [], by simp [World.modifyHeap], by simp⟩
        have hexists := hw hkept h o hlive' hown
        simp only [World.heapExists, heaps_modifyHeap] at hexists ⊢
        by_cases hg : h = g
        · -- the heap has a live object, and therefore another holder
          subst hg
          have hcount := hlive h heap hheap
          have hmem : o ∈ w.lives.filter fun o => w.owns h o = true :=
            Multiset.mem_filter.mpr ⟨mem_lives.mpr hlive', hown⟩
          have hpos := Multiset.card_pos_iff_exists_mem.mpr ⟨o, hmem⟩
          simp only [hheap, decide_eq_true_eq, Option.map_some, if_true] at hexists ⊢
          omega
        · cases hh : w.heaps[h]? with
          | none => simp [hh] at hexists
          | some heap' => simpa [hh, hg] using hexists

/-- Putting an object away reports a leak only if something refers to it. -/
theorem World.Grows.retire {own : SlotId → Prop} (g : HeapId) {o : ObjId}
    (ho : w.isLive o = false) : w.Grows own (some (.retire g o)) (w.retire g o) := by
  obtain ⟨halike, -, -⟩ := alike_retire (g := g) ho
  -- a leak is logged at most, and objects change their state alone
  have hlog : (w.retire g o).log = w.log ∨ ∃ n t k, w.strongAt o ≠ 0 ∧
      (w.retire g o).log = w.log.push (.leaked n t k) := by
    unfold World.retire
    split
    next heap ob hheap hob =>
      split_ifs with hleak
      · exact .inr ⟨_, _, _, by simpa [strongAt, hob] using hleak.2, rfl⟩
      · exact .inl rfl
      · exact .inl rfl
    next => exact .inl rfl
  have hheaps : (w.retire g o).heaps = w.heaps := by
    unfold World.retire
    split
    · split_ifs <;> rfl
    · rfl
  have hcollected : (w.retire g o).collectedAt = w.collectedAt := by
    funext h
    rw [World.collectedAt, World.collectedAt, hheaps]
  have hexists (h : HeapId) (hh : w.heapExists h = true) : (w.retire g o).heapExists h = true := by
    rwa [halike.heapExists]
  refine ⟨le_of_eq halike.size.symm, fun o' _ => halike.objects o', fun o' hle hlt => ?_,
    by simp [halike.dropped, Task.drops], hcollected, fun s _ _ => congrFun halike.slotAt s, ?_, ?_⟩
  · exact absurd (halike.size ▸ hlt) (Nat.not_lt.mpr hle)
  · apply Grows.housed_of_objects halike.objects hexists
    rcases hlog with hlog | ⟨n, t, k, -, hlog⟩
    · exact ⟨[], by rw [hlog, List.append_nil]⟩
    · exact ⟨[.leaked n t k], by rw [hlog, Array.toList_push]⟩
  · rcases hlog with hlog | ⟨n, t, k, hstrong, hlog⟩
    · exact ⟨[], by rw [hlog, List.append_nil], by simp⟩
    · refine ⟨[.leaked n t k], by rw [hlog, Array.toList_push], ?_⟩
      simp only [List.mem_singleton, forall_eq]
      exact ⟨by simp [Event.marks], fun _ => ⟨_, rfl, o, rfl, hstrong⟩⟩

namespace Task

open Locked

/-- A session that a task makes, whose heap is to be left afterwards. -/
theorem locked_leaving {α : Type} {g : HeapId} {op : Locked α} {P : Session → Prop}
    (hop : Ends op ⟨w, []⟩ (fun _ s => P s ∧ s.Settled g todo
      ((incoming.map Holding.root : List Holding) + held) fun g' =>
        dues todo heaps incoming g' + if g' = g then 1 else 0) fun _ _ => False) :
    ∃ r w', locked g op w = .ok r w' ∧
      w'.Orderly ((finalizing g r.2 ++ [leave g] : List Task) + todo) held heaps incoming ∧
      ∃ s, P s ∧ s.world.Reclaimed g todo ((incoming.map Holding.root : List Holding) + held)
        r.2 w' := by
  have hends := locked_ends (P := fun _ => P) hop
  obtain ⟨r, w', heq, hsteady, hreclaimed⟩ :=
    (hends.mono (fun _ _ hs => hs) fun _ _ ⟨_, hf, _⟩ => hf).exists_ok
  refine ⟨r, w', heq, ?_, hreclaimed⟩
  have htasks : ((finalizing g r.2 ++ [leave g] : List Task) : Multiset Task) + todo =
      leave g ::ₘ (finalizing g r.2 + todo) := by
    rw [← Multiset.coe_add, ← Multiset.cons_add, ← Multiset.singleton_add, add_comm {leave g}]
    rfl
  have hdues : dues (leave g ::ₘ (finalizing g r.2 + todo)) heaps incoming = fun g' =>
      dues todo heaps incoming g' + if g' = g then 1 else 0 := by
    funext g'
    rw [dues_cons, dues_finalizing]
    simp [eq_comm]
  rw [htasks, Orderly, hdues]
  exact hsteady.addLeave g

/-- A session of a task writes no slot, and spares the rest. -/
theorem ends_spared {α : Type} {op : Locked α} {Q : α → Session → Prop}
    (hop : Ends op ⟨w, []⟩ Q fun _ _ => False) (hguarded : w.Guarded todo held)
    (hconfined : ∀ alive own, op.Confined alive own) (hshape : op.KeepsShape) :
    Ends op ⟨w, []⟩ (fun a s => (w.Spares w.isLive (fun s => .slot s ∈ w.ledger 0 held) s.world ∧
      ∀ sl, s.world.slotAt sl = w.slotAt sl) ∧ Q a s) fun _ _ => False := by
  have hspared := hconfined w.isLive _ ⟨w, []⟩ hguarded.closed_world
  unfold Ends at *
  cases heq : op ⟨w, []⟩ with
  | ok a s =>
      rw [heq] at hop hspared
      exact ⟨⟨hspared.spares, (hshape.of_ok heq).slotAt⟩, hop⟩
  | error f s =>
      rw [heq] at hop
      exact hop

/-- What comes of a task: another orderly world, with the same objects, by a turn that touches no slot
but the task's. -/
structure Advances (t : Task) (w : World) (todo : Multiset Task) (held : Multiset Holding)
    (heaps : Multiset HeapId) (incoming : List Handle) (more : List Task) (w' : World) : Prop where
  orderly : w'.Orderly (more + todo) held heaps incoming
  size : w'.objects.size = w.objects.size
  turns : w.Turns (fun s => .slot s ∈ t.holdings w) (some t) todo
    ((incoming.map Holding.root : List Holding) + held) more w'

theorem Orderly.apart {t : Task} (h : w.Orderly (t ::ₘ todo) held heaps incoming) :
    ∀ u ∈ todo, ∀ s, .slot s ∈ u.holdings w → s < w.slots.size ∧ .slot s ∉ t.holdings w := by
  intro u hu s hs
  refine h.accounted.apart ?_ hs
  obtain ⟨rest, rfl⟩ := Multiset.exists_cons_of_mem hu
  rw [ledger_cons_task, ledger_cons_task, ← add_assoc, add_comm (u.holdings w)]
  exact Multiset.le_add_right _ _

/-- A task that makes no session is done. -/
theorem Advances.of_grows {t : Task} {more : List Task} {w' : World}
    (h : w.Orderly (t ::ₘ todo) held heaps incoming)
    (hgrows : w.Grows (fun s => .slot s ∈ t.holdings w) (some t) w')
    (hsize : w'.objects.size = w.objects.size)
    (hnext : w'.Orderly (more + todo) held heaps incoming)
    (hidle : ∀ u ∈ more, u.buries = none)
    (hfresh : ∀ u ∈ more, ∀ o ∈ u.targets w', o ∈ t.targets w) :
    t.Advances w todo held heaps incoming more w' := by
  refine ⟨hnext, hsize, .of_grows hgrows ?_ (Orderly.apart h) hidle fun u hu o ho _ => ?_⟩
  · exact hnext.guarded.dropTasks
  · exact ⟨t, rfl, hfresh u hu o ho⟩

/-- A task that makes a session is done; the heap is to be left. -/
theorem Advances.of_session {t : Task} {g : HeapId} {dead : List ObjId} {w₀ w₁ w' : World}
    (h : w.Orderly (t ::ₘ todo) held heaps incoming) (hdrops : t.drops = none)
    (hgrows : w.Grows (fun s => .slot s ∈ t.holdings w) none w₀)
    (hsize : w₀.objects.size = w.objects.size)
    (hspared : w₀.Spares w₀.isLive (fun s => .slot s ∈ w₀.ledger 0
      ((incoming.map Holding.root : List Holding) + held)) w₁ ∧ ∀ sl, w₁.slotAt sl = w₀.slotAt sl)
    (hreclaimed : w₁.Reclaimed g todo ((incoming.map Holding.root : List Holding) + held) dead w')
    (hnext : w'.Orderly ((finalizing g dead ++ [leave g] : List Task) + todo) held heaps incoming) :
    t.Advances w todo held heaps incoming (finalizing g dead ++ [leave g]) w' := by
  have hgrown := (hgrows.trans_spares hspared.1 fun s _ _ => hspared.2 s).spend hdrops
  have hkept : w'.objects.size = w₀.objects.size :=
    hreclaimed.alike.size.trans (size_collect.trans hspared.1.size)
  refine ⟨hnext, hkept.trans hsize, .of_session hgrown hreclaimed (Orderly.apart h) fun u hu => ?_⟩
  rw [List.mem_singleton.mp hu]
  exact ⟨rfl, fun _ => rfl⟩

section Done

variable {t : Task} (h : w.Orderly (t ::ₘ todo) held heaps incoming)

include h

/-- Tasks that are no `leave` owe nothing. -/
theorem steady_of_orderly (ht : ∀ g, t ≠ .leave g) :
    w.Steady (t ::ₘ todo) ((incoming.map Holding.root : List Holding) + held)
      (dues todo heaps incoming) := by
  have hdues : dues (t ::ₘ todo) heaps incoming = dues todo heaps incoming := by
    funext g
    rw [dues_cons, if_neg (ht g), add_zero]
  rwa [Orderly, hdues] at h

end Done

theorem orderly_of_steady {more : List Task} (hmore : ∀ g, leave g ∉ more)
    (h : w.Steady (more + todo) ((incoming.map Holding.root : List Holding) + held)
      (dues todo heaps incoming)) : w.Orderly (more + todo) held heaps incoming := by
  have hdues : dues (more + todo) heaps incoming = dues todo heaps incoming := by
    funext g
    rw [dues_add, Multiset.coe_count, List.count_eq_zero.mpr (hmore g), Nat.cast_zero, add_zero]
  rwa [Orderly, hdues]

theorem dropValue_ends {o : ObjId} (h : w.Orderly (dropValue o ::ₘ todo) held heaps incoming) :
    Ends (dropValue o).step w ((dropValue o).Advances w todo held heaps incoming)
      fun _ _ => False := by
  have hdead := h.guarded.buried _ (Multiset.mem_cons_self _ _) o rfl
  obtain ⟨ob, hob⟩ : ∃ ob, w.objects[o]? = some ob := ⟨_, Array.getElem?_eq_getElem hdead.1⟩
  simp only [Ends, step, hob]
  have hholdings : (ob.value.holdings : Multiset Holding) = holdings w (dropValue o) := by
    simp [holdings, valueAt, hob]
  -- the value becomes one task for each thing it holds, with the same references on their way
  have hmore : (((ob.value.holdings.map ofHolding : List Task) : Multiset Task)).bind
      (holdings w) = ({dropValue o} : Multiset Task).bind (holdings w) := by
    rw [← Multiset.map_coe, bind_holdings_ofHolding, hholdings, Multiset.singleton_bind]
  have hplain : ∀ u ∈ ob.value.holdings.map ofHolding,
      ∃ x ∈ ob.value.holdings, u = ofHolding x := by
    intro u hu
    obtain ⟨x, hx, rfl⟩ := List.mem_map.mp hu
    exact ⟨x, hx, rfl⟩
  have hbegun := steady_of_orderly h (by simp)
  have hdropped : ({ w with dropped := w.dropped.push o } : World).Steady
      ((ob.value.holdings.map ofHolding : List Task) + todo)
      ((incoming.map Holding.root : List Holding) + held) (dues todo heaps incoming) := by
    refine Sound.push_dropped (Sound.retask {dropValue o} _ hbegun ?_ ?_ ?_ ?_ ?_) hdead
    · rw [hmore]
    · exact fun g => by rw [hmore]
    · rw [hmore, ← Multiset.map_coe, bind_released_ofHolding]
      rfl
    · exact fun a ha => hmore ▸ ha
    · intro u hu
      obtain ⟨x, -, rfl⟩ := hplain u (Multiset.mem_coe.mp hu)
      cases x <;> rfl
  refine .of_grows h ?_ rfl (orderly_of_steady (fun g hg => ?_) hdropped) (fun u hu => ?_)
    fun u hu c hc => ?_
  · exact ⟨le_refl _, fun _ _ => rfl, fun _ hle hlt => absurd hlt (Nat.not_lt.mpr hle),
      Array.toList_push, rfl, fun _ _ _ => rfl, id, [], by simp, by simp⟩
  · obtain ⟨x, -, hx⟩ := hplain _ hg
    cases x <;> cases hx
  · obtain ⟨x, -, rfl⟩ := hplain u hu
    cases x <;> rfl
  · obtain ⟨x, hx, rfl⟩ := hplain u hu
    refine Multiset.mem_add.mpr (.inl (Multiset.mem_bind.mpr ⟨x, hholdings ▸ hx, ?_⟩))
    rw [targets_ofHolding] at hc
    cases x <;> exact hc

theorem dropSlot_ends {s : SlotId} (h : w.Orderly (dropSlot s ::ₘ todo) held heaps incoming) :
    Ends (dropSlot s).step w ((dropSlot s).Advances w todo held heaps incoming)
      fun _ _ => False := by
  have hempty : (w.slotAt s).emptied.targets = [] := by cases w.slotAt s <;> rfl
  have hdropped := Sound.dropSlot hempty (steady_of_orderly h (by simp))
  rw [Multiset.map_coe] at hdropped
  simp only [Ends, step]
  refine .of_grows h (Grows.spend ?_ rfl) rfl (orderly_of_steady (by simp) hdropped)
    (by simp [Task.buries]) fun u hu o ho => ?_
  · refine .of_eq (fun _ => rfl) rfl rfl rfl (fun _ => id) (fun s' _ hs' => ?_) rfl
    apply slotAt_writeSlot_of_ne
    rintro rfl
    exact hs' (Multiset.mem_singleton_self _)
  · obtain ⟨c, hc, rfl⟩ := List.mem_map.mp hu
    have hoc : o = c := by simpa [targets, holdings, released] using ho
    rw [hoc]
    simpa [targets, holdings, released, Holding.targets] using hc

theorem release_ends {o : ObjId} (h : w.Orderly (release o ::ₘ todo) held heaps incoming) :
    Ends (release o).step w ((release o).Advances w todo held heaps incoming)
      fun _ _ => False := by
  have hsteady := steady_of_orderly h (by simp)
  have hpos : 0 < w.strongAt o := by
    rw [hsteady.accounted.strong_eq, refs_cons_release, Multiset.count_cons_self]
    exact Nat.succ_pos _
  cases hob : w.objects[o]? with
  | none => simp [strongAt, hob] at hpos
  | some ob =>
      have hstrong : ob.strong ≠ 0 := by
        simp only [strongAt, hob] at hpos
        omega
      have hown : w.owns ob.heap o = true := owns_iff.mpr ⟨ob, hob, rfl⟩
      simp only [Ends, step, hob]
      split_ifs with hlive
      · have hholders : 0 < w.holdersAt ob.heap := by
          simpa [heapExists_eq] using hlive.2
        have hentered := Steady.settled (Steady.enter hsteady hholders) ob.heap
        have hreleased := (releaseStrong_ends hentered hown).mono (fun _ _ hs => hs.1.settled)
          fun _ _ hf => hf
        obtain ⟨r, w', hrun, horderly, s, hspared, hreclaimed⟩ := locked_leaving
          (P := fun s => (w.enter ob.heap).Spares (w.enter ob.heap).isLive _ s.world ∧ _)
          (ends_spared hreleased hentered.sound.guarded
            (fun _ _ => releaseStrong_confined o) (releaseStrong_keepsShape o))
        simp only [hrun]
        exact .of_session h rfl (.enter w ob.heap) rfl hspared hreclaimed horderly
      · -- without a session the object is dead or its heap is gone, so it is no candidate
        have hgone (g : HeapId) (hg : w.owns g o = true) (hexists : w.heapExists g = true)
            (hcand : w.candidateIn w.tallies o = true) : o ∈ ([] : List ObjId) := by
          obtain ⟨ob', hob', hstate⟩ := isLive_iff.mp (candidateIn_iff.mp hcand).1
          rw [hob] at hob'
          cases hob'
          exact absurd ⟨hstate, owns_unique hg hown ▸ hexists⟩ hlive
        have hreleased := (hsteady.release (strongAt_release w o) hgone).2
        have hnext : (w.modifyObject o fun ob => { ob with strong := ob.strong - 1 }).Steady todo
            ((incoming.map Holding.root : List Holding) + held) (dues todo heaps incoming) :=
          .of_alike hreleased (.modifyObject _ _ fun _ _ => rfl)
        refine .of_grows h (Grows.spend (.modifyObject w o fun _ _ => rfl) rfl) Array.size_modify
          (orderly_of_steady (by simp) ?_) (by simp) (by simp)
        rwa [Multiset.coe_nil, Multiset.zero_add]

theorem dropWeak_ends {o : ObjId} (h : w.Orderly (dropWeak o ::ₘ todo) held heaps incoming) :
    Ends (dropWeak o).step w ((dropWeak o).Advances w todo held heaps incoming)
      fun _ _ => False := by
  have hskipped := Sound.skip (steady_of_orderly h (by simp)) rfl (fun _ => rfl) rfl rfl
  have hstrong : (w.releaseWeak o).strongAt = w.strongAt := strongAt_modifyObject fun _ => rfl
  have halike : w.Alike (w.releaseWeak o) := .modifyObject _ _ fun _ _ => rfl
  have hnext := Steady.of_alike (hstrong ▸ hskipped) halike
  refine .of_grows h (Grows.spend (.modifyObject w o fun _ _ => rfl) rfl) Array.size_modify
    (orderly_of_steady (by simp) ?_) (by simp) (by simp)
  rwa [Multiset.coe_nil, Multiset.zero_add]

theorem dropHandle_ends {a : Handle} (h : w.Orderly (dropHandle a ::ₘ todo) held heaps incoming) :
    Ends (dropHandle a).step w ((dropHandle a).Advances w todo held heaps incoming)
      fun _ _ => False := by
  have hbegun := Steady.settled (steady_of_orderly h (by simp)) a.heap
  obtain ⟨r, w', hrun, horderly, s, hspared, hreclaimed⟩ := locked_leaving
    (P := fun s => w.Spares w.isLive _ s.world ∧ _)
    (ends_spared (dropRoot_ends hbegun) hbegun.sound.guarded
      (fun _ _ => dropRoot_confined a.heap a.root) (dropRoot_keepsShape a.heap a.root))
  simp only [Ends, step, hrun]
  exact .of_session h rfl (.refl w) rfl hspared hreclaimed horderly

theorem leave_ends {g : HeapId} (h : w.Orderly (leave g ::ₘ todo) held heaps incoming) :
    Ends (leave g).step w ((leave g).Advances w todo held heaps incoming)
      fun _ _ => False := by
  have hleft := Steady.leave h (h.holdersAt_pos (.inr (.inl (Multiset.mem_cons_self _ _))))
  have hdues : (fun g' => dues (leave g ::ₘ todo) heaps incoming g' - if g' = g then 1 else 0) =
      dues todo heaps incoming := by
    funext g'
    rw [dues_cons]
    simp [eq_comm]
  rw [hdues] at hleft
  have hskipped := Sound.skip hleft (by simp [holdings]) (by simp [holdings]) (by simp [holdings]) rfl
  have hsize : (w.leave g).objects.size = w.objects.size := by
    simpa using congrArg List.length (leave_sameShape w g).objects
  refine .of_grows h (Grows.spend (.leave g h.accounted.live_eq) rfl) hsize ?_ (by simp) (by simp)
  rw [Multiset.coe_nil, Multiset.zero_add]
  exact hskipped

theorem retire_ends {g : HeapId} {o : ObjId}
    (h : w.Orderly (retire g o ::ₘ todo) held heaps incoming) :
    Ends (retire g o).step w ((retire g o).Advances w todo held heaps incoming)
      fun _ _ => False := by
  have hdead := h.guarded.buried _ (Multiset.mem_cons_self _ _) o rfl
  obtain ⟨halike, htallies, hstrong⟩ := alike_retire (g := g) hdead.2
  have hskipped := Sound.skip (steady_of_orderly h (by simp)) rfl (fun _ => rfl) rfl rfl
  rw [← htallies, ← hstrong] at hskipped
  have hnext := Steady.of_alike hskipped halike
  refine .of_grows h (.retire g hdead.2) halike.size (orderly_of_steady (by simp) ?_) (by simp)
    (by simp)
  rwa [Multiset.coe_nil, Multiset.zero_add]

/-- No task fails, and every task leaves an orderly world. -/
theorem step_ends {t : Task} (h : w.Orderly (t ::ₘ todo) held heaps incoming) :
    Ends t.step w (t.Advances w todo held heaps incoming) fun _ _ => False := by
  cases t with
  | dropValue => exact dropValue_ends h
  | dropSlot => exact dropSlot_ends h
  | release => exact release_ends h
  | dropWeak => exact dropWeak_ends h
  | dropHandle => exact dropHandle_ends h
  | leave => exact leave_ends h
  | retire => exact retire_ends h

end Task

theorem settle_of_step {t : Task} {rest more : List Task} {w w' : World}
    (h : t.step w = .ok more w') : settle (t :: rest) w = settle (more ++ rest) w' := by
  rw [settle]
  split
  next heq =>
    rw [h] at heq
    cases heq
    rfl
  next heq =>
    rw [h] at heq
    cases heq

theorem settle_of_fault {t : Task} {rest : List Task} {w w' : World} {f : Fault}
    (h : t.step w = .error f w') : settle (t :: rest) w = .error f w' := by
  rw [settle]
  split
  next heq =>
    rw [h] at heq
    cases heq
  next heq =>
    rw [h] at heq
    cases heq
    rfl

end RootedHeap
