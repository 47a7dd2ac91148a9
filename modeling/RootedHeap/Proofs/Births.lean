import RootedHeap.Handle
import RootedHeap.Proofs.Settling

/-! # New objects, slots and heaps

A new object takes over what its value holds from the client, and the first reference to it is on
its way to the handle that is returned. A new slot takes over references on their way. Neither
disturbs what was there before.
-/

namespace RootedHeap

theorem Tallies.count_push_empty (ts : Tallies) (o : ObjId) (r : RootId) :
    Tallies.count (ts.push .empty) o r = ts.count o r := by
  unfold Tallies.count
  rw [Array.getElem?_push]
  by_cases ho : o = ts.size
  · rw [if_pos ho, ho, Array.getElem?_eq_none (Nat.le_refl _)]
    rfl
  · rw [if_neg ho]

theorem Tallies.isEmptyAt_push_empty (ts : Tallies) (o : ObjId) :
    Tallies.isEmptyAt (ts.push .empty) o = ts.isEmptyAt o := by
  rw [Bool.eq_iff_iff, Tallies.isEmptyAt_iff, Tallies.isEmptyAt_iff]
  simp only [Tallies.count_push_empty]

namespace World

/-- The world in which heap `g` has one more object. -/
def birth (w : World) (g : HeapId) (typeName : String) (value : Value) : World :=
  { w with
    objects := w.objects.push { heap := g, typeName := typeName, value := value }
    tallies := w.tallies.push .empty
    heaps := w.heaps.modify g fun heap => { heap with live := heap.live + 1 } }

variable {w : World} {g : HeapId} {n : String} {v : Value} {ts : Tallies}
  {strong strong' : ObjId → Nat} {support : RootId → ObjId → Nat} {suspects : List ObjId}
  {todo : Multiset Task} {held : Multiset Holding} {owed : HeapId → ℤ}

/-! ## A new object -/

section Birth

/-- An object that is allocated in a heap that exists touches nothing else. -/
theorem Grows.place {own : SlotId → Prop} (hexists : w.heapExists g = true) {w' : World} {o : ObjId}
    (hplace : RootedHeap.place g n v w = .ok o w') : w.Grows own none w' := by
  cases hplace
  have hobject (o : ObjId) : (w.objects.push { heap := g, typeName := n, value := v })[o]? =
      if o = w.objects.size then some { heap := g, typeName := n, value := v }
      else w.objects[o]? := Array.getElem?_push
  refine ⟨by simp, fun o ho => ?_, fun o hle hlt => ?_, by simp, rfl, fun _ _ _ => rfl,
    fun hw hkept h o hlive hown => ?_, [], by simp, by simp⟩
  · dsimp only
    rw [hobject, if_neg (Nat.ne_of_lt ho)]
  · rw [Array.size_push] at hlt
    have heq : o = w.objects.size := Nat.le_antisymm (Nat.le_of_lt_succ hlt) hle
    simp only [World.isLive, hobject, if_pos heq, decide_true]
  · by_cases ho : o = w.objects.size
    · simp only [World.owns, hobject, if_pos ho, decide_eq_true_eq] at hown
      exact hown ▸ hexists
    · simp only [World.isLive, World.owns, hobject, if_neg ho] at hlive hown
      exact hw hkept h o hlive hown

theorem object_birth (o : ObjId) :
    (w.birth g n v).objects[o]? =
      if o = w.objects.size then some { heap := g, typeName := n, value := v }
      else w.objects[o]? :=
  Array.getElem?_push

theorem size_birth : (w.birth g n v).objects.size = w.objects.size + 1 :=
  Array.size_push _

theorem heaps_birth (g' : HeapId) :
    (w.birth g n v).heaps[g']? =
      (w.heaps[g']?).map fun heap => if g' = g then { heap with live := heap.live + 1 } else heap :=
  heaps_modifyHeap g'

theorem registryAt_birth : (w.birth g n v).registryAt = w.registryAt :=
  registryAt_modifyHeap (w := w) fun _ => rfl

theorem rootsAt_birth : (w.birth g n v).rootsAt = w.rootsAt := by
  funext g'
  rw [rootsAt, rootsAt, registryAt_birth]

theorem holdersAt_birth : (w.birth g n v).holdersAt = w.holdersAt :=
  holdersAt_modifyHeap (w := w) fun _ => rfl

theorem heapExists_birth : (w.birth g n v).heapExists = w.heapExists :=
  heapExists_modifyHeap (w := w) fun _ => rfl

theorem isLive_birth (o : ObjId) :
    (w.birth g n v).isLive o = (decide (o = w.objects.size) || w.isLive o) := by
  unfold isLive
  rw [object_birth]
  by_cases ho : o = w.objects.size <;> simp [ho]

theorem owns_birth (g' : HeapId) (o : ObjId) :
    (w.birth g n v).owns g' o = if o = w.objects.size then decide (g = g') else w.owns g' o := by
  unfold owns
  rw [object_birth]
  by_cases ho : o = w.objects.size <;> simp [ho]

theorem valueAt_birth (o : ObjId) :
    (w.birth g n v).valueAt o = if o = w.objects.size then v else w.valueAt o := by
  unfold valueAt
  rw [object_birth]
  by_cases ho : o = w.objects.size <;> simp [ho]

theorem isLive_size : w.isLive w.objects.size = false := by
  rw [Bool.eq_false_iff]
  exact fun h => Nat.lt_irrefl _ (lt_size_of_isLive h)

theorem ne_size_of_isLive {o : ObjId} (h : w.isLive o = true) : o ≠ w.objects.size :=
  Nat.ne_of_lt (lt_size_of_isLive h)

theorem lives_birth : (w.birth g n v).lives = w.objects.size ::ₘ w.lives := by
  refine (Multiset.Nodup.ext (nodup_lives _) ?_).mpr fun o => ?_
  · refine Multiset.nodup_cons.mpr ⟨?_, nodup_lives w⟩
    rw [mem_lives, isLive_size]
    exact Bool.false_ne_true
  · rw [Multiset.mem_cons, mem_lives, mem_lives, isLive_birth, Bool.or_eq_true, decide_eq_true_eq]

theorem out_birth_of_ne {o : ObjId} (ho : o ≠ w.objects.size) :
    (w.birth g n v).out o = w.out o := by
  rw [out_eq, out_eq, valueAt_birth, if_neg ho]
  rfl

theorem out_birth_self :
    (w.birth g n v).out w.objects.size =
      v.connectSlots.flatMap fun s => (w.slotAt s).targets := by
  rw [out_eq, valueAt_birth, if_pos rfl]
  rfl

/-- Tasks do not know of the new object. -/
theorem bind_holdings_birth (hburied : ∀ t ∈ todo, ∀ o, t.buries = some o → w.Gone o) :
    todo.bind (Task.holdings (w.birth g n v)) = todo.bind (Task.holdings w) := by
  apply Multiset.bind_congr
  intro t ht
  cases t with
  | dropValue o =>
      have hlt := (hburied _ ht o rfl).1
      rw [Task.holdings, Task.holdings, valueAt_birth, if_neg (Nat.ne_of_lt hlt)]
  | dropSlot | release | dropWeak | dropHandle | leave | retire => rfl

theorem bind_lives_birth {α : Type} (f : Value → Multiset α) :
    (w.birth g n v).lives.bind (fun o => f ((w.birth g n v).valueAt o)) =
      f v + w.lives.bind fun o => f (w.valueAt o) := by
  rw [lives_birth, Multiset.cons_bind, valueAt_birth, if_pos rfl]
  congr 1
  apply Multiset.bind_congr
  intro o ho
  rw [valueAt_birth, if_neg (ne_size_of_isLive (mem_lives.mp ho))]

/-- What the value holds was the client's before. -/
theorem ledger_birth (hburied : ∀ t ∈ todo, ∀ o, t.buries = some o → w.Gone o) :
    (w.birth g n v).ledger todo held = w.ledger todo (v.holdings + held) := by
  rw [ledger_add_held, ledger, ledger, bind_holdings_birth hburied,
    bind_lives_birth fun v => (v.holdings : Multiset Holding)]
  abel

theorem refs_birth (hburied : ∀ t ∈ todo, ∀ o, t.buries = some o → w.Gone o) :
    (w.birth g n v).refs todo held = w.refs todo (v.holdings + held) := by
  rw [refs, refs, ledger_birth hburied]
  rfl

theorem outer_birth (hburied : ∀ t ∈ todo, ∀ o, t.buries = some o → w.Gone o)
    (hv : v.Matched) :
    w.outer todo (v.holdings + held) =
      ((w.birth g n v).out w.objects.size : Multiset ObjId) +
        (w.birth g n v).outer todo held := by
  have hoff : (w.birth g n v).offGraph todo held = v.unseen + w.offGraph todo held := by
    rw [offGraph, offGraph, bind_holdings_birth hburied, bind_lives_birth Value.unseen]
    abel
  have hreported : ((v.connectSlots.map Holding.slot : List Holding) : Multiset Holding).bind
      (Holding.targets w) = ((w.birth g n v).out w.objects.size : Multiset ObjId) := by
    rw [out_birth_self, ← Multiset.coe_bind, ← Multiset.map_coe, Multiset.bind_map]
    rfl
  have hsame : Holding.targets (w.birth g n v) = Holding.targets w := rfl
  rw [outer, outer, hoff, hsame, offGraph_add_held, hv.holdings_eq, ← hreported]
  simp only [Multiset.add_bind]
  abel

theorem Accounted.birth (h : w.Accounted strong todo (v.holdings + held))
    (hg : w.Guarded todo (v.holdings + held))
    (hstrong : ∀ o, strong' o = strong o + if o = w.objects.size then 1 else 0) :
    (w.birth g n v).Accounted strong' (.release w.objects.size ::ₘ todo) held := by
  -- what the value holds belongs to the world now, so the ledger is the same
  have hledger : (w.birth g n v).ledger (.release w.objects.size ::ₘ todo) held =
      w.ledger todo (v.holdings + held) := by
    rw [ledger_cons_release, ledger_birth hg.buried]
  refine ⟨fun o => ?_, ?_, ?_, ?_, fun g' => ?_, ?_, ?_, fun g' heap' hheap' => ?_⟩
  · rw [hstrong, h.strong_eq, refs_cons_release, refs_birth hg.buried, Multiset.count_cons]
  · rw [hledger]
    exact h.slots_nodup
  · rw [hledger]
    exact h.slots_lt
  · rw [hledger]
    exact h.slots_idle
  · rw [hledger, rootsAt_birth]
    exact h.roots_eq g'
  · rw [rootsAt_birth]
    exact h.roots_nodup
  · rw [rootsAt_birth, registryAt_birth]
    exact h.roots_lt
  · rw [heaps_birth] at hheap'
    obtain ⟨heap, hheap, rfl⟩ := Option.map_eq_some_iff.mp hheap'
    -- of the objects that were there, each is in the heap where it was
    have hold : w.lives.filter (fun o => (w.birth g n v).owns g' o = true) =
        w.lives.filter fun o => w.owns g' o = true := by
      apply Multiset.filter_congr
      intro o ho
      rw [owns_birth, if_neg (ne_size_of_isLive (mem_lives.mp ho))]
    have hlive := h.live_eq g' heap hheap
    rw [lives_birth]
    by_cases hg' : g' = g
    · rw [if_pos hg', Multiset.filter_cons_of_pos _ (by simp [owns_birth, hg']), hold,
        Multiset.card_cons, ← hlive]
    · rw [if_neg hg', Multiset.filter_cons_of_neg _ (by simp [owns_birth, Ne.symm hg']), hold,
        ← hlive]

theorem Guarded.birth {heap : Heap} (h : w.Guarded todo (v.holdings + held)) (hv : v.Matched)
    (hheap : w.heaps[g]? = some heap)
    (hedges : ∀ c ∈ (w.birth g n v).out w.objects.size, w.owns g c = true) :
    (w.birth g n v).Guarded (.release w.objects.size ::ₘ todo) held := by
  have hgone {o : ObjId} (ho : w.Gone o) : (w.birth g n v).Gone o := by
    refine ⟨size_birth ▸ Nat.lt_succ_of_lt ho.1, ?_⟩
    rw [isLive_birth, ho.2, Bool.or_false, decide_eq_false_iff_not]
    exact Nat.ne_of_lt ho.1
  have hlive {o : ObjId} (ho : w.isLive o = true) : (w.birth g n v).isLive o = true := by
    rw [isLive_birth, ho, Bool.or_true]
  have hheld (x : Holding) (hx : x ∈ (v.holdings + held : Multiset Holding)) (c : ObjId)
      (hc : c ∈ x.targets w) : (w.birth g n v).isLive c = true :=
    hlive (h.held_live x hx c hc)
  have howns {g' : HeapId} {o : ObjId} (ho : w.owns g' o = true) :
      (w.birth g n v).owns g' o = true := by
    obtain ⟨ob, hob, -⟩ := owns_iff.mp ho
    have hlt := (Array.getElem?_eq_some_iff.mp hob).1
    rwa [owns_birth, if_neg (Nat.ne_of_lt hlt)]
  -- of each object, whether it is the new one decides
  refine ⟨fun o => ?_, fun g' o ho => ?_, fun g' heap' hheap' => ?_, fun p hp c hc g' hown => ?_,
    fun p hp x hx c hc => ?_, fun x hx => hheld x (Multiset.mem_add.mpr (.inr hx)), fun a ha => ?_,
    fun t ht o ho => ?_, fun o ho => hgone (h.dropped o ho)⟩
  · rw [valueAt_birth]
    split
    next => exact hv
    next => exact h.matched o
  · have hsome : ∃ heap', w.heaps[g']? = some heap' := by
      rw [owns_birth] at ho
      split at ho
      next => exact ⟨heap, of_decide_eq_true ho ▸ hheap⟩
      next => exact h.heap_some g' o ho
    obtain ⟨heap', hheap'⟩ := hsome
    rw [heaps_birth, hheap']
    exact ⟨_, rfl⟩
  · rw [heaps_birth] at hheap'
    obtain ⟨heap, hheap, rfl⟩ := Option.map_eq_some_iff.mp hheap'
    have := h.verify g' heap hheap
    split <;> exact this
  · by_cases hps : p = w.objects.size
    · subst hps
      rw [owns_birth, if_pos rfl] at hown
      exact howns (of_decide_eq_true hown ▸ hedges c hc)
    · rw [owns_birth, if_neg hps] at hown
      rw [out_birth_of_ne hps] at hc
      rw [isLive_birth, decide_eq_false hps, Bool.false_or] at hp
      exact howns (h.closed p hp c hc g' hown)
  · rw [valueAt_birth] at hx
    split at hx
    next => exact hheld x (Multiset.mem_add.mpr (.inl (Multiset.mem_coe.mpr hx))) c hc
    next hps =>
      rw [isLive_birth, decide_eq_false hps, Bool.false_or] at hp
      exact hlive (h.value_live p hp x hx c hc)
  · rw [ledger_cons_release, ledger_birth h.buried] at ha
    exact howns (h.handle_owned a ha)
  · rcases Multiset.mem_cons.mp ht with rfl | ht
    · cases ho
    · exact hgone (h.buried t ht o ho)

/-- A new object takes over what its value holds, all of it in its own heap. -/
theorem Sound.birth {heap : Heap}
    (h : w.Sound ts strong support suspects todo (v.holdings + held) owed) (hv : v.Matched)
    (hheap : w.heaps[g]? = some heap)
    (hedges : ∀ c ∈ (w.birth g n v).out w.objects.size, w.owns g c = true)
    (hstrong : ∀ o, strong' o = strong o + if o = w.objects.size then 1 else 0) :
    (w.birth g n v).Sound (ts.push .empty) strong' support suspects
      (.release w.objects.size ::ₘ todo) held owed := by
  have hcand (o : ObjId) : (w.birth g n v).candidateIn (ts.push .empty) o = true ↔
      o = w.objects.size ∨ w.candidateIn ts o = true := by
    rw [candidateIn_iff, candidateIn_iff, Tallies.isEmptyAt_push_empty, isLive_birth,
      Bool.or_eq_true, decide_eq_true_eq]
    have hempty : ts.isEmptyAt w.objects.size = true := by
      apply Tallies.isEmptyAt_iff.mpr
      intro r
      exact Tallies.count_eq_zero_of_size_le h.tallied.size_eq.le
    constructor
    · rintro ⟨ho | ho, hempty⟩
      · exact .inl ho
      · exact .inr ⟨ho, hempty⟩
    · rintro (rfl | ho)
      · exact ⟨.inl rfl, hempty⟩
      · exact ⟨.inr ho.1, ho.2⟩
  refine ⟨h.accounted.birth h.guarded hstrong, h.guarded.birth hv hheap hedges,
    ⟨?_, fun r => ?_, fun r o ho => ?_⟩, ?_, fun g' => ?_⟩
  · rw [Array.size_push, size_birth, h.tallied.size_eq]
  · refine ((h.tallied.balanced r).congr_edges fun p hp => ?_).congr_tallies fun o =>
      Tallies.count_push_empty ts o r
    rw [out_birth_of_ne (ne_size_of_isLive (h.tallied.live_of_count h.guarded hp))]
  · rw [isLive_birth, h.tallied.supported r o ho, Bool.or_true]
  · -- the new object is led to by the reference on its way, and leads to what its value holds
    have hborn : w.objects.size ∈
        (w.birth g n v).outer (.release w.objects.size ::ₘ todo) held := by
      rw [outer_cons_release]
      exact Multiset.mem_cons_self _ _
    refine h.anchored.transfer (fun g' o hc hown hexists => ?_) (fun p c hp hc hc' => ⟨?_, ?_⟩)
      fun y hy hsource => ?_
    · rcases (hcand o).mp hc with rfl | hc
      · exact .inr (.inr hborn)
      · rw [owns_birth, if_neg (ne_size_of_isLive (candidateIn_iff.mp hc).1)] at hown
        exact .inl ⟨hc, hown, heapExists_birth (g := g) ▸ hexists⟩
    · exact (hcand p).mpr (.inr hp)
    · rwa [out_birth_of_ne (ne_size_of_isLive (candidateIn_iff.mp hp).1)]
    · rcases hsource with hsource | hsource
      · exact ⟨y, .inl hsource, hy, .refl⟩
      · rw [outer_birth (g := g) (n := n) h.guarded.buried hv] at hsource
        rcases Multiset.mem_add.mp hsource with hedge | houter
        · refine ⟨w.objects.size, .inr hborn, (hcand _).mpr (.inl rfl), .single ?_⟩
          exact mem_candidateEdges.mpr ⟨Multiset.mem_coe.mp hedge, hy⟩
        · refine ⟨y, .inr ?_, hy, .refl⟩
          rw [outer_cons_release]
          exact Multiset.mem_cons_of_mem houter
  · rw [holdersAt_birth, rootsAt_birth]
    exact h.attended g'

theorem strongAt_birth (o : ObjId) :
    (w.birth g n v).strongAt o = w.strongAt o + if o = w.objects.size then 1 else 0 := by
  unfold strongAt
  rw [object_birth]
  by_cases ho : o = w.objects.size
  · simp [ho]
  · simp [ho]

/-- No root leads to the new object yet. -/
theorem Accounted.support_birth (h : w.Accounted strong todo held)
    (hg : w.Guarded todo held) : (w.birth g n v).support = w.support := by
  funext r o
  unfold support
  rw [object_birth, rootsAt_birth]
  split_ifs with ho
  · rw [ho, Array.getElem?_eq_none (Nat.le_refl _)]
    apply Multiset.count_eq_zero.mpr
    intro hmem
    have hown := hg.handle_owned _ (h.exists_handle (Multiset.mem_coe.mp hmem))
    obtain ⟨ob, hob, -⟩ := owns_iff.mp hown
    exact Nat.lt_irrefl _ (Array.getElem?_eq_some_iff.mp hob).1
  · rfl

end Birth

/-! ## A new slot -/

section AddSlot

variable {content : Slot}

theorem slotAt_addSlot_self : (w.addSlot content).2.slotAt w.slots.size = content := by
  simp [addSlot, slotAt]

theorem slotAt_addSlot_of_ne {s : SlotId} (hs : s ≠ w.slots.size) :
    (w.addSlot content).2.slotAt s = w.slotAt s := by
  simp [addSlot, slotAt, Array.getElem?_push, hs]

theorem slotAt_addSlot_of_lt {s : SlotId} (hs : s < w.slots.size) :
    (w.addSlot content).2.slotAt s = w.slotAt s :=
  slotAt_addSlot_of_ne (Nat.ne_of_lt hs)

@[simp] theorem targets_addSlot_self : Holding.targets (w.addSlot content).2 (.slot w.slots.size) =
    (content.targets : Multiset ObjId) := by
  rw [Holding.targets, slotAt_addSlot_self]

theorem targets_addSlot {x : Holding} (hx : ∀ s, x = .slot s → s < w.slots.size) :
    x.targets (w.addSlot content).2 = x.targets w := by
  cases x with
  | slot s => rw [Holding.targets, Holding.targets, slotAt_addSlot_of_lt (hx s rfl)]
  | weak | root => rfl

/-- Nobody held the new slot before. -/
theorem bind_targets_addSlot {m : Multiset Holding} (hm : ∀ s, .slot s ∈ m → s < w.slots.size) :
    m.bind (Holding.targets (w.addSlot content).2) = m.bind (Holding.targets w) := by
  apply Multiset.bind_congr
  intro x hx
  exact targets_addSlot fun s hs => hm s (hs ▸ hx)

theorem ledger_addSlot : (w.addSlot content).2.ledger todo (.slot w.slots.size ::ₘ held) =
    .slot w.slots.size ::ₘ w.ledger todo held := by
  rw [ledger_cons_held]
  rfl

section Slots

variable (hslots : ∀ s, .slot s ∈ w.ledger todo held → s < w.slots.size)

include hslots

theorem out_addSlot {p : ObjId} (hp : w.isLive p = true) : (w.addSlot content).2.out p = w.out p := by
  rw [out_eq, out_eq]
  apply List.flatMap_congr
  intro s hs
  have hmem : .slot s ∈ w.ledger todo held :=
    mem_ledger_of_live hp (Value.mem_holdings_of_reported hs)
  rw [slotAt_addSlot_of_lt (hslots s hmem)]

/-- The new slot takes over references on their way. -/
theorem refs_addSlot : (w.addSlot content).2.refs todo (.slot w.slots.size ::ₘ held) =
    w.refs ((content.targets : Multiset ObjId).map .release + todo) held := by
  rw [refs_add_releases, refs_cons_held, targets_addSlot_self, refs, refs]
  congr 2
  exact bind_targets_addSlot hslots

theorem outer_addSlot (hmatched : ∀ o, (w.valueAt o).Matched) :
    (w.addSlot content).2.outer todo (.slot w.slots.size ::ₘ held) =
      w.outer ((content.targets : Multiset ObjId).map .release + todo) held := by
  rw [outer_add_tasks, bind_holdings_releases, bind_released_releases, Multiset.zero_bind,
    Multiset.zero_add, outer_cons_held, targets_addSlot_self, outer, outer]
  congr 2
  apply bind_targets_addSlot
  intro s hs
  apply hslots
  rw [ledger_eq hmatched]
  exact Multiset.mem_add.mpr (.inr hs)

end Slots

section Sound

variable (h : w.Sound ts strong support suspects
    ((content.targets : Multiset ObjId).map .release + todo) held owed)

include h

theorem Sound.lt_of_slot {s : SlotId} (hs : .slot s ∈ w.ledger todo held) : s < w.slots.size := by
  have hslots := h.accounted.slots_lt s
  rw [ledger_add_releases] at hslots
  exact hslots (Multiset.mem_bind.mpr ⟨.slot s, hs, Multiset.mem_singleton_self s⟩)

theorem Sound.accounted_addSlot :
    (w.addSlot content).2.Accounted strong todo (.slot w.slots.size ::ₘ held) := by
  have haccounted := h.accounted
  have hledger : (w.addSlot content).2.ledger todo (.slot w.slots.size ::ₘ held) =
      .slot w.slots.size ::ₘ w.ledger todo held := ledger_addSlot
  -- the number of the new slot is larger than that of any slot somebody holds
  have hslots : ((w.addSlot content).2.ledger todo (.slot w.slots.size ::ₘ held)).bind Holding.slots =
      w.slots.size ::ₘ (w.ledger todo held).bind Holding.slots := by
    rw [hledger, Multiset.cons_bind, Holding.slots, Multiset.singleton_add]
  have hlt := haccounted.slots_lt
  rw [ledger_add_releases] at hlt
  refine ⟨fun o => ?_, ?_, fun s hs => ?_, fun s hs => ?_, fun g' => ?_, haccounted.roots_nodup,
    haccounted.roots_lt, haccounted.live_eq⟩
  · rw [refs_addSlot fun _ => h.lt_of_slot]
    exact haccounted.strong_eq o
  · have hnodup := haccounted.slots_nodup
    rw [ledger_add_releases] at hnodup
    rw [hslots, Multiset.nodup_cons]
    exact ⟨fun hmem => Nat.lt_irrefl _ (hlt _ hmem), hnodup⟩
  · have hsize : (w.addSlot content).2.slots.size = w.slots.size + 1 := Array.size_push _
    rw [hslots, Multiset.mem_cons] at hs
    rw [hsize]
    rcases hs with rfl | hs
    · exact Nat.lt_succ_self _
    · exact Nat.lt_succ_of_lt (hlt s hs)
  · have hidle := haccounted.slots_idle s
    rw [ledger_add_releases] at hidle
    rw [hslots, Multiset.mem_cons, not_or] at hs
    rw [slotAt_addSlot_of_ne hs.1]
    exact hidle hs.2
  · have hroots := haccounted.roots_eq g'
    rw [ledger_add_releases] at hroots
    rw [hledger, Multiset.cons_bind, Holding.entries, Multiset.zero_add]
    exact hroots

theorem Sound.guarded_addSlot (hlive : ∀ c ∈ content.targets, w.isLive c = true) :
    (w.addSlot content).2.Guarded todo (.slot w.slots.size ::ₘ held) := by
  have hguarded := h.guarded
  have htargets {x : Holding} (hx : x ∈ w.ledger todo held) :
      x.targets (w.addSlot content).2 = x.targets w :=
    targets_addSlot fun s hs => h.lt_of_slot (hs ▸ hx)
  refine ⟨hguarded.matched, hguarded.heap_some, hguarded.verify, fun p hp c hc => ?_,
    fun p hp x hx c hc => ?_, fun x hx c hc => ?_, fun a ha => ?_, fun t ht => ?_, hguarded.dropped⟩
  · rw [out_addSlot (fun _ => h.lt_of_slot) hp] at hc
    exact hguarded.closed p hp c hc
  · rw [htargets (mem_ledger_of_live hp hx)] at hc
    exact hguarded.value_live p hp x hx c hc
  · rcases Multiset.mem_cons.mp hx with rfl | hx
    · rw [targets_addSlot_self] at hc
      exact hlive c (Multiset.mem_coe.mp hc)
    · rw [htargets (mem_ledger_of_held hx)] at hc
      exact hguarded.held_live x hx c hc
  · apply hguarded.handle_owned a
    rw [ledger_add_releases]
    rw [ledger_addSlot] at ha
    exact (Multiset.mem_cons.mp ha).resolve_left fun heq => by cases heq
  · exact hguarded.buried t (Multiset.mem_add.mpr (.inr ht))

/-- A new slot takes over references on their way. -/
theorem Sound.addSlot (hlive : ∀ c ∈ content.targets, w.isLive c = true) :
    (w.addSlot content).2.Sound ts strong support suspects todo (.slot w.slots.size ::ₘ held)
      owed := by
  have hslots (s : SlotId) (hs : .slot s ∈ w.ledger todo held) : s < w.slots.size := h.lt_of_slot hs
  refine ⟨h.accounted_addSlot, h.guarded_addSlot hlive,
    ⟨h.tallied.size_eq, fun r => ?_, h.tallied.supported⟩, ?_, h.attended⟩
  · apply (h.tallied.balanced r).congr_edges
    intro p hp
    rw [out_addSlot hslots (h.tallied.live_of_count h.guarded hp)]
  · refine h.anchored.transfer (fun g o hc hown hexists => .inl ⟨hc, hown, hexists⟩)
      (fun p c hp hc _ => ⟨hp, ?_⟩) fun y hy hsource => ⟨y, ?_, hy, .refl⟩
    · rwa [out_addSlot hslots (candidateIn_iff.mp hp).1]
    · rwa [outer_addSlot hslots h.guarded.matched]

end Sound

theorem Steady.retain {o : ObjId} (h : w.Steady todo held owed) (ho : w.isLive o = true) :
    (w.retain o).Steady (.release o ::ₘ todo) held owed := by
  have halike : w.Alike (w.retain o) := .modifyObject _ _ fun _ _ => rfl
  refine .of_alike (World.Sound.retain h fun x => ?_) halike
  exact Locked.strongAt_retain (lt_size_of_isLive ho) x

/-- References are taken one by one. -/
theorem Steady.retainAll {handles : List Handle} (h : w.Steady todo held owed)
    (hlive : ∀ a ∈ handles, w.isLive a.obj = true) :
    (handles.foldl (fun w a => w.retain a.obj) w).Steady
        (((handles.map Handle.obj : List ObjId) : Multiset ObjId).map .release + todo) held owed ∧
      w.Alike (handles.foldl (fun w a => w.retain a.obj) w) := by
  induction handles generalizing w todo with
  | nil => exact ⟨(zero_add todo).symm ▸ h, .refl w⟩
  | cons a handles ih =>
      have halike : w.Alike (w.retain a.obj) := .modifyObject _ _ fun _ _ => rfl
      have hretained := h.retain (hlive a List.mem_cons_self)
      obtain ⟨hsteady, halike'⟩ := ih hretained fun b hb => by
        rw [halike.isLive]
        exact hlive b (List.mem_cons_of_mem _ hb)
      refine ⟨?_, halike.trans halike'⟩
      rw [List.map_cons, ← Multiset.cons_coe, Multiset.map_cons, Multiset.cons_add,
        ← Multiset.add_cons]
      exact hsteady

/-- References taken one by one change counts only. -/
theorem Grows.retainAll {own : SlotId → Prop} (handles : List Handle) :
    w.Grows own none (handles.foldl (fun w a => w.retain a.obj) w) ∧
      (handles.foldl (fun w a => w.retain a.obj) w).slots = w.slots := by
  have hrest : ∀ w' : World, (handles.foldl (fun w a => w.retain a.obj) w').heaps = w'.heaps ∧
      (handles.foldl (fun w a => w.retain a.obj) w').log = w'.log ∧
      w'.Alike (handles.foldl (fun w a => w.retain a.obj) w') := by
    induction handles with
    | nil => exact fun w' => ⟨rfl, rfl, .refl w'⟩
    | cons a handles ih =>
        intro w'
        obtain ⟨hheaps, hlog, halike⟩ := ih (w'.retain a.obj)
        have hfirst : w'.Alike (w'.retain a.obj) := .modifyObject _ _ fun _ _ => rfl
        exact ⟨hheaps, hlog, hfirst.trans halike⟩
  obtain ⟨hheaps, hlog, halike⟩ := hrest w
  refine ⟨.of_eq halike.objects halike.size halike.dropped ?_ (fun h hh => ?_)
    (fun s _ _ => congrFun halike.slotAt s) hlog, halike.slots⟩
  · funext h
    rw [collectedAt, collectedAt, hheaps]
  · rwa [heapExists, hheaps]

/-- A new slot touches no other. -/
theorem Grows.addSlot {own : SlotId → Prop} {w' : World} (h : w.Grows own none w')
    (hslots : w'.slots = w.slots) (content : Slot) : w.Grows own none (w'.addSlot content).2 := by
  refine ⟨h.size_le, h.objects, h.born, h.dropped, h.collected, fun s hs hown => ?_, h.housed, h.log⟩
  rw [slotAt_addSlot_of_lt (hslots ▸ hs)]
  exact h.slots s hs hown

/-- A new slot takes over the references that were taken for it. -/
theorem Steady.addSlot (content : Slot)
    (h : w.Steady ((content.targets : Multiset ObjId).map .release + todo) held owed)
    (hlive : ∀ o ∈ content.targets, w.isLive o = true) :
    (w.addSlot content).2.Steady todo (.slot w.slots.size ::ₘ held) owed :=
  World.Sound.addSlot h hlive

end AddSlot

/-! ## A new heap -/

section Found

/-- The world with one more heap. -/
def found (w : World) (config : Config) : World :=
  { w with heaps := w.heaps.push { config := config } }

variable {config : Config}

theorem heaps_found (g' : HeapId) :
    (w.found config).heaps[g']? =
      if g' = w.heaps.size then some { config := config } else w.heaps[g']? :=
  Array.getElem?_push

theorem registryAt_found : (w.found config).registryAt = w.registryAt := by
  funext g'
  unfold registryAt
  rw [heaps_found]
  split_ifs with hg
  · rw [hg, Array.getElem?_eq_none (Nat.le_refl _)]
  · rfl

theorem rootsAt_found : (w.found config).rootsAt = w.rootsAt := by
  funext g'
  rw [rootsAt, rootsAt, registryAt_found]

theorem holdersAt_found (g' : HeapId) :
    (w.found config).holdersAt g' = w.holdersAt g' + if g' = w.heaps.size then 1 else 0 := by
  unfold holdersAt
  rw [heaps_found]
  split_ifs with hg
  · simp [hg]
  · rfl

theorem Guarded.not_owns_size (h : w.Guarded todo held) (o : ObjId) :
    ¬ w.owns w.heaps.size o = true := by
  intro ho
  obtain ⟨heap, hheap⟩ := h.heap_some _ o ho
  have := (Array.getElem?_eq_some_iff.mp hheap).1
  omega

theorem Grows.found {own : SlotId → Prop} (w : World) (config : Config) :
    w.Grows own none (w.found config) := by
  refine .of_eq (fun _ => rfl) rfl rfl ?_ (fun h hh => ?_) (fun _ _ _ => rfl) rfl
  · funext h
    unfold collectedAt
    rw [heaps_found]
    split_ifs with hg
    · rw [hg, Array.getElem?_eq_none (Nat.le_refl _)]
    · rfl
  · rw [heapExists_eq, decide_eq_true_eq] at hh ⊢
    rw [holdersAt_found]
    omega

/-- No object can be in a heap that was not there. -/
theorem Accounted.found (h : w.Accounted strong todo held) (hg : w.Guarded todo held) :
    (w.found config).Accounted strong todo held :=
  { h with
    roots_eq := by
      rw [rootsAt_found]
      exact h.roots_eq
    roots_nodup := by
      rw [rootsAt_found]
      exact h.roots_nodup
    roots_lt := by
      rw [rootsAt_found, registryAt_found]
      exact h.roots_lt
    live_eq := by
      intro g' heap' hheap'
      rw [heaps_found] at hheap'
      split at hheap'
      next hg' =>
        cases hheap'
        have hnone : w.lives.filter (fun o => w.owns w.heaps.size o = true) = 0 :=
          Multiset.filter_eq_nil.mpr fun o _ => hg.not_owns_size o
        rw [hg']
        exact (congrArg Multiset.card hnone).symm
      next => exact h.live_eq g' heap' hheap' }

theorem Guarded.found (h : w.Guarded todo held) (hverify : config.verify = true) :
    (w.found config).Guarded todo held :=
  { h with
    heap_some := by
      intro g' o ho
      obtain ⟨heap, hheap⟩ := h.heap_some g' o ho
      rw [heaps_found, hheap]
      split <;> exact ⟨_, rfl⟩
    verify := by
      intro g' heap' hheap'
      rw [heaps_found] at hheap'
      split at hheap'
      next =>
        cases hheap'
        exact hverify
      next => exact h.verify g' heap' hheap' }

/-- A new heap is empty, and its creator holds it. -/
theorem Steady.found (h : w.Steady todo held owed) (hverify : config.verify = true) :
    (w.found config).Steady todo held fun g => owed g + if g = w.heaps.size then 1 else 0 := by
  have hsupport : (w.found config).support = w.support := by
    funext r o
    unfold support
    rw [rootsAt_found]
    rfl
  refine ⟨h.accounted.found h.guarded, h.guarded.found hverify,
    ⟨h.tallied.size_eq, fun r => ?_, fun r o ho => ?_⟩, fun g' x hown hx hcand => ?_, fun g' => ?_⟩
  · rw [hsupport]
    exact h.tallied.balanced r
  · rw [hsupport] at ho
    exact h.tallied.supported r o ho
  · refine h.anchored g' x hown ?_ hcand
    have hg : g' ≠ w.heaps.size := fun heq => h.guarded.not_owns_size x (heq ▸ hown)
    rw [heapExists_eq, holdersAt_found, if_neg hg, Nat.add_zero] at hx
    rwa [heapExists_eq]
  · have := h.attended g'
    rw [holdersAt_found, rootsAt_found]
    push_cast
    split <;> omega

end Found

end World

end RootedHeap
