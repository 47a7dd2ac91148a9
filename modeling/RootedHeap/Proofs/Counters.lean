import Mathlib
import RootedHeap.Proofs.Refusals

/-! # Counters of a heap

A heap on its own, with collected objects kept, counts right whatever its values report and whichever
calls fail: what it allocated is live or collected, what it rooted is registered or released, and no
value is dropped twice. The tasks of a finalization come into it because they are where dropped values
are counted; they may be left undone by a failure. Mathlib is imported whole for the equations of the
state monad by which `cbv` evaluates the run at the end.
-/

namespace RootedHeap

/-- An object stays in its state, or goes one state down. -/
def ObjState.Follows (s s' : ObjState) : Prop :=
  s' = s ∨ s = .live ∧ s' = .collecting ∨ s = .collecting ∧ s' = .poisoned

/-- There is one heap, which keeps collected objects, and all calls are for it. -/
def Call.Single (c : Client) (call : Call) : Prop :=
  (∀ config, call = .createHeap config → c.world.heaps.size = 0 ∧ config.poison = true) ∧
    ∀ g ∈ call.heaps, g < c.world.heaps.size

namespace World

/-- The state of `o`. -/
def stateAt (w : World) (o : ObjId) : Option ObjState := w.objects[o]?.map (·.state)

/-- Every object there was is in the same state, or one state down. -/
def Ages (w w' : World) : Prop :=
  ∀ o s, w.stateAt o = some s → ∃ s', w'.stateAt o = some s' ∧ s.Follows s'

/-! ## States -/

section States

variable {w w' w'' : World} {o : ObjId}

theorem isLive_iff_stateAt : w.isLive o = true ↔ w.stateAt o = some .live := by
  unfold isLive stateAt
  cases w.objects[o]? <;> simp

theorem gone_iff_stateAt : w.Gone o ↔ ∃ s, w.stateAt o = some s ∧ s ≠ .live := by
  have hlt : o < w.objects.size ↔ ∃ ob, w.objects[o]? = some ob := by
    rw [← Option.isSome_iff_exists]
    simp
  unfold Gone isLive stateAt
  rw [hlt]
  cases w.objects[o]? <;> simp

theorem lives_congr_stateAt (h : ∀ o, w'.isLive o = w.isLive o) : w'.lives = w.lives := by
  refine Multiset.Nodup.ext (nodup_lives w') (nodup_lives w) |>.mpr fun o => ?_
  rw [mem_lives, mem_lives, h]

/-- The live objects, counted either way. -/
theorem liveCount_eq_card (w : World) : w.liveCount = w.lives.card := by
  have hrange {α : Type} (p : α → Bool) (l : List α) :
      l.countP p = (List.range l.length).countP fun i => (l[i]?).any p := by
    induction l with
    | nil => rfl
    | cons a l ih =>
        rw [List.countP_cons, ih, List.length_cons, List.range_succ_eq_map, List.countP_cons,
          List.countP_map]
        simp [Function.comp_def]
  rw [liveCount, hrange, Array.length_toList, lives, ← Multiset.countP_eq_card_filter,
    ← Multiset.coe_range, Multiset.coe_countP]
  refine List.countP_congr fun o _ => ?_
  unfold isLive
  rw [Array.getElem?_toList]
  cases w.objects[o]? <;> simp

theorem Even.stateAt (h : w.Even w') : w'.stateAt = w.stateAt := by
  funext o
  have hstate := congrArg (Option.map Prod.snd) (h.objects o)
  simpa [World.stateAt, Function.comp_def] using hstate

theorem Even.isLive (h : w.Even w') (o : ObjId) : w'.isLive o = w.isLive o := by
  rw [Bool.eq_iff_iff, isLive_iff_stateAt, isLive_iff_stateAt, h.stateAt]

theorem Even.gone (h : w.Even w') : w'.Gone o ↔ w.Gone o := by
  rw [gone_iff_stateAt, gone_iff_stateAt, h.stateAt]

theorem Even.ages (h : w.Even w') (h' : w'.Ages w'') : w.Ages w'' :=
  fun o s hs => h' o s (h.stateAt ▸ hs)

theorem Ages.even (h : w.Ages w') (h' : w'.Even w'') : w.Ages w'' := by
  intro o s hs
  rw [h'.stateAt]
  exact h o s hs

theorem Ages.refl (w : World) : w.Ages w := fun _ s hs => ⟨s, hs, .inl rfl⟩

theorem stateAt_enroll {g : HeapId} {n : String} {value : Value} {s : ObjState}
    (hs : w.stateAt o = some s) : (w.enroll g n value).stateAt o = some s := by
  unfold stateAt at hs ⊢
  obtain ⟨ob, hob, -⟩ := Option.map_eq_some_iff.mp hs
  have hne : o ≠ w.objects.size := fun heq => by simp [heq] at hob
  rw [World.enroll, Array.getElem?_push, if_neg hne]
  exact hs

theorem stateAt_condemn {dead : List ObjId} (o : ObjId) :
    (w.condemn dead).stateAt o =
      (w.stateAt o).map fun s => if o ∈ dead then .collecting else s := by
  unfold stateAt
  rw [World.condemn, getElem?_foldl_condemn]
  cases w.objects[o]? with
  | none => rfl
  | some ob =>
      simp only [Option.map_some, Option.some.injEq]
      split <;> rfl

theorem stateAt_modifyObject {f : Object → Object} {s : ObjState} (hf : ∀ ob, (f ob).state = s)
    (o' : ObjId) :
    (w.modifyObject o f).stateAt o' =
      (w.stateAt o').map fun s' => if o' = o then s else s' := by
  simp only [stateAt, modifyObject, Array.getElem?_modify]
  by_cases ho : o = o'
  · subst ho
    cases w.objects[o]? <;> simp [hf]
  · cases w.objects[o']? <;> simp [ho, Ne.symm ho]

namespace Condemns

variable {h : HeapId} {dead : List ObjId} (hcondemns : w.Condemns h dead w')

include hcondemns

theorem stateAt (o : ObjId) :
    w'.stateAt o = (w.stateAt o).map fun s => if o ∈ dead then .collecting else s := by
  rw [← stateAt_condemn, World.stateAt, hcondemns.objects]
  rfl

theorem ages : w.Ages w' := by
  intro o s hs
  rw [hcondemns.stateAt, hs]
  refine ⟨_, rfl, ?_⟩
  by_cases ho : o ∈ dead
  · have hlive := isLive_iff_stateAt.mp (hcondemns.live o ho)
    cases hs.symm.trans hlive
    exact .inr (.inl ⟨rfl, if_pos ho⟩)
  · exact .inl (if_neg ho)

theorem lives : w.lives = (dead : Multiset ObjId) + w'.lives := by
  have hsame : w'.lives = (w.collect h dead).lives := by
    unfold World.lives World.isLive
    rw [hcondemns.objects]
    rfl
  rw [hsame]
  exact lives_collect hcondemns.nodup hcondemns.live

theorem gone_of_mem {o : ObjId} (ho : o ∈ dead) : w'.Gone o := by
  rw [gone_iff_stateAt, hcondemns.stateAt, isLive_iff_stateAt.mp (hcondemns.live o ho)]
  exact ⟨.collecting, by simp [ho], by simp⟩

theorem gone {o : ObjId} (ho : w.Gone o) : w'.Gone o := by
  obtain ⟨s, hs, hne⟩ := gone_iff_stateAt.mp ho
  rw [gone_iff_stateAt, hcondemns.stateAt, hs]
  refine ⟨_, rfl, ?_⟩
  split
  · simp
  · exact hne

end Condemns

end States

/-! ## A world that counts right -/

/-- A world of one heap at most that counts right, with the tasks still to be done. -/
structure Tidy (w : World) (todo : List Task) : Prop where
  single : w.heaps.size ≤ 1
  housed : ∀ (o : ObjId) (ob : Object), w.objects[o]? = some ob → ob.heap < w.heaps.size
  poison : ∀ (g : HeapId) (heap : Heap), w.heaps[g]? = some heap → heap.config.poison = true
  reckoned : ∀ (g : HeapId) (heap : Heap), w.heaps[g]? = some heap → heap.Reckoned
  live_eq : ∀ (g : HeapId) (heap : Heap), w.heaps[g]? = some heap → heap.live = w.lives.card
  total : ∀ (g : HeapId) (heap : Heap), w.heaps[g]? = some heap →
    heap.live + heap.counters.collected = heap.counters.allocations
  dropped_nodup : w.dropped.toList.Nodup
  dropped_gone : ∀ o ∈ w.dropped, w.Gone o
  drops_nodup : (todo.filterMap Task.drops).Nodup
  drops_fresh : ∀ o ∈ todo.filterMap Task.drops, w.Gone o ∧ o ∉ w.dropped
  retires_nodup : (todo.filterMap Task.retires).Nodup
  retires_collecting : ∀ o ∈ todo.filterMap Task.retires, w.stateAt o = some .collecting

namespace Tidy

variable {w w' : World} {todo todo' : List Task}

theorem even (h : w.Tidy todo) (heven : w.Even w') : w'.Tidy todo := by
  have hheap {g : HeapId} {heap' : Heap} (hheap' : w'.heaps[g]? = some heap') :
      ∃ heap, w.heaps[g]? = some heap ∧ heap.Trades heap' := by
    obtain ⟨hlt', -⟩ := Array.getElem?_eq_some_iff.mp hheap'
    have hlt : g < w.heaps.size := heven.size ▸ hlt'
    exact ⟨_, Array.getElem?_eq_getElem hlt, heven.heaps g _ _ (Array.getElem?_eq_getElem hlt) hheap'⟩
  have hlives : w'.lives = w.lives := lives_congr_stateAt heven.isLive
  refine ⟨heven.size ▸ h.single, fun o ob hob => ?_, fun g heap' hheap' => ?_,
    fun g heap' hheap' => ?_, fun g heap' hheap' => ?_, fun g heap' hheap' => ?_,
    heven.dropped ▸ h.dropped_nodup, fun o ho => ?_, h.drops_nodup, fun o ho => ?_, h.retires_nodup,
    fun o ho => ?_⟩
  · obtain ⟨ob', hob', hsame⟩ := heven.exists_object hob
    rw [heven.size, ← hsame]
    exact h.housed o ob' hob'
  · obtain ⟨heap, hold, htrades⟩ := hheap hheap'
    have hstock := htrades.stock
    simp only [Heap.stock, Prod.mk.injEq] at hstock
    rw [hstock.1]
    exact h.poison g heap hold
  · obtain ⟨heap, hold, htrades⟩ := hheap hheap'
    exact htrades.reckoned (h.reckoned g heap hold)
  · obtain ⟨heap, hold, htrades⟩ := hheap hheap'
    have hstock := htrades.stock
    simp only [Heap.stock, Prod.mk.injEq] at hstock
    rw [hstock.2.1, hlives]
    exact h.live_eq g heap hold
  · obtain ⟨heap, hold, htrades⟩ := hheap hheap'
    have hstock := htrades.stock
    simp only [Heap.stock, Prod.mk.injEq] at hstock
    rw [hstock.2.1, hstock.2.2.1, hstock.2.2.2]
    exact h.total g heap hold
  · exact heven.gone.mpr (h.dropped_gone o (heven.dropped ▸ ho))
  · obtain ⟨hgone, hnot⟩ := h.drops_fresh o ho
    exact ⟨heven.gone.mpr hgone, heven.dropped.symm ▸ hnot⟩
  · rw [heven.stateAt]
    exact h.retires_collecting o ho

/-- Tasks may be left undone, and other tasks may come that neither drop values nor put objects
away. -/
theorem retask (h : w.Tidy todo)
    (hdrops : (todo'.filterMap Task.drops).Sublist (todo.filterMap Task.drops))
    (hretires : (todo'.filterMap Task.retires).Sublist (todo.filterMap Task.retires)) :
    w.Tidy todo' :=
  ⟨h.single, h.housed, h.poison, h.reckoned, h.live_eq, h.total, h.dropped_nodup, h.dropped_gone,
    h.drops_nodup.sublist hdrops, fun o ho => h.drops_fresh o (hdrops.subset ho),
    h.retires_nodup.sublist hretires, fun o ho => h.retires_collecting o (hretires.subset ho)⟩

theorem undone (h : w.Tidy todo) : w.Tidy [] := h.retask (List.nil_sublist _) (List.nil_sublist _)

/-- One task is done, and others come that neither drop values nor put objects away. -/
theorem spend {t : Task} {rest more : List Task} (h : w.Tidy (t :: rest))
    (hidle : ∀ u ∈ more, u.buries = none) : w.Tidy (more ++ rest) := by
  have hdrops : more.filterMap Task.drops = [] :=
    List.filterMap_eq_nil_iff.mpr fun u hu => Task.drops_of_idle (hidle u hu)
  have hretires : more.filterMap Task.retires = [] :=
    List.filterMap_eq_nil_iff.mpr fun u hu => Task.retires_of_idle (hidle u hu)
  refine h.retask ?_ ?_
  · rw [List.filterMap_append, hdrops, List.nil_append]
    exact (List.sublist_cons_self t rest).filterMap _
  · rw [List.filterMap_append, hretires, List.nil_append]
    exact (List.sublist_cons_self t rest).filterMap _

theorem heap_eq_zero (h : w.Tidy todo) {g : HeapId} (hg : g < w.heaps.size) : g = 0 :=
  Nat.lt_one_iff.mp (Nat.lt_of_lt_of_le hg h.single)

/-- What is condemned is live, and counted. -/
theorem length_le (h : w.Tidy todo) {dead : List ObjId} (hnodup : dead.Nodup)
    (hlive : ∀ o ∈ dead, w.isLive o = true) {g : HeapId} {heap : Heap}
    (hheap : w.heaps[g]? = some heap) : dead.length ≤ heap.live := by
  have hle : (dead : Multiset ObjId) ≤ w.lives :=
    (Multiset.le_iff_subset (Multiset.coe_nodup.mpr hnodup)).mpr fun o ho => mem_lives.mpr (hlive o ho)
  rw [h.live_eq g heap hheap]
  exact Multiset.card_le_card hle

/-- The heap condemns objects, which are to be finalized. -/
theorem condemns (h : w.Tidy todo) {g : HeapId} {dead : List ObjId}
    (hcondemns : w.Condemns g dead w') (hg : g < w.heaps.size) :
    w'.Tidy (Task.finalizing g dead ++ todo) := by
  have hlives := congrArg Multiset.card hcondemns.lives
  rw [Multiset.card_add, Multiset.coe_card] at hlives
  -- there is one heap only, so every heap is the one that loses `dead`
  have hheap {g' : HeapId} {heap' : Heap} (hheap' : w'.heaps[g']? = some heap') :
      ∃ heap, w.heaps[g']? = some heap ∧ heap.Loses dead.length heap' := by
    obtain ⟨hlt', -⟩ := Array.getElem?_eq_some_iff.mp hheap'
    have hlt : g' < w.heaps.size := hcondemns.size ▸ hlt'
    have hold := Array.getElem?_eq_getElem hlt
    have hloses := hcondemns.heaps g' _ _ hold hheap'
    rw [if_pos ((h.heap_eq_zero hlt).trans (h.heap_eq_zero hg).symm)] at hloses
    exact ⟨_, hold, hloses⟩
  have hlive_of_mem {o : ObjId} (ho : o ∈ dead) : w.stateAt o = some .live :=
    isLive_iff_stateAt.mp (hcondemns.live o ho)
  have hdrops : (Task.finalizing g dead ++ todo).filterMap Task.drops =
      dead ++ todo.filterMap Task.drops := by
    rw [List.filterMap_append, ← List.append_nil (Task.finalizing g dead),
      Task.filterMap_drops (by simp)]
  have hretires : (Task.finalizing g dead ++ todo).filterMap Task.retires =
      dead ++ todo.filterMap Task.retires := by
    rw [List.filterMap_append, ← List.append_nil (Task.finalizing g dead),
      Task.filterMap_retires (by simp)]
  refine ⟨hcondemns.size ▸ h.single, fun o ob hob => ?_, fun g' heap' hheap' => ?_,
    fun g' heap' hheap' => ?_, fun g' heap' hheap' => ?_, fun g' heap' hheap' => ?_,
    hcondemns.dropped ▸ h.dropped_nodup, fun o ho => ?_, ?_, fun o ho => ?_, ?_, fun o ho => ?_⟩
  · rw [hcondemns.object] at hob
    obtain ⟨ob', hob', rfl⟩ := Option.map_eq_some_iff.mp hob
    have hhoused := h.housed o ob' hob'
    rw [hcondemns.size]
    split
    · exact hhoused
    · exact hhoused
  · obtain ⟨heap, hold, hloses⟩ := hheap hheap'
    rw [hloses.config]
    exact h.poison g' heap hold
  · obtain ⟨heap, hold, hloses⟩ := hheap hheap'
    obtain ⟨hnodup, hissued, hbalance⟩ := h.reckoned g' heap hold
    refine ⟨hloses.roots ▸ hnodup, hloses.roots ▸ hissued, ?_⟩
    rw [hloses.roots, hloses.acquired, hloses.released]
    exact hbalance
  · obtain ⟨heap, hold, hloses⟩ := hheap hheap'
    have hlive := h.live_eq g' heap hold
    rw [hloses.live]
    omega
  · obtain ⟨heap, hold, hloses⟩ := hheap hheap'
    have htotal := h.total g' heap hold
    have hlive := h.live_eq g' heap hold
    rw [hloses.live, hloses.collected, hloses.allocations]
    omega
  · exact hcondemns.gone (h.dropped_gone o (hcondemns.dropped ▸ ho))
  · rw [hdrops]
    -- what is condemned was live, but what is to be dropped already is gone
    refine List.nodup_append'.mpr ⟨hcondemns.nodup, h.drops_nodup, fun o hdead hdrop => ?_⟩
    exact absurd (hcondemns.live o hdead) (by simp [(h.drops_fresh o hdrop).1.2])
  · rw [hdrops] at ho
    rw [hcondemns.dropped]
    rcases List.mem_append.mp ho with ho | ho
    · refine ⟨hcondemns.gone_of_mem ho, fun hmem => ?_⟩
      exact absurd (hcondemns.live o ho) (by simp [(h.dropped_gone o hmem).2])
    · obtain ⟨hgone, hnot⟩ := h.drops_fresh o ho
      exact ⟨hcondemns.gone hgone, hnot⟩
  · rw [hretires]
    refine List.nodup_append'.mpr ⟨hcondemns.nodup, h.retires_nodup, fun o hdead hretire => ?_⟩
    cases (hlive_of_mem hdead).symm.trans (h.retires_collecting o hretire)
  · rw [hretires] at ho
    rw [hcondemns.stateAt]
    rcases List.mem_append.mp ho with ho | ho
    · simp [hlive_of_mem ho, ho]
    · simp [h.retires_collecting o ho]

/-- An object is placed and counted in. -/
theorem enroll {g : HeapId} {n : String} {value : Value} (h : w.Tidy todo) (hg : g < w.heaps.size) :
    (w.enroll g n value).Tidy todo := by
  have hlives : (w.enroll g n value).lives = w.objects.size ::ₘ w.lives :=
    lives_birth (w := w) (g := g) (n := n) (v := value)
  have hsize : (w.enroll g n value).heaps.size = w.heaps.size := Array.size_modify
  have hstate {o : ObjId} {s : ObjState} (hs : w.stateAt o = some s) :
      (w.enroll g n value).stateAt o = some s := stateAt_enroll hs
  have hgone {o : ObjId} (ho : w.Gone o) : (w.enroll g n value).Gone o := by
    obtain ⟨s, hs, hne⟩ := gone_iff_stateAt.mp ho
    exact gone_iff_stateAt.mpr ⟨s, hstate hs, hne⟩
  -- every heap is `g`, as there is one only
  have hheap {g' : HeapId} {heap' : Heap} (hheap' : (w.enroll g n value).heaps[g']? = some heap') :
      ∃ heap, w.heaps[g']? = some heap ∧ heap' = heap.enrolled := by
    obtain ⟨hlt', -⟩ := Array.getElem?_eq_some_iff.mp hheap'
    have hlt : g' < w.heaps.size := hsize ▸ hlt'
    have hsame : g = g' := (h.heap_eq_zero hg).trans (h.heap_eq_zero hlt).symm
    simp only [World.enroll, Array.getElem?_modify, if_pos hsame] at hheap'
    obtain ⟨heap, hheap, rfl⟩ := Option.map_eq_some_iff.mp hheap'
    exact ⟨heap, hheap, rfl⟩
  refine ⟨hsize ▸ h.single, fun o ob hob => ?_, fun g' heap' hheap' => ?_,
    fun g' heap' hheap' => ?_, fun g' heap' hheap' => ?_, fun g' heap' hheap' => ?_,
    h.dropped_nodup, fun o ho => hgone (h.dropped_gone o ho), h.drops_nodup, fun o ho => ?_,
    h.retires_nodup, fun o ho => hstate (h.retires_collecting o ho)⟩
  · rw [hsize]
    simp only [World.enroll, Array.getElem?_push] at hob
    split at hob
    next =>
      cases hob
      exact hg
    next => exact h.housed o ob hob
  · obtain ⟨heap, hold, rfl⟩ := hheap hheap'
    exact h.poison g' heap hold
  · obtain ⟨heap, hold, rfl⟩ := hheap hheap'
    obtain ⟨hnodup, hissued, hbalance⟩ := h.reckoned g' heap hold
    exact ⟨hnodup, hissued, hbalance⟩
  · obtain ⟨heap, hold, rfl⟩ := hheap hheap'
    rw [hlives, Multiset.card_cons, ← h.live_eq g' heap hold]
    rfl
  · obtain ⟨heap, hold, rfl⟩ := hheap hheap'
    have htotal := h.total g' heap hold
    simp only [Heap.enrolled]
    omega
  · obtain ⟨hgone', hnot⟩ := h.drops_fresh o ho
    exact ⟨hgone hgone', hnot⟩

/-- The one heap is created while there are no objects. -/
theorem createHeap {config : Config} {log : Array Event} (h : w.Tidy []) (hnone : w.heaps.size = 0)
    (hpoison : config.poison = true) :
    World.Tidy { w with heaps := w.heaps.push { config := config }, log := log } [] := by
  have hempty (o : ObjId) : w.objects[o]? = none := by
    cases hob : w.objects[o]? with
    | none => rfl
    | some ob => exact absurd (hnone ▸ h.housed o ob hob) (Nat.not_lt_zero _)
  have hlives : World.lives { w with heaps := w.heaps.push { config := config }, log := log } = 0 := by
    refine Multiset.eq_zero_of_forall_notMem fun o ho => ?_
    have hlive := mem_lives.mp ho
    simp [World.isLive, hempty] at hlive
  have hheap {g : HeapId} {heap : Heap} (hheap : (w.heaps.push { config := config })[g]? = some heap) :
      heap = { config := config } := by
    rw [Array.getElem?_push, hnone, Array.getElem?_eq_none (by omega)] at hheap
    split at hheap
    · exact (Option.some.inj hheap).symm
    · cases hheap
  refine ⟨by simp [hnone], fun o ob hob => ?_, fun g heap hg => ?_, fun g heap hg => ?_,
    fun g heap hg => ?_, fun g heap hg => ?_, h.dropped_nodup, h.dropped_gone, List.nodup_nil, by simp,
    List.nodup_nil, by simp⟩
  · cases (hempty o).symm.trans hob
  · rw [hheap hg]
    exact hpoison
  · rw [hheap hg]
    exact ⟨List.nodup_nil, by simp [Registry.empty], rfl⟩
  · rw [hheap hg, hlives]
    rfl
  · rw [hheap hg]
    rfl

/-- The value of a collected object is dropped. -/
theorem dropValue {o : ObjId} {rest : List Task} (h : w.Tidy (.dropValue o :: rest)) :
    World.Tidy { w with dropped := w.dropped.push o } rest := by
  have hdrops : (Task.dropValue o :: rest).filterMap Task.drops = o :: rest.filterMap Task.drops :=
    rfl
  have hnodup := h.drops_nodup
  rw [hdrops, List.nodup_cons] at hnodup
  obtain ⟨hgone, hnot⟩ := h.drops_fresh o (hdrops ▸ List.mem_cons_self)
  refine ⟨h.single, h.housed, h.poison, h.reckoned, h.live_eq, h.total, ?_, fun o' ho' => ?_,
    hnodup.2, fun o' ho' => ?_, h.retires_nodup, h.retires_collecting⟩
  · rw [Array.toList_push, List.nodup_append']
    refine ⟨h.dropped_nodup, List.nodup_singleton o, fun o' ho' heq => hnot ?_⟩
    rwa [← List.mem_singleton.mp heq, ← Array.mem_toList_iff]
  · rcases Array.mem_push.mp ho' with ho' | rfl
    · exact h.dropped_gone o' ho'
    · exact hgone
  · obtain ⟨hgone', hnot'⟩ := h.drops_fresh o' (hdrops ▸ List.mem_cons_of_mem _ ho')
    refine ⟨hgone', fun hmem => ?_⟩
    rcases Array.mem_push.mp hmem with hmem | rfl
    · exact hnot' hmem
    · exact hnodup.1 ho'

/-- A collected object is put away, and kept. -/
theorem poisoned {g : HeapId} {o : ObjId} {rest : List Task} {f : Object → Object}
    (hheap : ∀ ob, (f ob).heap = ob.heap) (hstate : ∀ ob, (f ob).state = .poisoned)
    (h : w.Tidy (.retire g o :: rest)) :
    (w.modifyObject o f).Tidy rest ∧ w.Ages (w.modifyObject o f) := by
  have hretires : (Task.retire g o :: rest).filterMap Task.retires =
      o :: rest.filterMap Task.retires := rfl
  have hnodup := h.retires_nodup
  rw [hretires, List.nodup_cons] at hnodup
  have hcollecting := h.retires_collecting o (hretires ▸ List.mem_cons_self)
  have hstates := stateAt_modifyObject (w := w) (o := o) hstate
  -- an object that is being collected was not live any more
  have hlive (o' : ObjId) : (w.modifyObject o f).isLive o' = w.isLive o' := by
    rw [Bool.eq_iff_iff, isLive_iff_stateAt, isLive_iff_stateAt, hstates]
    by_cases ho : o' = o
    · subst ho
      simp [hcollecting]
    · simp [ho]
  have hgone {o' : ObjId} (ho' : w.Gone o') : (w.modifyObject o f).Gone o' :=
    ⟨by simpa [World.modifyObject] using ho'.1, (hlive o').trans ho'.2⟩
  have hlives : (w.modifyObject o f).lives = w.lives := lives_congr_stateAt hlive
  refine ⟨⟨h.single, fun o' ob hob => ?_, h.poison, h.reckoned, ?_, h.total, h.dropped_nodup,
    fun o' ho' => hgone (h.dropped_gone o' ho'), h.drops_nodup, fun o' ho' => ?_, hnodup.2,
    fun o' ho' => ?_⟩, fun o' s hs => ?_⟩
  · simp only [World.modifyObject, Array.getElem?_modify] at hob
    split at hob
    next =>
      obtain ⟨ob', hob', rfl⟩ := Option.map_eq_some_iff.mp hob
      rw [hheap]
      exact h.housed o' ob' hob'
    next => exact h.housed o' ob hob
  · rw [hlives]
    exact h.live_eq
  · obtain ⟨hgone', hnot⟩ := h.drops_fresh o' ho'
    exact ⟨hgone hgone', hnot⟩
  · have hne : o' ≠ o := fun heq => hnodup.1 (heq ▸ ho')
    rw [hstates, h.retires_collecting o' (hretires ▸ List.mem_cons_of_mem _ ho')]
    simp [hne]
  · rw [hstates, hs]
    refine ⟨_, rfl, ?_⟩
    by_cases ho : o' = o
    · subst ho
      cases hs.symm.trans hcollecting
      exact .inr (.inr ⟨rfl, if_pos rfl⟩)
    · exact .inl (if_neg ho)

/-- What a session comes to. -/
theorem locked {α : Type} {g : HeapId} {op : Locked α} {r : Option Fault} (h : w.Tidy todo)
    (hop : Locked.Screens r op ⟨w, []⟩) (hg : g < w.heaps.size) :
    Ends (RootedHeap.locked g op) w
      (fun p w' => w'.Tidy (Task.finalizing g p.2 ++ todo) ∧ w.Ages w')
      fun _ w' => w'.Tidy todo ∧ w.Ages w' := by
  refine (locked_condemns hop).mono ?_ ?_
  · rintro p w' ⟨-, w₁, htrades, hcondemns⟩
    have htidy := (h.even htrades.even).condemns hcondemns (htrades.size ▸ hg)
    exact ⟨htidy, htrades.even.ages hcondemns.ages⟩
  · rintro f w' ⟨-, -, w₁, htrades, rfl | ⟨dead, heap, hnodup, hlive, hheap, hlt, -⟩⟩
    · exact ⟨h.even htrades.even, (Ages.refl w).even htrades.even⟩
    · -- a heap never counts less objects than there are
      have hle := (h.even htrades.even).length_le hnodup hlive hheap
      exact absurd hlt (Nat.not_lt.mpr hle)

/-- A session that only counts and stores, with nothing to finalize. -/
theorem quiet {tasks : List Task} (h : w.Tidy []) (heven : w.Even w')
    (hidle : ∀ u ∈ tasks, u.buries = none) : w'.Tidy tasks ∧ w.Ages w' := by
  have hspent : w.Tidy (tasks ++ []) :=
    spend (t := .leave 0) (h.retask (List.Sublist.refl _) (List.Sublist.refl _)) hidle
  rw [List.append_nil] at hspent
  exact ⟨hspent.even heven, (Ages.refl w).even heven⟩

end Tidy

end World

/-! ## Steps -/

open World

section Steps

variable {w w' : World}

/-- Leaving a heap that is gone says no more than that. -/
theorem locked_dropRoot_none {g : HeapId} (hnone : w.heaps[g]? = none) (r : RootId) :
    locked g (Locked.dropRoot g r) w = .ok ((), []) w := by
  have hrun : Locked.dropRoot g r ⟨w, []⟩ = .ok () ⟨w, []⟩ := by
    have hlook : Locked.look (·.heaps[g]?) ⟨w, []⟩ = .ok w.heaps[g]? ⟨w, []⟩ := rfl
    rw [Locked.dropRoot, bind_of_ok hlook, hnone]
    rfl
  rw [locked, hrun]
  rfl

theorem idle_leave (g : HeapId) : ∀ u ∈ [Task.leave g], u.buries = none := by
  intro u hu
  rw [List.mem_singleton.mp hu]
  rfl

/-- A session for a task leaves the heap at the end. -/
theorem World.Tidy.locked_leaving {g : HeapId} {op : Locked Unit} {t : Task} {rest : List Task}
    (h : w.Tidy (t :: rest)) (hop : Locked.Routine op) (hg : g < w'.heaps.size) (heven : w.Even w') :
    Ends (RootedHeap.locked g op) w'
      (fun p w'' => w''.Tidy (Task.finalizing g p.2 ++ [.leave g] ++ rest) ∧ w.Ages w'')
      fun _ w'' => (w''.leave g).Tidy [] ∧ w.Ages (w''.leave g) := by
  have hspent := (h.spend (idle_leave g)).even heven
  refine (hspent.locked (hop ⟨w', []⟩) hg).mono ?_ ?_
  · rintro p w'' ⟨htidy, hages⟩
    rw [List.append_assoc]
    exact ⟨htidy, heven.ages hages⟩
  · rintro f w'' ⟨htidy, hages⟩
    have hleave : w''.Even (w''.leave g) := (Trades.leave w'' g).even
    exact ⟨htidy.undone.even hleave, heven.ages (hages.even hleave)⟩

/-- A task leaves a world that counts right, with what follows from it, even if it fails. -/
theorem Task.step_tidy {t : Task} {rest : List Task} (h : w.Tidy (t :: rest)) :
    Ends t.step w (fun more w' => w'.Tidy (more ++ rest) ∧ w.Ages w')
      fun _ w' => w'.Tidy [] ∧ w.Ages w' := by
  have hnone : w.Tidy ([] ++ rest) := h.spend (by simp)
  have hquiet {w' : World} (heven : w.Even w') : w'.Tidy ([] ++ rest) ∧ w.Ages w' :=
    ⟨hnone.even heven, (Ages.refl w).even heven⟩
  have hidle (more : List Task) (hmore : ∀ u ∈ more, u.buries = none) {w' : World}
      (heven : w.Even w') : w'.Tidy (more ++ rest) ∧ w.Ages w' :=
    ⟨(h.spend hmore).even heven, (Ages.refl w).even heven⟩
  -- counters change when a session ends and when a value or an object goes, and in no other task
  cases t with
  | dropValue o =>
      unfold Ends
      simp only [step]
      cases w.objects[o]? with
      | none => exact hquiet (.refl w)
      | some ob =>
          have hholdings : ∀ u ∈ ob.value.holdings.map Task.ofHolding, u.buries = none := by
            intro u hu
            obtain ⟨x, -, rfl⟩ := List.mem_map.mp hu
            cases x <;> rfl
          have hsame : w.Ages { w with dropped := w.dropped.push o } := fun o s hs => ⟨s, hs, .inl rfl⟩
          have hspent : World.Tidy { w with dropped := w.dropped.push o } (.leave 0 :: rest) :=
            h.dropValue.retask (List.Sublist.refl _) (List.Sublist.refl _)
          exact ⟨hspent.spend hholdings, hsame⟩
  | dropSlot s =>
      have htrades : w.Trades (w.writeSlot s (w.slotAt s).emptied) := .of_eq rfl rfl rfl
      refine hidle _ ?_ htrades.even
      intro u hu
      obtain ⟨o, -, rfl⟩ := List.mem_map.mp hu
      rfl
  | release o =>
      refine ends_release (fun _ => hquiet (.refl w)) (fun ob hob _ _ => ?_) fun ob _ => ?_
      · have heven : w.Even (w.enter ob.heap) := (Trades.enter w ob.heap).even
        exact h.locked_leaving (Locked.releaseStrong_routine o) (heven.size ▸ h.housed o ob hob) heven
      · split
        · exact ⟨h.undone, .refl w⟩
        · exact hquiet (.modifyObject w o (fun _ => rfl) fun _ => rfl)
  | dropWeak o => exact hquiet (.releaseWeak w o)
  | dropHandle a =>
      refine ends_dropHandle ?_
      by_cases hheap : a.heap < w.heaps.size
      · exact h.locked_leaving (Locked.dropRoot_routine a.heap a.root) hheap (.refl w)
      · have hgone := locked_dropRoot_none (Array.getElem?_eq_none (Nat.not_lt.mp hheap)) a.root
        unfold Ends
        rw [hgone]
        exact hidle _ (idle_leave a.heap) (.refl w)
  | leave g => exact hquiet (Trades.leave w g).even
  | retire g o =>
      unfold Ends
      simp only [step, World.retire]
      cases hheap : w.heaps[g]? with
      | none => exact hquiet (.refl w)
      | some heap =>
          cases hob : w.objects[o]? with
          | none => exact hquiet (.refl w)
          | some ob =>
              dsimp only
              split
              next =>
                have hnoted : w.Even (w.note (.leaked heap.config.name ob.typeName ob.strong)) :=
                  (Trades.note w _).even
                exact (h.even hnoted).poisoned (fun _ => rfl) fun _ => rfl
              next =>
                rw [if_pos (h.poison g heap hheap)]
                exact h.poisoned (fun _ => rfl) fun _ => rfl

/-! ## Calls -/

namespace Call

/-- A call for the one heap leaves a world that counts right, with what is to be done, even if it
fails. -/
theorem start_tidy {call : Call} {c : Client} (h : c.world.Tidy []) (hsingle : call.Single c) :
    Ends call.start c.world (fun p w' => w'.Tidy p.2 ∧ c.world.Ages w')
      fun _ w' => w'.Tidy [] ∧ c.world.Ages w' := by
  obtain ⟨hcreate, hnames⟩ := hsingle
  generalize c.world = w at *
  -- a call counts in its session, so the ways a call begins are told apart and not the calls
  cases call.course w with
  | @session α g op give hg hop hstart =>
      have hsession : Ends (session g op give) w (fun p w' => w'.Tidy p.2 ∧ w.Ages w')
          fun _ w' => w'.Tidy [] ∧ w.Ages w' := by
        refine (h.locked hop (hnames g hg)).bind fun p w' htidy => ?_
        rwa [List.append_nil] at htidy
      unfold Ends at hsession ⊢
      rwa [hstart]
  | foreign _ _ hstart =>
      unfold Ends
      rw [hstart]
      exact h.quiet (Trades.note w _).even (by simp)
  | quiet heven hidle _ hstart =>
      unfold Ends
      rw [hstart]
      exact h.quiet heven hidle
  | @found config hcall =>
      obtain ⟨hnone, hpoison⟩ := hcreate config hcall
      subst hcall
      exact ⟨h.createHeap hnone hpoison, fun o s hs => ⟨s, hs, .inl rfl⟩⟩
  | @place g n value hcall =>
      subst hcall
      have hg := hnames g List.mem_cons_self
      have hsize : (w.enroll g n value).heaps.size = w.heaps.size := Array.size_modify
      have hages : ∀ w', (w.enroll g n value).Ages w' → w.Ages w' :=
        fun w' hages o s hs => hages o s (stateAt_enroll hs)
      refine ends_alloc
        (((h.enroll hg).locked (Locked.introduce_routine g _ n ⟨_, []⟩) (hsize ▸ hg)).mono ?_ ?_)
      · rintro p w' ⟨htidy, hafter⟩
        rw [List.append_nil] at htidy
        exact ⟨htidy, hages w' hafter⟩
      · rintro f w' ⟨htidy, hafter⟩
        exact ⟨htidy, hages w' hafter⟩
  | @upgrade x hcall =>
      subst hcall
      refine ends_upgrade (fun _ => ⟨h, .refl w⟩) fun o _ ob hob _ => ?_
      have heven : w.Even (w.enter ob.heap) := (Trades.enter w ob.heap).even
      have hg : ob.heap < (w.enter ob.heap).heaps.size := heven.size ▸ h.housed o ob hob
      have hlocked := (h.even heven).locked (WeakRef.claim_routine ob.heap o ⟨_, []⟩) hg
      refine hlocked.mono ?_ ?_
      · rintro ⟨found, dead⟩ w' ⟨htidy, hages⟩
        have hundone := htidy.undone
        cases found with
        | some a => exact ⟨hundone, heven.ages hages⟩
        | none =>
            obtain ⟨hleft, -⟩ := hundone.quiet (.refl w') (idle_leave ob.heap)
            exact ⟨hleft, heven.ages hages⟩
      · rintro f w' ⟨htidy, hages⟩
        have hleave : w'.Even (w'.leave ob.heap) := (Trades.leave w' ob.heap).even
        exact ⟨htidy.even hleave, heven.ages (hages.even hleave)⟩

/-- The world counts right after a call for the one heap, whatever comes of it. -/
theorem run_tidy {call : Call} {c : Client} (h : c.world.Tidy []) (hsingle : call.Single c) :
    Ends call.run c.world (fun _ w' => w'.Tidy []) fun _ w' => w'.Tidy [] := by
  refine run_ends_of (M := fun _ tasks w => w.Tidy tasks) ?_ ?_ ?_
  · exact (start_tidy h hsingle).mono (fun _ _ hs => hs.1) fun _ _ hs => hs.1
  · exact fun _ t rest w hw => (Task.step_tidy hw).mono (fun _ _ hs => hs.1) fun _ _ hs => hs.1
  · exact fun _ g w hw => hw.even (Trades.enter w g).even

end Call

end Steps

/-! ## Runs -/

namespace Client

variable {c : Client}

theorem tidy_empty : World.Tidy {} [] :=
  ⟨Nat.zero_le _, by simp, by simp, by simp, by simp, by simp, List.nodup_nil, by simp, List.nodup_nil,
    by simp, List.nodup_nil, by simp⟩

theorem Ventures.tidy (h : c.Ventures Call.Single) : c.world.Tidy c.todo := by
  induction h with
  | start => exact tidy_empty
  | @ran c call r w _ hrest hmay hrun ih => exact (Call.run_tidy (hrest.1 ▸ ih) hmay).of_ok hrun
  | @failed c call f w _ hrest hmay hrun ih => exact (Call.run_tidy (hrest.1 ▸ ih) hmay).of_error hrun
  | @opened c call r tasks w _ hrest hmay hstart ih =>
      exact ((Call.start_tidy (hrest.1 ▸ ih) hmay).of_ok hstart).1
  | @stepped c t rest more w _ htodo hstep ih =>
      exact ((Task.step_tidy (htodo ▸ ih)).of_ok hstep).1
  | copied _ _ ih => exact ih

/-- Whatever a client asks of one heap that keeps collected objects, and whatever comes of it: live and
collected objects make up what was allocated, registered and released roots what was acquired, the
heap counts as many live objects and roots as there are, and no value was dropped twice. Objects only
ever go from live to collecting, and from there to poisoned. -/
theorem Ventures.reconciled (h : c.Ventures Call.Single) :
    (∀ (g : HeapId) (heap : Heap), c.world.heaps[g]? = some heap →
      (c.world.stats g).liveObjects + (c.world.stats g).collected = (c.world.stats g).allocations ∧
      (c.world.stats g).liveRoots + (c.world.stats g).rootsReleased =
        (c.world.stats g).rootsAcquired ∧
      (c.world.stats g).liveObjects = c.world.liveCount ∧
      (c.world.stats g).liveRoots = (c.world.rootsAt g).length ∧
      ((c.world.rootsAt g).map Prod.fst).Nodup) ∧
    c.world.dropped.toList.Nodup ∧
    (c.AtRest → ∀ call : Call, call.Single c →
      Ends call.start c.world (fun _ => c.world.Ages) fun _ => c.world.Ages) ∧
    ∀ (t : Task) (rest : List Task), c.todo = t :: rest →
      Ends t.step c.world (fun _ => c.world.Ages) fun _ => c.world.Ages := by
  have htidy := h.tidy
  refine ⟨fun g heap hheap => ?_, htidy.dropped_nodup, fun hrest call hsingle => ?_,
    fun t rest htodo => ?_⟩
  · have hstats : c.world.stats g = .capture heap.counters heap.live heap.roots.size := by
      rw [World.stats, hheap]
    have hroots : c.world.rootsAt g = heap.roots.active := by
      rw [World.rootsAt, World.registryAt, hheap]
    have hreckoned := htidy.reckoned g heap hheap
    rw [hstats, hroots, World.liveCount_eq_card]
    exact ⟨htidy.total g heap hheap, hreckoned.balance, htidy.live_eq g heap hheap, rfl,
      hreckoned.nodup⟩
  · exact (Call.start_tidy (hrest.1 ▸ htidy) hsingle).mono (fun _ _ hs => hs.2) fun _ _ hs => hs.2
  · exact (Task.step_tidy (htodo ▸ htidy)).mono (fun _ _ hs => hs.2) fun _ _ hs => hs.2

/-- A node that reports its field when disconnecting only, and another object. -/
def lopsided : Client :=
  let founded := ({ } : Client).attempt (.createHeap { verify := false })
  let leafed := (founded.attempt (.alloc 0 "leaf" .plain)).attempt (.newField (some ⟨0, 1, 0⟩))
  (leafed.attempt (.alloc 0 "node" (.uneven 0 0 1))).attempt (.alloc 0 "other" .plain)

/-- The node's handle was to be moved to the other object, but the node cannot be disconnected. -/
def torn : Client := lopsided.attempt (.assign ⟨1, 2, 0⟩ ⟨2, 3, 0⟩)

theorem torn_ventures : torn.Ventures Call.Single ∧ torn.AtRest := by
  have hsingle (c : Client) (call : Call) (hcall : ∀ config, call ≠ .createHeap config)
      (hnames : ∀ g ∈ call.heaps, g = 0) (hsize : c.world.heaps.size = 1) : call.Single c :=
    ⟨fun config heq => absurd heq (hcall config),
      fun g hg => by rw [hnames g hg, hsize]; exact Nat.zero_lt_one⟩
  have hfounded : (Call.createHeap { verify := false }).Single {} := by
    refine ⟨?_, by simp [Call.heaps]⟩
    rintro _ ⟨⟩
    exact ⟨rfl, rfl⟩
  have hstart : Ventures Call.Single {} ∧ AtRest {} := ⟨.start, rfl, rfl⟩
  unfold torn lopsided
  refine Ventures.attempt (Ventures.attempt (Ventures.attempt (Ventures.attempt (Ventures.attempt
    (Ventures.attempt hstart hfounded) ?_) ?_) ?_) ?_) ?_
  all_goals exact hsingle _ _ (by simp) (by simp [Call.heaps]) (by cbv)

/-- The handle's root was moved all the same, and everything still counts right. -/
theorem torn_reconciled :
    torn.world.log.toList.getLast? = some (.violated (.protocol "leaf" (.notConnected 2))) ∧
      (torn.world.stats 0).liveObjects + (torn.world.stats 0).collected =
        (torn.world.stats 0).allocations ∧
      (torn.world.stats 0).liveRoots + (torn.world.stats 0).rootsReleased =
        (torn.world.stats 0).rootsAcquired ∧
      (torn.world.stats 0).liveObjects = torn.world.liveCount ∧ torn.world.dropped.toList.Nodup := by
  obtain ⟨hcounts, hdropped, -⟩ := torn_ventures.1.reconciled
  have hheap : ∃ heap, torn.world.heaps[0]? = some heap := by
    rw [← Option.isSome_iff_exists]
    cbv
  obtain ⟨heap, hheap⟩ := hheap
  obtain ⟨hobjects, hroots, hlive, -⟩ := hcounts 0 heap hheap
  exact ⟨by cbv, hobjects, hroots, hlive, hdropped⟩

end Client

end RootedHeap
