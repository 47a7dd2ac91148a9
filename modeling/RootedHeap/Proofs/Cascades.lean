import Mathlib.Algebra.BigOperators.Group.Finset.Piecewise
import RootedHeap.Proofs.Allocations
import RootedHeap.Proofs.Runs

/-! # Cascades of finalization

What a call collects is finalized by tasks, and these may collect more, in whatever heaps. A client
that behaves well goes through `Client.stage`: the session of the call, and one task after another
until none is left. Each stage is a turn (`Client.Goes`), so every object collected on the way has its
value dropped once, and each batch of objects collected together has all its values dropped before
one of them is put away (`Task.Defers`). The heaps count all of it as collected.
-/

namespace RootedHeap

open World

/-- Among the tasks, whenever one drops a value of the batch, all of the batch are still to be put
away after it. -/
def Task.Defers (batch : ObjId → Prop) : List Task → Prop
  | [] => True
  | t :: rest =>
    (∀ o, t.drops = some o → batch o → ∀ p, batch p → p ∈ rest.filterMap retires) ∧
      Defers batch rest

theorem Task.buries_of_drops {t : Task} {o : ObjId} (h : t.drops = some o) : t.buries = some o := by
  cases t <;> first | exact h | cases h

namespace Task.Defers

variable {batch : ObjId → Prop} {tasks more rest : List Task} {t : Task} {o p : ObjId}

theorem prepend (h : Defers batch rest) (hmore : ∀ u ∈ more, ∀ o, u.drops = some o → ¬ batch o) :
    Defers batch (more ++ rest) := by
  induction more with
  | nil => exact h
  | cons t more ih =>
      obtain ⟨ht, hmore⟩ := List.forall_mem_cons.mp hmore
      exact ⟨fun o ho hbatch => absurd hbatch (ht o ho), ih hmore⟩

theorem mem_retires (h : Defers batch tasks) (ht : t ∈ tasks) (ho : t.drops = some o)
    (hbatch : batch o) (hp : batch p) : p ∈ tasks.filterMap retires := by
  induction tasks with
  | nil => cases ht
  | cons u rest ih =>
      have hrest : p ∈ rest.filterMap retires := by
        rcases List.mem_cons.mp ht with rfl | ht
        · exact h.1 o ho hbatch p hp
        · exact ih h.2 ht
      rw [List.filterMap_cons]
      split
      · exact hrest
      · exact List.mem_cons_of_mem _ hrest

/-- The values of what was collected are dropped first, and only then are the objects put away. -/
theorem finalizing {g : HeapId} {dead : List ObjId} (hbatch : ∀ p, batch p → p ∈ dead)
    (hrest : ∀ u ∈ rest, ∀ o, u.drops = some o → ¬ batch o) :
    Defers batch (Task.finalizing g dead ++ rest) := by
  have hretires : (dead.map (retire g)).filterMap retires = dead := by
    simp [List.filterMap_map, Function.comp_def, retires]
  have hnone : Defers batch rest := by
    have hnil : Defers batch [] := trivial
    rw [← List.append_nil rest]
    exact hnil.prepend hrest
  have hlater : Defers batch (dead.map (retire g) ++ rest) := by
    refine hnone.prepend fun u hu o ho => ?_
    obtain ⟨p, -, rfl⟩ := List.mem_map.mp hu
    cases ho
  rw [Task.finalizing, List.append_assoc]
  -- every value that is dropped has all of `dead` behind it
  suffices hvalues : ∀ os : List ObjId,
      Defers batch (os.map dropValue ++ (dead.map (retire g) ++ rest)) from hvalues dead
  intro os
  induction os with
  | nil => exact hlater
  | cons o os ih =>
      refine ⟨fun _ _ _ p hp => ?_, ih⟩
      change p ∈ List.filterMap retires (os.map dropValue ++ (dead.map (retire g) ++ rest))
      rw [List.filterMap_append, List.filterMap_append, hretires]
      exact List.mem_append_right _ (List.mem_append_left _ (hbatch p hp))

end Task.Defers

namespace World

/-- `o` was put away: it is poisoned, or its allocation was given back. -/
def PutAway (w : World) (o : ObjId) : Prop :=
  ∃ ob, w.objects[o]? = some ob ∧ (ob.state = .poisoned ∨ ob.freed = true)

/-- All that the heaps count as collected. -/
def collectedTotal (w : World) : Nat := ∑ g ∈ Finset.range w.heaps.size, (w.stats g).collected

/-! ## Counting what is collected -/

section Count

variable {w w' : World} {own : SlotId → Prop} {spent : Option Task} {todo : Multiset Task}
  {held : Multiset Holding} {g : HeapId} {dead : List ObjId} {tail : List Task}

theorem collectedAt_of_size_le (w : World) {g : HeapId} (hg : w.heaps.size ≤ g) :
    w.collectedAt g = 0 := by
  rw [collectedAt, Array.getElem?_eq_none hg]

theorem collectedTotal_eq (w : World) {n : Nat} (hn : w.heaps.size ≤ n) :
    w.collectedTotal = ∑ g ∈ Finset.range n, w.collectedAt g := by
  have hstats (g : HeapId) : (w.stats g).collected = w.collectedAt g := by
    unfold stats collectedAt
    cases w.heaps[g]? <;> rfl
  unfold collectedTotal
  simp only [hstats]
  refine Finset.sum_subset (Finset.range_mono hn) fun g _ hg => ?_
  exact w.collectedAt_of_size_le (by simpa using hg)

/-- A heap counts what it collects in a turn. -/
theorem Turn.collectedTotal (h : World.Turn own spent todo held g dead tail w w') :
    w'.collectedTotal = w.collectedTotal + dead.length := by
  obtain ⟨w₁, hgrows, hreclaimed⟩ := h.collects
  have hcollected (g' : HeapId) :
      w'.collectedAt g' = w.collectedAt g' + if g' = g then dead.length else 0 := by
    rw [hreclaimed.collected, hgrows.collected]
  rw [w'.collectedTotal_eq (Nat.le_max_left _ w.heaps.size),
    w.collectedTotal_eq (Nat.le_max_right w'.heaps.size _),
    Finset.sum_congr rfl fun g' _ => hcollected g', Finset.sum_add_distrib, Finset.sum_ite_eq']
  split
  next => rfl
  next hg =>
    -- a heap that does not exist collects nothing
    have hsize : w'.heaps.size ≤ g := by
      rw [Finset.mem_range] at hg
      omega
    have hnone := hcollected g
    rw [w'.collectedAt_of_size_le hsize, if_pos rfl] at hnone
    rw [show dead.length = 0 by omega]

end Count

end World

theorem Crowd.Interleaved.card_departed {ι : Type} [Fintype ι] [DecidableEq ι] {x : Crowd ι}
    (h : x.Interleaved) : x.world.departed.card = x.world.collectedTotal := by
  induction h with
  | start => rfl
  | @step x y hx hstep ih =>
      cases hstep with
      | @thread i c hclient =>
          obtain ⟨own, spent, rest, held, g, dead, tail, htakes⟩ := hx.sound.moves hclient
          change c.world.departed.card = c.world.collectedTotal
          rw [htakes.turn.departed, htakes.turn.collectedTotal, Multiset.card_add, ih,
            Multiset.coe_card]
      | handOver => exact ih

/-! ## What tasks leave alone -/

namespace World

/-- Heaps keep their configurations, and what is poisoned stays so. -/
structure Preserves (w w' : World) : Prop where
  config : ∀ g : HeapId, w'.heaps[g]?.map Heap.config = w.heaps[g]?.map Heap.config
  poisoned : ∀ o, w.stateAt o = some .poisoned → w'.stateAt o = some .poisoned

/-- `o` is kept as poisoned if its heap keeps collected objects. -/
def Shelved (w : World) (o : ObjId) : Prop :=
  ∀ (g : HeapId) (heap : Heap), w.owns g o = true → w.heaps[g]? = some heap →
    heap.config.poison = true → w.stateAt o = some .poisoned

section Preserves

variable {w w' w'' : World}

theorem Preserves.trans (h : w.Preserves w') (h' : w'.Preserves w'') : w.Preserves w'' :=
  ⟨fun g => (h'.config g).trans (h.config g), fun o ho => h'.poisoned o (h.poisoned o ho)⟩

theorem map_config_of_heaps (hsize : w'.heaps.size = w.heaps.size)
    (hheaps : ∀ (g : HeapId) (heap heap' : Heap), w.heaps[g]? = some heap →
      w'.heaps[g]? = some heap' → heap'.config = heap.config) (g : HeapId) :
    w'.heaps[g]?.map Heap.config = w.heaps[g]?.map Heap.config := by
  by_cases hg : g < w.heaps.size
  · have hheap := Array.getElem?_eq_getElem hg
    have hheap' := Array.getElem?_eq_getElem (hsize.symm ▸ hg : g < w'.heaps.size)
    rw [hheap, hheap', Option.map_some, Option.map_some, hheaps g _ _ hheap hheap']
  · rw [Array.getElem?_eq_none (Nat.not_lt.mp hg), Array.getElem?_eq_none (hsize ▸ Nat.not_lt.mp hg)]

theorem Even.preserves (h : w.Even w') : w.Preserves w' := by
  refine ⟨map_config_of_heaps h.size fun g heap heap' hheap hheap' => ?_, fun o ho => ?_⟩
  · exact congrArg Prod.fst (h.heaps g heap heap' hheap hheap').stock
  · rwa [h.stateAt]

theorem Trades.owns (h : w.Trades w') (g : HeapId) (o : ObjId) : w'.owns g o = w.owns g o := by
  have hheap (w : World) : w.owns g o =
      ((w.objects[o]?.map Object.heap).map fun h => decide (h = g)).getD false := by
    unfold World.owns
    cases w.objects[o]? <;> rfl
  rw [hheap, hheap w, h.map_object fun _ => rfl]

theorem Condemns.preserves {g : HeapId} {dead : List ObjId} (h : w.Condemns g dead w') :
    w.Preserves w' := by
  refine ⟨map_config_of_heaps h.size fun g' heap heap' hheap hheap' => ?_, fun o ho => ?_⟩
  · exact (h.heaps g' heap heap' hheap hheap').config
  · have hnot : o ∉ dead := by
      intro hdead
      cases ho.symm.trans (isLive_iff_stateAt.mp (h.live o hdead))
    rw [h.stateAt, ho, Option.map_some, if_neg hnot]

theorem Preserves.poison (w : World) (o : ObjId) :
    w.Preserves (w.modifyObject o ({ · with state := .poisoned })) := by
  refine ⟨fun _ => rfl, fun p hp => ?_⟩
  rw [stateAt_modifyObject (s := .poisoned) (fun _ => rfl), hp, Option.map_some, ite_self]

theorem Preserves.retire (w : World) (g : HeapId) (o : ObjId) : w.Preserves (w.retire g o) := by
  unfold World.retire
  split
  · split
    · exact (Trades.note w _).even.preserves.trans (.poison _ o)
    · split
      · exact .poison w o
      · exact (Even.releaseWeak w o).preserves
  · exact (Even.refl w).preserves

/-- A session that only stores, tags and registers, and what it condemns. -/
theorem Preserves.locked {α : Type} {g : HeapId} {op : Locked α} (hop : Locked.Routine op) :
    Ends (RootedHeap.locked g op) w (fun _ w' => w.Preserves w') fun _ _ => True := by
  refine (locked_condemns (hop ⟨w, []⟩)).mono ?_ fun _ _ _ => trivial
  rintro p w' ⟨-, w₁, htrades, hcondemns⟩
  exact htrades.even.preserves.trans hcondemns.preserves

/-- An object that is put away is kept if its heap is to keep it. -/
theorem stateAt_retire {g : HeapId} {heap : Heap} {o : ObjId} {ob : Object}
    (hheap : w.heaps[g]? = some heap) (hpoison : heap.config.poison = true)
    (hob : w.objects[o]? = some ob) : (w.retire g o).stateAt o = some .poisoned := by
  have hpoisoned (w₁ : World) (hobjects : w₁.objects = w.objects) :
      (w₁.modifyObject o ({ · with state := .poisoned })).stateAt o = some .poisoned := by
    rw [stateAt_modifyObject (s := .poisoned) (fun _ => rfl), stateAt, hobjects, hob]
    simp
  unfold World.retire
  simp only [hheap, hob, if_pos hpoison]
  split
  · exact hpoisoned _ rfl
  · exact hpoisoned w rfl

end Preserves

end World

theorem Task.step_preserves (t : Task) (w : World) :
    Ends t.step w (fun _ w' => w.Preserves w') fun _ _ => True := by
  have hsame {w' : World} (htrades : w.Trades w') : w.Preserves w' := htrades.even.preserves
  cases t with
  | dropValue o =>
      unfold Ends
      simp only [step]
      cases w.objects[o]? with
      | none => exact hsame (.refl w)
      | some ob => exact ⟨fun _ => rfl, fun _ => id⟩
  | dropSlot s => exact hsame (.of_eq rfl rfl rfl)
  | release o =>
      refine ends_release (fun _ => hsame (.refl w)) (fun ob _ _ _ => ?_) fun ob _ => ?_
      · refine (Preserves.locked (Locked.releaseStrong_routine o)).mono (fun p w' h => ?_)
          fun _ _ _ => trivial
        exact (hsame (.enter w ob.heap)).trans h
      · split
        · trivial
        · exact hsame (.modifyObject w o fun _ => rfl)
  | dropWeak o => exact (Even.releaseWeak w o).preserves
  | dropHandle a =>
      exact ends_dropHandle
        ((Preserves.locked (Locked.dropRoot_routine a.heap a.root)).mono (fun _ _ => id)
          fun _ _ _ => trivial)
  | leave g => exact hsame (.leave w g)
  | retire g o => exact .retire w g o

namespace World

section Shelved

variable {w w' : World} {own : SlotId → Prop} {spent : Option Task} {todo : Multiset Task}
  {held : Multiset Holding} {g g' : HeapId} {dead : List ObjId} {tail : List Task} {o : ObjId}

theorem Shelved.preserves (h : w.Shelved o) (hpreserves : w.Preserves w')
    (howns : ∀ g, w'.owns g o = w.owns g o) : w'.Shelved o := by
  intro g heap hown hheap hpoison
  have hconfig := hpreserves.config g
  rw [hheap, Option.map_some] at hconfig
  obtain ⟨heap₀, hheap₀, hsame⟩ := Option.map_eq_some_iff.mp hconfig.symm
  exact hpreserves.poisoned o (h g heap₀ (howns g ▸ hown) hheap₀ (hsame ▸ hpoison))

/-- An object that is put away is kept if its heap is to keep it. -/
theorem shelved_retire (hown : w.owns g o = true)
    (howns : ∀ g', (w.retire g o).owns g' o = w.owns g' o) : (w.retire g o).Shelved o := by
  intro g' heap hown' hheap hpoison
  obtain ⟨ob, hob, rfl⟩ := owns_iff.mp hown
  rw [howns] at hown'
  obtain ⟨ob', hob', rfl⟩ := owns_iff.mp hown'
  cases hob.symm.trans hob'
  have hconfig := (Preserves.retire w ob.heap o).config ob.heap
  rw [hheap, Option.map_some] at hconfig
  obtain ⟨heap₀, hheap₀, hsame⟩ := Option.map_eq_some_iff.mp hconfig.symm
  exact stateAt_retire hheap₀ (hsame ▸ hpoison) hob

namespace Turn

variable (h : World.Turn own spent todo held g dead tail w w')

include h

theorem owns (ho : o < w.objects.size) (g' : HeapId) : w'.owns g' o = w.owns g' o := by
  obtain ⟨w₁, hgrows, hreclaimed⟩ := h.collects
  rw [hreclaimed.alike.owns, owns_collect, owns_face, owns_face, hgrows.objects o ho]

/-- A turn puts away what its heap owns. -/
theorem owned (ho : .retire g' o ∈ Task.finalizing g dead ++ tail) : w'.owns g' o = true := by
  rcases List.mem_append.mp ho with ho | ho
  · rcases List.mem_append.mp ho with ho | ho
    · obtain ⟨p, -, hp⟩ := List.mem_map.mp ho
      cases hp
    · obtain ⟨p, hp, heq⟩ := List.mem_map.mp ho
      cases heq
      obtain ⟨w₁, -, hreclaimed⟩ := h.collects
      rw [hreclaimed.alike.owns, owns_collect]
      exact hreclaimed.owned o hp
  · cases h.idle _ ho

/-- What a turn collects is to be put away. -/
theorem mem_retires (ho : w'.Gone o) (hnot : ¬ w.Gone o) :
    o ∈ (Task.finalizing g dead ++ tail).filterMap Task.retires := by
  rw [Task.filterMap_retires h.idle]
  exact (h.gone_iff.mp ho).resolve_left hnot

end Turn

end Shelved

end World

/-! ## The stages of a call -/

namespace Client

variable {c c' : Client} {call : Call} {batch : ObjId → Prop} {o p : ObjId} {m n : Nat}

/-- The client before a call, after its session, and after each of the tasks that follow. -/
def stage (c : Client) (call : Call) : Nat → Client
  | 0 => c
  | n + 1 => c.complete call n

/-- The client takes a turn, or stays as it is. -/
def Goes (c c' : Client) : Prop :=
  c' = c ∨ ∃ own spent rest held g dead tail, c.todo = Option.toList spent ++ rest ∧
    c'.todo = Task.finalizing g dead ++ tail ++ rest ∧
    World.Turn own spent rest held g dead tail c.world c'.world

namespace Goes

theorem gone (h : c.Goes c') (ho : c.world.Gone o) : c'.world.Gone o := by
  rcases h with rfl | ⟨_, _, _, _, _, _, _, -, -, hturn⟩
  · exact ho
  · exact hturn.gone_iff.mpr (.inl ho)

/-- Later turns drop no values of a batch but those that are to be dropped. -/
theorem defers (h : c.Goes c') (hgone : ∀ o, batch o → c.world.Gone o)
    (hdefers : Task.Defers batch c.todo) : Task.Defers batch c'.todo := by
  rcases h with rfl | ⟨own, spent, rest, held, g, dead, tail, hbefore, hafter, hturn⟩
  · exact hdefers
  · have hrest : Task.Defers batch rest := by
      rw [hbefore] at hdefers
      cases spent with
      | none => exact hdefers
      | some t => exact hdefers.2
    rw [hafter]
    refine hrest.prepend fun u hu o ho hbatch => ?_
    have hdead : o ∈ (Task.finalizing g dead ++ tail).filterMap Task.drops :=
      List.mem_filterMap.mpr ⟨u, hu, ho⟩
    rw [Task.filterMap_drops hturn.idle] at hdead
    exact hturn.not_gone hdead (hgone o hbatch)

/-- What a turn collects has its values dropped before any of it is put away. -/
theorem defers_batch (h : c.Goes c')
    (hburied : ∀ t ∈ c.todo, ∀ o, t.buries = some o → c.world.Gone o) :
    Task.Defers (fun o => ¬ c.world.Gone o ∧ c'.world.Gone o) c'.todo := by
  rcases h with rfl | ⟨own, spent, rest, held, g, dead, tail, hbefore, hafter, hturn⟩
  · rw [← List.append_nil c'.todo]
    refine Task.Defers.prepend trivial fun u _ o _ hbatch => hbatch.1 hbatch.2
  · rw [hafter, List.append_assoc]
    -- tasks from before the turn only drop values of what was gone already
    refine .finalizing (fun p hp => (hturn.gone_iff.mp hp.2).resolve_left hp.1)
      fun u hu o ho hbatch => ?_
    rcases List.mem_append.mp hu with hu | hu
    · cases (Task.drops_of_idle (hturn.idle u hu)).symm.trans ho
    · refine hbatch.1 (hburied u ?_ o (Task.buries_of_drops ho))
      rw [hbefore]
      exact List.mem_append_right _ hu

end Goes

theorem advance_of_done (h : c.todo = []) : c.advance = c := by
  unfold Client.advance
  rw [h]

theorem advance_of_step {t : Task} {rest more : List Task} {w : World} (htodo : c.todo = t :: rest)
    (hstep : t.step c.world = .ok more w) :
    c.advance = { c with world := w, todo := more ++ rest } := by
  unfold Client.advance
  rw [htodo]
  dsimp only
  rw [hstep]

/-- A task of a client is carried out, if there is one. -/
theorem Sound.advance_cases (h : c.Sound) : (c.todo = [] ∧ c.advance = c) ∨
    ∃ t rest more w, c.todo = t :: rest ∧ t.step c.world = .ok more w ∧
      c.advance = { c with world := w, todo := more ++ rest } ∧
      t.Advances c.world rest c.held c.heaps c.incoming more w := by
  cases htodo : c.todo with
  | nil => exact .inl ⟨rfl, advance_of_done htodo⟩
  | cons t rest =>
      have horderly := h.orderly
      unfold Orderly at horderly
      rw [htodo, ← Multiset.cons_coe] at horderly
      obtain ⟨more, w, hstep, hadvances⟩ := (Task.step_ends horderly).exists_ok
      exact .inr ⟨t, rest, more, w, rfl, hstep, advance_of_step htodo hstep, hadvances⟩

theorem Sound.advance_goes (h : c.Sound) : c.Goes c.advance := by
  rcases h.advance_cases with ⟨-, hsame⟩ | ⟨t, rest, more, w, htodo, -, hadvance, hadvances⟩
  · exact .inl hsame
  · obtain ⟨g, dead, tail, rfl, hturn⟩ := hadvances.turns
    rw [hadvance]
    exact .inr ⟨_, some t, rest, _, g, dead, tail, htodo, rfl, hturn⟩

/-- The value of what is on its way out was dropped, or is to be dropped. -/
theorem Reached.drops_of_gone (h : c.Reached) (hgone : c.world.Gone o) (hnot : o ∉ c.world.dropped) :
    ∃ t ∈ c.todo, t.drops = some o := by
  have hdeparted : o ∈ (c.among ()).world.departed := mem_departed.mpr hgone
  rw [← (h.interleaved ()).sound.dropped, todo_among, Multiset.mem_add] at hdeparted
  rcases hdeparted with hdropped | hdrops
  · exact absurd (Array.mem_toList_iff.mp (Multiset.mem_coe.mp hdropped)) hnot
  · obtain ⟨t, ht, hto⟩ := (Multiset.mem_filterMap _ _).mp hdrops
    exact ⟨t, Multiset.mem_coe.mp ht, hto⟩

/-- Once a call is over, what is on its way out are the objects whose values were dropped. -/
theorem Reached.dropped_eq (h : c.Reached) (hrest : c.AtRest) :
    (c.world.dropped.toList : Multiset ObjId) = c.world.departed := by
  have hdropped := (h.interleaved ()).sound.dropped
  rw [todo_among, hrest.1, Multiset.coe_nil, Multiset.filterMap_zero, add_zero] at hdropped
  exact hdropped

theorem Reached.size_dropped (h : c.Reached) (hrest : c.AtRest) :
    c.world.dropped.size = c.world.collectedTotal := by
  have hcard := (h.interleaved ()).card_departed
  rw [among_world, ← h.dropped_eq hrest, Multiset.coe_card, Array.length_toList] at hcard
  exact hcard

/-- What is to be put away was not put away yet. -/
theorem Reached.not_putAway (h : c.Reached) (ho : o ∈ c.todo.filterMap Task.retires) :
    ¬ c.world.PutAway o := by
  have hweighed := (h.interleaved ()).weighed
  rw [todo_among, among_world] at hweighed
  have hretires : o ∈ (c.todo : Multiset Task).filterMap Task.retires := by
    rwa [Multiset.filterMap_coe, Multiset.mem_coe]
  rintro ⟨ob, hob, hpoisoned | hfreed⟩
  · have hstate := hweighed.collecting_of_retires hretires
    rw [stateAt, hob, Option.map_some, hpoisoned] at hstate
    cases hstate
  · exact (hweighed.freed_idle hob hfreed).2.1 hretires

/-- What was collected after `old` is still to be put away by its heap, or kept if its heap keeps
collected objects. -/
structure Shelving (c : Client) (old : ObjId → Prop) : Prop where
  owned : ∀ g o, .retire g o ∈ c.todo → c.world.owns g o = true
  shelved : ∀ o, ¬ old o → c.world.Gone o →
    o ∈ c.todo.filterMap Task.retires ∨ c.world.Shelved o

theorem Shelving.advance {old : ObjId → Prop} (h : c.Shelving old) (hsound : c.Sound) :
    c.advance.Shelving old := by
  rcases hsound.advance_cases with
    ⟨-, hsame⟩ | ⟨t, rest, more, w, htodo, hstep, hadvance, hadvances⟩
  · rwa [hsame]
  · obtain ⟨g, dead, tail, rfl, hturn⟩ := hadvances.turns
    have hpreserves : c.world.Preserves w := (Task.step_preserves t c.world).of_ok hstep
    have hburied := hsound.orderly.guarded.buried
    rw [hadvance]
    refine ⟨fun g' o ho => ?_, fun o hold hgone => ?_⟩
    · rcases List.mem_append.mp ho with ho | ho
      · exact hturn.owned ho
      · have hmem : Task.retire g' o ∈ c.todo := htodo ▸ List.mem_cons_of_mem _ ho
        rw [hturn.owns (hburied _ hmem o rfl).1]
        exact h.owned g' o hmem
    · dsimp only
      rw [List.filterMap_append]
      by_cases hbefore : c.world.Gone o
      · have howns := hturn.owns hbefore.1
        rcases h.shelved o hold hbefore with hretires | hshelved
        · obtain ⟨u, hu, huo⟩ := List.mem_filterMap.mp hretires
          rw [htodo] at hu
          rcases List.mem_cons.mp hu with rfl | hu
          · -- this is the task that puts `o` away
            cases u <;> cases huo
            obtain rfl := (EStateM.Result.ok.inj hstep).2
            exact .inr (shelved_retire (h.owned _ o (htodo ▸ List.mem_cons_self)) howns)
          · exact .inl (List.mem_append_right _ (List.mem_filterMap.mpr ⟨u, hu, huo⟩))
        · exact .inr (hshelved.preserves hpreserves howns)
      · exact .inl (List.mem_append_left _ (hturn.mem_retires hgone hbefore))

section Stages

variable (h : c.Reached) (hrest : c.AtRest) (hallowed : call.Allowed c)
  (hstarts : c.starts call = true)

theorem stage_succ (m : Nat) : c.stage call (m + 2) = (c.stage call (m + 1)).advance :=
  Function.iterate_succ_apply' ..

/-- Once no task is left, nothing more happens. -/
theorem stage_of_done (hdone : (c.stage call (n + 1)).todo = []) (m : Nat) :
    c.stage call (n + 1 + m) = c.stage call (n + 1) := by
  induction m with
  | zero => rfl
  | succ m ih =>
      have hnext : c.stage call (n + 1 + (m + 1)) = (c.stage call (n + 1 + m)).advance := by
        rw [show n + 1 + (m + 1) = n + m + 2 by omega, show n + 1 + m = n + m + 1 by omega]
        exact stage_succ (n + m)
      rw [hnext, ih, advance_of_done hdone]

include h hrest hallowed hstarts

theorem Reached.stage (m : Nat) : (c.stage call m).Reached := by
  cases m with
  | zero => exact h
  | succ m =>
      induction m with
      | zero => exact h.begin hrest hallowed hstarts
      | succ m ih =>
          rw [stage_succ]
          exact ih.advance

theorem Reached.stage_goes (m : Nat) : (c.stage call m).Goes (c.stage call (m + 1)) := by
  cases m with
  | zero =>
      obtain ⟨r, tasks, w, hstart, hbegin⟩ := begin_of_starts hstarts
      obtain ⟨held, g, dead, tail, rfl, hturn⟩ :=
        ((Call.begins h.sound.orderly hallowed).of_ok hstart).turns
      change c.Goes (c.begin call)
      rw [hbegin]
      refine .inr ⟨_, none, c.todo, held, g, dead, tail, rfl, ?_, hturn⟩
      rw [hrest.1, List.append_nil]
      rfl
  | succ m =>
      rw [stage_succ]
      exact (h.stage hrest hallowed hstarts (m + 1)).sound.advance_goes

theorem Reached.stage_gone (hmn : m ≤ n) (ho : (c.stage call m).world.Gone o) :
    (c.stage call n).world.Gone o := by
  induction hmn with
  | refl => exact ho
  | step _ ih => exact (h.stage_goes hrest hallowed hstarts _).gone ih

/-- Of what is collected at once, all values are dropped before anything is put away. -/
theorem Reached.batch_dropped (hmn : m < n) (ho : ¬ (c.stage call m).world.Gone o)
    (ho' : (c.stage call (m + 1)).world.Gone o) (hp : ¬ (c.stage call m).world.Gone p)
    (hp' : (c.stage call (m + 1)).world.Gone p) (haway : (c.stage call n).world.PutAway o) :
    p ∈ (c.stage call n).world.dropped := by
  -- from the turn on that collects the batch, its values are ahead of its objects among the tasks
  have hdefers : ∀ k, m + 1 ≤ k → Task.Defers
      (fun o => ¬ (c.stage call m).world.Gone o ∧ (c.stage call (m + 1)).world.Gone o)
      (c.stage call k).todo := by
    intro k hk
    induction k, hk using Nat.le_induction with
    | base =>
        apply (h.stage_goes hrest hallowed hstarts m).defers_batch
        exact (h.stage hrest hallowed hstarts m).sound.orderly.guarded.buried
    | succ k hk ih =>
        refine (h.stage_goes hrest hallowed hstarts k).defers (fun o hbatch => ?_) ih
        exact h.stage_gone hrest hallowed hstarts hk hbatch.2
  have hreached := h.stage hrest hallowed hstarts n
  by_contra hnot
  obtain ⟨t, ht, htp⟩ := hreached.drops_of_gone (h.stage_gone hrest hallowed hstarts hmn hp') hnot
  have hretires := (hdefers n hmn).mem_retires ht htp ⟨hp, hp'⟩ ⟨ho, ho'⟩
  exact hreached.not_putAway hretires haway

/-- What a call collects is kept, once it is put away, if its heap is to keep it. -/
theorem Reached.stage_shelving (m : Nat) : (c.stage call (m + 1)).Shelving c.world.Gone := by
  induction m with
  | zero =>
      obtain ⟨r, tasks, w, hstart, hbegin⟩ := begin_of_starts hstarts
      obtain ⟨held, g, dead, tail, rfl, hturn⟩ :=
        ((Call.begins h.sound.orderly hallowed).of_ok hstart).turns
      change (c.begin call).Shelving _
      rw [hbegin]
      exact ⟨fun g' o ho => hturn.owned ho, fun o hold hgone => .inl (hturn.mem_retires hgone hold)⟩
  | succ m ih =>
      rw [stage_succ]
      exact ih.advance (h.stage hrest hallowed hstarts (m + 1)).sound

/-- The tasks of a call come to an end, after which its handles are delivered. -/
theorem Reached.stage_ends : ∃ n r w, (c.stage call (n + 1)).todo = [] ∧
    r.deliver (c.stage call (n + 1)).world = .ok () w ∧ call.run c.world = .ok r w ∧
    (c.stage call (n + 1)).world.Trades w := by
  obtain ⟨r, tasks, w, hstart, hbegin⟩ := begin_of_starts hstarts
  have hopened : (c.opened call r tasks w).Sound :=
    hbegin ▸ (h.begin hrest hallowed hstarts).sound
  obtain ⟨w₁, hsettle, hsettled, n, hstage⟩ := hopened.settle
    (motive := fun c' => ∃ n, c.stage call (n + 1) = c') ⟨0, hbegin⟩
    fun c' t rest more w' hc' htodo hstep => by
      obtain ⟨n, rfl⟩ := hc'
      exact ⟨n + 1, (stage_succ n).trans (advance_of_step htodo hstep)⟩
  obtain ⟨w₂, hdeliver, -, htrades⟩ := hsettled.arriveAll (motive := fun c' => w₁.Trades c'.world)
    (.refl w₁) rfl fun c' a _ htrades _ _ => htrades.trans (.enter c'.world a.heap)
  have hfinish : Call.finish r tasks w = .ok r w₂ := Call.finish_of_settle hsettle hdeliver
  refine ⟨n, r, w₂, ?_, ?_, Call.run_of_start hstart hfinish, ?_⟩
  all_goals rw [hstage]
  · exact hdeliver
  · exact htrades

end Stages

/-- Every call comes to the end of its finalization, whatever its tasks lead to, in whatever heaps.
By then each object that was collected on the way has had its value dropped once, and is poisoned if
its heap keeps collected objects. Objects that were collected at once all have their values dropped
before one of them is poisoned or given back, and as many values are dropped as the heaps count as
collected. A call that is refused up front collects nothing. -/
theorem Reached.finalization (h : c.Reached) (hrest : c.AtRest) (hallowed : call.Allowed c) :
    Ends call.run c.world
      (fun r w =>
        (∃ n, (c.stage call (n + 1)).todo = [] ∧
          r.deliver (c.stage call (n + 1)).world = .ok () w) ∧
        (∀ m o, ¬ c.world.Gone o → (c.stage call m).world.Gone o →
          o ∉ c.world.dropped ∧ w.dropped.toList.count o = 1 ∧ w.Shelved o) ∧
        (∀ m n, m < n → ∀ o p, ¬ (c.stage call m).world.Gone o →
          (c.stage call (m + 1)).world.Gone o → ¬ (c.stage call m).world.Gone p →
          (c.stage call (m + 1)).world.Gone p → (c.stage call n).world.PutAway o →
          p ∈ (c.stage call n).world.dropped) ∧
        w.dropped.size + c.world.collectedTotal = c.world.dropped.size + w.collectedTotal)
      fun f w => f.upFront = true → (∀ o, w.Gone o ↔ c.world.Gone o) ∧
        w.dropped = c.world.dropped ∧ w.collectedTotal = c.world.collectedTotal := by
  unfold Ends
  cases hstart : call.start c.world with
  | error f w =>
      rw [Call.run_of_refusal hstart]
      -- what fails up front is a turn that leaves no task, so there is nothing to finalize
      intro hup
      obtain ⟨held, g, dead, tail, hmore, hturn⟩ :=
        ((Call.begins h.sound.orderly hallowed).of_error hstart).turns hup
      have hdead : dead = [] := by
        cases dead with
        | nil => rfl
        | cons o dead => cases hmore
      subst hdead
      refine ⟨fun o => ?_, ?_, hturn.collectedTotal⟩
      · rw [hturn.gone_iff]
        simp
      · exact Array.toList_inj.mp (hturn.dropped.trans (List.append_nil _))
  | ok p w₀ =>
      have hstarts : c.starts call = true := by
        unfold Client.starts
        rw [hstart]
      obtain ⟨n, r, w, htodo, hdeliver, hrun, htrades⟩ := h.stage_ends hrest hallowed hstarts
      have hafter : (c.after call r w).Reached ∧ (c.after call r w).AtRest :=
        ⟨h.ran hrest hallowed hrun, rfl, rfl⟩
      rw [hrun]
      refine ⟨⟨n, htodo, hdeliver⟩, fun m o hnot hgone => ?_, fun m k hmk o p => ?_, ?_⟩
      · have hlast : (c.stage call (n + 1)).world.Gone o := by
          rw [← stage_of_done htodo m]
          exact h.stage_gone hrest hallowed hstarts (Nat.le_add_left m (n + 1)) hgone
        have hgone' : o ∈ w.departed := mem_departed.mpr (htrades.even.gone.mpr hlast)
        refine ⟨fun hdropped => hnot (h.sound.orderly.guarded.dropped o hdropped), ?_, ?_⟩
        · rw [← Multiset.coe_count]
          exact (congrArg (Multiset.count o) (hafter.1.dropped_eq hafter.2)).trans
            (Multiset.count_eq_one_of_mem w.nodup_departed hgone')
        · have hshelved := (h.stage_shelving hrest hallowed hstarts n).shelved o hnot hlast
          rw [htodo] at hshelved
          exact (hshelved.resolve_left List.not_mem_nil).preserves htrades.even.preserves
            fun g => htrades.owns g o
      · exact h.batch_dropped hrest hallowed hstarts hmk
      · have hbefore := h.size_dropped hrest
        have hlater : w.dropped.size = w.collectedTotal := hafter.1.size_dropped hafter.2
        omega

/-- An object whose value holds the handle of the leaf. -/
def warden : Client := lone.call (.alloc 0 "warden" (.root ⟨0, 1, 0⟩))

theorem warden_reached : warden.Reached ∧ warden.AtRest := by
  have hheaps : lone.heaps = {0} := by cbv
  have hheld : lone.held = {.root ⟨0, 1, 0⟩} := by cbv
  refine Reached.call lone_reached ⟨?_, by decide, ?_⟩ (by cbv)
  · rw [hheaps]
    exact Multiset.mem_singleton_self 0
  · rw [hheld]
    exact le_refl _

theorem warden_allowed : (Call.drop ⟨1, 2, 0⟩).Allowed warden := by
  have hheld : warden.held = {.root ⟨1, 2, 0⟩} := by cbv
  change _ ∈ warden.held
  rw [hheld]
  exact Multiset.mem_singleton_self _

/-- The warden's handle is dropped: its value gives the leaf up while the warden is still to be put
away. Both values are dropped once, and both objects are kept. -/
theorem warden_finalization : warden.Reached ∧ warden.AtRest ∧ (Call.drop ⟨1, 2, 0⟩).Allowed warden ∧
    ∃ r w, (Call.drop ⟨1, 2, 0⟩).run warden.world = .ok r w ∧
      w.dropped.toList.count 1 = 1 ∧ w.Shelved 1 ∧ w.dropped.toList.count 0 = 1 ∧ w.Shelved 0 ∧
      w.dropped.size + warden.world.collectedTotal = warden.world.dropped.size + w.collectedTotal := by
  obtain ⟨hreached, hrest⟩ := warden_reached
  obtain ⟨-, r, w, -, -, hrun, -⟩ := hreached.stage_ends hrest warden_allowed rfl
  obtain ⟨-, hdropped, -, htotal⟩ := (hreached.finalization hrest warden_allowed).of_ok hrun
  have hlive (o : ObjId) (ho : warden.world.isLive o = true) : ¬ warden.world.Gone o := by
    rintro ⟨-, hdead⟩
    cases ho.symm.trans hdead
  obtain ⟨-, hwarden, hkept⟩ := hdropped 2 1 (hlive 1 (by cbv)) ⟨by cbv, by cbv⟩
  obtain ⟨-, hleaf, hkept'⟩ := hdropped 4 0 (hlive 0 (by cbv)) ⟨by cbv, by cbv⟩
  exact ⟨hreached, hrest, warden_allowed, r, w, hrun, hwarden, hkept, hleaf, hkept', htotal⟩

end Client

end RootedHeap
