import RootedHeap.Proofs.WeakCounts

/-! # Allocations

When the allocation of an object is given back, nothing is left that could get at it: its value was
dropped, and nothing refers to it any more. This is because of the order in which a thread carries out
its tasks: whatever it has to do with a collected object comes before the object is put away
(`World.Timely`).
-/

namespace RootedHeap

/-- What a task is dropping, apart from values. -/
def Task.dropping : Task → Option Holding
  | .dropSlot s => some (.slot s)
  | .dropWeak o => some (.weak o)
  | .dropHandle a => some (.root a)
  | .dropValue _ | .release _ | .leave _ | .retire _ _ => none

/-- Whether a holding refers to `o`, weakly or not. -/
def Holding.RefersTo (w : World) (o : ObjId) : Holding → Prop
  | .slot s => o ∈ (w.slotAt s).targets
  | .weak p => p = o
  | .root a => a.obj = o

theorem Holding.refersTo_iff {w : World} {o : ObjId} {y : Holding} :
    y.RefersTo w o ↔ y = .weak o ∨ o ∈ y.targets w := by
  cases y <;> simp [RefersTo, targets, eq_comm]

namespace World

/-- The objects whose values were not dropped. -/
def undropped (w : World) : Multiset ObjId :=
  (Multiset.range w.objects.size).filter fun o => o ∉ w.dropped

/-- Before `o` is put away, `t` is to be done: it drops the value of `o`, or a reference to it. -/
def Awaits (w : World) (t : Task) (o : ObjId) : Prop :=
  t.drops = some o ∨ w.Gone o ∧ o ∈ t.targets w

/-- Tasks in an order in which no object is put away too early. -/
def Timely (w : World) : List Task → Prop
  | [] => True
  | t :: rest => (∀ o, w.Awaits t o → o ∈ rest.filterMap Task.retires) ∧ w.Timely rest

/-! ## The order of tasks -/

section Timely

variable {w w' : World} {own : SlotId → Prop} {spent : Option Task} {todo : Multiset Task}
  {held : Multiset Holding} {g : HeapId} {dead : List ObjId} {tail tasks rest more : List Task}
  {t u : Task} {o : ObjId}

namespace Timely

theorem prepend (h : w.Timely rest)
    (hmore : ∀ u ∈ more, ∀ o, w.Awaits u o → o ∈ rest.filterMap Task.retires) :
    w.Timely (more ++ rest) := by
  induction more with
  | nil => exact h
  | cons t more ih =>
      obtain ⟨ht, hmore⟩ := List.forall_mem_cons.mp hmore
      refine ⟨fun o ho => ?_, ih hmore⟩
      change o ∈ (more ++ rest).filterMap Task.retires
      rw [List.filterMap_append]
      exact List.mem_append_right _ (ht o ho)

theorem mem_retires (h : w.Timely tasks) (ht : t ∈ tasks) (ho : w.Awaits t o) :
    o ∈ tasks.filterMap Task.retires := by
  induction tasks with
  | nil => cases ht
  | cons u rest ih =>
      have hrest : o ∈ rest.filterMap Task.retires := by
        rcases List.mem_cons.mp ht with rfl | ht
        · exact h.1 o ho
        · exact ih h.2 ht
      rw [List.filterMap_cons]
      split
      · exact hrest
      · exact List.mem_cons_of_mem _ hrest

theorem congr (h : w.Timely tasks) (hawaits : ∀ u ∈ tasks, ∀ o, w'.Awaits u o → w.Awaits u o) :
    w'.Timely tasks := by
  induction tasks with
  | nil => trivial
  | cons t rest ih =>
      obtain ⟨ht, hrest⟩ := List.forall_mem_cons.mp hawaits
      exact ⟨fun o ho => h.1 o (ht o ho), ih h.2 hrest⟩

/-- Putting objects away refers to nothing. -/
theorem retires (h : w.Timely rest) : w.Timely (dead.map (Task.retire g) ++ rest) := by
  apply h.prepend
  intro u hu o ho
  obtain ⟨p, -, rfl⟩ := List.mem_map.mp hu
  rcases ho with ho | ⟨-, ho⟩
  · cases ho
  · exact absurd ho (Multiset.notMem_zero o)

end Timely

namespace Turn

variable (h : World.Turn own spent todo held g dead tail w w')

include h

/-- A turn gives other tasks no more to do with collected objects. -/
theorem awaits (hu : u ∈ todo) (ho : w'.Awaits u o) : w.Awaits u o := by
  rcases ho with ho | ⟨hgone, ho⟩
  · exact .inl ho
  · rcases h.gone_iff.mp hgone with hgone | hdead
    · rw [h.targets hu] at ho
      exact .inr ⟨hgone, ho⟩
    · exact absurd ho (h.notMem_targets hdead hu)

section Order

variable (hmem : ∀ u ∈ rest, u ∈ todo) (hbefore : w.Timely (spent.toList ++ rest))

include hbefore

/-- An object that was on its way out before, and that new tasks refer to, is put away later on. -/
theorem retires_of_gone (hu : u ∈ Task.finalizing g dead ++ tail) (ho : o ∈ u.targets w')
    (hgone : w.Gone o) : o ∈ rest.filterMap Task.retires := by
  obtain ⟨t, ht, hot⟩ := h.fresh_tasks hu ho hgone
  cases ht
  exact hbefore.1 o (.inr ⟨hgone, hot⟩)

include hmem

/-- What a turn leads to after finalization has nothing to do with what it collected. -/
theorem timely_tail : w'.Timely (tail ++ rest) := by
  have hrest : w.Timely rest := by
    cases spent with
    | none => exact hbefore
    | some t => exact hbefore.2
  apply (hrest.congr fun u hu o ho => h.awaits (hmem u hu) ho).prepend
  rintro u hu o (ho | ⟨hgone, ho⟩)
  · cases (Task.drops_of_idle (h.idle u hu)).symm.trans ho
  · rcases h.gone_iff.mp hgone with hgone | hdead
    · exact h.retires_of_gone hbefore (List.mem_append_right _ hu) ho hgone
    · exact absurd ho (h.doomed o hdead u hu)

/-- A turn puts what it collected away after all values are dropped. -/
theorem timely : w'.Timely (Task.finalizing g dead ++ tail ++ rest) := by
  have hdead : (dead.map (Task.retire g)).filterMap Task.retires = dead := by
    simp [List.filterMap_map, Function.comp_def, Task.retires]
  rw [Task.finalizing, List.append_assoc, List.append_assoc]
  apply (h.timely_tail hmem hbefore).retires.prepend
  intro u hu o ho
  rw [List.filterMap_append, List.filterMap_append, hdead]
  rcases ho with ho | ⟨hgone, ho⟩
  · obtain ⟨p, hp, rfl⟩ := List.mem_map.mp hu
    cases ho
    exact List.mem_append_left _ hp
  · rcases h.gone_iff.mp hgone with hgone | hdead
    · have hnew : u ∈ Task.finalizing g dead ++ tail :=
        List.mem_append_left _ (List.mem_append_left _ hu)
      have hlater := h.retires_of_gone hbefore hnew ho hgone
      exact List.mem_append_right _ (List.mem_append_right _ hlater)
    · exact List.mem_append_left _ hdead

end Order

end Turn

end Timely

end World

/-! ## Threads -/

namespace Crowd

open World

variable {ι : Type} [Fintype ι] [DecidableEq ι] {x y : Crowd ι} {i : ι} {o : ObjId}

/-- All that can refer to objects: what threads have or are about to have, what values hold that were
not dropped, and what is being dropped. -/
def inventory (x : Crowd ι) : Multiset Holding :=
  x.incoming.map .root + x.held +
    x.world.undropped.bind (fun o => ((x.world.valueAt o).holdings : Multiset Holding)) +
    x.todo.filterMap Task.dropping

omit [DecidableEq ι] in
theorem Sound.undropped_eq (h : x.Sound) :
    x.world.undropped = x.world.lives + x.todo.filterMap Task.drops := by
  have hnodup := x.world.nodup_departed
  rw [← h.dropped] at hnodup
  obtain ⟨-, hdrops, hdisjoint⟩ := Multiset.nodup_add.mp hnodup
  have hgone {o : ObjId} : x.world.Gone o ↔ o ∈ x.world.dropped ∨ o ∈ x.todo.filterMap Task.drops := by
    rw [← mem_departed, ← h.dropped, Multiset.mem_add, Multiset.mem_coe, Array.mem_toList_iff]
  have hboth : (x.world.lives + x.todo.filterMap Task.drops).Nodup := by
    refine Multiset.nodup_add.mpr ⟨nodup_lives _, hdrops, Multiset.disjoint_left.mpr fun hlive ho => ?_⟩
    have hdead := (hgone.mpr (.inr ho)).2
    rw [mem_lives.mp hlive] at hdead
    cases hdead
  apply (Multiset.Nodup.ext ((Multiset.nodup_range _).filter _) hboth).mpr
  intro o
  rw [Multiset.mem_filter, Multiset.mem_range, Multiset.mem_add, mem_lives]
  constructor
  · rintro ⟨hlt, hnot⟩
    by_cases hlive : x.world.isLive o = true
    · exact .inl hlive
    · exact .inr ((hgone.mp ⟨hlt, Bool.eq_false_iff.mpr hlive⟩).resolve_left hnot)
  · rintro (hlive | ho)
    · refine ⟨lt_size_of_isLive hlive, fun hdropped => ?_⟩
      have hdead := (hgone.mpr (.inl hdropped)).2
      rw [hlive] at hdead
      cases hdead
    · refine ⟨(hgone.mpr (.inr ho)).1, fun hdropped => ?_⟩
      have hmem := Multiset.mem_coe.mpr (Array.mem_toList_iff.mpr hdropped)
      exact Multiset.disjoint_left.mp hdisjoint hmem ho

omit [DecidableEq ι] in
theorem Sound.inventory_eq (h : x.Sound) :
    x.inventory = x.world.ledger x.todo (x.incoming.map .root + x.held) := by
  have htasks (todo : Multiset Task) : todo.bind (Task.holdings x.world) =
      (todo.filterMap Task.drops).bind (fun o => ((x.world.valueAt o).holdings : Multiset Holding)) +
        todo.filterMap Task.dropping := by
    induction todo using Multiset.induction with
    | empty => rfl
    | cons t todo ih =>
        rw [Multiset.cons_bind, ih, Multiset.filterMap_cons, Multiset.filterMap_cons, Multiset.add_bind]
        cases t <;> simp [Task.holdings, Task.drops, Task.dropping, add_assoc]
  rw [inventory, ledger, h.undropped_eq, htasks, Multiset.add_bind]
  abel

/-! ### Weak counts -/

section Weighed

/-- All threads' tasks and holdings, with those of one thread apart. -/
theorem weighed_split (w : World) (i : ι) : w.Weighed x.todo x.held ↔
    w.Weighed (((x.threads i).todo : Multiset Task) + x.otherTodo i)
      ((x.threads i).held + x.others i Thread.held) := by
  rw [todo, held, total_eq x i, total_eq x i]
  rfl

theorem weighed_put {c : Client} : (x.put i c).world.Weighed (x.put i c).todo (x.put i c).held ↔
    c.world.Weighed ((c.todo : Multiset Task) + x.otherTodo i) (c.held + x.others i Thread.held) := by
  rw [todo, held, total_put, total_put]
  rfl

variable (h : x.Sound) (hw : x.world.Weighed x.todo x.held)

include h hw

theorem Sound.call_weighs {call : Call} (hallowed : call.Allowed (x.client i)) :
    call.Weighs (x.around i) := by
  apply Call.weighs _ (h.around i) (allowed_around hallowed)
  rw [around_todo]
  exact hw

theorem Sound.weighed_opened {call : Call} {r : Receipt} {tasks : List Task} {w : World}
    (hrest : (x.client i).AtRest) (hallowed : call.Allowed (x.client i))
    (hstart : call.start x.world = .ok (r, tasks) w) :
    let y := x.put i ((x.client i).opened call r tasks w)
    y.world.Weighed y.todo y.held ∧ x.world.Rests y.world := by
  obtain ⟨hafter, hrests⟩ := (h.call_weighs hw hallowed).of_ok hstart
  have hnone : (x.threads i).todo = [] := hrest.1
  have hspends : (call.spends : Multiset Holding) ≤ (x.threads i).held := hallowed.spends_le
  refine ⟨weighed_put.mpr ?_, hrests⟩
  change w.Weighed _ (r.others + (x.held - call.spends)) at hafter
  rw [around_todo, todo, held, total_eq x i, total_eq x i, hnone, Multiset.coe_nil, zero_add,
    ← tsub_add_eq_add_tsub hspends, ← add_assoc] at hafter
  exact hafter

theorem Sound.weighed_refused {call : Call} {f : Fault} {w : World}
    (hallowed : call.Allowed (x.client i)) (hstart : call.start x.world = .error f w)
    (hf : f.upFront = true) :
    let y := x.put i { x.client i with world := w }
    y.world.Weighed y.todo y.held ∧ x.world.Rests y.world := by
  obtain ⟨hafter, hrests⟩ := (h.call_weighs hw hallowed).of_error hstart hf
  rw [around_todo] at hafter
  exact ⟨weighed_put.mpr ((weighed_split w i).mp hafter), hrests⟩

theorem Sound.weighed_stepped {t : Task} {rest more : List Task} {w : World}
    (htodo : (x.threads i).todo = t :: rest) (hstep : t.step x.world = .ok more w) :
    let y := x.put i { x.client i with world := w, todo := more ++ rest }
    y.world.Weighed y.todo y.held ∧ x.world.Rests y.world := by
  have hcons : x.todo = t ::ₘ ((rest : Multiset Task) + x.otherTodo i) := by
    rw [todo, total_eq x i, htodo, ← Multiset.cons_coe, Multiset.cons_add]
    rfl
  have hretires := h.retires
  rw [hcons] at hw hretires
  obtain ⟨hafter, hrests⟩ := (Task.step_weighed hw (h.orderly_cons htodo) hretires).of_ok hstep
  refine ⟨weighed_put.mpr ?_, hrests⟩
  rw [held, total_eq x i, ← add_assoc] at hafter
  exact hafter

omit h in
theorem weighed_arrived {a : Handle} {rest : List Handle} :
    let y := x.put i ⟨x.world.enter a.heap, .root a ::ₘ (x.threads i).held, (x.threads i).heaps,
      (x.threads i).todo, rest⟩
    y.world.Weighed y.todo y.held ∧ x.world.Rests y.world := by
  have hentered : x.world.Trades (x.world.enter a.heap) := .enter _ _
  refine ⟨weighed_put.mpr ?_, hentered.rests⟩
  apply ((weighed_split _ i).mp (hw.trades hentered)).hold
  intro o
  rw [Multiset.cons_add, Multiset.count_cons_of_ne (by simp)]

/-- A step keeps weak counts right, and leaves what was given back alone. -/
theorem Sound.weighed_step (hstep : x.Step y) :
    y.world.Weighed y.todo y.held ∧ x.world.Rests y.world := by
  cases hstep with
  | thread i hclient =>
      cases hclient with
      | opened hrest hallowed hstart => exact h.weighed_opened hw hrest hallowed hstart
      | refused _ hallowed hstart hf => exact h.weighed_refused hw hallowed hstart hf
      | stepped htodo hstep => exact h.weighed_stepped hw htodo hstep
      | arrived => exact weighed_arrived hw
  | @handOver i j hne _ xs hs hxs hhs =>
      have htodos : (x.handOver i j xs hs).todo = x.todo := total_handOver hne rfl
      have hheld : (x.handOver i j xs hs).held = x.held := by
        apply total_handOver hne
        dsimp only
        rw [← add_assoc, tsub_add_cancel_of_le hxs]
      rw [htodos, hheld]
      exact ⟨hw, .refl x.world⟩

end Weighed

omit [DecidableEq ι] in
theorem weighed_start : ({} : Crowd ι).world.Weighed ({} : Crowd ι).todo ({} : Crowd ι).held := by
  have htodo : ({} : Crowd ι).todo = 0 := by simp [todo, total]
  have hheld : ({} : Crowd ι).held = 0 := by simp [held, total]
  rw [htodo, hheld]
  exact ⟨fun o => by simp [weakAt, share, stateAt, ledger, lives], by simp, by simp⟩

theorem Interleaved.weighed (h : x.Interleaved) : x.world.Weighed x.todo x.held := by
  induction h with
  | start => exact weighed_start
  | step hx hstep ih => exact (hx.sound.weighed_step ih hstep).1

/-! ### The order of a thread's tasks -/

theorem Sound.timely_step (h : x.Sound) (hx : ∀ i, x.world.Timely (x.threads i).todo)
    (hstep : x.Step y) (j : ι) : y.world.Timely (y.threads j).todo := by
  cases hstep with
  | @thread i c hclient =>
      obtain ⟨own, spent, rest, held, g, dead, tail, htakes⟩ := h.moves hclient
      by_cases hj : j = i
      · subst hj
        rw [put_self, htakes.after]
        exact htakes.turn.timely (fun u => Takes.mem_rest) (htakes.before ▸ hx j)
      · rw [put_of_ne x c hj]
        exact (hx j).congr fun u hu o ho => htakes.turn.awaits (Takes.mem_other hj hu) ho
  | @handOver i k hne _ xs hs =>
      have htodo : ((x.handOver i k xs hs).threads j).todo = (x.threads j).todo :=
        handOver_eq hne (fun _ _ _ => rfl) j
      rw [htodo]
      exact hx j

theorem Interleaved.timely (h : x.Interleaved) (i : ι) : x.world.Timely (x.threads i).todo := by
  induction h generalizing i with
  | start => trivial
  | step hx hstep ih => exact hx.sound.timely_step ih hstep i

/-! ### Allocations that were given back -/

/-- What is collected and not to be put away any more is no more: its value was dropped, and nothing
refers to it. -/
theorem Interleaved.forgotten (h : x.Interleaved) (hgone : x.world.Gone o)
    (hretires : o ∉ x.todo.filterMap Task.retires) :
    o ∈ x.world.dropped ∧
      o ∉ x.world.refs x.todo ((x.incoming.toList.map Holding.root : List Holding) + x.held) := by
  have hnone (t : Task) (ht : t ∈ x.todo) : ¬ x.world.Awaits t o := by
    intro ho
    obtain ⟨i, ht⟩ := mem_todo.mp ht
    obtain ⟨u, hu, huo⟩ := List.mem_filterMap.mp ((h.timely i).mem_retires ht ho)
    exact hretires ((Multiset.mem_filterMap _ _).mpr ⟨u, mem_todo.mpr ⟨i, hu⟩, huo⟩)
  constructor
  · have hdeparted : o ∈ (x.world.dropped.toList : Multiset ObjId) + x.todo.filterMap Task.drops := by
      rw [h.sound.dropped]
      exact mem_departed.mpr hgone
    rcases Multiset.mem_add.mp hdeparted with hdropped | hdrops
    · exact Array.mem_toList_iff.mp (Multiset.mem_coe.mp hdropped)
    · obtain ⟨t, ht, hto⟩ := (Multiset.mem_filterMap _ _).mp hdrops
      exact absurd (.inl hto) (hnone t ht)
  · intro hrefs
    obtain ⟨t, ht, hto⟩ := h.sound.orderly.guarded.exists_task hgone hrefs
    exact hnone t ht (.inr ⟨hgone, hto⟩)

/-- Each weak count is that of the weak references there are, and one more for the collector, until the
object is put away without being kept. -/
theorem Interleaved.weak_eq (h : x.Interleaved) {ob : Object} (hob : x.world.objects[o]? = some ob) :
    ob.weak = x.inventory.count (.weak o) +
      if ob.state ≠ .collecting ∨ o ∈ x.todo.filterMap Task.retires then 1 else 0 := by
  have hweak := h.weighed.weak_eq o
  have hstate : x.world.stateAt o = some ob.state := by
    rw [stateAt, hob]
    rfl
  have hroots : (x.incoming.map Holding.root).count (.weak o) = 0 := by
    apply Multiset.count_eq_zero.mpr
    simp
  rw [h.sound.inventory_eq, ledger_add_held, Multiset.count_add, hroots, zero_add]
  rw [weakAt_of_object hob, share, hstate] at hweak
  rw [hweak]
  congr 1
  by_cases hretire : o ∈ x.todo.filterMap Task.retires
  · have hcollecting := h.weighed.collecting_of_retires hretire
    rw [Option.some.inj (hstate.symm.trans hcollecting),
      Multiset.count_eq_one_of_mem h.sound.retires hretire]
    simp [hretire]
  · rw [Multiset.count_eq_zero.mpr hretire]
    cases ob.state <;> simp [hretire]

/-- Nothing refers to an object whose allocation was given back, and its value was dropped. -/
theorem Interleaved.freed (h : x.Interleaved) {ob : Object} (hob : x.world.objects[o]? = some ob)
    (hfreed : ob.freed = true) :
    o ∈ x.world.dropped ∧ ob.strong = 0 ∧ (∀ y ∈ x.inventory, ¬ y.RefersTo x.world o) ∧
      .release o ∉ x.todo := by
  obtain ⟨hstate, hretires, hweak⟩ := h.weighed.freed_idle hob hfreed
  have hgone : x.world.Gone o := gone_iff_stateAt.mpr ⟨_, hstate, by simp⟩
  obtain ⟨hdropped, hrefs⟩ := h.forgotten hgone hretires
  have hstrong := h.sound.orderly.accounted.strong_eq o
  rw [strongAt, hob, Multiset.count_eq_zero.mpr hrefs] at hstrong
  refine ⟨hdropped, hstrong, fun y hy hyo => ?_, fun hrelease => ?_⟩
  · rw [h.sound.inventory_eq] at hy
    rcases Holding.refersTo_iff.mp hyo with rfl | hyo
    · rw [ledger_add_held] at hy
      exact hweak ((Multiset.mem_add.mp hy).resolve_left (by simp))
    · rw [← Multiset.coe_toList x.incoming, Multiset.map_coe] at hy
      exact hrefs (Multiset.mem_add.mpr (.inl (Multiset.mem_bind.mpr ⟨y, hy, hyo⟩)))
  · have hreleased : o ∈ (Task.release o).released := Multiset.mem_singleton_self o
    exact hrefs (Multiset.mem_add.mpr (.inr (Multiset.mem_bind.mpr ⟨_, hrelease, hreleased⟩)))

/-- Whatever threads do, it has nothing to do with what was given back. -/
theorem Interleaved.freed_stays (h : x.Interleaved) {ob : Object}
    (hob : x.world.objects[o]? = some ob) (hfreed : ob.freed = true)
    (hsteps : Relation.ReflTransGen Crowd.Step x y) :
    y.Interleaved ∧ y.world.objects[o]? = some ob := by
  induction hsteps with
  | refl => exact ⟨h, hob⟩
  | tail _ hstep ih =>
      obtain ⟨hy, hob⟩ := ih
      have hnext := hy.step hstep
      obtain ⟨ob', hob', hbody⟩ :=
        Option.map_eq_some_iff.mp ((hy.sound.weighed_step hy.weighed hstep).2 o ob hob hfreed)
      have hstrong := (hy.freed hob hfreed).2.1
      have hstrong' := (hnext.freed hob' ((Object.eq_of_body hbody).2.trans hfreed)).2.1
      have hsame : ob' = ob := by
        obtain ⟨heap, typeName, value, strong, weak, state, freed⟩ := ob
        obtain ⟨heap', typeName', value', strong', weak', state', freed'⟩ := ob'
        cases hstrong
        cases hstrong'
        exact hbody
      exact ⟨hnext, hsame ▸ hob'⟩

/-- A step that drops a value gives nothing back. -/
theorem Sound.dropped_step (h : x.Sound) (hstep : x.Step y) :
    y.world.dropped = x.world.dropped ∨ y.world.objects = x.world.objects := by
  cases hstep with
  | @thread i c hclient =>
      obtain ⟨own, spent, rest, held, g, dead, tail, htakes⟩ := h.moves hclient
      have hdropped := htakes.turn.dropped
      have hbefore := htakes.before
      cases hspent : spent.bind Task.drops with
      | none =>
          rw [hspent] at hdropped
          exact .inl (Array.toList_inj.mp (hdropped.trans (List.append_nil _)))
      | some o =>
          obtain ⟨t, rfl, ht⟩ := Option.bind_eq_some_iff.mp hspent
          cases t <;> cases ht
          cases hclient with
          | opened hrest => cases hrest.1.symm.trans hbefore
          | refused hrest => cases hrest.1.symm.trans hbefore
          | arrived htodo => cases htodo.symm.trans hbefore
          | stepped htodo hstep =>
              cases htodo.symm.trans hbefore
              simp only [Task.step] at hstep
              split at hstep <;> cases hstep <;> exact .inr rfl
  | handOver => exact .inl rfl

/-- Before an allocation is given back, the value of the object was dropped. -/
theorem Interleaved.dropped_of_freed (h : x.Interleaved) (hstep : x.Step y) {ob ob' : Object}
    (hob : x.world.objects[o]? = some ob) (hob' : y.world.objects[o]? = some ob')
    (hkept : ob.freed = false) (hfreed : ob'.freed = true) : o ∈ x.world.dropped := by
  have hdropped := ((h.step hstep).freed hob' hfreed).1
  rcases h.sound.dropped_step hstep with hsame | hsame
  · exact hsame ▸ hdropped
  · rw [hsame, hob] at hob'
    cases hob'
    rw [hkept] at hfreed
    cases hfreed

end Crowd

end RootedHeap
