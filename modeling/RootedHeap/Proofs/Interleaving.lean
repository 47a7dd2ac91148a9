import RootedHeap.Proofs.Threads

/-! # Interleaved threads

All threads together are as orderly as one client would be, whatever the order of their steps
(`Crowd.Interleaved.sound`). What one thread is to put away no other task refers to, and the value of
a collected object is dropped by one task of one thread. Each step of a thread is a turn of the world
(`Crowd.Takes`), and that is all that the other threads notice of it.
-/

namespace RootedHeap

open World

namespace Crowd

variable {ι : Type} [Fintype ι] [DecidableEq ι] {x : Crowd ι} {i : ι}

/-- What always holds of threads that behave well, whatever the order of their steps. -/
structure Sound (x : Crowd ι) : Prop where
  orderly : x.world.Orderly x.todo x.held x.heaps x.incoming.toList
  known : ∀ i, ∀ a ∈ (x.threads i).incoming, (x.client i).Knows a.heap
  /-- What a task puts away, no later task of its thread refers to. -/
  pairwise : ∀ i, (x.threads i).todo.Pairwise x.world.Forsakes
  /-- Neither does any task of another thread. -/
  across : ∀ i j, i ≠ j → ∀ t ∈ (x.threads i).todo, ∀ u ∈ (x.threads j).todo, x.world.Forsakes t u
  /-- Values of collected objects are dropped once, or are still to be. -/
  dropped : (x.world.dropped.toList : Multiset ObjId) + x.todo.filterMap Task.drops =
    x.world.departed
  /-- Collected objects are put away once. -/
  retires : (x.todo.filterMap Task.retires).Nodup
  unleaked : ∀ e ∈ x.world.log.toList, e.leaks = false
  housed : x.world.Housed

theorem around_todo (x : Crowd ι) (i : ι) : ((x.around i).todo : Multiset Task) = x.todo := by
  rw [around, ← Multiset.coe_add, Multiset.coe_toList, todo, total_eq x i, otherTodo]

theorem around_incoming (x : Crowd ι) (i : ι) :
    ((x.around i).incoming : Multiset Handle) = x.incoming := by
  rw [around, ← Multiset.coe_add, Multiset.coe_toList, incoming, total_eq x i]

/-- All threads, as one client, are orderly. -/
theorem orderly_around (i : ι) :
    (x.around i).Orderly ↔ x.world.Orderly x.todo x.held x.heaps x.incoming.toList := by
  have hperm : (x.around i).incoming.Perm x.incoming.toList := by
    rw [← Multiset.coe_eq_coe, around_incoming, Multiset.coe_toList]
  unfold Client.Orderly
  rw [around_todo]
  exact ⟨fun h => h.perm hperm, fun h => h.perm hperm.symm⟩

theorem Sound.around (h : x.Sound) (i : ι) : (x.around i).Orderly :=
  (orderly_around i).mpr h.orderly

theorem sees_around {y : Holding} (hy : (x.client i).Sees y) : (x.around i).Sees y :=
  hy.mono (x.le_total i Thread.held) fun _ _ => rfl

theorem allowed_around {call : Call} (hallowed : call.Allowed (x.client i)) :
    call.Allowed (x.around i) :=
  hallowed.mono rfl (x.le_total i Thread.held) (x.le_total i Thread.heaps)

theorem knows_around {g : HeapId} (hg : (x.client i).Knows g) : (x.around i).Knows g :=
  hg.mono (x.le_total i Thread.held) (x.le_total i Thread.heaps) fun _ _ => rfl

omit [DecidableEq ι] in
theorem Sound.gone (h : x.Sound) {t : Task} (ht : t ∈ x.todo) {o : ObjId}
    (ho : t.retires = some o) : x.world.Gone o :=
  h.orderly.guarded.buried t ht o (Task.buries_of_retires ho)

/-- Nothing refers to an object that is to be put away next. -/
theorem Sound.strongAt_eq_zero (h : x.Sound) {t : Task} {rest : List Task}
    (htodo : (x.threads i).todo = t :: rest) {o : ObjId} (ho : t.retires = some o) :
    x.world.strongAt o = 0 := by
  have ht : t ∈ (x.threads i).todo := htodo ▸ List.mem_cons_self
  rw [h.orderly.accounted.strong_eq]
  apply Multiset.count_eq_zero.mpr
  intro hmem
  -- a reference to it would be that of a task, which all threads' tasks exclude
  obtain ⟨u, hu, hou⟩ := h.orderly.guarded.exists_task (h.gone (mem_todo.mpr ⟨i, ht⟩) ho) hmem
  obtain ⟨j, hu⟩ := mem_todo.mp hu
  by_cases hj : i = j
  · subst hj
    have hpairwise := h.pairwise i
    rw [htodo] at hu hpairwise
    rcases List.mem_cons.mp hu with rfl | hu
    · cases u <;> cases ho
      cases hou
    · exact List.rel_of_pairwise_cons hpairwise hu o ho hou
  · exact h.across i j hj t ht u hu o ho hou

theorem orderly_put {c : Client}
    (h : c.world.Orderly (c.todo + x.otherTodo i) (c.held + x.others i Thread.held)
      (c.heaps + x.others i Thread.heaps)
      (c.incoming ++ (x.others i fun t => t.incoming).toList)) :
    (x.put i c).world.Orderly (x.put i c).todo (x.put i c).held (x.put i c).heaps
      (x.put i c).incoming.toList := by
  rw [todo, held, heaps, total_put, total_put, total_put]
  apply World.Orderly.perm h
  rw [← Multiset.coe_eq_coe, ← Multiset.coe_add, Multiset.coe_toList, Multiset.coe_toList, incoming,
    total_put]

/-! ## A turn of one thread -/

/-- Thread `i` takes a turn and becomes `c`: it spends a task or none, `dead` are collected, and the
rest of its tasks are left after those that follow. -/
structure Takes (x : Crowd ι) (i : ι) (c : Client) (own : SlotId → Prop) (spent : Option Task)
    (rest : List Task) (held : Multiset Holding) (g : HeapId) (dead : List ObjId)
    (tail : List Task) : Prop where
  before : (x.threads i).todo = spent.toList ++ rest
  after : c.todo = Task.finalizing g dead ++ tail ++ rest
  turn : World.Turn own spent (rest + x.otherTodo i) held g dead tail x.world c.world
  orderly : c.world.Orderly (c.todo + x.otherTodo i) (c.held + x.others i Thread.held)
    (c.heaps + x.others i Thread.heaps) (c.incoming ++ (x.others i fun t => t.incoming).toList)
  known : ∀ a ∈ c.incoming, c.Knows a.heap

/-- Thread `i` takes some turn and becomes `c`. -/
def Moves (x : Crowd ι) (i : ι) (c : Client) : Prop :=
  ∃ own spent rest held g dead tail, x.Takes i c own spent rest held g dead tail

theorem Moves.of_turns {c : Client} {own : SlotId → Prop} {spent : Option Task}
    {rest more : List Task} {held : Multiset Holding}
    (hbefore : (x.threads i).todo = spent.toList ++ rest) (hafter : c.todo = more ++ rest)
    (hturns : x.world.Turns own spent (rest + x.otherTodo i) held more c.world)
    (horderly : c.world.Orderly (c.todo + x.otherTodo i) (c.held + x.others i Thread.held)
      (c.heaps + x.others i Thread.heaps) (c.incoming ++ (x.others i fun t => t.incoming).toList))
    (hknown : ∀ a ∈ c.incoming, c.Knows a.heap) : x.Moves i c := by
  obtain ⟨g, dead, tail, rfl, hturn⟩ := hturns
  exact ⟨own, spent, rest, held, g, dead, tail, hbefore, hafter, hturn, horderly, hknown⟩

namespace Takes

variable {c : Client} {own : SlotId → Prop} {spent : Option Task} {rest : List Task}
  {held : Multiset Holding} {g : HeapId} {dead : List ObjId} {tail : List Task}
  (h : x.Takes i c own spent rest held g dead tail)

include h

theorem todo_before : x.todo = (spent.toList : Multiset Task) + rest + x.otherTodo i := by
  rw [todo, total_eq x i, h.before, ← Multiset.coe_add]
  rfl

theorem todo_after : (x.put i c).todo =
    ((Task.finalizing g dead ++ tail : List Task) : Multiset Task) + rest + x.otherTodo i := by
  rw [todo, total_put, h.after, ← Multiset.coe_add]
  rfl

omit h in
theorem mem_rest {u : Task} (hu : u ∈ rest) : u ∈ (rest : Multiset Task) + x.otherTodo i :=
  Multiset.mem_add.mpr (.inl hu)

omit h in
theorem mem_other {j : ι} (hj : j ≠ i) {u : Task} (hu : u ∈ (x.threads j).todo) :
    u ∈ (rest : Multiset Task) + x.otherTodo i :=
  Multiset.mem_add.mpr (.inr (mem_others.mpr ⟨j, hj, hu⟩))

/-- What holds between tasks that there were holds still. -/
theorem forsakes {t u : Task} (hforsakes : x.world.Forsakes t u)
    (hu : u ∈ (rest : Multiset Task) + x.otherTodo i) : c.world.Forsakes t u := by
  intro o ho
  rw [h.turn.targets hu]
  exact hforsakes o ho

variable (hx : x.Sound)

include hx

theorem known_put (j : ι) {a : Handle} (ha : a ∈ ((x.put i c).threads j).incoming) :
    ((x.put i c).client j).Knows a.heap := by
  by_cases hj : j = i
  · subst hj
    rw [put_self] at ha
    rw [client_put_self]
    exact h.known a ha
  · rw [put_of_ne x c hj] at ha
    have hclient : (x.put i c).client j = { x.client j with world := c.world } := by
      rw [client, put_of_ne x c hj]
      rfl
    rw [hclient]
    refine (hx.known j a ha).mono (le_refl _) (le_refl _) fun b hb => ?_
    exact h.turn.valueAt (lt_size_of_isLive ((hx.around j).handle (sees_around hb)).1)

theorem pairwise_put (j : ι) : ((x.put i c).threads j).todo.Pairwise c.world.Forsakes := by
  by_cases hj : j = i
  · subst hj
    rw [put_self, h.after]
    have hpairwise := hx.pairwise j
    rw [h.before] at hpairwise
    exact h.turn.pairwise (fun u => mem_rest) (List.pairwise_append.mp hpairwise).2.1
  · rw [put_of_ne x c hj]
    exact (hx.pairwise j).imp_of_mem fun _ hu hforsakes => h.forsakes hforsakes (mem_other hj hu)

/-- What the thread is to put away now, the tasks of other threads do not refer to. -/
theorem across_left {k : ι} (hk : k ≠ i) {t u : Task} (ht : t ∈ c.todo)
    (hu : u ∈ (x.threads k).todo) : c.world.Forsakes t u := by
  rw [h.after] at ht
  rcases List.mem_append.mp ht with ht | ht
  · exact h.turn.forsakes ht (mem_other hk hu)
  · apply h.forsakes (hx.across i k (Ne.symm hk) t _ u hu) (mem_other hk hu)
    exact h.before ▸ List.mem_append_right _ ht

/-- What other threads are to put away, the tasks of the thread do not refer to now. -/
theorem across_right {j : ι} (hj : j ≠ i) {t u : Task} (ht : t ∈ (x.threads j).todo)
    (hu : u ∈ c.todo) : c.world.Forsakes t u := by
  rw [h.after] at hu
  rcases List.mem_append.mp hu with hu | hu
  · apply h.turn.forsaken hu
    · intro o ho
      exact hx.gone (mem_todo.mpr ⟨j, ht⟩) ho
    · intro t' ht'
      apply hx.across j i hj t ht t'
      exact h.before ▸ List.mem_append_left _ (Option.mem_toList.mpr ht')
  · apply h.forsakes (hx.across j i hj t ht u _) (mem_rest hu)
    exact h.before ▸ List.mem_append_right _ hu

theorem across_put (j k : ι) (hjk : j ≠ k) {t u : Task} (ht : t ∈ ((x.put i c).threads j).todo)
    (hu : u ∈ ((x.put i c).threads k).todo) : c.world.Forsakes t u := by
  by_cases hj : j = i
  · subst hj
    rw [put_self] at ht
    rw [put_of_ne x c (Ne.symm hjk)] at hu
    exact h.across_left hx (Ne.symm hjk) ht hu
  · rw [put_of_ne x c hj] at ht
    by_cases hk : k = i
    · subst hk
      rw [put_self] at hu
      exact h.across_right hx hj ht hu
    · rw [put_of_ne x c hk] at hu
      exact h.forsakes (hx.across j k hjk t ht u hu) (mem_other hk hu)

theorem dropped_put : (c.world.dropped.toList : Multiset ObjId) +
    (x.put i c).todo.filterMap Task.drops = c.world.departed := by
  have hspent : (spent.toList.filterMap Task.drops) = (spent.bind Task.drops).toList := by
    cases spent with
    | none => rfl
    | some t => cases hd : t.drops <;> simp [hd]
  have hdropped := hx.dropped
  rw [h.todo_before, Multiset.filterMap_add, Multiset.filterMap_add, Multiset.filterMap_coe,
    hspent] at hdropped
  rw [h.todo_after, h.turn.dropped, h.turn.departed, ← hdropped, Multiset.filterMap_add,
    Multiset.filterMap_add, Multiset.filterMap_coe, Task.filterMap_drops h.turn.idle,
    ← Multiset.coe_add]
  abel

theorem retires_put : ((x.put i c).todo.filterMap Task.retires).Nodup := by
  have hretires := hx.retires
  rw [h.todo_before, add_assoc, Multiset.filterMap_add] at hretires
  rw [h.todo_after, add_assoc, Multiset.filterMap_add, Multiset.filterMap_coe,
    Task.filterMap_retires h.turn.idle, Multiset.nodup_add]
  refine ⟨Multiset.coe_nodup.mpr h.turn.nodup, (Multiset.nodup_add.mp hretires).2.1, ?_⟩
  refine Multiset.disjoint_left.mpr fun ho hmem => ?_
  obtain ⟨t, ht, hot⟩ := (Multiset.mem_filterMap _ _).mp hmem
  apply h.turn.not_gone (Multiset.mem_coe.mp ho) (hx.gone _ hot)
  rw [h.todo_before, add_assoc]
  exact Multiset.mem_add.mpr (.inr ht)

theorem unleaked_put {e : Event} (he : e ∈ c.world.log.toList) : e.leaks = false := by
  obtain ⟨added, hlog, hadmits⟩ := h.turn.log
  rw [hlog] at he
  rcases List.mem_append.mp he with he | he
  · exact hx.unleaked e he
  · -- a leak would be one of an object that is referred to
    apply Bool.eq_false_iff.mpr
    intro hleak
    obtain ⟨t, ht, o, ho, hstrong⟩ := (hadmits e he).leaks hleak
    cases ht
    exact hstrong (hx.strongAt_eq_zero h.before ho)

theorem sound : (x.put i c).Sound where
  orderly := orderly_put h.orderly
  known j _ ha := h.known_put hx j ha
  pairwise j := h.pairwise_put hx j
  across j k hjk _ ht _ hu := h.across_put hx j k hjk ht hu
  dropped := h.dropped_put hx
  retires := h.retires_put hx
  unleaked _ he := h.unleaked_put hx he
  housed := h.turn.housed hx.housed

end Takes

/-- A thread takes a turn; then all behave well that did before. -/
theorem Moves.sound {c : Client} (h : x.Moves i c) (hx : x.Sound) : (x.put i c).Sound := by
  obtain ⟨own, spent, rest, held, g, dead, tail, htakes⟩ := h
  exact htakes.sound hx

/-- What a turn reports to be marked was live, or is new. -/
theorem Moves.marks {c : Client} (h : x.Moves i c) :
    ∃ added, c.world.log.toList = x.world.log.toList ++ added ∧ ∀ e ∈ added, ∀ o ∈ e.marks,
      x.world.isLive o = true ∨ x.world.objects.size ≤ o ∧ o < c.world.objects.size := by
  obtain ⟨own, spent, rest, held, g, dead, tail, htakes⟩ := h
  obtain ⟨added, hlog, hadmits⟩ := htakes.turn.log
  exact ⟨added, hlog, fun e he => (hadmits e he).marks⟩

/-! ## Every step of a thread is a turn -/

/-- A thread at rest begins a call. -/
theorem Sound.opened (h : x.Sound) {call : Call} {r : Receipt} {tasks : List Task} {w : World}
    (hrest : (x.client i).AtRest) (hallowed : call.Allowed (x.client i))
    (hstart : call.start x.world = .ok (r, tasks) w) :
    x.Moves i ((x.client i).opened call r tasks w) := by
  have hbegins := Call.begins (h.around i) (allowed_around hallowed)
  have hbegun : call.Begun (x.around i) r tasks w := hbegins.of_ok hstart
  obtain ⟨htodo, hincoming⟩ : (x.threads i).todo = [] ∧ (x.threads i).incoming = [] := hrest
  obtain ⟨held, hturns⟩ := hbegun.turns
  have horderly := hbegun.orderly
  rw [← Multiset.coe_add] at horderly
  rw [around_todo, todo, total_eq x i, htodo, Multiset.coe_nil] at hturns horderly
  have hafter : ((x.client i).opened call r tasks w).todo = tasks ++ [] := (List.append_nil tasks).symm
  refine .of_turns htodo hafter hturns ?_ ?_
  · rw [zero_add] at horderly
    have hspends : (call.spends : Multiset Holding) ≤ (x.threads i).held := hallowed.spends_le
    have hleaves : (call.leaves : Multiset HeapId) ≤ (x.threads i).heaps := hallowed.leaves_le
    have hheld : r.others + (x.held - call.spends) =
        r.others + ((x.threads i).held - call.spends) + x.others i Thread.held := by
      rw [Crowd.held, total_eq x i, add_assoc, tsub_add_eq_add_tsub hspends]
    have hheaps : r.heaps + (x.heaps - call.leaves) =
        r.heaps + ((x.threads i).heaps - call.leaves) + x.others i Thread.heaps := by
      rw [Crowd.heaps, total_eq x i, add_assoc, tsub_add_eq_add_tsub hleaves]
    have hhandles : r.handles ++ (x.around i).incoming =
        r.handles ++ (x.others i fun t => t.incoming).toList := by
      rw [Crowd.around, hincoming, List.nil_append]
    change w.Orderly _ (r.others + (x.held - call.spends)) (r.heaps + (x.heaps - call.leaves))
      (r.handles ++ (x.around i).incoming) at horderly
    rw [hheld, hheaps, hhandles] at horderly
    exact horderly
  · intro a ha
    refine hallowed.knows_after (hbegun.home a ha) (Multiset.le_add_left _ _)
      (Multiset.le_add_left _ _) fun b hb => ?_
    exact (h.around i).valueAt_eq hturns (sees_around hb)

/-- A call of a thread is refused. -/
theorem Sound.refused (h : x.Sound) {call : Call} {f : Fault} {w : World}
    (hrest : (x.client i).AtRest) (hallowed : call.Allowed (x.client i))
    (hstart : call.start x.world = .error f w) (hf : f.upFront = true) :
    x.Moves i { x.client i with world := w } := by
  have hbegins := Call.begins (h.around i) (allowed_around hallowed)
  have hrefused : call.Refused (x.around i) f w := hbegins.of_error hstart
  obtain ⟨htodo, hincoming⟩ : (x.threads i).todo = [] ∧ (x.threads i).incoming = [] := hrest
  obtain ⟨held, hturns⟩ := hrefused.turns hf
  have horderly : w.Orderly (x.around i).todo x.held x.heaps (x.around i).incoming :=
    hrefused.orderly hf
  rw [around_todo, todo, total_eq x i, htodo, Multiset.coe_nil] at hturns
  have hnext : ({ x.client i with world := w } : Client).todo = [] ++ [] := htodo
  refine .of_turns htodo hnext hturns ?_ ?_
  · rw [around_todo, todo, Crowd.held, Crowd.heaps, total_eq x i, total_eq x i, total_eq x i] at horderly
    exact horderly
  · intro a ha
    change a ∈ (x.threads i).incoming at ha
    rw [hincoming] at ha
    cases ha

/-- All other tasks of all threads are left while one is carried out. -/
theorem Sound.orderly_cons (h : x.Sound) {t : Task} {rest : List Task}
    (htodo : (x.threads i).todo = t :: rest) :
    x.world.Orderly (t ::ₘ ((rest : Multiset Task) + x.otherTodo i)) x.held x.heaps
      (x.around i).incoming := by
  have horderly := h.around i
  unfold Client.Orderly at horderly
  rw [around_todo, todo, total_eq x i, htodo, ← Multiset.cons_coe, Multiset.cons_add] at horderly
  exact horderly

/-- No task of a thread fails, whatever the others did before. -/
theorem Sound.step_ne_error (h : x.Sound) {t : Task} {rest : List Task}
    (htodo : (x.threads i).todo = t :: rest) (f : Fault) (w : World) :
    t.step x.world ≠ .error f w :=
  fun hfault => (Task.step_ends (h.orderly_cons htodo)).of_error hfault

/-- A thread carries out a task. -/
theorem Sound.stepped (h : x.Sound) {t : Task} {rest more : List Task} {w : World}
    (htodo : (x.threads i).todo = t :: rest) (hstep : t.step x.world = .ok more w) :
    x.Moves i { x.client i with world := w, todo := more ++ rest } := by
  obtain ⟨hnext, -, hturns⟩ := (Task.step_ends (h.orderly_cons htodo)).of_ok hstep
  refine .of_turns htodo rfl hturns ?_ fun a ha => ?_
  · rw [← add_assoc, Multiset.coe_add, Crowd.held, Crowd.heaps, total_eq x i, total_eq x i] at hnext
    exact hnext
  · refine (h.known i a ha).mono (le_refl _) (le_refl _) fun b hb => ?_
    exact (h.around i).valueAt_eq hturns (sees_around hb)

/-- A handle of a thread arrives. -/
theorem Sound.arrived (h : x.Sound) {a : Handle} {rest : List Handle}
    (hincoming : (x.threads i).incoming = a :: rest) :
    x.Moves i ⟨x.world.enter a.heap, .root a ::ₘ (x.threads i).held, (x.threads i).heaps,
      (x.threads i).todo, rest⟩ := by
  have hincoming' : (x.around i).incoming =
      a :: (rest ++ (x.others i fun t => t.incoming).toList) := by
    rw [Crowd.around, hincoming, List.cons_append]
  have hknows : (x.client i).Knows a.heap := h.known i a (hincoming ▸ List.mem_cons_self)
  have horderly := (h.around i).arrive hincoming' (knows_around hknows)
  unfold Client.Orderly at horderly
  dsimp only at horderly
  rw [around_todo, todo, total_eq x i] at horderly
  have hgrows : x.world.Grows (x.around i).Owns none (x.world.enter a.heap) := .enter _ _
  have hapart : ∀ u ∈ ((x.threads i).todo : Multiset Task) + x.others i fun t => (t.todo : Multiset Task),
      ∀ s, .slot s ∈ u.holdings x.world → s < x.world.slots.size ∧ ¬ (x.around i).Owns s := by
    intro u hu
    exact (h.around i).apart u (by rwa [around_todo, todo, total_eq x i])
  have hturns := Turns.of_grows hgrows horderly.guarded hapart
    (List.forall_mem_nil fun u : Task => u.buries = none) (by simp)
  refine .of_turns rfl rfl hturns ?_ fun b hb => ?_
  · change World.Orderly _ _ (.root a ::ₘ x.held) x.heaps _ at horderly
    rw [Crowd.held, Crowd.heaps, total_eq x i, total_eq x i, ← Multiset.cons_add] at horderly
    exact horderly
  · refine (h.known i b (hincoming ▸ List.mem_cons_of_mem _ hb)).mono ?_ (le_refl _) fun _ _ => rfl
    exact Multiset.le_cons_self _ _

/-- A thread gives something to another. -/
theorem Sound.handOver (h : x.Sound) {j : ι} (hne : i ≠ j) (hrest : (x.client i).AtRest)
    {xs : Multiset Holding} {hs : Multiset HeapId} (hxs : xs ≤ (x.threads i).held)
    (hhs : hs ≤ (x.threads i).heaps) : (x.handOver i j xs hs).Sound := by
  have htodo (k : ι) : ((x.handOver i j xs hs).threads k).todo = (x.threads k).todo :=
    handOver_eq hne (fun _ _ _ => rfl) k
  have hincoming (k : ι) : ((x.handOver i j xs hs).threads k).incoming = (x.threads k).incoming :=
    handOver_eq hne (fun _ _ _ => rfl) k
  have htodos : (x.handOver i j xs hs).todo = x.todo := total_handOver hne rfl
  have hincomings : (x.handOver i j xs hs).incoming = x.incoming := total_handOver hne rfl
  have hheld : (x.handOver i j xs hs).held = x.held := by
    apply total_handOver hne
    dsimp only
    rw [← add_assoc, tsub_add_cancel_of_le hxs]
  have hheaps : (x.handOver i j xs hs).heaps = x.heaps := by
    apply total_handOver hne
    dsimp only
    rw [← add_assoc, tsub_add_cancel_of_le hhs]
  refine ⟨?_, fun k a ha => ?_, fun k => ?_, fun k l hkl t ht u hu => ?_, ?_, ?_, h.unleaked, h.housed⟩
  · rw [htodos, hheld, hheaps, hincomings]
    exact h.orderly
  · rw [hincoming] at ha
    -- the thread that gives has no handles on their way, and the other threads lose nothing
    have hki : k ≠ i := by
      rintro rfl
      have hnone : (x.threads k).incoming = [] := hrest.2
      rw [hnone] at ha
      cases ha
    have hmore : (x.threads k).held ≤ ((x.handOver i j xs hs).threads k).held ∧
        (x.threads k).heaps ≤ ((x.handOver i j xs hs).threads k).heaps := by
      by_cases hj : k = j
      · rw [hj, handOver_right]
        exact ⟨Multiset.le_add_left _ _, Multiset.le_add_left _ _⟩
      · rw [handOver_of_ne hki hj]
        exact ⟨le_refl _, le_refl _⟩
    exact (h.known k a ha).mono hmore.1 hmore.2 fun _ _ => rfl
  · rw [htodo]
    exact h.pairwise k
  · rw [htodo] at ht hu
    exact h.across k l hkl t ht u hu
  · rw [htodos]
    exact h.dropped
  · rw [htodos]
    exact h.retires

/-- Every step of a thread is a turn. -/
theorem Sound.moves (h : x.Sound) {c : Client} (hstep : (x.client i).Step c) : x.Moves i c := by
  cases hstep with
  | opened hrest hallowed hstart => exact h.opened hrest hallowed hstart
  | refused hrest hallowed hstart hf => exact h.refused hrest hallowed hstart hf
  | stepped htodo hstep => exact h.stepped htodo hstep
  | arrived _ hincoming => exact h.arrived hincoming

/-- Whatever step is next, the threads behave well after it. -/
theorem Sound.step (h : x.Sound) {y : Crowd ι} (hstep : x.Step y) : y.Sound := by
  cases hstep with
  | thread i hclient => exact (h.moves hclient).sound h
  | handOver hne hrest hxs hhs => exact h.handOver hne hrest hxs hhs

/-- What a step reports to be marked was live, or is new. -/
theorem Sound.marks (h : x.Sound) {y : Crowd ι} (hstep : x.Step y) :
    ∃ added, y.world.log.toList = x.world.log.toList ++ added ∧ ∀ e ∈ added, ∀ o ∈ e.marks,
      x.world.isLive o = true ∨ x.world.objects.size ≤ o ∧ o < y.world.objects.size := by
  cases hstep with
  | thread i hclient => exact (h.moves hclient).marks
  | handOver => exact ⟨[], (List.append_nil _).symm, fun e he => absurd he List.not_mem_nil⟩

omit [DecidableEq ι] in
theorem sound_start : ({} : Crowd ι).Sound := by
  have htodo : ({} : Crowd ι).todo = 0 := by simp [todo, total]
  have hheld : ({} : Crowd ι).held = 0 := by simp [Crowd.held, total]
  have hheaps : ({} : Crowd ι).heaps = 0 := by simp [Crowd.heaps, total]
  have hincoming : ({} : Crowd ι).incoming = 0 := by simp [Crowd.incoming, total]
  refine ⟨?_, by simp, by simp, by simp, ?_, by simp [htodo], by simp, ?_⟩
  · rw [htodo, hheld, hheaps, hincoming]
    simpa [World.Orderly] using World.steady_empty
  · rw [htodo]
    rfl
  · intro _ h o hlive
    simp [World.isLive] at hlive

theorem Interleaved.sound (h : x.Interleaved) : x.Sound := by
  induction h with
  | start => exact sound_start
  | step _ hstep ih => exact ih.step hstep

end Crowd

/-! ## A client among idle threads -/

namespace Client

variable {ι : Type} [DecidableEq ι] {i : ι} {c c' : Client}

/-- The client as one of several threads, of which the others have nothing. -/
def among (i : ι) (c : Client) : Crowd ι := ({} : Crowd ι).put i c

@[simp] theorem among_world (i : ι) (c : Client) : (c.among i).world = c.world := rfl

@[simp] theorem client_among (i : ι) (c : Client) : (c.among i).client i = c :=
  Crowd.client_put_self ..

theorem put_among (i : ι) (c c' : Client) : (c.among i).put i c' = c'.among i :=
  congrArg (Crowd.mk c'.world) (Function.update_idem ..)

theorem among_start (i : ι) : ({} : Client).among i = {} :=
  congrArg (Crowd.mk {}) (Function.update_eq_self ..)

theorem todo_among (c : Client) : (c.among ()).todo = c.todo :=
  Fintype.sum_unique fun i => (((c.among ()).threads i).todo : Multiset Task)

theorem interleaved_among (h : (c.among i).Interleaved) (hstep : c.Step c') :
    (c'.among i).Interleaved := by
  rw [← put_among i c c']
  rw [← client_among i c] at hstep
  exact .step h (.thread i hstep)

/-- A client that behaves well is a thread that nobody interferes with. A call that is run at once is
taken apart into its steps. -/
theorem Reached.interleaved (i : ι) (h : c.Reached) : (c.among i).Interleaved := by
  induction h with
  | start =>
      rw [among_start]
      exact .start
  | @ran c call r w hc hrest hallowed hrun ih =>
      cases hstart : call.start c.world with
      | error f w' =>
          rw [Call.run_of_refusal hstart] at hrun
          cases hrun
      | ok p w' =>
          obtain ⟨r', tasks⟩ := p
          -- each step of the agenda, and each arrival, is a step of the thread
          have hbegun := (Call.begins hc.sound.orderly hallowed).of_ok hstart
          have hopened := hc.sound.opened hrest hallowed hbegun
          obtain ⟨w'', hfinish, -, hafter⟩ := hopened.finish
            (motive := fun c => (c.among i).Interleaved)
            (interleaved_among ih (.opened hrest hallowed hstart))
            (fun _ _ _ _ _ hc htodo hstep => interleaved_among hc (.stepped htodo hstep))
            fun _ _ _ hc htodo hincoming => interleaved_among hc (.arrived htodo hincoming)
          rw [Call.run_of_start hstart hfinish] at hrun
          cases hrun
          exact hafter
  | @refused c call f w hc hrest hallowed hrun hf ih =>
      cases hstart : call.start c.world with
      | error f' w' =>
          rw [Call.run_of_refusal hstart] at hrun
          cases hrun
          exact interleaved_among ih (.refused hrest hallowed hstart hf)
      | ok p w' =>
          obtain ⟨w'', hfinished, -⟩ := Call.finishes hc.sound hrest hallowed hstart
          rw [hfinished] at hrun
          cases hrun
  | opened _ hrest hallowed hstart ih => exact interleaved_among ih (.opened hrest hallowed hstart)
  | stepped _ htodo hstep ih => exact interleaved_among ih (.stepped htodo hstep)

end Client

end RootedHeap
