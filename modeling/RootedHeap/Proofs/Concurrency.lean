import RootedHeap.Proofs.Interleaving
import RootedHeap.Proofs.Runs

/-! # What threads can rely on

However threads interleave, nothing that was collected is tagged, rooted or handed out again, no two
threads put the same object away, and no value is dropped twice. When all threads are done and have
given up what they held, nothing is left behind, unless a heap went while slots still held objects of
it: these are never collected (`Crowd.Interleaved.safe`).
-/

namespace RootedHeap

open World

namespace World

/-- Values hold nothing apart from the slots that they report, other than weak references. -/
def Plain (w : World) : Prop := ∀ o, ∀ y ∈ (w.valueAt o).unseen, y.targets w = 0

/-- Nothing is left but what weak references keep: every value was dropped, once. -/
structure Vacant (w : World) : Prop where
  live : ∀ o, w.isLive o = false
  counted : ∀ (g : HeapId) (heap : Heap), w.heaps[g]? = some heap → heap.live = 0
  roots : ∀ g, w.rootsAt g = []
  untagged : ∀ o r, w.tallies.count o r = 0
  strong : ∀ o, w.strongAt o = 0
  slots : ∀ s, (w.slotAt s).targets = []
  dropped : ∀ o < w.objects.size, w.dropped.toList.count o = 1

section Vacant

variable {w : World} {held : Multiset Holding} {owed : HeapId → ℤ} (h : w.Steady 0 held owed)
  (hheld : ∀ y ∈ held, ∃ o, y = .weak o) (hplain : w.Plain)

include h hheld hplain

/-- Nobody has a handle. -/
theorem Steady.not_root {a : Handle} : .root a ∉ w.ledger 0 held := by
  intro ha
  rw [ledger, Multiset.zero_bind, add_zero] at ha
  rcases Multiset.mem_add.mp ha with ha | ha
  · obtain ⟨o, -, ha⟩ := Multiset.mem_bind.mp ha
    rw [(h.guarded.matched o).holdings_eq] at ha
    rcases Multiset.mem_add.mp ha with ha | ha
    · obtain ⟨s, -, hs⟩ := List.mem_map.mp (Multiset.mem_coe.mp ha)
      cases hs
    · exact Multiset.singleton_ne_zero _ (hplain o _ ha)
  · obtain ⟨o, ho⟩ := hheld _ ha
    cases ho

/-- Without handles there are no roots. -/
theorem Steady.rootsAt_eq_nil (g : HeapId) : w.rootsAt g = [] := by
  apply List.eq_nil_iff_forall_not_mem.mpr
  intro e he
  exact h.not_root hheld hplain (h.accounted.exists_handle he)

/-- Without roots nothing is tagged. -/
theorem Steady.count_eq_zero (o : ObjId) (r : RootId) : w.tallies.count o r = 0 := by
  by_contra hne
  obtain ⟨s, hs, -⟩ := (h.tallied.balanced r).rooted o (Nat.pos_of_ne_zero hne)
  unfold support at hs
  split at hs
  · rw [h.rootsAt_eq_nil hheld hplain] at hs
    simp at hs
  · simp at hs

/-- What is live in a heap that exists would be led to from outside the graph, where there is nothing
left. -/
theorem Steady.not_live (hhoused : ∀ g o, w.isLive o = true → w.owns g o = true →
    w.heapExists g = true) (o : ObjId) : w.isLive o = false := by
  by_contra hlive
  rw [Bool.not_eq_false] at hlive
  obtain ⟨g, hown⟩ := exists_owns hlive
  -- untagged, it is a candidate, and so anchored by something outside the graph
  have hempty : w.tallies.isEmptyAt o = true :=
    Tallies.isEmptyAt_iff.mpr (h.count_eq_zero hheld hplain o)
  obtain ⟨y, hy, -⟩ :=
    h.anchored g o hown (hhoused g o hlive hown) (candidateIn_iff.mpr ⟨hlive, hempty⟩)
  have houter : y ∈ w.outer 0 held := hy.resolve_left List.not_mem_nil
  rw [outer, offGraph, Multiset.zero_bind, Multiset.zero_bind, add_zero, add_zero] at houter
  obtain ⟨x, hx, hyx⟩ := Multiset.mem_bind.mp houter
  rcases Multiset.mem_add.mp hx with hx | hx
  · obtain ⟨p, -, hx⟩ := Multiset.mem_bind.mp hx
    rw [hplain p x hx] at hyx
    cases hyx
  · obtain ⟨t, rfl⟩ := hheld x hx
    cases hyx

theorem Steady.vacant (hhoused : ∀ g o, w.isLive o = true → w.owns g o = true →
    w.heapExists g = true) (hdropped : (w.dropped.toList : Multiset ObjId) = w.departed) :
    w.Vacant := by
  have hlive := h.not_live hheld hplain hhoused
  have hlives : w.lives = 0 := Multiset.filter_eq_nil.mpr fun o _ => by simp [hlive o]
  have hledger : w.ledger 0 held = held := by simp [ledger, hlives]
  refine ⟨hlive, fun g heap hheap => ?_, h.rootsAt_eq_nil hheld hplain, h.count_eq_zero hheld hplain,
    fun o => ?_, fun s => ?_, fun o ho => ?_⟩
  · rw [h.accounted.live_eq g heap hheap, hlives]
    rfl
  · rw [h.accounted.strong_eq, refs, hledger, Multiset.zero_bind, add_zero]
    apply Multiset.count_eq_zero.mpr
    intro ho
    obtain ⟨x, hx, hox⟩ := Multiset.mem_bind.mp ho
    obtain ⟨t, rfl⟩ := hheld x hx
    cases hox
  · apply h.accounted.slots_idle
    rw [hledger]
    intro hs
    obtain ⟨x, hx, hsx⟩ := Multiset.mem_bind.mp hs
    obtain ⟨t, rfl⟩ := hheld x hx
    cases hsx
  · have hcount := Multiset.count_eq_one_of_mem w.nodup_departed (mem_departed.mpr ⟨ho, hlive o⟩)
    rwa [← hdropped, Multiset.coe_count] at hcount

end Vacant

end World

namespace Crowd

variable {ι : Type} {x : Crowd ι}

/-- All threads are done, and hold weak references at most. -/
structure Done (x : Crowd ι) : Prop where
  todo : ∀ i, (x.threads i).todo = []
  incoming : ∀ i, (x.threads i).incoming = []
  held : ∀ i, ∀ y ∈ (x.threads i).held, ∃ o, y = .weak o

variable [Fintype ι] [DecidableEq ι]

/-- No two threads put the same object away. -/
theorem Sound.apart (h : x.Sound) {i j : ι} (hij : i ≠ j) {t u : Task} (ht : t ∈ (x.threads i).todo)
    (hu : u ∈ (x.threads j).todo) {o : ObjId} (hot : t.retires = some o) : u.retires ≠ some o := by
  intro hou
  have hnodup := h.retires
  rw [todo, total_eq x i, Multiset.filterMap_add] at hnodup
  have hother : u ∈ x.others i fun t => t.todo := mem_others.mpr ⟨j, Ne.symm hij, hu⟩
  refine Multiset.disjoint_left.mp (Multiset.nodup_add.mp hnodup).2.2
    ((Multiset.mem_filterMap _ _).mpr ⟨t, ht, hot⟩) ((Multiset.mem_filterMap _ _).mpr ⟨u, hother, hou⟩)

omit [DecidableEq ι] in
/-- When all threads are done, nothing is left. -/
theorem Sound.vacant (h : x.Sound) (hdone : x.Done) (hplain : x.world.Plain)
    (hhoused : ∀ e ∈ x.world.log.toList, e.abandons = false) : x.world.Vacant := by
  have htodo : x.todo = 0 := Finset.sum_eq_zero fun i _ => congrArg _ (hdone.todo i)
  have hincoming : x.incoming = 0 := Finset.sum_eq_zero fun i _ => congrArg _ (hdone.incoming i)
  have hsteady := h.orderly
  unfold World.Orderly at hsteady
  rw [htodo, hincoming, Multiset.toList_zero, List.map_nil, Multiset.coe_nil, zero_add] at hsteady
  have hdropped := h.dropped
  rw [htodo, Multiset.filterMap_zero, add_zero] at hdropped
  refine World.Steady.vacant hsteady (fun y hy => ?_) hplain (h.housed hhoused) hdropped
  obtain ⟨i, hy⟩ := mem_total.mp hy
  exact hdone.held i y hy

omit [DecidableEq ι] in
/-- Registered roots are those of handles, so their targets are live. -/
theorem Sound.live_of_mem_rootsAt (h : x.Sound) {g : HeapId} {e : RootId × ObjId}
    (he : e ∈ x.world.rootsAt g) : x.world.isLive e.2 = true := by
  exact (World.Sound.handle h.orderly (h.orderly.accounted.exists_handle he)).1

/-- A thread only gets at handles of live objects. -/
theorem Sound.live_of_handle (h : x.Sound) {i : ι} {a : Handle}
    (ha : (x.client i).Sees (.root a) ∨ a ∈ (x.threads i).incoming) :
    x.world.isLive a.obj = true := by
  rcases ha with ha | ha
  · exact ((h.around i).handle (sees_around ha)).1
  · have hincoming : a ∈ x.incoming.toList := Multiset.mem_toList.mpr (mem_total.mpr ⟨i, ha⟩)
    have hmem : .root a ∈ x.world.ledger x.todo
        ((x.incoming.toList.map Holding.root : List Holding) + x.held) :=
      mem_ledger_of_held (Multiset.mem_add.mpr (.inl (List.mem_map_of_mem hincoming)))
    exact (World.Sound.handle h.orderly hmem).1

/-- In whatever order threads take their steps: what a step tags or registers a root for was live, or
is new; tagged objects, targets of roots and objects of handles are live; no two threads put the same
object away, and no value is dropped twice. When all threads are done and have given up what they held,
nothing is left, if values hold nothing but slots that they report and no heap went with live objects
left. -/
theorem Interleaved.safe (h : x.Interleaved) :
    (∀ y, x.Step y → ∃ added, y.world.log.toList = x.world.log.toList ++ added ∧
      ∀ e ∈ added, ∀ o ∈ e.marks,
        x.world.isLive o = true ∨ x.world.objects.size ≤ o ∧ o < y.world.objects.size) ∧
    (∀ o r, 0 < x.world.tallies.count o r → x.world.isLive o = true) ∧
    (∀ g, ∀ e ∈ x.world.rootsAt g, x.world.isLive e.2 = true) ∧
    (∀ i a, (x.client i).Sees (.root a) ∨ a ∈ (x.threads i).incoming →
      x.world.isLive a.obj = true) ∧
    (∀ i j, i ≠ j → ∀ t ∈ (x.threads i).todo, ∀ u ∈ (x.threads j).todo, ∀ o,
      t.retires = some o → u.retires ≠ some o) ∧
    ((x.world.dropped.toList : Multiset ObjId) + x.todo.filterMap Task.drops).Nodup ∧
    (x.Done → x.world.Plain → (∀ e ∈ x.world.log.toList, e.abandons = false) → x.world.Vacant) := by
  have hsound := h.sound
  refine ⟨fun y hstep => hsound.marks hstep,
    fun o r ho => hsound.orderly.tallied.live_of_count hsound.orderly.guarded ho,
    fun g e he => hsound.live_of_mem_rootsAt he, fun i a ha => hsound.live_of_handle ha,
    fun i j hij t ht u hu o hot => hsound.apart hij ht hu hot, ?_, hsound.vacant⟩
  rw [hsound.dropped]
  exact x.world.nodup_departed

/-! ## Two threads -/

section Two

/-- The threads once the session of a call of one is over. -/
def begin (x : Crowd ι) (i : ι) (call : Call) : Crowd ι := x.put i ((x.client i).begin call)

/-- The threads once the first task that one has left is carried out. -/
def advance (x : Crowd ι) (i : ι) : Crowd ι := x.put i (x.client i).advance

/-- The threads once the first handle that is on its way to one has arrived. -/
def receive (x : Crowd ι) (i : ι) : Crowd ι :=
  match (x.threads i).incoming with
  | [] => x
  | a :: rest => x.put i ⟨x.world.enter a.heap, .root a ::ₘ (x.threads i).held, (x.threads i).heaps,
      (x.threads i).todo, rest⟩

omit [Fintype ι] in
theorem Interleaved.begin (h : x.Interleaved) {i : ι} {call : Call} (hrest : (x.client i).AtRest)
    (hallowed : call.Allowed (x.client i)) (hstarts : (x.client i).starts call = true) :
    (x.begin i call).Interleaved := by
  obtain ⟨r, tasks, w, hstart, hbegin⟩ := Client.begin_of_starts hstarts
  unfold Crowd.begin
  rw [hbegin]
  exact .step h (.thread i (.opened hrest hallowed hstart))

theorem Interleaved.advance (h : x.Interleaved) (i : ι) : (x.advance i).Interleaved := by
  unfold Crowd.advance Client.advance
  split
  next =>
    have hsame : x.put i (x.client i) = x :=
      congrArg (Crowd.mk x.world) (Function.update_eq_self i x.threads)
    rwa [hsame]
  next t rest htodo =>
    split
    next more w hstep => exact .step h (.thread i (.stepped htodo hstep))
    next f w hfault => exact absurd hfault (h.sound.step_ne_error htodo f w)

omit [Fintype ι] in
theorem Interleaved.receive (h : x.Interleaved) {i : ι} (htodo : (x.threads i).todo = []) :
    (x.receive i).Interleaved := by
  unfold Crowd.receive
  split
  next => exact h
  next a rest hincoming => exact .step h (.thread i (.arrived htodo hincoming))

/-- The first of two threads has an object, and a second handle to it. -/
def shared : Crowd (Fin 2) := ((Client.lone.among 0).begin 0 (.clone ⟨0, 1, 0⟩)).receive 0

/-- It gives the second handle away. Both handles are dropped: the second thread collects the object
before the first one has left the heap. -/
def crossed : Crowd (Fin 2) :=
  ((((shared.handOver 0 1 {.root ⟨0, 2, 0⟩} 0).begin 0 (.drop ⟨0, 1, 0⟩)).begin 1
    (.drop ⟨0, 2, 0⟩)).advance 0).advance 1

/-- Both threads come to their ends. -/
def parted : Crowd (Fin 2) := (((crossed.advance 1).advance 0).advance 1).advance 1

theorem shared_interleaved : shared.Interleaved := by
  have hheld : Client.lone.held = {.root ⟨0, 1, 0⟩} := by cbv
  have hclient := Client.client_among (0 : Fin 2) Client.lone
  have hleaf : Client.lone.Sees (.root ⟨0, 1, 0⟩) := .held (hheld ▸ Multiset.mem_singleton_self _)
  have hcloned : ((Client.lone.among (0 : Fin 2)).begin 0 (.clone ⟨0, 1, 0⟩)).Interleaved := by
    apply Interleaved.begin (Client.lone_reached.1.interleaved 0)
    · exact hclient ▸ Client.lone_reached.2
    · exact hclient ▸ hleaf
    · cbv
  exact hcloned.receive (by cbv)

omit [Fintype ι] in
/-- A thread that has nothing but a handle can drop it. -/
theorem Interleaved.begin_drop (h : x.Interleaved) {i : ι} {a : Handle} {heaps : Multiset HeapId}
    (hthread : x.threads i = ⟨{.root a}, heaps, [], []⟩) : (x.begin i (.drop a)).Interleaved := by
  apply h.begin
  · exact ⟨congrArg Thread.todo hthread, congrArg Thread.incoming hthread⟩
  · have hheld : (x.client i).held = {.root a} := congrArg Thread.held hthread
    change _ ∈ (x.client i).held
    rw [hheld]
    exact Multiset.mem_singleton_self _
  · rfl

theorem crossed_interleaved : crossed.Interleaved := by
  have hshared : shared.threads 0 = ⟨{.root ⟨0, 2, 0⟩, .root ⟨0, 1, 0⟩}, {0}, [], []⟩ := by cbv
  have hgiven : (shared.handOver 0 1 {.root ⟨0, 2, 0⟩} 0).Interleaved := by
    apply shared_interleaved.step
    apply Step.handOver (by decide)
    · exact ⟨congrArg Thread.todo hshared, congrArg Thread.incoming hshared⟩
    · have hheld : (shared.threads 0).held = {.root ⟨0, 2, 0⟩, .root ⟨0, 1, 0⟩} :=
        congrArg Thread.held hshared
      rw [hheld]
      exact Multiset.singleton_le.mpr (Multiset.mem_cons_self _ _)
    · exact Multiset.zero_le _
  have hleft : (shared.handOver 0 1 {.root ⟨0, 2, 0⟩} 0).threads 0 =
      ⟨{.root ⟨0, 1, 0⟩}, {0}, [], []⟩ := by
    rw [handOver_left (by decide), hshared]
    rfl
  have hright : ((shared.handOver 0 1 {.root ⟨0, 2, 0⟩} 0).begin 0 (.drop ⟨0, 1, 0⟩)).threads 1 =
      ⟨{.root ⟨0, 2, 0⟩}, 0, [], []⟩ := by cbv
  exact (((hgiven.begin_drop hleft).begin_drop hright).advance 0).advance 1

/-- Nothing is left of the object, although its collection was interrupted. -/
theorem parted_safe :
    (crossed.threads 0).todo = [.leave 0] ∧
    (crossed.threads 1).todo = [.dropValue 0, .retire 0 0, .leave 0] ∧ parted.world.Vacant := by
  have hinterleaved : parted.Interleaved :=
    (((crossed_interleaved.advance 1).advance 0).advance 1).advance 1
  have hleft : parted.threads 0 = ⟨0, {0}, [], []⟩ := by cbv
  have hright : parted.threads 1 = {} := by cbv
  have hdone : parted.Done := by
    constructor <;> simp [Fin.forall_fin_two, hleft, hright]
  have hplain : parted.world.Plain := by
    have hsize : parted.world.objects.size = 1 := by cbv
    intro o y hy
    have hvalue : parted.world.valueAt o = .plain := by
      cases o with
      | zero => cbv
      | succ o => simp [valueAt, hsize]
    rw [hvalue] at hy
    cases hy
  have hkept : parted.world.log.toList.all (fun e => !e.abandons) = true := by cbv
  refine ⟨by cbv, by cbv, hinterleaved.safe.2.2.2.2.2.2 hdone hplain fun e he => ?_⟩
  simpa using List.all_eq_true.mp hkept e he

end Two

end Crowd

/-! ## A heap that goes too early -/

namespace Client

variable {ι : Type} [DecidableEq ι] {c : Client}

theorem done_among (i : ι) (hrest : c.AtRest) (hheld : ∀ y ∈ c.held, ∃ o, y = .weak o) :
    (c.among i).Done := by
  have hother {j : ι} (hj : j ≠ i) : (c.among i).threads j = {} := Crowd.put_of_ne _ c hj
  have hself : (c.among i).threads i = ⟨c.held, c.heaps, c.todo, c.incoming⟩ := Crowd.put_self _ i c
  refine ⟨fun j => ?_, fun j => ?_, fun j y hy => ?_⟩ <;> by_cases hj : j = i
  · rw [hj, hself]
    exact hrest.1
  · rw [hother hj]
  · rw [hj, hself]
    exact hrest.2
  · rw [hother hj]
  · rw [hj, hself] at hy
    exact hheld y hy
  · rw [hother hj] at hy
    cases hy

/-- A client that keeps an object in a field of its own, and has dropped its handle. -/
def keeper : Client :=
  ((lone.call (.newField (some ⟨0, 1, 0⟩))).begin (.drop ⟨0, 1, 0⟩)).advance.advance

/-- It drops the heap, and then the field. -/
def forsaken : Client := ((keeper.begin (.dropHeap 0)).advance.begin (.dropSlot 0)).advance.advance

theorem keeper_reached : keeper.Reached ∧ keeper.AtRest := by
  have hheld : (lone.call (.newField (some ⟨0, 1, 0⟩))).held = {.slot 0, .root ⟨0, 1, 0⟩} := by cbv
  have hkept : (lone.call (.newField (some ⟨0, 1, 0⟩))).Reached ∧
      (lone.call (.newField (some ⟨0, 1, 0⟩))).AtRest :=
    Reached.call lone_reached field_allowed (by cbv)
  refine ⟨.advance (.advance (hkept.1.begin hkept.2 ?_ rfl)), by cbv, by cbv⟩
  change _ ∈ Client.held _
  rw [hheld]
  exact Multiset.mem_cons_of_mem (Multiset.mem_singleton_self _)

theorem forsaken_reached : forsaken.Reached ∧ forsaken.AtRest := by
  have hheaps : keeper.heaps = {0} := by cbv
  have hslot : (keeper.begin (.dropHeap 0)).advance.held = {.slot 0} := by cbv
  have hleft : (keeper.begin (.dropHeap 0)).advance.Reached := by
    refine .advance (keeper_reached.1.begin keeper_reached.2 ?_ rfl)
    change _ ∈ keeper.heaps
    rw [hheaps]
    exact Multiset.mem_singleton_self _
  refine ⟨.advance (.advance (hleft.begin ⟨by cbv, by cbv⟩ ?_ rfl)), by cbv, by cbv⟩
  change _ ∈ Client.held _
  rw [hslot]
  exact Multiset.mem_singleton_self _

/-- Its object is never collected, although nothing is left that refers to it. -/
theorem forsaken_live : ¬ ∀ x : Crowd (Fin 2), x.Interleaved → x.Done → x.world.Plain →
    ∀ o, x.world.isLive o = false := by
  intro hnone
  have hheld : forsaken.held = 0 := by cbv
  have hsize : forsaken.world.objects.size = 1 := by cbv
  have hvalue : ∀ o, forsaken.world.valueAt o = .plain := by
    intro o
    cases o with
    | zero => cbv
    | succ o => simp [valueAt, hsize]
  obtain ⟨hreached, hrest⟩ := forsaken_reached
  have hdone : (forsaken.among (0 : Fin 2)).Done := by
    apply done_among 0 hrest
    simp [hheld]
  have hplain : (forsaken.among (0 : Fin 2)).world.Plain := by
    intro o y hy
    rw [among_world, hvalue] at hy
    cases hy
  have hdead := hnone _ (hreached.interleaved 0) hdone hplain 0
  have hlive : forsaken.world.isLive 0 = true := by cbv
  rw [among_world, hlive] at hdead
  cases hdead

end Client

end RootedHeap
