import RootedHeap.Proofs.Frames
import RootedHeap.Proofs.Rooting

/-! # Reclaiming

When a session ends, the trial deletion below its suspects finds exactly the garbage: nothing that
is held from outside refers to a lost object, and neither does a live object that is not lost
(`World.Sound.unheld`). What is not lost stays anchored: an outer reference leads to it, or it has
an edge from a lost object, which is an outer reference once that object is condemned
(`World.Sound.anchored_collect`).
-/

namespace RootedHeap

namespace World

/-! ## Condemned objects -/

/-- Choose `dead` for collection and take them off the heap's count of live objects. -/
def collect (w : World) (g : HeapId) (dead : List ObjId) : World :=
  (w.condemn dead).modifyHeap g fun heap => { heap with live := heap.live - dead.length }

section Collect

variable {w : World} {g : HeapId} {dead : List ObjId} {ts : Tallies} {todo : Multiset Task}
  {held : Multiset Holding}

theorem getElem?_foldl_condemn (os : List ObjId) (objects : Array Object) (o : ObjId) :
    (os.foldl (fun objects o => objects.modify o ({ · with state := .collecting })) objects)[o]? =
      objects[o]?.map fun ob => if o ∈ os then { ob with state := .collecting } else ob := by
  induction os generalizing objects with
  | nil => simp
  | cons x os ih =>
      rw [List.foldl_cons, ih, Array.getElem?_modify]
      by_cases hx : x = o
      · subst hx
        cases objects[x]? <;> simp
      · simp [hx, Ne.symm hx]

theorem object_collect (o : ObjId) :
    (w.collect g dead).objects[o]? =
      w.objects[o]?.map fun ob => if o ∈ dead then { ob with state := .collecting } else ob :=
  getElem?_foldl_condemn dead w.objects o

/-- What is read of objects stays when it does not depend on their state. -/
theorem match_object_collect {β : Type} {d : β} {φ : Object → β}
    (hφ : ∀ ob, φ { ob with state := .collecting } = φ ob) (o : ObjId) :
    (match (w.collect g dead).objects[o]? with
      | some ob => φ ob
      | none => d) =
      match w.objects[o]? with
      | some ob => φ ob
      | none => d := by
  rw [object_collect]
  cases w.objects[o]? with
  | none => rfl
  | some ob =>
      simp only [Option.map_some]
      split
      · exact hφ ob
      · rfl

theorem size_collect : (w.collect g dead).objects.size = w.objects.size := by
  have hfold (os : List ObjId) (objects : Array Object) :
      (os.foldl (fun objects o => objects.modify o ({ · with state := .collecting }))
        objects).size = objects.size := by
    induction os generalizing objects with
    | nil => rfl
    | cons x os ih => rw [List.foldl_cons, ih, Array.size_modify]
  exact hfold dead w.objects

theorem isLive_collect {o : ObjId} :
    (w.collect g dead).isLive o = true ↔ w.isLive o = true ∧ o ∉ dead := by
  unfold isLive
  rw [object_collect]
  cases w.objects[o]? with
  | none => simp
  | some ob =>
      simp only [Option.map_some]
      split <;> simp [*]

/-- What was condemned is on its way out. -/
theorem gone_collect_of_mem {o : ObjId} (ho : w.isLive o = true) (hdead : o ∈ dead) :
    (w.collect g dead).Gone o := by
  refine ⟨size_collect.symm ▸ lt_size_of_isLive ho, ?_⟩
  rw [Bool.eq_false_iff, Ne, isLive_collect]
  exact fun h => h.2 hdead

theorem Gone.collect {o : ObjId} (h : w.Gone o) : (w.collect g dead).Gone o := by
  refine ⟨size_collect.symm ▸ h.1, ?_⟩
  rw [Bool.eq_false_iff, Ne, isLive_collect, h.2]
  exact fun hlive => Bool.false_ne_true hlive.1

theorem owns_collect : (w.collect g dead).owns = w.owns := by
  funext h o
  exact match_object_collect (d := false) (φ := fun ob => decide (ob.heap = h)) (fun _ => rfl) o

theorem valueAt_collect : (w.collect g dead).valueAt = w.valueAt := by
  funext o
  exact match_object_collect (d := Value.plain) (φ := Object.value) (fun _ => rfl) o

theorem strongAt_collect : (w.collect g dead).strongAt = w.strongAt := by
  funext o
  exact match_object_collect (d := 0) (φ := Object.strong) (fun _ => rfl) o

theorem out_collect : (w.collect g dead).out = w.out := by
  funext o
  rw [out_eq, out_eq, valueAt_collect]
  rfl

theorem heaps_collect (g' : HeapId) :
    (w.collect g dead).heaps[g']? = (w.heaps[g']?).map fun heap =>
      if g' = g then { heap with live := heap.live - dead.length } else heap :=
  heaps_modifyHeap (w := w.condemn dead) g'

theorem registryAt_collect : (w.collect g dead).registryAt = w.registryAt :=
  registryAt_modifyHeap (w := w.condemn dead) fun _ => rfl

theorem rootsAt_collect : (w.collect g dead).rootsAt = w.rootsAt := by
  funext g'
  rw [rootsAt, rootsAt, registryAt_collect]

theorem holdersAt_collect : (w.collect g dead).holdersAt = w.holdersAt :=
  holdersAt_modifyHeap (w := w.condemn dead) fun _ => rfl

theorem heapExists_collect : (w.collect g dead).heapExists = w.heapExists :=
  heapExists_modifyHeap (w := w.condemn dead) fun _ => rfl

theorem support_collect : (w.collect g dead).support = w.support := by
  funext r o
  unfold support
  rw [rootsAt_collect]
  exact match_object_collect (d := 0)
    (φ := fun ob => (w.rootsAt ob.heap : Multiset (RootId × ObjId)).count (r, o)) (fun _ => rfl) o

theorem candidateIn_collect {o : ObjId} :
    (w.collect g dead).candidateIn ts o = true ↔ w.candidateIn ts o = true ∧ o ∉ dead := by
  rw [candidateIn_iff, candidateIn_iff, isLive_collect]
  tauto

theorem mem_candidateEdges_collect {p c : ObjId} :
    c ∈ (w.collect g dead).candidateEdges ts p ↔ c ∈ w.candidateEdges ts p ∧ c ∉ dead := by
  rw [mem_candidateEdges, mem_candidateEdges, candidateIn_collect, out_collect]
  tauto

/-! ### What the condemned objects hold is still to be given up -/

variable (hnodup : dead.Nodup) (hdead : ∀ o ∈ dead, w.isLive o = true)

include hnodup hdead

theorem lives_collect : w.lives = (dead : Multiset ObjId) + (w.collect g dead).lives := by
  refine (Multiset.Nodup.ext w.nodup_lives ?_).mpr fun o => ?_
  · refine Multiset.nodup_add.mpr ⟨Multiset.coe_nodup.mpr hnodup, nodup_lives _, ?_⟩
    apply Multiset.disjoint_left.mpr
    intro o ho hlive
    exact (isLive_collect.mp (mem_lives.mp hlive)).2 ho
  · rw [Multiset.mem_add, mem_lives, mem_lives, isLive_collect, Multiset.mem_coe]
    constructor
    · intro ho
      by_cases hmem : o ∈ dead
      · exact .inl hmem
      · exact .inr ⟨ho, hmem⟩
    · rintro (ho | ⟨ho, -⟩)
      · exact hdead o ho
      · exact ho

/-- How many live objects of a heap there are, before and after. -/
theorem card_lives_collect (howned : ∀ o ∈ dead, w.owns g o = true) (g' : HeapId) :
    (w.lives.filter fun o => w.owns g' o = true).card = (if g' = g then dead.length else 0) +
      ((w.collect g dead).lives.filter fun o => w.owns g' o = true).card := by
  have hfilter : (dead : Multiset ObjId).filter (fun o => w.owns g' o = true) =
      if g' = g then (dead : Multiset ObjId) else 0 := by
    split
    next heq => exact Multiset.filter_eq_self.mpr fun o ho => heq ▸ howned o ho
    next hne =>
      refine Multiset.filter_eq_nil.mpr fun o ho hown => hne ?_
      exact owns_unique hown (howned o ho)
  rw [lives_collect (g := g) hnodup hdead, Multiset.filter_add, Multiset.card_add, hfilter]
  congr 1
  split <;> simp

omit hnodup hdead in
theorem holdings_collect : Task.holdings (w.collect g dead) = Task.holdings w := by
  funext t
  cases t with
  | dropValue o => rw [Task.holdings, Task.holdings, valueAt_collect]
  | dropSlot | release | dropWeak | dropHandle | leave | retire => rfl

omit hnodup hdead in
theorem bind_holdings_finalizing :
    (Task.finalizing g dead : Multiset Task).bind (Task.holdings w) =
      (dead : Multiset ObjId).bind fun o => ((w.valueAt o).holdings : Multiset Holding) := by
  rw [Task.finalizing, ← Multiset.coe_add, Multiset.add_bind, ← Multiset.map_coe,
    ← Multiset.map_coe, Multiset.bind_map, Multiset.bind_map]
  simp [Task.holdings]

omit hnodup hdead in
theorem bind_released_finalizing :
    (Task.finalizing g dead : Multiset Task).bind Task.released = 0 := by
  rw [Task.finalizing, ← Multiset.coe_add, Multiset.add_bind, ← Multiset.map_coe,
    ← Multiset.map_coe, Multiset.bind_map, Multiset.bind_map]
  simp [Task.released]

theorem ledger_collect :
    (w.collect g dead).ledger (Task.finalizing g dead + todo) held = w.ledger todo held := by
  rw [ledger, ledger, valueAt_collect, holdings_collect, Multiset.add_bind,
    bind_holdings_finalizing, lives_collect (g := g) hnodup hdead, Multiset.add_bind]
  abel

theorem refs_collect :
    (w.collect g dead).refs (Task.finalizing g dead + todo) held = w.refs todo held := by
  rw [refs, refs, ledger_collect hnodup hdead, Multiset.add_bind, bind_released_finalizing,
    Multiset.zero_add]
  rfl

/-- The edges of condemned objects become outer references. -/
theorem outer_collect (hmatched : ∀ o, (w.valueAt o).Matched) :
    (w.collect g dead).outer (Task.finalizing g dead + todo) held =
      (dead : Multiset ObjId).bind (fun o => (w.out o : Multiset ObjId)) + w.outer todo held := by
  have hmatched' : ∀ o, ((w.collect g dead).valueAt o).Matched := by
    rw [valueAt_collect]
    exact hmatched
  have hbefore : w.refs todo held = _ := refs_eq hmatched
  have hafter : (w.collect g dead).refs (Task.finalizing g dead + todo) held = _ :=
    refs_eq hmatched'
  rw [refs_collect hnodup hdead, hbefore, lives_collect (g := g) hnodup hdead,
    Multiset.add_bind, out_collect] at hafter
  refine add_left_cancel (a := (w.collect g dead).lives.bind fun o =>
    (w.out o : Multiset ObjId)) ?_
  rw [← hafter]
  abel

end Collect

/-! ## Garbage -/

section Garbage

variable {w : World} {g : HeapId} {suspects : List ObjId} {support : RootId → ObjId → Nat}
  {todo : Multiset Task} {held : Multiset Holding} {owed : HeapId → ℤ}

theorem lt_size_of_candidateEdges {ts : Tallies} {o c : ObjId} (h : c ∈ w.candidateEdges ts o) :
    c < w.objects.size :=
  lt_size_of_isLive (candidateIn_iff.mp (mem_candidateEdges.mp h).2).1

/-- The trial deletion examines what suspects lead to. -/
theorem mem_garbage_order {o : ObjId} :
    o ∈ (w.garbage suspects).order ↔
      ∃ y ∈ suspects, w.candidateIn w.tallies y = true ∧
        Reach (w.candidateEdges w.tallies) y o := by
  have hstack : ∀ y ∈ (suspects.filter w.candidate).reverse, y < w.objects.size := by
    intro y hy
    obtain ⟨-, hcand⟩ := List.mem_filter.mp (List.mem_reverse.mp hy)
    exact lt_size_of_isLive (candidateIn_iff.mp hcand).1
  have hiff : o ∈ (w.garbage suspects).order ↔
      ∃ y ∈ (suspects.filter w.candidate).reverse, Reach (w.candidateEdges w.tallies) y o :=
    mem_order_iff hstack fun o c hc => lt_size_of_candidateEdges hc
  refine hiff.trans ⟨?_, ?_⟩
  · rintro ⟨y, hy, hreach⟩
    obtain ⟨hy, hcand⟩ := List.mem_filter.mp (List.mem_reverse.mp hy)
    exact ⟨y, hy, hcand, hreach⟩
  · rintro ⟨y, hy, hcand, hreach⟩
    exact ⟨y, List.mem_reverse.mpr (List.mem_filter.mpr ⟨hy, hcand⟩), hreach⟩

theorem mem_garbage_kept {o : ObjId} :
    o ∈ (w.garbage suspects).kept ↔
      ∃ z ∈ (w.garbage suspects).order,
        ((w.garbage suspects).order.flatMap (w.candidateEdges w.tallies)).count z <
            w.strongAt z ∧
          Reach (w.candidateEdges w.tallies) z o :=
  mem_kept_iff fun _ _ hc => lt_size_of_candidateEdges hc

/-- What leads to a candidate along candidates is a candidate. -/
theorem candidate_of_reach {ts : Tallies} {y o : ObjId} (hy : w.candidateIn ts y = true)
    (h : Reach (w.candidateEdges ts) y o) : w.candidateIn ts o = true := by
  cases h with
  | refl => exact hy
  | tail _ hstep => exact (mem_candidateEdges.mp hstep).2

theorem candidate_of_garbage {o : ObjId} (h : o ∈ (w.garbage suspects).order) :
    w.candidateIn w.tallies o = true := by
  obtain ⟨y, -, hy, hreach⟩ := mem_garbage_order.mp h
  exact candidate_of_reach hy hreach

theorem mem_garbage_lost {o : ObjId} :
    o ∈ (w.garbage suspects).lost ↔
      o ∈ (w.garbage suspects).order ∧ o ∉ (w.garbage suspects).kept :=
  mem_lost_iff

theorem nodup_garbage_lost : (w.garbage suspects).lost.Nodup := nodup_lost

theorem live_of_garbage_lost {o : ObjId} (h : o ∈ (w.garbage suspects).lost) :
    w.isLive o = true :=
  (candidateIn_iff.mp (candidate_of_garbage (mem_garbage_lost.mp h).1)).1

variable (h : w.Sound w.tallies w.strongAt support suspects todo held owed)

include h

/-- The references to a candidate come from examined objects, from other live ones, and from
outside. -/
theorem Sound.strong_split {z : ObjId} (hz : w.candidateIn w.tallies z = true) :
    ∃ rest : Multiset ObjId,
      (∀ p, w.isLive p = true → p ∈ (w.garbage suspects).order ∨ p ∈ rest) ∧
      (∀ p ∈ rest, w.isLive p = true ∧ p ∉ (w.garbage suspects).order) ∧
      w.strongAt z =
        ((w.garbage suspects).order.flatMap (w.candidateEdges w.tallies)).count z +
          (rest.bind fun p => (w.out p : Multiset ObjId)).count z +
          (w.outer todo held).count z := by
  have horder : (w.garbage suspects).order.Nodup := nodup_order
  have hle : ((w.garbage suspects).order : Multiset ObjId) ≤ w.lives := by
    apply (Multiset.le_iff_subset (Multiset.coe_nodup.mpr horder)).mpr
    intro o ho
    exact mem_lives.mpr (candidateIn_iff.mp (candidate_of_garbage ho)).1
  obtain ⟨rest, hrest⟩ := Multiset.le_iff_exists_add.mp hle
  have hnodup := w.nodup_lives
  rw [hrest] at hnodup
  have hapart := (Multiset.nodup_add.mp hnodup).2.2
  refine ⟨rest, fun p hp => ?_, fun p hp => ⟨?_, ?_⟩, ?_⟩
  · have hmem := mem_lives.mpr hp
    rw [hrest, Multiset.mem_add] at hmem
    exact hmem
  · rw [← mem_lives, hrest]
    exact Multiset.mem_add.mpr (.inr hp)
  · exact fun hmem => Multiset.disjoint_left.mp hapart (Multiset.mem_coe.mpr hmem) hp
  · have hinner : (((w.garbage suspects).order : Multiset ObjId).bind
        fun p => (w.out p : Multiset ObjId)).count z =
          ((w.garbage suspects).order.flatMap (w.candidateEdges w.tallies)).count z := by
      rw [Multiset.coe_bind, Multiset.coe_count, List.count_flatMap, List.count_flatMap]
      refine congrArg List.sum (List.map_congr_left fun p _ => ?_)
      exact (List.count_filter hz).symm
    rw [h.accounted.strong_eq, refs_eq h.guarded.matched, hrest, Multiset.add_bind,
      Multiset.count_add, Multiset.count_add, hinner]

/-- Nothing from outside refers to a lost object, and no live object that is not lost does. -/
theorem Sound.unheld {y : ObjId} (hy : y ∈ (w.garbage suspects).lost) :
    y ∉ w.outer todo held ∧
      ∀ p, w.isLive p = true → y ∈ w.out p → p ∈ (w.garbage suspects).lost := by
  obtain ⟨horder, hkept⟩ := mem_garbage_lost.mp hy
  have hcand := candidate_of_garbage horder
  obtain ⟨rest, hsplit, -, hstrong⟩ := h.strong_split hcand
  have hle : w.strongAt y ≤
      ((w.garbage suspects).order.flatMap (w.candidateEdges w.tallies)).count y := by
    by_contra hlt
    exact hkept (mem_garbage_kept.mpr ⟨y, horder, Nat.lt_of_not_le hlt, .refl⟩)
  constructor
  · intro houter
    have := Multiset.count_pos.mpr houter
    omega
  · intro p hp hpy
    rcases hsplit p hp with hmem | hmem
    · refine mem_garbage_lost.mpr ⟨hmem, fun hpkept => hkept ?_⟩
      obtain ⟨z, hz, hsupported, hreach⟩ := mem_garbage_kept.mp hpkept
      exact mem_garbage_kept.mpr
        ⟨z, hz, hsupported, hreach.tail (mem_candidateEdges.mpr ⟨hpy, hcand⟩)⟩
    · have hedge : y ∈ rest.bind fun p => (w.out p : Multiset ObjId) :=
        Multiset.mem_bind.mpr ⟨p, hmem, hpy⟩
      have := Multiset.count_pos.mpr hedge
      omega

/-- What an outer reference leads to, unless it is lost, is anchored once the lost objects are
condemned. -/
theorem Sound.anchored_of_outer {y x : ObjId} (hy : w.candidateIn w.tallies y = true)
    (houter : y ∈ w.outer todo held) (hreach : Reach (w.candidateEdges w.tallies) y x)
    (hx : x ∉ (w.garbage suspects).lost) :
    ∃ y' ∈ (w.collect g (w.garbage suspects).lost).outer
        (Task.finalizing g (w.garbage suspects).lost + todo) held,
      (w.collect g (w.garbage suspects).lost).candidateIn w.tallies y' = true ∧
        Reach ((w.collect g (w.garbage suspects).lost).candidateEdges w.tallies) y' x := by
  rw [outer_collect nodup_garbage_lost (fun _ => live_of_garbage_lost) h.guarded.matched]
  induction hreach with
  | refl => exact ⟨y, Multiset.mem_add.mpr (.inr houter), candidateIn_collect.mpr ⟨hy, hx⟩, .refl⟩
  | @tail b c hpre hstep ih =>
      obtain ⟨hbc, hc⟩ := mem_candidateEdges.mp hstep
      by_cases hb : b ∈ (w.garbage suspects).lost
      · -- the edge comes from a condemned object
        refine ⟨c, Multiset.mem_add.mpr (.inl ?_), candidateIn_collect.mpr ⟨hc, hx⟩, .refl⟩
        exact Multiset.mem_bind.mpr ⟨b, hb, hbc⟩
      · obtain ⟨y', hy', hcand', hreach'⟩ := ih hb
        exact ⟨y', hy', hcand', hreach'.tail (mem_candidateEdges_collect.mpr ⟨hstep, hx⟩)⟩

/-- What is not lost is anchored once the lost objects are condemned. -/
theorem Sound.anchored_collect :
    (w.collect g (w.garbage suspects).lost).Anchored w.tallies []
      (Task.finalizing g (w.garbage suspects).lost + todo) held := by
  intro g' x hown hexists hx
  rw [owns_collect] at hown
  rw [heapExists_collect] at hexists
  obtain ⟨hx, hxlost⟩ := candidateIn_collect.mp hx
  suffices hled : ∃ y ∈ (w.collect g (w.garbage suspects).lost).outer
        (Task.finalizing g (w.garbage suspects).lost + todo) held,
      (w.collect g (w.garbage suspects).lost).candidateIn w.tallies y = true ∧
        Reach ((w.collect g (w.garbage suspects).lost).candidateEdges w.tallies) y x by
    obtain ⟨y, hy, hycand, hreach⟩ := hled
    exact ⟨y, .inr hy, hycand, hreach⟩
  obtain ⟨y, hsource, hy, hyx⟩ := h.anchored g' x hown hexists hx
  rcases hsource with hsuspect | houter
  case inr => exact h.anchored_of_outer hy houter hyx hxlost
  -- what a suspect leads to is examined; not being lost, it is kept by a supported object
  have horder := mem_garbage_order.mpr ⟨y, hsuspect, hy, hyx⟩
  have hkept : x ∈ (w.garbage suspects).kept := by
    by_contra hnot
    exact hxlost (mem_garbage_lost.mpr ⟨horder, hnot⟩)
  obtain ⟨z, hz, hsupported, hzx⟩ := mem_garbage_kept.mp hkept
  have hzcand := candidate_of_garbage hz
  obtain ⟨rest, -, hrest, hstrong⟩ := h.strong_split hzcand
  by_cases houter : z ∈ w.outer todo held
  · exact h.anchored_of_outer hzcand houter hzx hxlost
  · -- the support comes from a live object that was not examined, so that no suspect leads to it
    have hcount := Multiset.count_eq_zero.mpr houter
    have hedge : z ∈ rest.bind fun p => (w.out p : Multiset ObjId) :=
      Multiset.count_pos.mp (by omega)
    obtain ⟨p, hp, hpz⟩ := Multiset.mem_bind.mp hedge
    obtain ⟨hplive, hpunseen⟩ := hrest p hp
    have hpcand := h.tallied.candidate_of_out hplive hpz hzcand
    have hpown : w.owns g' p = true := by
      obtain ⟨g'', hg''⟩ := exists_owns hplive
      have hpx : Reach w.out p x := .head hpz
        (Relation.ReflTransGen.mono (fun _ _ hstep => (mem_candidateEdges.mp hstep).1) _ _ hzx)
      exact owns_unique (h.guarded.owns_of_reach hplive hg'' hpx) hown ▸ hg''
    obtain ⟨q, hqsource, hq, hqp⟩ := h.anchored g' p hpown hexists hpcand
    have hqx : Reach (w.candidateEdges w.tallies) q x :=
      (hqp.tail (mem_candidateEdges.mpr ⟨hpz, hzcand⟩)).trans hzx
    rcases hqsource with hqsuspect | hqouter
    · exact absurd (mem_garbage_order.mpr ⟨q, hqsuspect, hq, hqp⟩) hpunseen
    · exact h.anchored_of_outer hq hqouter hqx hxlost

/-- All that is lost is of the suspects' heap. -/
theorem Sound.owns_garbage (howned : ∀ o ∈ suspects, w.owns g o = true) {o : ObjId}
    (ho : o ∈ (w.garbage suspects).lost) : w.owns g o = true := by
  obtain ⟨y, hy, hcand, hreach⟩ := mem_garbage_order.mp (mem_garbage_lost.mp ho).1
  apply h.guarded.owns_of_reach (candidateIn_iff.mp hcand).1 (howned y hy)
  exact Relation.ReflTransGen.mono (fun _ _ hstep => (mem_candidateEdges.mp hstep).1) _ _ hreach

theorem Sound.accounted_collect (howned : ∀ o ∈ suspects, w.owns g o = true) :
    (w.collect g (w.garbage suspects).lost).Accounted w.strongAt
      (Task.finalizing g (w.garbage suspects).lost + todo) held := by
  have hnodup : (w.garbage suspects).lost.Nodup := nodup_garbage_lost
  have hlive : ∀ o ∈ (w.garbage suspects).lost, w.isLive o = true :=
    fun _ => live_of_garbage_lost
  -- finalizing tasks have what the condemned objects had
  have hledger : (w.collect g (w.garbage suspects).lost).ledger
      (Task.finalizing g (w.garbage suspects).lost + todo) held = w.ledger todo held :=
    ledger_collect hnodup hlive
  refine ⟨fun o => ?_, ?_, ?_, ?_, ?_, ?_, ?_, fun g' heap' hheap' => ?_⟩
  · rw [refs_collect hnodup hlive]
    exact h.accounted.strong_eq o
  · rw [hledger]
    exact h.accounted.slots_nodup
  · rw [hledger]
    exact h.accounted.slots_lt
  · rw [hledger]
    exact h.accounted.slots_idle
  · rw [hledger, rootsAt_collect]
    exact h.accounted.roots_eq
  · rw [rootsAt_collect]
    exact h.accounted.roots_nodup
  · rw [rootsAt_collect, registryAt_collect]
    exact h.accounted.roots_lt
  · rw [heaps_collect] at hheap'
    obtain ⟨heap, hheap, rfl⟩ := Option.map_eq_some_iff.mp hheap'
    have hcard := card_lives_collect hnodup hlive (fun o => h.owns_garbage howned) g'
    have := h.accounted.live_eq g' heap hheap
    rw [owns_collect]
    split
    next heq =>
      rw [if_pos heq] at hcard
      dsimp only
      omega
    next hne =>
      rw [if_neg hne] at hcard
      omega

/-- A live object that is not lost refers to no lost one, be it along an edge or otherwise. -/
theorem Sound.value_live_collect {p : ObjId}
    (hp : (w.collect g (w.garbage suspects).lost).isLive p = true) {x : Holding}
    (hx : x ∈ (w.valueAt p).holdings) {c : ObjId} (hc : c ∈ x.targets w) :
    (w.collect g (w.garbage suspects).lost).isLive c = true := by
  obtain ⟨hp, hplost⟩ := isLive_collect.mp hp
  refine isLive_collect.mpr ⟨h.guarded.value_live p hp x hx c hc, fun hclost => ?_⟩
  obtain ⟨houter, hedge⟩ := h.unheld hclost
  have hholding : x ∈ ((w.valueAt p).holdings : Multiset Holding) := hx
  rw [(h.guarded.matched p).holdings_eq, Multiset.mem_add] at hholding
  rcases hholding with hslot | hunseen
  · obtain ⟨s, hs, rfl⟩ := List.mem_map.mp (Multiset.mem_coe.mp hslot)
    exact hplost (hedge p hp (mem_out.mpr ⟨s, hs, hc⟩))
  · apply houter
    refine Multiset.mem_add.mpr (.inl (Multiset.mem_bind.mpr ⟨x, ?_, hc⟩))
    refine Multiset.mem_add.mpr (.inl (Multiset.mem_add.mpr (.inl ?_)))
    exact Multiset.mem_bind.mpr ⟨p, mem_lives.mpr hp, hunseen⟩

theorem Sound.guarded_collect :
    (w.collect g (w.garbage suspects).lost).Guarded
      (Task.finalizing g (w.garbage suspects).lost + todo) held := by
  have hnodup : (w.garbage suspects).lost.Nodup := nodup_garbage_lost
  have hlive : ∀ o ∈ (w.garbage suspects).lost, w.isLive o = true :=
    fun _ => live_of_garbage_lost
  refine ⟨?_, ?_, fun g' heap' hheap' => ?_, ?_, ?_, ?_, ?_, ?_, ?_⟩
  · rw [valueAt_collect]
    exact h.guarded.matched
  · intro g' o ho
    rw [owns_collect] at ho
    obtain ⟨heap, hheap⟩ := h.guarded.heap_some g' o ho
    rw [heaps_collect, hheap]
    exact ⟨_, rfl⟩
  · rw [heaps_collect] at hheap'
    obtain ⟨heap, hheap, rfl⟩ := Option.map_eq_some_iff.mp hheap'
    have := h.guarded.verify g' heap hheap
    split <;> exact this
  · intro p hp c hc
    rw [out_collect] at hc
    rw [owns_collect]
    exact h.guarded.closed p (isLive_collect.mp hp).1 c hc
  · intro p hp x hx c hc
    rw [valueAt_collect] at hx
    exact h.value_live_collect hp hx hc
  · intro x hx c hc
    refine isLive_collect.mpr ⟨h.guarded.held_live x hx c hc, fun hclost => ?_⟩
    apply (h.unheld hclost).1
    refine Multiset.mem_add.mpr (.inl (Multiset.mem_bind.mpr ⟨x, ?_, hc⟩))
    exact Multiset.mem_add.mpr (.inr hx)
  · rw [ledger_collect hnodup hlive, owns_collect]
    exact h.guarded.handle_owned
  · intro t ht o ho
    rcases Multiset.mem_add.mp ht with ht | ht
    · rcases List.mem_append.mp (Multiset.mem_coe.mp ht) with ht | ht
      · obtain ⟨o', ho', rfl⟩ := List.mem_map.mp ht
        cases ho
        exact gone_collect_of_mem (hlive _ ho') ho'
      · obtain ⟨o', ho', rfl⟩ := List.mem_map.mp ht
        cases ho
        exact gone_collect_of_mem (hlive _ ho') ho'
    · exact (h.guarded.buried t ht o ho).collect
  · exact fun o ho => (h.guarded.dropped o ho).collect

theorem Sound.tallied_collect :
    (w.collect g (w.garbage suspects).lost).Tallied w.tallies support := by
  refine ⟨?_, ?_, fun r o ho => ?_⟩
  · rw [size_collect]
    exact h.tallied.size_eq
  · rw [out_collect]
    exact h.tallied.balanced
  · -- what has support is tagged, hence no candidate
    refine isLive_collect.mpr ⟨h.tallied.supported r o ho, fun hlost => ?_⟩
    have hempty := (candidateIn_iff.mp (candidate_of_garbage (mem_garbage_lost.mp hlost).1)).2
    have := Tallies.isEmptyAt_iff.mp hempty r
    have := (h.tallied.balanced r).count_pos_of_support ho
    omega

/-- The world is sound once the garbage is condemned and waits to be finalized. -/
theorem Sound.collect (howned : ∀ o ∈ suspects, w.owns g o = true) :
    (w.collect g (w.garbage suspects).lost).Sound w.tallies w.strongAt support []
      (Task.finalizing g (w.garbage suspects).lost + todo) held owed where
  accounted := h.accounted_collect howned
  guarded := h.guarded_collect
  tallied := h.tallied_collect
  anchored := h.anchored_collect
  attended g' := by
    rw [holdersAt_collect, rootsAt_collect]
    exact h.attended g'

end Garbage

end World

/-- What reclaiming does to the world in which a session ended: `dead` are live objects of its heap
that nothing refers to from outside, nor any live object that is not one of them. -/
structure World.Reclaimed (w : World) (g : HeapId) (todo : Multiset Task) (held : Multiset Holding)
    (dead : List ObjId) (w' : World) : Prop where
  guarded : w.Guarded todo held
  nodup : dead.Nodup
  live : ∀ o ∈ dead, w.isLive o = true
  owned : ∀ o ∈ dead, w.owns g o = true
  outer : ∀ o ∈ dead, o ∉ w.outer todo held
  closed : ∀ o ∈ dead, ∀ p, w.isLive p = true → o ∈ w.out p → p ∈ dead
  alike : (w.collect g dead).Alike w'
  collected : ∀ h, w'.collectedAt h = w.collectedAt h + if h = g then dead.length else 0
  log : ∃ added, w'.log.toList = w.log.toList ++ added ∧ ∀ e ∈ added, e.marks = [] ∧ e.leaks = false

/-- A heap that collects nothing goes on as it is. -/
theorem World.alike_collect_nil (w : World) (g : HeapId) : (w.collect g []).Alike w := by
  refine ⟨rfl, rfl, rfl, fun _ => rfl, fun g' => ?_⟩
  rw [World.heaps_collect]
  cases w.heaps[g']? with
  | none => rfl
  | some heap =>
      simp only [Option.map_some]
      split <;> rfl

section Reclaim

variable {g : HeapId} {todo : Multiset Task} {held : Multiset Holding} {owed : HeapId → ℤ}
  {s : Session} (h : s.Settled g todo held owed)

include h

/-- A world that goes on like the one in which the garbage is condemned. -/
theorem Session.Settled.reclaimed {w : World} {dead : List ObjId}
    (hdead : (s.world.garbage s.unrooted).lost = dead) (halike : (s.world.collect g dead).Alike w)
    (hstrong : w.strongAt = s.world.strongAt) (htallies : w.tallies = s.world.tallies)
    (hcollected : ∀ h, w.collectedAt h = s.world.collectedAt h + if h = g then dead.length else 0)
    (hlog : ∃ added, w.log.toList = s.world.log.toList ++ added ∧
      ∀ e ∈ added, e.marks = [] ∧ e.leaks = false) :
    w.Sound w.tallies w.strongAt w.support [] (Task.finalizing g dead + todo) held owed ∧
      s.world.Reclaimed g todo held dead w := by
  subst hdead
  constructor
  · rw [hstrong, htallies, halike.support, World.support_collect]
    exact (h.sound.collect h.owned).congr halike
  · exact ⟨h.sound.guarded, World.nodup_garbage_lost, fun _ => World.live_of_garbage_lost,
      fun _ => h.sound.owns_garbage h.owned, fun _ ho => (h.sound.unheld ho).1,
      fun _ ho => (h.sound.unheld ho).2, halike, hcollected, hlog⟩

/-- The heap has at least as many objects as are garbage. -/
theorem Session.Settled.lost_le {heap : Heap} (hheap : s.world.heaps[g]? = some heap) :
    (s.world.garbage s.unrooted).lost.length ≤ heap.live := by
  have hcard := World.card_lives_collect (g := g) World.nodup_garbage_lost
    (fun o => World.live_of_garbage_lost) (fun o => h.sound.owns_garbage h.owned) g
  rw [if_pos rfl] at hcard
  have := h.sound.accounted.live_eq g heap hheap
  omega

/-- Reclaiming never fails, and leaves a sound world in which the garbage waits to be finalized. -/
theorem reclaim_ends :
    Ends (reclaim g) s
      (fun dead s' => s'.world.Sound s'.world.tallies s'.world.strongAt s'.world.support []
        (Task.finalizing g dead + todo) held owed ∧ s.world.Reclaimed g todo held dead s'.world)
      fun _ _ => False := by
  have hkeep := s.world.alike_collect_nil g
  unfold Ends reclaim
  dsimp only
  split_ifs with hnone hdead hkept
  · -- nothing is suspected
    refine h.reclaimed ?_ hkeep rfl rfl (by simp) ⟨[], by simp, by simp⟩
    rw [List.isEmpty_iff.mp hnone]
    apply List.eq_nil_iff_forall_not_mem.mpr
    intro o ho
    obtain ⟨y, hy, -⟩ := World.mem_garbage_order.mp (World.mem_garbage_lost.mp ho).1
    cases hy
  · exact h.reclaimed (List.isEmpty_iff.mp hdead) hkeep rfl rfl (by simp) ⟨[], by simp, by simp⟩
  · refine h.reclaimed (List.isEmpty_iff.mp hdead) (hkeep.trans (.note _ _)) rfl rfl ?_
      ⟨[.stillHeld _], Array.toList_push, by simp [Event.marks, Event.leaks]⟩
    simp [World.note, World.collectedAt]
  · -- there is garbage, and so there is its heap
    obtain ⟨y, hy⟩ := List.exists_mem_of_ne_nil _ fun hnil => hdead (List.isEmpty_iff.mpr hnil)
    obtain ⟨heap, hheap⟩ := h.sound.guarded.heap_some g y (h.sound.owns_garbage h.owned hy)
    have hcondemned : (s.world.condemn (s.world.garbage s.unrooted).lost).heaps[g]? =
      some heap := hheap
    rw [hcondemned]
    dsimp only
    rw [if_neg (Nat.not_lt.mpr (h.lost_le hheap))]
    refine h.reclaimed rfl ?_ ?_ rfl (fun g' => ?_)
      ⟨[.collected ..], Array.toList_push, by simp [Event.marks, Event.leaks]⟩
    · refine World.Alike.trans ?_ (.note _ _)
      refine ⟨rfl, rfl, rfl, fun _ => rfl, fun g' => ?_⟩
      simp only [World.collect, World.modifyHeap, Array.getElem?_modify]
      split
      next hg =>
        subst hg
        rw [hcondemned]
        rfl
      next => rfl
    · exact World.strongAt_collect (g := g)
    · simp only [World.note, World.collectedAt, World.heaps_modifyHeap]
      by_cases hg : g' = g
      · subst hg
        simp [hcondemned, hheap]
      · have hsame : (s.world.condemn (s.world.garbage s.unrooted).lost).heaps[g']? =
          s.world.heaps[g']? := rfl
        rw [hsame]
        cases s.world.heaps[g']? <;> simp [hg]

end Reclaim

end RootedHeap
