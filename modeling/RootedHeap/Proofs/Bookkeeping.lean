import RootedHeap.Proofs.Reclaim

/-! # What a session does to the books

Whatever values report and whatever a session stumbles over: up to its reclaim it changes no object
but in its strong count, and the registry and the root counters of a heap go together
(`World.Trades`). A session that is refused by a check that comes before anything else has changed
nothing yet (`Locked.Screens`).
-/

namespace RootedHeap

/-- Arrays have the same size if each entry of one has something in common with that of the other. -/
theorem size_eq_of_map {α β : Type} {f : α → β} {a a' : Array α}
    (h : ∀ i : Nat, a'[i]?.map f = a[i]?.map f) : a'.size = a.size := by
  have hlt (i : Nat) : i < a'.size ↔ i < a.size := by
    have hentry := congrArg Option.isSome (h i)
    rw [Option.isSome_map, Option.isSome_map, ← Bool.coe_iff_coe] at hentry
    simpa using hentry
  exact Nat.le_antisymm (Nat.le_of_not_lt fun hlt' => absurd ((hlt _).mp hlt') (Nat.lt_irrefl _))
    (Nat.le_of_not_lt fun hlt' => absurd ((hlt _).mpr hlt') (Nat.lt_irrefl _))

/-- An object apart from its strong count. -/
def Object.body (ob : Object) : Object := { ob with strong := 0 }

/-- What of a heap is neither roots, nor holders, nor statistics about passes. -/
def Heap.stock (heap : Heap) : Config × Nat × Nat × Nat :=
  (heap.config, heap.live, heap.counters.allocations, heap.counters.collected)

/-- Roots are registered once, under numbers that were issued, and those that were acquired and not
released are. -/
structure Heap.Reckoned (heap : Heap) : Prop where
  nodup : (heap.roots.active.map Prod.fst).Nodup
  issued : ∀ e ∈ heap.roots.active, e.1 < heap.roots.next
  balance : heap.roots.size + heap.counters.rootsReleased = heap.counters.rootsAcquired

/-- A heap with another registry and other root counters. -/
structure Heap.Trades (heap heap' : Heap) : Prop where
  stock : heap'.stock = heap.stock
  reckoned : heap.Reckoned → heap'.Reckoned

namespace Heap

theorem Trades.refl (heap : Heap) : heap.Trades heap := ⟨rfl, id⟩

theorem Trades.trans {a b c : Heap} (h : a.Trades b) (h' : b.Trades c) : a.Trades c :=
  ⟨h'.stock.trans h.stock, h'.reckoned ∘ h.reckoned⟩

/-- Other statistics. -/
theorem Trades.of_roots {heap heap' : Heap} (hstock : heap'.stock = heap.stock)
    (hroots : heap'.roots = heap.roots)
    (hreleased : heap'.counters.rootsReleased = heap.counters.rootsReleased)
    (hacquired : heap'.counters.rootsAcquired = heap.counters.rootsAcquired) :
    heap.Trades heap' := by
  refine ⟨hstock, fun h => ⟨?_, ?_, ?_⟩⟩
  · exact hroots ▸ h.nodup
  · exact hroots ▸ h.issued
  · rw [hroots, hreleased, hacquired]
    exact h.balance

theorem Reckoned.acquire {heap heap' : Heap} {target : ObjId} (h : heap.Reckoned)
    (hroots : heap'.roots = (heap.roots.acquire target).2)
    (hreleased : heap'.counters.rootsReleased = heap.counters.rootsReleased)
    (hacquired : heap'.counters.rootsAcquired = heap.counters.rootsAcquired + 1) :
    heap'.Reckoned := by
  have hactive : heap'.roots.active = (heap.roots.next, target) :: heap.roots.active := by
    rw [hroots]
    rfl
  have hnext : heap'.roots.next = heap.roots.next + 1 := by
    rw [hroots]
    rfl
  refine ⟨?_, fun e he => ?_, ?_⟩
  · rw [hactive, List.map_cons, List.nodup_cons]
    refine ⟨fun hmem => ?_, h.nodup⟩
    obtain ⟨e, he, heq⟩ := List.mem_map.mp hmem
    exact absurd (h.issued e he) (heq ▸ Nat.lt_irrefl _)
  · rw [hnext]
    rcases List.mem_cons.mp (hactive ▸ he) with rfl | he
    · exact Nat.lt_succ_self _
    · exact Nat.lt_succ_of_lt (h.issued e he)
  · have hbalance := h.balance
    simp only [Registry.size] at hbalance ⊢
    rw [hactive, hreleased, hacquired, List.length_cons]
    omega

theorem Reckoned.release {heap heap' : Heap} {r : RootId} {target : ObjId} (h : heap.Reckoned)
    (hrelease : heap.roots.release r = .ok (target, heap'.roots))
    (hreleased : heap'.counters.rootsReleased = heap.counters.rootsReleased + 1)
    (hacquired : heap'.counters.rootsAcquired = heap.counters.rootsAcquired) :
    heap'.Reckoned := by
  obtain ⟨htarget, hroots⟩ := Registry.release_eq_ok_iff.mp hrelease
  have hmem := (Registry.target?_eq_some_iff h.nodup).mp htarget
  have hsub : heap'.roots.active.Sublist heap.roots.active := by
    rw [← hroots]
    exact List.filter_sublist
  refine ⟨h.nodup.sublist (hsub.map _), fun e he => ?_, ?_⟩
  · rw [← hroots]
    exact h.issued e (hsub.subset he)
  · have hcard := congrArg Multiset.card (Registry.without_eq_erase h.nodup hmem)
    rw [hroots, Multiset.coe_card, Multiset.card_erase_of_mem (Multiset.mem_coe.mpr hmem),
      Multiset.coe_card, Nat.pred_eq_sub_one] at hcard
    have hpos := List.length_pos_of_mem hmem
    have hbalance := h.balance
    simp only [Registry.size] at hbalance ⊢
    rw [hreleased, hacquired]
    omega

theorem Reckoned.retarget {heap heap' : Heap} {r : RootId} {old target : ObjId}
    (h : heap.Reckoned) (hretarget : heap.roots.retarget r target = .ok (old, heap'.roots))
    (hreleased : heap'.counters.rootsReleased = heap.counters.rootsReleased)
    (hacquired : heap'.counters.rootsAcquired = heap.counters.rootsAcquired) :
    heap'.Reckoned := by
  have hroots := (Registry.retarget_eq_ok_iff.mp hretarget).2
  have hkeys : heap'.roots.active.map Prod.fst = heap.roots.active.map Prod.fst :=
    hroots ▸ Registry.keys_redirect
  refine ⟨hkeys ▸ h.nodup, fun e he => ?_, ?_⟩
  · obtain ⟨e', he', heq⟩ := List.mem_map.mp (hkeys ▸ List.mem_map_of_mem he)
    rw [← hroots, ← heq]
    exact h.issued e' he'
  · have hlength := congrArg List.length hkeys
    simp only [List.length_map] at hlength
    rw [Registry.size, hlength, hreleased, hacquired]
    exact h.balance

end Heap

namespace World

/-- What a session does before it reclaims: it stores, tags, registers and counts. -/
structure Trades (w w' : World) : Prop where
  dropped : w'.dropped = w.dropped
  objects : ∀ o : ObjId, w'.objects[o]?.map Object.body = w.objects[o]?.map Object.body
  size : w'.heaps.size = w.heaps.size
  heaps : ∀ (g : HeapId) (heap heap' : Heap), w.heaps[g]? = some heap →
    w'.heaps[g]? = some heap' → heap.Trades heap'

namespace Trades

variable {w w' w'' : World}

theorem of_eq (hdropped : w'.dropped = w.dropped) (hobjects : w'.objects = w.objects)
    (hheaps : w'.heaps = w.heaps) : w.Trades w' := by
  refine ⟨hdropped, fun o => by rw [hobjects], by rw [hheaps], fun g heap heap' h h' => ?_⟩
  rw [hheaps, h] at h'
  cases h'
  exact .refl heap

theorem refl (w : World) : w.Trades w := of_eq rfl rfl rfl

theorem exists_heap (h : w.Trades w') {g : HeapId} {heap : Heap} (hheap : w.heaps[g]? = some heap) :
    ∃ heap', w'.heaps[g]? = some heap' ∧ heap.Trades heap' := by
  obtain ⟨hlt, -⟩ := Array.getElem?_eq_some_iff.mp hheap
  have hlt' : g < w'.heaps.size := h.size ▸ hlt
  exact ⟨w'.heaps[g], Array.getElem?_eq_getElem hlt', h.heaps g _ _ hheap (Array.getElem?_eq_getElem hlt')⟩

theorem trans (h : w.Trades w') (h' : w'.Trades w'') : w.Trades w'' := by
  refine ⟨h'.dropped.trans h.dropped, fun o => (h'.objects o).trans (h.objects o),
    h'.size.trans h.size, fun g heap heap'' hheap hheap'' => ?_⟩
  obtain ⟨heap', hheap', htrades⟩ := h.exists_heap hheap
  exact htrades.trans (h'.heaps g heap' heap'' hheap' hheap'')

theorem modifyObject (w : World) (o : ObjId) {f : Object → Object}
    (hf : ∀ ob, (f ob).body = ob.body) : w.Trades (w.modifyObject o f) := by
  refine ⟨rfl, fun o' => ?_, rfl, (Trades.refl w).heaps⟩
  simp only [World.modifyObject, Array.getElem?_modify]
  split
  · cases w.objects[o']? <;> simp [hf]
  · rfl

theorem modifyHeap (w : World) (g : HeapId) {f : Heap → Heap}
    (hf : ∀ heap, w.heaps[g]? = some heap → heap.Trades (f heap)) :
    w.Trades (w.modifyHeap g f) := by
  refine ⟨rfl, fun _ => rfl, Array.size_modify, fun g' heap heap' hheap hheap' => ?_⟩
  simp only [World.modifyHeap, Array.getElem?_modify, hheap] at hheap'
  split at hheap'
  next heq =>
    cases hheap'
    subst heq
    exact hf heap hheap
  next =>
    cases hheap'
    exact .refl heap

theorem note (w : World) (e : Event) : w.Trades (w.note e) := of_eq rfl rfl rfl

theorem retain (w : World) (o : ObjId) : w.Trades (w.retain o) := modifyObject w o fun _ => rfl

theorem retainAll (w : World) (handles : List Handle) :
    w.Trades (handles.foldl (fun w a => w.retain a.obj) w) := by
  induction handles generalizing w with
  | nil => exact refl w
  | cons a rest ih => exact (retain w a.obj).trans (ih (w.retain a.obj))

theorem enter (w : World) (g : HeapId) : w.Trades (w.enter g) :=
  modifyHeap w g fun _ _ => .of_roots rfl rfl rfl rfl

theorem leave (w : World) (g : HeapId) : w.Trades (w.leave g) := by
  have hleft : w.Trades (w.modifyHeap g fun heap => { heap with holders := heap.holders - 1 }) :=
    modifyHeap w g fun _ _ => .of_roots rfl rfl rfl rfl
  unfold World.leave
  split
  next => exact .refl w
  next =>
    simp only
    split
    next => exact hleft.trans (note _ _)
    next => exact hleft

/-- What an object is apart from its strong count does not depend on the session. -/
theorem map_object {α : Type} (h : w.Trades w') {f : Object → α} (hf : ∀ ob, f ob.body = f ob)
    (o : ObjId) : w'.objects[o]?.map f = w.objects[o]?.map f := by
  have hcomp : f = f ∘ Object.body := funext fun ob => (hf ob).symm
  rw [hcomp, ← Option.map_map, ← Option.map_map, h.objects]

theorem objects_size (h : w.Trades w') : w'.objects.size = w.objects.size :=
  size_eq_of_map h.objects

end Trades

/-- Heaps, values that were dropped, and states are the same, as far as they count. -/
structure Even (w w' : World) : Prop where
  dropped : w'.dropped = w.dropped
  objects : ∀ o : ObjId, w'.objects[o]?.map (fun ob => (ob.heap, ob.state)) =
    w.objects[o]?.map fun ob => (ob.heap, ob.state)
  size : w'.heaps.size = w.heaps.size
  heaps : ∀ (g : HeapId) (heap heap' : Heap), w.heaps[g]? = some heap →
    w'.heaps[g]? = some heap' → heap.Trades heap'

theorem Trades.even {w w' : World} (h : w.Trades w') : w.Even w' :=
  ⟨h.dropped, h.map_object fun _ => rfl, h.size, h.heaps⟩

namespace Even

variable {w w' w'' : World}

theorem refl (w : World) : w.Even w := (Trades.refl w).even

theorem trans (h : w.Even w') (h' : w'.Even w'') : w.Even w'' := by
  refine ⟨h'.dropped.trans h.dropped, fun o => (h'.objects o).trans (h.objects o),
    h'.size.trans h.size, fun g heap heap'' hheap hheap'' => ?_⟩
  obtain ⟨hlt, -⟩ := Array.getElem?_eq_some_iff.mp hheap
  have hlt' : g < w'.heaps.size := h.size ▸ hlt
  have hheap' := Array.getElem?_eq_getElem hlt'
  exact (h.heaps g _ _ hheap hheap').trans (h'.heaps g _ _ hheap' hheap'')

theorem modifyObject (w : World) (o : ObjId) {f : Object → Object}
    (hheap : ∀ ob, (f ob).heap = ob.heap) (hstate : ∀ ob, (f ob).state = ob.state) :
    w.Even (w.modifyObject o f) := by
  refine ⟨rfl, fun o' => ?_, rfl, (refl w).heaps⟩
  simp only [World.modifyObject, Array.getElem?_modify]
  split
  · cases w.objects[o']? <;> simp [hheap, hstate]
  · rfl

theorem retainWeak (w : World) (o : ObjId) : w.Even (w.retainWeak o) :=
  modifyObject w o (fun _ => rfl) fun _ => rfl

theorem releaseWeak (w : World) (o : ObjId) : w.Even (w.releaseWeak o) :=
  modifyObject w o (fun _ => rfl) fun _ => rfl

theorem addSlot (w : World) (content : Slot) : w.Even (w.addSlot content).2 := by
  have htrades : w.Trades (w.addSlot content).2 := .of_eq rfl rfl rfl
  exact htrades.even

theorem exists_object (h : w.Even w') {o : ObjId} {ob' : Object} (hob : w'.objects[o]? = some ob') :
    ∃ ob, w.objects[o]? = some ob ∧ ob.heap = ob'.heap := by
  have hobject := h.objects o
  rw [hob] at hobject
  obtain ⟨ob, hob, heq⟩ := Option.map_eq_some_iff.mp hobject.symm
  exact ⟨ob, hob, congrArg Prod.fst heq⟩

end Even

end World

/-- The fault, if it is of a check that comes before anything else. -/
def Fault.early (f : Fault) : Option Fault := if f.upFront then some f else none

/-- The world with the fault reported: nothing but the log differs. -/
def Fault.reported (f : Fault) (w : World) : World :=
  { w with
    log :=
      match f with
      | .violation cause => w.log.push (.violated cause)
      | _ => w.log }

theorem Fault.early_eq_none {f : Fault} : f.early = none ↔ f.upFront = false := by
  unfold early
  split <;> simp_all

theorem Fault.early_eq_some {f f' : Fault} : f.early = some f' ↔ f.upFront = true ∧ f = f' := by
  unfold early
  split <;> simp_all

namespace Locked

variable {α β : Type} {s : Session} {r : Option Fault}

/-- From `s`, the session does no more than trade, and is refused with `r`, if that is a fault, while
nothing is changed; it is not refused otherwise. -/
def Screens (r : Option Fault) (op : Locked α) (s : Session) : Prop :=
  Ends op s (fun _ s' => s.world.Trades s'.world ∧ r = none) fun f s' =>
    s.world.Trades s'.world ∧ r = f.early ∧
      (f.upFront = true → s'.world = f.reported s.world)

/-- The session does no more than trade, and is not refused. -/
abbrev Routine (op : Locked α) : Prop := ∀ s, Screens none op s

namespace Screens

theorem pure (a : α) : Screens none (Pure.pure a) s := ⟨.refl s.world, rfl⟩

theorem throw {f : Fault} (hf : f.upFront = false) :
    Screens none (MonadExcept.throw f : Locked α) s :=
  ⟨.refl s.world, (Fault.early_eq_none.mpr hf).symm, fun h => absurd (hf ▸ h) Bool.false_ne_true⟩

/-- A check that fails before anything changed. -/
theorem refuse {f : Fault} (hf : f.upFront = true) (hquiet : f.reported s.world = s.world) :
    Screens (some f) (MonadExcept.throw f : Locked α) s :=
  ⟨.refl s.world, (if_pos hf).symm, fun _ => hquiet.symm⟩

/-- What comes after may still trade. -/
theorem bind {op : Locked α} {next : α → Locked β} (h : Screens r op s)
    (hnext : ∀ a, Routine (next a)) : Screens r (op >>= next) s := by
  refine Ends.bind h ?_
  rintro a s' ⟨htrades, rfl⟩
  refine (hnext a s').mono ?_ ?_
  · rintro _ s'' ⟨htrades', -⟩
    exact ⟨htrades.trans htrades', rfl⟩
  · rintro f s'' ⟨htrades', hf, -⟩
    refine ⟨htrades.trans htrades', hf, fun hup => ?_⟩
    exact absurd (Fault.early_eq_none.mp hf.symm ▸ hup) Bool.false_ne_true

theorem map {op : Locked α} (f : α → β) (h : Screens r op s) : Screens r (f <$> op) s := by
  rw [map_eq_pure_bind]
  exact h.bind fun a _ => .pure (f a)

/-- What is looked up is known of the session. -/
theorem look {f : World → α} {next : α → Locked β} (h : Screens r (next (f s.world)) s) :
    Screens r (Locked.look f >>= next) s := h

theorem update {f : World → World} (h : s.world.Trades (f s.world)) :
    Screens none (Locked.update f) s := ⟨h, rfl⟩

theorem pass (make : World → Tallies → α) (left : α → Tallies) :
    Screens none (Locked.pass make left) s := ⟨.of_eq rfl rfl rfl, rfl⟩

theorem suspect (os : List ObjId) : Screens none (Locked.suspect os) s := ⟨.refl _, rfl⟩

theorem note (e : Event) : Screens none (Locked.note e) s := update (.note _ e)

theorem violate {cause : Violation} (hcause : (Fault.violation cause).upFront = false) :
    Screens none (Locked.violate cause : Locked α) s :=
  (note _).bind fun _ _ => .throw hcause

theorem retain (o : ObjId) : Screens none (Locked.update (·.retain o)) s :=
  update (.retain _ o)

theorem writeSlot (slot : SlotId) (content : Slot) :
    Screens none (Locked.update (·.writeSlot slot content)) s := update (.of_eq rfl rfl rfl)

/-- Statistics about passes. -/
theorem counters (h : HeapId) {f : Counters → Counters}
    (hf : ∀ c, (f c).allocations = c.allocations ∧ (f c).collected = c.collected ∧
      (f c).rootsAcquired = c.rootsAcquired ∧ (f c).rootsReleased = c.rootsReleased) :
    Screens none (Locked.update (·.modifyCounters h f)) s := by
  refine update (.modifyHeap _ h fun heap _ => ?_)
  obtain ⟨hallocations, hcollected, hacquired, hreleased⟩ := hf heap.counters
  refine .of_roots ?_ rfl hreleased hacquired
  simp only [Heap.stock, hallocations, hcollected]

theorem forM {l : List α} {f : α → Locked PUnit} (h : ∀ a, Routine (f a)) :
    Screens none (l.forM f) s := by
  induction l generalizing s with
  | nil => exact .pure _
  | cons a l ih => exact (h a s).bind fun _ _ => ih

theorem mapM {l : List α} {f : α → Locked β} (h : ∀ a, Routine (f a)) :
    Screens none (l.mapM f) s := by
  induction l generalizing s with
  | nil => exact .pure _
  | cons a l ih =>
      rw [List.mapM_cons]
      exact (h a s).bind fun _ _ => ih.bind fun _ _ => .pure _

end Screens

/-! ## Passes and roots -/

theorem connect_routine (h : HeapId) (r : RootId) (t : ObjId) : Routine (connect h r t) := by
  refine fun s => .bind (.counters h fun _ => ⟨rfl, rfl, rfl, rfl⟩) fun _ _ =>
    .bind (.pass _ _) fun pass _ => .bind (.update (.of_eq rfl rfl rfl)) fun _ _ => ?_
  cases pass.stranger with
  | none => exact .pure _
  | some o => exact .look (.violate rfl)

theorem scan_routine (h : HeapId) (r : RootId) (os : List ObjId) : Routine (scan h r os) := by
  refine fun s => .bind (.counters h fun _ => ⟨rfl, rfl, rfl, rfl⟩) fun _ _ =>
    .bind (.pass _ _) fun found _ => ?_
  split
  next => exact .pure _
  next =>
    refine .bind (.note _) fun _ _ => .bind (.counters h fun _ => ⟨rfl, rfl, rfl, rfl⟩) fun _ _ =>
      .bind (.suspect _) fun _ _ => ?_
    split
    next => exact .throw rfl
    next => exact .pure _

theorem disconnect_routine (h : HeapId) (r : RootId) (t : ObjId) : Routine (disconnect h r t) := by
  refine fun s => .bind (.counters h fun _ => ⟨rfl, rfl, rfl, rfl⟩) fun _ _ =>
    .bind (.pass _ _) fun pass _ => .bind (.update (.of_eq rfl rfl rfl)) fun _ _ =>
      .bind (.suspect _) fun _ s' => ?_
  cases pass.unreached with
  | some o => exact .look (.violate rfl)
  | none =>
      dsimp only
      split
      next => exact .pure _
      next => exact scan_routine h r _ s'

theorem stripRoot_routine (r : RootId) (t : ObjId) : Routine (stripRoot r t) :=
  fun _ => .bind (.pass _ _) fun _ _ => .suspect _

theorem releaseStrong_routine (o : ObjId) : Routine (releaseStrong o) := by
  refine fun s => .look ?_
  cases s.world.objects[o]? with
  | none => exact .pure _
  | some ob =>
      dsimp only
      split
      next => exact .throw rfl
      next =>
        refine .bind (.update (.modifyObject _ o fun _ => rfl)) fun _ _ =>
          .bind (.note _) fun _ _ => .look ?_
        split
        next => exact .suspect _
        next => exact .pure _

theorem acquireRoot_routine (h : HeapId) (t : ObjId) : Routine (acquireRoot h t) := by
  refine fun s => .look ?_
  cases hheap : s.world.heaps[h]? with
  | none => exact .pure _
  | some heap =>
      refine .bind (.update (.modifyHeap _ h fun heap' hheap' => ?_)) fun _ _ =>
        .bind (.note _) fun _ _ => .bind (connect_routine h _ t _) fun _ _ => .pure _
      cases hheap.symm.trans hheap'
      exact ⟨rfl, fun hreckoned => hreckoned.acquire rfl rfl rfl⟩

theorem newHandle_routine (h : HeapId) (t : ObjId) : Routine (newHandle h t) :=
  fun _ => .bind (.retain t) fun _ _ => .bind (acquireRoot_routine h t _) fun _ _ => .pure _

theorem missing_late (g : Registry) (r : RootId) :
    (Fault.violation (g.missing r)).upFront = false := by
  unfold Registry.missing
  split <;> rfl

theorem release_late {g : Registry} {r : RootId} {cause : Violation}
    (h : g.release r = .error cause) : (Fault.violation cause).upFront = false := by
  unfold Registry.release at h
  split at h
  next => cases h
  next =>
    cases h
    exact missing_late g r

theorem retarget_late {g : Registry} {r : RootId} {t : ObjId} {cause : Violation}
    (h : g.retarget r t = .error cause) : (Fault.violation cause).upFront = false := by
  unfold Registry.retarget at h
  split at h
  next => cases h
  next =>
    cases h
    exact missing_late g r

theorem dropRoot_routine (h : HeapId) (r : RootId) : Routine (dropRoot h r) := by
  refine fun s => .look ?_
  cases hheap : s.world.heaps[h]? with
  | none => exact .pure _
  | some heap =>
      cases hrelease : heap.roots.release r with
      | error cause =>
          simp only [hrelease]
          exact .violate (release_late hrelease)
      | ok found =>
          obtain ⟨target, roots⟩ := found
          simp only [hrelease]
          refine .bind (.update (.modifyHeap _ h fun heap' hheap' => ?_)) fun _ _ =>
            .bind (.note _) fun _ _ => .bind (stripRoot_routine r target _) fun _ =>
              releaseStrong_routine target
          cases hheap.symm.trans hheap'
          exact ⟨rfl, fun hreckoned => hreckoned.release hrelease rfl rfl⟩

theorem retarget_routine (h : HeapId) (r : RootId) (t : ObjId) : Routine (retarget h r t) := by
  refine fun s => .look ?_
  cases hheap : s.world.heaps[h]? with
  | none => exact .pure _
  | some heap =>
      cases hretarget : heap.roots.retarget r t with
      | error cause =>
          simp only [hretarget]
          exact .violate (retarget_late hretarget)
      | ok found =>
          obtain ⟨old, roots⟩ := found
          simp only [hretarget]
          refine .bind (.update (.modifyHeap _ h fun heap' hheap' => ?_)) fun _ _ =>
            .bind (.note _) fun _ _ => .bind (connect_routine h r t _) fun _ _ =>
              .bind (disconnect_routine h r old _) fun _ => releaseStrong_routine old
          cases hheap.symm.trans hheap'
          exact ⟨rfl, fun hreckoned => hreckoned.retarget hretarget rfl rfl⟩

theorem attach_routine (h : HeapId) (roots : List RootId) (t : ObjId) : Routine (attach h roots t) :=
  fun _ => .forM fun r => connect_routine h r t

theorem detach_routine (h : HeapId) (roots : List RootId) (t : ObjId) : Routine (detach h roots t) :=
  fun _ => .forM fun r => disconnect_routine h r t

theorem gain_routine (h : HeapId) (roots : List RootId) (o : ObjId) : Routine (gain h roots o) :=
  fun _ => .bind (.retain o) fun _ => attach_routine h roots o

theorem lose_routine (h : HeapId) (roots : List RootId) (o : ObjId) : Routine (lose h roots o) :=
  fun s => .bind (detach_routine h roots o s) fun _ => releaseStrong_routine o

end Locked

/-- The heap with one object more. -/
def Heap.enrolled (heap : Heap) : Heap :=
  { heap with
    live := heap.live + 1
    counters := { heap.counters with allocations := heap.counters.allocations + 1 } }

/-- Report an object that was counted in, and root it. -/
def Locked.introduce (h : HeapId) (o : ObjId) (typeName : String) : Locked RootId := do
  note (.allocated o typeName)
  acquireRoot h o

theorem Locked.introduce_routine (h : HeapId) (o : ObjId) (n : String) :
    Routine (introduce h o n) :=
  fun _ => .bind (.note _) fun _ => acquireRoot_routine h o

/-- The world with an object more in heap `h`, counted in but not rooted yet. -/
def World.enroll (w : World) (h : HeapId) (typeName : String) (value : Value) : World :=
  { w with
    objects := w.objects.push { heap := h, typeName := typeName, value := value }
    tallies := w.tallies.push .empty
    heaps := w.heaps.modify h Heap.enrolled }

theorem WeakRef.claim_routine (h : HeapId) (o : ObjId) : Locked.Routine (WeakRef.claim h o) := by
  refine fun s => .look ?_
  split
  next => exact (Locked.newHandle_routine h o s).map some
  next => exact .pure _

/-! ## Through a handle -/

/-- Why an element cannot be inserted at `index`. -/
def World.noPlace (w : World) (s : SlotId) (index : Nat) : Option Fault :=
  if (w.itemsAt s).length < index then some (.insertRange index (w.itemsAt s).length) else none

/-- Why there is no element at `index`; `fault` says what it was looked up for. -/
def World.noItem (w : World) (s : SlotId) (index : Nat) (fault : Nat → Nat → Fault) :
    Option Fault :=
  if (w.itemsAt s).length ≤ index then some (fault index (w.itemsAt s).length) else none

namespace Handle

open Locked

/-- The slot `s` may be written through `a`: the object of `a` reports it when connecting, or stores
it within itself while nobody asked for a check. -/
def Sanctions (a : Handle) (w : World) (s : SlotId) : Prop :=
  s ∈ (w.visits a.obj).map (·.slot) ∨
    s ∈ (w.valueAt a.obj).inlineSlots ∧ w.heaps[a.heap]?.map (·.config.verify) = some false

instance (a : Handle) (w : World) (s : SlotId) : Decidable (a.Sanctions w s) :=
  inferInstanceAs (Decidable (_ ∨ _))

/-- The fault of a breach in the object of `a`. -/
def breach (a : Handle) (w : World) (breach : Breach) : Fault :=
  .violation (.protocol (w.typeName a.obj) breach)

/-- Why a write to the slot `s` through `a` is refused. -/
def unvisited (a : Handle) (w : World) (s : SlotId) : Option Fault :=
  if a.Sanctions w s then none else some (a.breach w .unvisitedSlot)

theorem mustVerify_iff (a : Handle) (w : World) (s : SlotId) :
    (mustVerify w a.heap a.obj s && !((w.visits a.obj).map (·.slot)).contains s) = true ↔
      ¬ a.Sanctions w s := by
  unfold mustVerify Sanctions World.valueAt
  cases w.objects[a.obj]? <;> cases w.heaps[a.heap]? <;>
    simp [Value.inlineSlots, and_comm, not_or, imp_iff_not_or, or_comm]

variable {a : Handle} {slot : SlotId} {s : Session} {r : Option Fault}

/-- The check of a slot comes first; what comes after finds everything as it was. -/
theorem verified {β : Type} {next : Unit → Locked β} (h : Screens r (next ()) s) :
    Screens ((a.unvisited s.world slot).or r) (verifySlot a.heap a.obj slot >>= next) s := by
  have hmust := a.mustVerify_iff s.world slot
  unfold Screens verifySlot
  rw [Ends.bind_iff, Ends.bind_iff, ends_look]
  split
  next hrefused =>
    rw [unvisited, if_neg (hmust.mp hrefused)]
    exact ⟨.note _ _, rfl, fun _ => rfl⟩
  next hrefused =>
    rw [unvisited, if_pos (not_not.mp (mt hmust.mpr hrefused))]
    exact h

variable (a slot) (s)

theorem rebind_routine (t : ObjId) : Routine (a.rebind t) :=
  fun _ => .bind (.retain t) fun _ => retarget_routine a.heap a.root t

theorem readField_routine : Routine (a.readField slot) := by
  refine fun s => .look ?_
  cases s.world.fieldAt slot with
  | none => exact .pure _
  | some o => exact (newHandle_routine a.heap o s).map some

theorem readItem_routine (index : Nat) : Routine (a.readItem slot index) := by
  refine fun s => .look ?_
  cases (s.world.itemsAt slot)[index]? with
  | none => exact .pure _
  | some o => exact (newHandle_routine a.heap o s).map some

theorem readItems_routine : Routine (a.readItems slot) :=
  fun _ => .look (.mapM (newHandle_routine a.heap))

theorem storeField_screens (target : Option ObjId) :
    Screens (a.unvisited s.world slot) (a.storeField slot target) s := by
  rw [← Option.or_none (o := a.unvisited s.world slot)]
  refine verified (.look (.bind ?_ fun _ s' => .look (.bind (.writeSlot slot _) fun _ => ?_)))
  · cases target with
    | none => exact .pure _
    | some o => exact gain_routine a.heap _ o s
  · cases s'.world.fieldAt slot with
    | none => exact fun _ => .pure _
    | some o => exact lose_routine a.heap _ o

/-- The operations that move a reference out of a slot end alike. -/
theorem moveOut_routine {β : Type} (content : Slot) (roots : List RootId) (o : ObjId)
    (f : RootId → β) :
    Routine (do
      update (·.writeSlot slot content)
      let r ← acquireRoot a.heap o
      detach a.heap roots o
      pure (f r)) :=
  fun _ => .bind (.writeSlot slot content) fun _ _ => .bind (acquireRoot_routine a.heap o _) fun _ _ =>
    .bind (detach_routine a.heap roots o _) fun _ _ => .pure _

theorem unloadField_screens : Screens (a.unvisited s.world slot) (a.unloadField slot) s := by
  rw [← Option.or_none (o := a.unvisited s.world slot)]
  refine verified (.look (.look ?_))
  cases s.world.fieldAt slot with
  | none => exact .pure _
  | some o => exact a.moveOut_routine slot _ _ o _ s

theorem enlist_screens (index : Option Nat) (o : ObjId) :
    Screens ((a.unvisited s.world slot).or (index.bind (s.world.noPlace slot))) (a.enlist slot index o)
      s := by
  refine verified (.look (.look ?_))
  have hplace : index.bind (s.world.noPlace slot) =
      s.world.noPlace slot (index.getD (s.world.itemsAt slot).length) := by
    cases index with
    | none => simp [World.noPlace]
    | some index => rfl
  rw [hplace, World.noPlace]
  dsimp only
  split
  next => exact .refuse rfl rfl
  next =>
    exact .bind (.retain o) fun _ _ => .bind (.writeSlot slot _) fun _ => attach_routine a.heap _ o

theorem replace_screens (index : Nat) (o : ObjId) :
    Screens ((a.unvisited s.world slot).or (s.world.noItem slot index .replaceRange))
      (a.replace slot index o) s := by
  refine verified (.look (.look ?_))
  cases hfound : (s.world.itemsAt slot)[index]? with
  | none =>
      rw [World.noItem, if_pos (List.getElem?_eq_none_iff.mp hfound)]
      exact .refuse rfl rfl
  | some old =>
      have hlt := (List.getElem?_eq_some_iff.mp hfound).1
      rw [World.noItem, if_neg (Nat.not_le.mpr hlt)]
      exact .bind (.retain o) fun _ _ => .bind (.writeSlot slot _) fun _ _ =>
        .bind (attach_routine a.heap _ o _) fun _ => lose_routine a.heap _ old

theorem extract_routine (roots : List RootId) (items : List ObjId) (index : Nat) (o : ObjId) :
    Routine (a.extract slot roots items index o) :=
  a.moveOut_routine slot _ roots o _

theorem removeAt_screens (index : Nat) :
    Screens ((a.unvisited s.world slot).or (s.world.noItem slot index .removeRange))
      (a.removeAt slot index) s := by
  refine verified (.look (.look ?_))
  cases hfound : (s.world.itemsAt slot)[index]? with
  | none =>
      rw [World.noItem, if_pos (List.getElem?_eq_none_iff.mp hfound)]
      exact .refuse rfl rfl
  | some o =>
      have hlt := (List.getElem?_eq_some_iff.mp hfound).1
      rw [World.noItem, if_neg (Nat.not_le.mpr hlt)]
      exact a.extract_routine slot _ _ index o s

theorem removeLast_screens : Screens (a.unvisited s.world slot) (a.removeLast slot) s := by
  rw [← Option.or_none (o := a.unvisited s.world slot)]
  refine verified (.look (.look ?_))
  cases (s.world.itemsAt slot).getLast? with
  | none => exact .pure _
  | some o => exact (a.extract_routine slot _ _ _ o s).map some

theorem removeAll_screens : Screens (a.unvisited s.world slot) (a.removeAll slot) s := by
  rw [← Option.or_none (o := a.unvisited s.world slot)]
  exact verified (.look (.look (.bind (.writeSlot slot _) fun _ _ => .forM (lose_routine a.heap _))))

end Handle

/-! ## Reclaiming -/

/-- The heap with `n` of its objects collected. -/
structure Heap.Loses (n : Nat) (heap heap' : Heap) : Prop where
  config : heap'.config = heap.config
  roots : heap'.roots = heap.roots
  live : heap'.live = heap.live - n
  collected : heap'.counters.collected = heap.counters.collected + n
  allocations : heap'.counters.allocations = heap.counters.allocations
  acquired : heap'.counters.rootsAcquired = heap.counters.rootsAcquired
  released : heap'.counters.rootsReleased = heap.counters.rootsReleased

theorem Heap.Loses.zero (heap : Heap) : heap.Loses 0 heap := ⟨rfl, rfl, rfl, rfl, rfl, rfl, rfl⟩

/-- What reclaiming does, whatever was suspected: live objects are condemned, each once, and taken
off the count of heap `h`. -/
structure World.Condemns (w : World) (h : HeapId) (dead : List ObjId) (w' : World) : Prop where
  nodup : dead.Nodup
  live : ∀ o ∈ dead, w.isLive o = true
  slots : w'.slots = w.slots
  tallies : w'.tallies = w.tallies
  dropped : w'.dropped = w.dropped
  objects : w'.objects = (w.condemn dead).objects
  size : w'.heaps.size = w.heaps.size
  room : ∀ heap : Heap, w.heaps[h]? = some heap → dead.length ≤ heap.live
  heaps : ∀ (g : HeapId) (heap heap' : Heap), w.heaps[g]? = some heap → w'.heaps[g]? = some heap' →
    heap.Loses (if g = h then dead.length else 0) heap'

theorem World.Condemns.nothing {w w' : World} {h : HeapId} (hslots : w'.slots = w.slots)
    (htallies : w'.tallies = w.tallies) (hdropped : w'.dropped = w.dropped)
    (hobjects : w'.objects = w.objects) (hheaps : w'.heaps = w.heaps) : w.Condemns h [] w' := by
  refine ⟨.nil, by simp, hslots, htallies, hdropped, hobjects, by rw [hheaps], by simp, ?_⟩
  intro g heap heap' hheap hheap'
  rw [hheaps, hheap] at hheap'
  cases hheap'
  simpa using Heap.Loses.zero heap

theorem World.Condemns.object {w w' : World} {h : HeapId} {dead : List ObjId}
    (hcondemns : w.Condemns h dead w') (o : ObjId) :
    w'.objects[o]? =
      w.objects[o]?.map fun ob => if o ∈ dead then { ob with state := .collecting } else ob := by
  rw [hcondemns.objects]
  exact World.getElem?_foldl_condemn dead w.objects o

/-- Reclaiming condemns, and fails only if a heap were to lose more objects than it counts. -/
theorem reclaim_condemns (h : HeapId) (s : Session) :
    Ends (reclaim h) s (fun dead s' => s.world.Condemns h dead s'.world)
      fun f s' => f = .liveUnderflow ∧ ∃ (dead : List ObjId) (heap : Heap), dead.Nodup ∧
        (∀ o ∈ dead, s.world.isLive o = true) ∧ s.world.heaps[h]? = some heap ∧
          heap.live < dead.length ∧ s'.world = s.world.condemn dead := by
  unfold Ends reclaim
  dsimp only
  generalize hdead : (s.world.garbage s.unrooted).lost = dead
  have hnodup : dead.Nodup := hdead ▸ World.nodup_garbage_lost
  have hlive : ∀ o ∈ dead, s.world.isLive o = true := hdead ▸ fun _ => World.live_of_garbage_lost
  -- nothing is suspect, or nothing is lost, reported or not; else what is lost is condemned
  split_ifs with hnone hempty hkept
  · exact .nothing rfl rfl rfl rfl rfl
  · exact .nothing rfl rfl rfl rfl rfl
  · exact .nothing rfl rfl rfl rfl rfl
  · have hcondemned : (s.world.condemn dead).heaps = s.world.heaps := rfl
    rw [hcondemned]
    cases hheap : s.world.heaps[h]? with
    | none =>
        refine ⟨hnodup, hlive, rfl, rfl, rfl, rfl, rfl, by simp [hheap], ?_⟩
        intro g heap heap' hold hnew
        cases hold.symm.trans hnew
        -- heaps other than `h` lose nothing
        have hg : g ≠ h := fun heq => by simp [heq, hheap] at hold
        rw [if_neg hg]
        exact .zero heap
    | some heap =>
        dsimp only
        by_cases hlt : heap.live < dead.length
        · rw [if_pos hlt]
          exact ⟨rfl, dead, heap, hnodup, hlive, rfl, hlt, rfl⟩
        · rw [if_neg hlt]
          refine ⟨hnodup, hlive, rfl, rfl, rfl, rfl, Array.size_modify, ?_, ?_⟩
          · intro heap' hheap'
            cases hheap.symm.trans hheap'
            exact Nat.not_lt.mp hlt
          · intro g old new hold hnew
            simp only [World.note, World.modifyHeap, Array.getElem?_modify, hcondemned, hold] at hnew
            by_cases hg : g = h
            · subst hg
              cases hheap.symm.trans hold
              simp only [if_true, Option.map_some, Option.some.injEq] at hnew
              subst hnew
              rw [if_pos rfl]
              exact ⟨rfl, rfl, rfl, rfl, rfl, rfl, rfl⟩
            · rw [if_neg (Ne.symm hg)] at hnew
              cases hnew
              rw [if_neg hg]
              exact .zero old

/-- A session that trades ends by condemning, if it comes to its end. -/
theorem locked_condemns {α : Type} {h : HeapId} {op : Locked α} {w : World} {r : Option Fault}
    (hop : Locked.Screens r op ⟨w, []⟩) :
    Ends (locked h op) w
      (fun p w' => r = none ∧ ∃ w₁, w.Trades w₁ ∧ w₁.Condemns h p.2 w')
      fun f w' => r = f.early ∧ (f.upFront = true → w' = f.reported w) ∧
        ∃ w₁, w.Trades w₁ ∧ (w' = w₁ ∨ ∃ (dead : List ObjId) (heap : Heap), dead.Nodup ∧
          (∀ o ∈ dead, w₁.isLive o = true) ∧ w₁.heaps[h]? = some heap ∧
            heap.live < dead.length ∧ w' = w₁.condemn dead) := by
  refine Ends.locked (hop.mono (fun _ _ => id) ?_) ?_
  · rintro f s ⟨htrades, hearly, hreported⟩
    exact ⟨hearly, hreported, s.world, htrades, .inl rfl⟩
  · rintro a s ⟨htrades, rfl⟩
    apply (reclaim_condemns h s).mono
    · exact fun dead s' hcondemns => ⟨rfl, s.world, htrades, hcondemns⟩
    · rintro f s' ⟨rfl, hfault⟩
      exact ⟨rfl, fun h => absurd h Bool.false_ne_true, s.world, htrades, .inr hfault⟩

end RootedHeap
