import RootedHeap.Proofs.Allocations
import RootedHeap.Proofs.Concurrency
import RootedHeap.Proofs.Counters
import RootedHeap.Proofs.Exactness

/-! # Upgrades

A weak reference comes to a handle exactly as long as its target is live and the heap of the target
exists. The handle comes with a root of its own, which tags all that the target leads to, whether or
not anything tagged it before. What weak references rely on, threads never break
(`Crowd.Interleaved.weak_exact`).
-/

namespace RootedHeap

open World

/-! ## A claim leaves objects and slots as they are -/

namespace World.SameShape

variable {w w' : World} {todo : Multiset Task} {held : Multiset Holding}

theorem object (h : w.SameShape w') (o : ObjId) :
    w'.objects[o]?.map (fun ob => (ob.state, ob.value)) =
      w.objects[o]?.map fun ob => (ob.state, ob.value) := by
  have hobjects := congrArg (·[o]?) h.objects
  simpa only [List.getElem?_map, Array.getElem?_toList] using hobjects

theorem size (h : w.SameShape w') : w'.objects.size = w.objects.size := by
  simpa using congrArg List.length h.objects

theorem isLive (h : w.SameShape w') : w'.isLive = w.isLive := by
  funext o
  have hobject := congrArg (Option.map Prod.fst) (h.object o)
  rw [Option.map_map, Option.map_map] at hobject
  unfold World.isLive
  cases hob : w.objects[o]? <;> cases hob' : w'.objects[o]? <;> simp_all

theorem valueAt (h : w.SameShape w') : w'.valueAt = w.valueAt := by
  funext o
  have hvalue := h.getElem? o
  unfold World.valueAt
  cases hob : w.objects[o]? <;> cases hob' : w'.objects[o]? <;> simp_all

theorem out (h : w.SameShape w') : w'.out = w.out := by
  funext o
  have hvalue := h.getElem? o
  have hslots : w'.slotAt = w.slotAt := funext h.slotAt
  unfold World.out World.visits
  rw [hslots]
  cases hob : w.objects[o]? <;> cases hob' : w'.objects[o]? <;> simp_all

theorem ledger (h : w.SameShape w') : w'.ledger todo held = w.ledger todo held := by
  have hlives : w'.lives = w.lives := by rw [World.lives, World.lives, h.size, h.isLive]
  have htasks (t : Task) : t.holdings w' = t.holdings w := by
    cases t with
    | dropValue o => rw [Task.holdings, Task.holdings, h.valueAt]
    | dropSlot | release | dropWeak | dropHandle | leave | retire => rfl
  rw [World.ledger, World.ledger, hlives, h.valueAt, funext htasks]

end World.SameShape

namespace Locked

theorem connect_keepsShape (h : HeapId) (r : RootId) (target : ObjId) :
    KeepsShape (connect h r target) := by
  refine .bind (.update fun _ => ⟨rfl, rfl⟩) fun _ => .bind (.pass _ _) fun pass =>
    .bind (.update fun _ => ⟨rfl, rfl⟩) fun _ => ?_
  cases pass.stranger with
  | none => exact .pure _
  | some o => exact .bind (.look _) fun _ => .violate _

theorem newHandle_keepsShape (h : HeapId) (target : ObjId) : KeepsShape (newHandle h target) := by
  have hacquire : KeepsShape (acquireRoot h target) := by
    refine .bind (.look _) fun heap => ?_
    cases heap with
    | none => exact .pure _
    | some heap =>
        exact .bind (.update fun _ => ⟨rfl, rfl⟩) fun _ => .bind (.note _) fun _ =>
          .bind (connect_keepsShape h _ target) fun _ => .pure _
  refine .bind (.update fun w => .modifyObject w target (fun _ => rfl) fun _ => rfl) fun _ => ?_
  exact .bind hacquire fun _ => .pure _

end Locked

namespace WeakRef

variable {h : HeapId} {o : ObjId}

theorem claim_keepsShape (h : HeapId) (o : ObjId) : Locked.KeepsShape (claim h o) := by
  refine .bind (.look _) fun live => ?_
  split
  · rw [map_eq_pure_bind]
    exact .bind (Locked.newHandle_keepsShape h o) fun _ => .pure _
  · exact .pure _

/-- What is found is a handle to the object, which is found if it is live. -/
theorem claim_finds (s : Session) : Ends (claim h o) s
    (fun found _ => found.isSome = s.world.isLive o ∧ ∀ a ∈ found, a.obj = o ∧ a.heap = h)
    fun _ _ => True := by
  unfold claim
  rw [Ends.bind_iff, Locked.ends_look]
  split_ifs with hlive
  · rw [Ends.map_iff]
    unfold Locked.newHandle
    rw [Ends.bind_iff, Locked.ends_update, Ends.bind_iff]
    unfold Ends
    split
    · refine ⟨hlive.symm, ?_⟩
      rintro a ⟨⟩
      exact ⟨rfl, rfl⟩
    · trivial
  · refine ⟨(Bool.eq_false_iff.mpr hlive).symm, ?_⟩
    rintro a ⟨⟩

theorem of_claim {found : Option Handle} {dead : List ObjId} {w w' : World}
    (hlocked : locked h (claim h o) w = .ok (found, dead) w') :
    dead = [] ∧ w.SameShape w' ∧ found.isSome = w.isLive o ∧ ∀ a ∈ found, a.obj = o ∧ a.heap = h := by
  unfold locked at hlocked
  split at hlocked
  next => cases hlocked
  next found' s hclaim =>
    have hunrooted : s.unrooted = [] := (claim_unsuspecting h o).of_ok hclaim
    rw [reclaim, if_pos (List.isEmpty_iff.mpr hunrooted)] at hlocked
    cases hlocked
    have hshape : w.SameShape s.world := (claim_keepsShape h o).of_ok hclaim
    exact ⟨rfl, hshape, (claim_finds ⟨w, []⟩).of_ok hclaim⟩

end WeakRef

/-! ## Fresh roots -/

namespace World

variable {w w' : World} {strong : ObjId → Nat} {todo : Multiset Task} {held : Multiset Holding}
  {owed owed' : HeapId → ℤ} {heaps : Multiset HeapId} {incoming : List Handle} {a b : Handle}

/-- No two handles to objects of a heap have the same root. -/
theorem Accounted.root_ne (h : w.Accounted strong todo (.root a ::ₘ held))
    (hb : .root b ∈ w.ledger todo held) (hheap : b.heap = a.heap) : b.root ≠ a.root := by
  have hnodup : ((w.rootsAt a.heap : Multiset (RootId × ObjId)).map Prod.fst).Nodup :=
    Multiset.coe_nodup.mpr (h.roots_nodup a.heap)
  have hself : Holding.entries a.heap (.root a) = {(a.root, a.obj)} := if_pos rfl
  rw [h.roots_eq, ledger_cons_held, Multiset.cons_bind, hself, Multiset.singleton_add,
    Multiset.map_cons, Multiset.nodup_cons] at hnodup
  intro hroot
  apply hnodup.1
  refine Multiset.mem_map.mpr ⟨(b.root, b.obj), Multiset.mem_bind.mpr ⟨_, hb, ?_⟩, hroot⟩
  simp [Holding.entries, hheap]

/-- A handle that comes about while objects and slots stay as they are has a root that tagged
nothing, and tags all that its object leads to. -/
theorem Steady.tags (h : w.Steady todo held owed) (h' : w'.Steady todo (.root a ::ₘ held) owed')
    (hshape : w.SameShape w') :
    (∀ p, w.owns a.heap p = true → w.tallies.count p a.root = 0) ∧
      ∀ p, Reach w.out a.obj p → 0 < w'.tallies.count p a.root := by
  have ha : .root a ∈ w'.ledger todo (.root a ::ₘ held) := mem_ledger_of_held (Multiset.mem_cons_self _ _)
  obtain ⟨hlive, hown, hsupport⟩ := World.Sound.handle h' ha
  constructor
  · intro p hp
    by_contra hcount
    obtain ⟨t, htarget, -⟩ := (World.Sound.count_pos_iff h hp _).mp (Nat.pos_of_ne_zero hcount)
    have hactive := (Registry.target?_eq_some_iff (h.accounted.roots_nodup a.heap)).mp htarget
    have hold := h.accounted.exists_handle hactive
    rw [← hshape.ledger] at hold
    exact h'.accounted.root_ne hold rfl rfl
  · intro p hreach
    rw [← hshape.out] at hreach
    have hp := h'.guarded.owns_of_reach hlive hown hreach
    rw [World.Sound.support_eq h' hown] at hsupport
    refine (World.Sound.count_pos_iff h' hp _).mpr ⟨a.obj, ?_, hreach⟩
    by_contra htarget
    rw [if_neg htarget] at hsupport
    cases hsupport

end World

/-! ## What an upgrade comes to -/

/-- The target is live, and its heap exists. -/
def WeakRef.Upgradable (x : WeakRef) (w : World) : Prop :=
  ∃ o ob, x.target = some o ∧ w.objects[o]? = some ob ∧ ob.state = .live ∧ w.heapExists ob.heap = true

/-- What an upgrade finds, in `w`: a handle to the target, with a root that tagged nothing in the heap
of the target, and tags all that the target leads to in `w'`. -/
def WeakRef.Finds (x : WeakRef) (w w' : World) (a : Handle) : Prop :=
  x.target = some a.obj ∧ w.owns a.heap a.obj = true ∧
    (∀ p, w.owns a.heap p = true → w.tallies.count p a.root = 0) ∧
      ∀ p, Reach w.out a.obj p → 0 < w'.tallies.count p a.root

namespace Client

variable {c : Client}

/-- An upgrade that comes to a claim ends as the claim does. -/
theorem upgrade_of_claim {o : ObjId} {ob : Object} {found : Option Handle} {w w' : World}
    (hob : w.objects[o]? = some ob) (hexists : w.heapExists ob.heap = true)
    (hlocked : locked ob.heap (WeakRef.claim ob.heap o) (w.enter ob.heap) = .ok (found, []) w') :
    (⟨some o⟩ : WeakRef).upgrade w =
      .ok found (if found.isSome then w' else w'.leave ob.heap) := by
  have hrun : RootedHeap.run ob.heap (WeakRef.claim ob.heap o) (w.enter ob.heap) = .ok found w' :=
    Call.run_of_locked hlocked (congrFun settle_nil w')
  simp only [WeakRef.upgrade, hob, if_pos hexists, hrun]
  cases found <;> rfl

/-- Every weak reference comes to a handle if its target is live and the heap of the target exists,
whatever is under way; the handle's root tags all that the target leads to. -/
theorem Orderly.upgrade (h : c.Orderly) (x : WeakRef) :
    ∃ found w, x.upgrade c.world = .ok found w ∧ (found.isSome = true ↔ x.Upgradable c.world) ∧
      ∀ a ∈ found, x.Finds c.world w a := by
  obtain ⟨hlost, hnone, -⟩ | ⟨o, ob, rfl, hob, hexists⟩ := Call.upgrade_cases x c.world
  · refine ⟨none, c.world, hnone, iff_of_false Bool.false_ne_true ?_, by simp⟩
    rintro ⟨o, ob, htarget, hob, -, hexists⟩
    rw [hlost o htarget ob hob] at hexists
    cases hexists
  · obtain ⟨found, dead, w, w₁, hlocked, -, hsteady, -⟩ := Call.claim_ends h hob hexists
    obtain ⟨rfl, hshape, hsome, hfound⟩ := WeakRef.of_claim hlocked
    have hentered : c.world.SameShape (c.world.enter ob.heap) := ⟨rfl, rfl⟩
    refine ⟨found, _, upgrade_of_claim hob hexists hlocked, ?_, ?_⟩
    · have hlive : found.isSome = decide (ob.state = .live) := by
        rw [hsome]
        simp only [World.isLive, World.enter, World.modifyHeap, hob]
      simp [WeakRef.Upgradable, hob, hexists, hlive]
    · rintro a ⟨⟩
      obtain ⟨hobj, hheap⟩ := hfound a rfl
      obtain ⟨hfresh, htags⟩ := h.steady.tags hsteady (hentered.trans hshape)
      have hown : c.world.owns a.heap a.obj = true := by
        rw [hobj, hheap]
        exact owns_iff.mpr ⟨ob, hob, rfl⟩
      exact ⟨congrArg some hobj.symm, hown, hfresh, htags⟩

end Client

/-! ## What weak references rely on -/

namespace Crowd

variable {ι : Type} [Fintype ι] [DecidableEq ι] {x : Crowd ι}

omit [DecidableEq ι] in
theorem Sound.upgrade (h : x.Sound) (y : WeakRef) :
    ∃ found w, y.upgrade x.world = .ok found w ∧ (found.isSome = true ↔ y.Upgradable x.world) ∧
      ∀ a ∈ found, y.Finds x.world w a := by
  let all : Client := ⟨x.world, x.held, x.heaps, x.todo.toList, x.incoming.toList⟩
  have horderly : all.Orderly := by
    unfold Client.Orderly
    simp only [all, Multiset.coe_toList]
    exact h.orderly
  exact horderly.upgrade y

/-- Whatever threads are doing, a weak reference comes to a handle exactly if its target is live and the
heap of the target exists, and the handle has a root of its own that tags all that the target leads to.
The weak count of an object is the number of weak references to it, and one more until the collector
gives up its share, which it keeps if the object is put away as poisoned; an allocation was given back
if its weak count is zero. An allocation that was given back is never touched again: nothing refers to
it, and the value was dropped before. -/
theorem Interleaved.weak_exact (h : x.Interleaved) :
    (∀ y : WeakRef, ∃ found w, y.upgrade x.world = .ok found w ∧
      (found.isSome = true ↔ y.Upgradable x.world) ∧ ∀ a ∈ found, y.Finds x.world w a) ∧
    (∀ (o : ObjId) (ob : Object), x.world.objects[o]? = some ob →
      ob.weak = x.inventory.count (.weak o) +
          (if ob.state ≠ .collecting ∨ o ∈ x.todo.filterMap Task.retires then 1 else 0) ∧
        (ob.freed = true ↔ ob.weak = 0)) ∧
    (∀ (o : ObjId) (ob : Object), x.world.objects[o]? = some ob → ob.freed = true →
      o ∈ x.world.dropped ∧ (∀ y ∈ x.inventory, ¬ y.RefersTo x.world o) ∧ .release o ∉ x.todo ∧
        ∀ y, Relation.ReflTransGen Crowd.Step x y → y.world.objects[o]? = some ob) ∧
    ∀ y, x.Step y → ∀ (o : ObjId) (ob ob' : Object), x.world.objects[o]? = some ob →
      y.world.objects[o]? = some ob' → ob.freed = false → ob'.freed = true → o ∈ x.world.dropped := by
  refine ⟨h.sound.upgrade, fun o ob hob => ⟨h.weak_eq hob, h.weighed.freed_iff o ob hob⟩,
    fun o ob hob hfreed => ?_, fun y hstep o ob ob' => h.dropped_of_freed hstep⟩
  obtain ⟨hdropped, -, hforgotten, hreleased⟩ := h.freed hob hfreed
  exact ⟨hdropped, hforgotten, hreleased, fun y hsteps => (h.freed_stays hob hfreed hsteps).2⟩

end Crowd

/-! ## An object that is outlived by a weak reference -/

namespace Client

/-- A client with a weak reference to an object, in a heap that does not keep collected objects. -/
def watched : Client :=
  ((({} : Client).call (.createHeap { poison := false, balance := false })).call
    (.alloc 0 "leaf" .plain)).call (.downgrade ⟨0, 1, 0⟩)

/-- The object is in a field outside any object, and nothing else holds it. -/
def shelved : Client :=
  ((watched.call (.newField (some ⟨0, 1, 0⟩))).begin (.drop ⟨0, 1, 0⟩)).advance.advance

/-- The field is dropped, and the object collected. -/
def outlived : Client := (shelved.begin (.dropSlot 0)).advance.advance.advance.advance.advance

/-- The weak reference is about to be dropped. -/
def forgetting : Client := outlived.begin (.dropWeak ⟨some 0⟩)

theorem watched_reached : watched.Reached ∧ watched.AtRest := by
  have hheaps : (({} : Client).call (.createHeap { poison := false, balance := false })).heaps = {0} := by
    cbv
  have hheld : ((({} : Client).call (.createHeap { poison := false, balance := false })).call
      (.alloc 0 "leaf" .plain)).held = {.root ⟨0, 1, 0⟩} := by cbv
  refine Reached.call (Reached.call (Reached.call ⟨.start, rfl, rfl⟩ rfl (by cbv)) ?_ (by cbv)) ?_ (by cbv)
  · refine ⟨?_, by decide, Multiset.zero_le _⟩
    rw [hheaps]
    exact Multiset.mem_singleton_self 0
  · exact .held (hheld ▸ Multiset.mem_singleton_self _)

theorem shelved_reached : shelved.Reached ∧ shelved.AtRest := by
  have hheld : watched.held = {.weak 0, .root ⟨0, 1, 0⟩} := by cbv
  have hkept : (watched.call (.newField (some ⟨0, 1, 0⟩))).held =
      {.slot 0, .weak 0, .root ⟨0, 1, 0⟩} := by cbv
  have hfield : (Call.newField (some ⟨0, 1, 0⟩)).Allowed watched := by
    rintro b ⟨⟩
    exact .held (by simp [hheld])
  obtain ⟨hreached, hrest⟩ := Reached.call watched_reached hfield (by cbv)
  have hdrop : (Call.drop ⟨0, 1, 0⟩).Allowed (watched.call (.newField (some ⟨0, 1, 0⟩))) := by
    change _ ∈ Client.held _
    simp [hkept]
  exact ⟨(hreached.begin hrest hdrop rfl).advance.advance, by cbv, by cbv⟩

theorem outlived_reached : outlived.Reached ∧ outlived.AtRest := by
  have hheld : shelved.held = {.slot 0, .weak 0} := by cbv
  obtain ⟨hreached, hrest⟩ := shelved_reached
  have hdrop : (Call.dropSlot 0).Allowed shelved := by
    change _ ∈ shelved.held
    simp [hheld]
  exact ⟨(hreached.begin hrest hdrop rfl).advance.advance.advance.advance.advance, by cbv, by cbv⟩

theorem forgetting_reached : forgetting.Reached := by
  have hheld : outlived.held = {.weak 0} := by cbv
  obtain ⟨hreached, hrest⟩ := outlived_reached
  apply hreached.begin hrest _ rfl
  change _ ≤ outlived.held
  rw [hheld]
  exact le_refl _

/-- The weak reference comes to a handle while the object is in the field, although nothing tags it, and
to nothing once the object is collected. It keeps the allocation until it is dropped. -/
theorem forgetting_weak_exact :
    (∃ a w, (⟨some 0⟩ : WeakRef).upgrade shelved.world = .ok (some a) w ∧
      shelved.world.tallies.isEmptyAt 0 = true ∧ 0 < w.tallies.count 0 a.root) ∧
    (∃ w, (⟨some 0⟩ : WeakRef).upgrade outlived.world = .ok none w) ∧
    (outlived.among ()).inventory.count (.weak 0) = 1 ∧ 0 ∈ forgetting.advance.world.dropped ∧
    ∀ y, Relation.ReflTransGen Crowd.Step (forgetting.advance.among ()) y →
      y.world.objects[0]? = some
        { heap := 0, typeName := "leaf", value := .plain, strong := 0, weak := 0, state := .collecting,
          freed := true } := by
  -- what holds of all interleavings is read at one object in three worlds
  have hleaf : shelved.world.objects[0]? = some
      { heap := 0, typeName := "leaf", value := .plain, strong := 1, weak := 2 } := by cbv
  have hkept : outlived.world.objects[0]? = some
      { heap := 0, typeName := "leaf", value := .plain, strong := 0, weak := 1,
        state := .collecting } := by
    cbv
  have hfreed : forgetting.advance.world.objects[0]? = some
      { heap := 0, typeName := "leaf", value := .plain, strong := 0, weak := 0, state := .collecting,
        freed := true } := by cbv
  refine ⟨?_, ?_, ?_, ?_⟩
  · obtain ⟨found, w, hupgrade, hsome, hfinds⟩ :=
      (shelved_reached.1.interleaved ()).weak_exact.1 ⟨some 0⟩
    have hupgradable : (⟨some 0⟩ : WeakRef).Upgradable shelved.world :=
      ⟨0, _, rfl, hleaf, rfl, by cbv⟩
    obtain ⟨a, rfl⟩ := Option.isSome_iff_exists.mp (hsome.mpr hupgradable)
    obtain ⟨htarget, -, -, htags⟩ := hfinds a rfl
    exact ⟨a, w, hupgrade, by cbv, htags 0 (Option.some.inj htarget ▸ .refl)⟩
  · obtain ⟨found, w, hupgrade, hsome, -⟩ :=
      (outlived_reached.1.interleaved ()).weak_exact.1 ⟨some 0⟩
    have hnone : ¬ found.isSome = true := by
      rw [hsome]
      rintro ⟨o, ob, ⟨⟩, hob, hlive, -⟩
      cases hkept.symm.trans hob
      cases hlive
    rw [Option.not_isSome_iff_eq_none.mp hnone] at hupgrade
    exact ⟨w, hupgrade⟩
  · have hweak := ((outlived_reached.1.interleaved ()).weak_exact.2.1 0 _ hkept).1
    have htodo : (outlived.among ()).todo = 0 := by
      rw [todo_among]
      exact congrArg _ outlived_reached.2.1
    simpa [htodo] using hweak.symm
  · obtain ⟨hdropped, -, -, hstays⟩ :=
      (forgetting_reached.advance.interleaved ()).weak_exact.2.2.1 0 _ hfreed rfl
    exact ⟨hdropped, hstays⟩

end Client

end RootedHeap
