import RootedHeap.Field
import RootedHeap.Items
import RootedHeap.Keeps
import RootedHeap.Weak

/-! # Counters that an operation moves

A heap's counters go on in steps of a few kinds. A relation that permits the steps taken when
references are given up (`Counters.Waning`), or also those taken when references are come by
(`Counters.Waxing`) or edges replaced (`Counters.Relinking`), holds between the counters before and
after whatever does just that. To count alike in some respect is such a relation, and so are bounds
between what was counted.
-/

namespace RootedHeap

namespace Counters

/-- A preorder that permits what giving references up adds to the counters. -/
structure Waning (R : Counters → Counters → Prop) : Prop where
  refl : ∀ c, R c c
  trans : ∀ {c c' c''}, R c c' → R c' c'' → R c c''
  release : ∀ c : Counters, R c { c with rootsReleased := c.rootsReleased + 1 }
  collect : ∀ (c : Counters) (n : Nat), 0 < n →
    R c { c with collected := c.collected + n, collections := c.collections + 1 }

/-- A preorder that permits what a new edge adds to the counters as well. -/
structure Linking (R : Counters → Counters → Prop) : Prop extends Waning R where
  connect : ∀ c : Counters, R c { c with connectPasses := c.connectPasses + 1 }

/-- A preorder that permits what coming by references adds to the counters as well. -/
structure Waxing (R : Counters → Counters → Prop) : Prop extends Linking R where
  allocate : ∀ c : Counters, R c { c with allocations := c.allocations + 1 }
  acquire : ∀ c : Counters, R c { c with rootsAcquired := c.rootsAcquired + 1 }

/-- A preorder that permits what replacing edges adds to the counters as well. -/
structure Relinking (R : Counters → Counters → Prop) : Prop extends Linking R where
  disconnect : ∀ c : Counters, R c { c with disconnectPasses := c.disconnectPasses + 1 }
  scan : ∀ c : Counters, R c { c with cycleScans := c.cycleScans + 1 }
  orphans : ∀ (c : Counters) (n : Nat), R c { c with orphansFound := c.orphansFound + n }

/-- As many orphans were found. -/
def SameOrphans (c c' : Counters) : Prop := c'.orphansFound = c.orphansFound

theorem waxing_sameOrphans : Waxing SameOrphans where
  refl _ := rfl
  trans h h' := h'.trans h
  release _ := rfl
  collect _ _ _ := rfl
  allocate _ := rfl
  acquire _ := rfl
  connect _ := rfl

/-- As much was allocated, and as many roots acquired. -/
def SameIntake (c c' : Counters) : Prop :=
  c'.allocations = c.allocations ∧ c'.rootsAcquired = c.rootsAcquired

theorem relinking_sameIntake : Relinking SameIntake where
  refl _ := ⟨rfl, rfl⟩
  trans h h' := ⟨h'.1.trans h.1, h'.2.trans h.2⟩
  release _ := ⟨rfl, rfl⟩
  collect _ _ _ := ⟨rfl, rfl⟩
  connect _ := ⟨rfl, rfl⟩
  disconnect _ := ⟨rfl, rfl⟩
  scan _ := ⟨rfl, rfl⟩
  orphans _ _ := ⟨rfl, rfl⟩

/-- Only releases and collections were counted, and no collection was for nothing. -/
structure Spent (c c' : Counters) : Prop where
  same : c' = { c with
    rootsReleased := c'.rootsReleased
    collected := c'.collected
    collections := c'.collections }
  grows : c.collections ≤ c'.collections
  bound : c'.collections + c.collected ≤ c.collections + c'.collected

/-- Nothing more was collected, so no more collections were counted. -/
theorem Spent.of_collected {c c' : Counters} (h : Spent c c') (hsame : c'.collected = c.collected) :
    c' = { c with rootsReleased := c'.rootsReleased } := by
  have hbound := h.bound
  have hgrows := h.grows
  have hcollections : c'.collections = c.collections := by omega
  have heq := h.same
  rwa [hsame, hcollections] at heq

theorem waning_spent : Waning Spent where
  refl _ := ⟨rfl, Nat.le_refl _, Nat.le_refl _⟩
  trans h h' := by
    refine ⟨?_, Nat.le_trans h.grows h'.grows, ?_⟩
    · rw [h'.same, h.same]
    · have := h.bound
      have := h'.bound
      omega
  release _ := ⟨rfl, Nat.le_refl _, Nat.le_refl _⟩
  collect c n hn := by
    refine ⟨rfl, Nat.le_succ _, ?_⟩
    show c.collections + 1 + c.collected ≤ c.collections + (c.collected + n)
    omega

end Counters

namespace World

/-- What heap `g` has counted; nothing, as long as it does not exist. -/
def countersAt (w : World) (g : HeapId) : Counters :=
  match w.heaps[g]? with
  | some heap => heap.counters
  | none => {}

/-- The counters of every heap are related to what they are in `w'`. -/
def Ticks (R : Counters → Counters → Prop) (w w' : World) : Prop :=
  ∀ g, R (w.countersAt g) (w'.countersAt g)

theorem countersAt_eq {w : World} {g : HeapId} {heap : Heap} (h : w.heaps[g]? = some heap) :
    w.countersAt g = heap.counters := by
  rw [countersAt, h]

theorem countersAt_congr {w w' : World} (h : w'.heaps = w.heaps) : w'.countersAt = w.countersAt := by
  funext g
  rw [countersAt, countersAt, h]

/-- Nothing is counted at a change that leaves counters alone. -/
theorem countersAt_modifyHeap (w : World) (g : HeapId) {f : Heap → Heap}
    (hf : ∀ heap, (f heap).counters = heap.counters) :
    (w.modifyHeap g f).countersAt = w.countersAt := by
  funext g'
  exact match_heaps_modifyHeap (d := ({} : Counters)) hf g'

/-- A new heap has counted nothing. -/
theorem countersAt_push (w : World) (config : Config) (log : Array Event) :
    World.countersAt { w with heaps := w.heaps.push { config := config }, log := log } =
      w.countersAt := by
  funext g
  unfold countersAt
  dsimp only
  rw [Array.getElem?_push]
  by_cases hg : g = w.heaps.size
  · subst hg
    rw [if_pos rfl, Array.getElem?_size]
  · rw [if_neg hg]

namespace Ticks

variable {R : Counters → Counters → Prop} (hR : Counters.Waning R)

include hR

theorem of_eq {w w' : World} (h : w'.countersAt = w.countersAt) : w.Ticks R w' := by
  intro g
  rw [h]
  exact hR.refl _

theorem trans {w w' w'' : World} (h : w.Ticks R w') (h' : w'.Ticks R w'') : w.Ticks R w'' :=
  fun g => hR.trans (h g) (h' g)

theorem modifyHeap (w : World) (g : HeapId) {f : Heap → Heap}
    (hf : ∀ heap : Heap, R heap.counters (f heap).counters) : w.Ticks R (w.modifyHeap g f) := by
  intro g'
  unfold World.countersAt World.modifyHeap
  dsimp only
  rw [Array.getElem?_modify]
  by_cases hg : g = g'
  · rw [if_pos hg]
    cases w.heaps[g']? with
    | none => exact hR.refl _
    | some heap => exact hf heap
  · rw [if_neg hg]
    exact hR.refl _

theorem note (w : World) (e : Event) : w.Ticks R (w.note e) := of_eq hR rfl

theorem enter (w : World) (g : HeapId) : w.Ticks R (w.enter g) :=
  of_eq hR (countersAt_modifyHeap w g fun _ => rfl)

theorem leave (w : World) (g : HeapId) : w.Ticks R (w.leave g) := by
  unfold World.leave
  split
  next => exact of_eq hR rfl
  next heap _ =>
    have hleft := countersAt_modifyHeap w g
      (f := fun heap => { heap with holders := heap.holders - 1 }) fun _ => rfl
    dsimp only
    split
    · exact of_eq hR hleft
    · exact of_eq hR hleft

theorem retire (w : World) (g : HeapId) (o : ObjId) : w.Ticks R (w.retire g o) := by
  unfold World.retire
  split
  next =>
    split
    · exact of_eq hR rfl
    · split <;> exact of_eq hR rfl
  next => exact of_eq hR rfl

end Ticks

end World

namespace Locked

variable {R : Counters → Counters → Prop} {α β : Type}

/-- The session relates the counters it starts with to those it ends with. -/
abbrev Ticks (R : Counters → Counters → Prop) (op : Locked α) : Prop :=
  Keeps (fun s s' => s.world.Ticks R s'.world) op

namespace Ticks

section Steps

variable (hR : Counters.Waning R)

include hR

theorem pure (a : α) : Ticks R (Pure.pure a : Locked α) :=
  Keeps.pure (fun _ => .of_eq hR rfl) a

theorem throw (e : Fault) : Ticks R (MonadExcept.throw e : Locked α) :=
  Keeps.throw (fun _ => .of_eq hR rfl) e

theorem bind {op : Locked α} {next : α → Locked β} (h : Ticks R op)
    (hnext : ∀ a, Ticks R (next a)) : Ticks R (op >>= next) :=
  Keeps.bind (fun h h' => h.trans hR h') h hnext

theorem map {op : Locked α} (f : α → β) (h : Ticks R op) : Ticks R (f <$> op) := by
  rw [map_eq_pure_bind]
  exact bind hR h fun a => pure hR (f a)

theorem forM {l : List α} {f : α → Locked PUnit} (h : ∀ a, Ticks R (f a)) : Ticks R (l.forM f) :=
  Keeps.forM (fun _ => .of_eq hR rfl) (fun h h' => h.trans hR h') h

theorem mapM {l : List α} {f : α → Locked β} (h : ∀ a, Ticks R (f a)) : Ticks R (l.mapM f) :=
  Keeps.mapM (fun _ => .of_eq hR rfl) (fun h h' => h.trans hR h') h

theorem option_forM {f : β → Locked PUnit} (b : Option β) (h : ∀ b, Ticks R (f b)) :
    Ticks R (b.forM f) := by
  cases b with
  | none => exact pure hR _
  | some b => exact h b

theorem look (f : World → α) : Ticks R (Locked.look f) := fun _ => .of_eq hR rfl

theorem pass (make : World → Tallies → α) (left : α → Tallies) : Ticks R (Locked.pass make left) :=
  fun _ => .of_eq hR rfl

theorem suspect (os : List ObjId) : Ticks R (Locked.suspect os) := fun _ => .of_eq hR rfl

/-- A change of the world that leaves its heaps alone. -/
theorem update_of_eq {f : World → World} (hf : ∀ w, (f w).heaps = w.heaps) :
    Ticks R (Locked.update f) :=
  fun s => .of_eq hR (World.countersAt_congr (hf s.world))

theorem note (e : Event) : Ticks R (Locked.note e) := update_of_eq hR fun _ => rfl

theorem violate (cause : Violation) : Ticks R (Locked.violate cause : Locked α) :=
  bind hR (note hR _) fun _ => throw hR _

theorem verifySlot (g : HeapId) (o : ObjId) (s : SlotId) : Ticks R (Locked.verifySlot g o s) := by
  refine bind hR (look hR _) fun refused => ?_
  split
  · exact bind hR (look hR _) fun _ => violate hR _
  · exact pure hR _

theorem modifyHeap (g : HeapId) {f : Heap → Heap}
    (hf : ∀ heap : Heap, R heap.counters (f heap).counters) :
    Ticks R (Locked.update (·.modifyHeap g f)) :=
  fun s => .modifyHeap hR s.world g hf

end Steps

/-! ## Giving references up -/

section Waning

variable (hR : Counters.Waning R)

include hR

theorem stripRoot (r : RootId) (t : ObjId) : Ticks R (Locked.stripRoot r t) :=
  bind hR (pass hR _ _) fun _ => suspect hR _

theorem releaseStrong (o : ObjId) : Ticks R (Locked.releaseStrong o) := by
  refine bind hR (look hR _) fun ob => ?_
  cases ob with
  | none => exact pure hR _
  | some ob =>
      dsimp only
      split
      · exact throw hR _
      · refine bind hR (update_of_eq hR fun _ => rfl) fun _ =>
          bind hR (note hR _) fun _ => bind hR (look hR _) fun _ => ?_
        split
        · exact suspect hR _
        · exact pure hR _

theorem dropRoot (g : HeapId) (r : RootId) : Ticks R (Locked.dropRoot g r) := by
  refine bind hR (look hR _) fun heap => ?_
  cases heap with
  | none => exact pure hR _
  | some heap =>
      dsimp only
      split
      · exact violate hR _
      · exact bind hR (modifyHeap hR g fun heap => hR.release heap.counters) fun _ =>
          bind hR (note hR _) fun _ => bind hR (stripRoot hR _ _) fun _ => releaseStrong hR _

theorem reclaim (g : HeapId) : Ticks R (RootedHeap.reclaim g) := by
  intro s
  unfold RootedHeap.reclaim
  by_cases hnone : s.unrooted.isEmpty = true
  · simp only [if_pos hnone]
    exact .of_eq hR rfl
  simp only [if_neg hnone]
  by_cases hdead : (s.world.garbage s.unrooted).lost.isEmpty = true
  · by_cases hkept : (s.world.garbage s.unrooted).kept.isEmpty = true
    · simp only [if_pos hdead, if_pos hkept]
      exact .of_eq hR rfl
    · simp only [if_pos hdead, if_neg hkept]
      exact .of_eq hR rfl
  simp only [if_neg hdead]
  have hpos : 0 < (s.world.garbage s.unrooted).lost.length := by
    rw [List.length_pos_iff]
    simpa using hdead
  cases (s.world.condemn (s.world.garbage s.unrooted).lost).heaps[g]? with
  | none => exact .of_eq hR rfl
  | some heap =>
      by_cases hlive : heap.live < (s.world.garbage s.unrooted).lost.length
      · simp only [if_pos hlive]
        exact .of_eq hR rfl
      · simp only [if_neg hlive]
        exact .modifyHeap hR _ g fun heap => hR.collect heap.counters _ hpos

theorem locked {op : Locked α} (h : Ticks R op) (g : HeapId) :
    Keeps (World.Ticks R) (RootedHeap.locked g op) := by
  intro w
  have hop := h ⟨w, []⟩
  unfold RootedHeap.locked
  cases hrun : op ⟨w, []⟩ with
  | error f s =>
      rw [hrun] at hop
      exact hop
  | ok a s =>
      rw [hrun] at hop
      have hend := reclaim hR g s
      dsimp only at hop ⊢
      cases hreclaim : RootedHeap.reclaim g s with
      | error f s' =>
          rw [hreclaim] at hend
          exact hop.trans hR hend
      | ok dead s' =>
          rw [hreclaim] at hend
          exact hop.trans hR hend

end Waning

/-! ## New edges -/

section Linking

variable (hR : Counters.Linking R)

include hR

theorem connect (g : HeapId) (r : RootId) (t : ObjId) : Ticks R (Locked.connect g r t) := by
  have hw := hR.toWaning
  refine bind hw (modifyHeap hw g fun heap => hR.connect heap.counters) fun _ =>
    bind hw (pass hw _ _) fun found => bind hw (update_of_eq hw fun _ => rfl) fun _ => ?_
  cases found.stranger with
  | none => exact pure hw _
  | some o => exact bind hw (look hw _) fun _ => violate hw _

theorem attach (g : HeapId) (roots : List RootId) (t : ObjId) : Ticks R (Locked.attach g roots t) :=
  forM hR.toWaning fun r => connect hR g r t

theorem gain (g : HeapId) (roots : List RootId) (t : ObjId) : Ticks R (Locked.gain g roots t) :=
  bind hR.toWaning (update_of_eq hR.toWaning fun _ => rfl) fun _ => attach hR g roots t

end Linking

/-! ## Coming by references -/

section Waxing

variable (hR : Counters.Waxing R)

include hR

theorem acquireRoot (g : HeapId) (t : ObjId) : Ticks R (Locked.acquireRoot g t) := by
  have hw := hR.toWaning
  refine bind hw (look hw _) fun heap => ?_
  cases heap with
  | none => exact pure hw _
  | some heap =>
      exact bind hw (modifyHeap hw g fun heap => hR.acquire heap.counters) fun _ =>
        bind hw (note hw _) fun _ => bind hw (connect hR.toLinking g _ t) fun _ => pure hw _

theorem newHandle (g : HeapId) (t : ObjId) : Ticks R (Locked.newHandle g t) :=
  bind hR.toWaning (update_of_eq hR.toWaning fun _ => rfl) fun _ =>
    bind hR.toWaning (acquireRoot hR g t) fun _ => pure hR.toWaning _

theorem enroll (g : HeapId) (o : ObjId) (n : String) : Ticks R (Locked.enroll g o n) :=
  bind hR.toWaning (modifyHeap hR.toWaning g fun heap => hR.allocate heap.counters) fun _ =>
    bind hR.toWaning (note hR.toWaning _) fun _ => acquireRoot hR g o

theorem claim (g : HeapId) (o : ObjId) : Ticks R (WeakRef.claim g o) := by
  refine bind hR.toWaning (look hR.toWaning _) fun found => ?_
  split
  · exact map hR.toWaning _ (newHandle hR g o)
  · exact pure hR.toWaning _

theorem readField (a : Handle) (s : SlotId) : Ticks R (a.readField s) := by
  refine bind hR.toWaning (look hR.toWaning _) fun found => ?_
  cases found with
  | none => exact pure hR.toWaning _
  | some o => exact map hR.toWaning _ (newHandle hR a.heap o)

theorem readItem (a : Handle) (s : SlotId) (index : Nat) : Ticks R (a.readItem s index) := by
  refine bind hR.toWaning (look hR.toWaning _) fun items => ?_
  cases items[index]? with
  | none => exact pure hR.toWaning _
  | some o => exact map hR.toWaning _ (newHandle hR a.heap o)

theorem readItems (a : Handle) (s : SlotId) : Ticks R (a.readItems s) :=
  bind hR.toWaning (look hR.toWaning _) fun _ => mapM hR.toWaning fun o => newHandle hR a.heap o

theorem enlist (a : Handle) (s : SlotId) (index : Option Nat) (o : ObjId) :
    Ticks R (a.enlist s index o) := by
  have hw := hR.toWaning
  refine bind hw (verifySlot hw a.heap a.obj s) fun _ => bind hw (look hw _) fun roots =>
    bind hw (look hw _) fun items => ?_
  dsimp only
  split
  · exact throw hw _
  · exact bind hw (update_of_eq hw fun _ => rfl) fun _ =>
      bind hw (update_of_eq hw fun _ => rfl) fun _ => attach hR.toLinking a.heap roots o

end Waxing

/-! ## Replacing edges -/

section Relinking

variable (hR : Counters.Relinking R)

include hR

theorem scan (g : HeapId) (r : RootId) (candidates : List ObjId) :
    Ticks R (Locked.scan g r candidates) := by
  have hw := hR.toWaning
  refine bind hw (modifyHeap hw g fun heap => hR.scan heap.counters) fun _ =>
    bind hw (pass hw _ _) fun found => ?_
  split
  · exact pure hw _
  · refine bind hw (note hw _) fun _ =>
      bind hw (modifyHeap hw g fun heap => hR.orphans heap.counters _) fun _ =>
        bind hw (suspect hw _) fun _ => ?_
    split
    · exact throw hw _
    · exact pure hw _

theorem disconnect (g : HeapId) (r : RootId) (t : ObjId) : Ticks R (Locked.disconnect g r t) := by
  have hw := hR.toWaning
  refine bind hw (modifyHeap hw g fun heap => hR.disconnect heap.counters) fun _ =>
    bind hw (pass hw _ _) fun found => bind hw (update_of_eq hw fun _ => rfl) fun _ =>
      bind hw (suspect hw _) fun _ => ?_
  cases found.unreached with
  | some o => exact bind hw (look hw _) fun _ => violate hw _
  | none =>
      dsimp only
      split
      · exact pure hw _
      · exact scan hR g r _

theorem lose (g : HeapId) (roots : List RootId) (t : ObjId) : Ticks R (Locked.lose g roots t) :=
  bind hR.toWaning (forM hR.toWaning fun r => disconnect hR g r t) fun _ =>
    releaseStrong hR.toWaning t

theorem storeField (a : Handle) (s : SlotId) (target : Option ObjId) :
    Ticks R (a.storeField s target) := by
  have hw := hR.toWaning
  refine bind hw (verifySlot hw a.heap a.obj s) fun _ => bind hw (look hw _) fun roots =>
    bind hw (option_forM hw target (gain hR.toLinking a.heap roots)) fun _ =>
      bind hw (look hw _) fun old => bind hw (update_of_eq hw fun _ => rfl) fun _ =>
        option_forM hw old (lose hR a.heap roots)

end Relinking

end Ticks

end Locked

end RootedHeap
