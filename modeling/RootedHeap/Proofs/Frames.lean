import RootedHeap.Field
import RootedHeap.Items
import RootedHeap.Proofs.Sessions
import RootedHeap.Weak

/-! # What a session leaves alone

The operations under a heap's lock change tallies and counts all the time, but little else. A session
is `Locked.Confined` to the objects that are alive and to the slots that somebody owns: it takes no
object's value or life, writes no other slot, and it only ever tags objects that are alive, registers
roots for them, and stores them. Every tag and every root is reported, so that the log tells.
-/

namespace RootedHeap

/-- The objects that an event reports to be tagged, or to be the target of a root from now on. -/
def Event.marks : Event → List ObjId
  | .tallyBumped o _ _ | .rootAcquired _ o | .rootRetargeted _ _ o => [o]
  | .creatingHeap _ | .allocated .. | .tagRemoved .. | .tallyDropped .. | .orphansFound ..
  | .rootReleased .. | .strongReleased .. | .stillHeld _ | .collected .. | .leaked ..
  | .heapDropped .. | .violated _ => []

/-- Whether an event reports a collected object that is still referred to. -/
def Event.leaks : Event → Bool
  | .leaked .. => true
  | _ => false

/-- An event that marks objects that are alive at most, and reports no leak. -/
structure Event.Fair (alive : ObjId → Bool) (e : Event) : Prop where
  marks : ∀ o ∈ e.marks, alive o = true
  leaks : e.leaks = false

/-- What a session leaves to a heap: its configuration, its holders, and how much it collected. -/
def Heap.tenure (heap : Heap) : Config × Nat × Nat :=
  (heap.config, heap.holders, heap.counters.collected)

namespace World

/-- How many objects of heap `h` were collected. -/
def collectedAt (w : World) (h : HeapId) : Nat :=
  match w.heaps[h]? with
  | some heap => heap.counters.collected
  | none => 0

/-- `w'` goes on from `w` with the objects there were, and what was reported since is fair. Only
slots that are owned may differ. -/
structure Spares (alive : ObjId → Bool) (own : SlotId → Prop) (w w' : World) : Prop where
  dropped : w'.dropped = w.dropped
  size : w'.objects.size = w.objects.size
  objects : ∀ o : ObjId, w'.objects[o]?.map Object.face = w.objects[o]?.map Object.face
  heaps : ∀ h : HeapId, w'.heaps[h]?.map Heap.tenure = w.heaps[h]?.map Heap.tenure
  slots : ∀ s, ¬ own s → w'.slotAt s = w.slotAt s
  log : ∃ added, w'.log.toList = w.log.toList ++ added ∧ ∀ e ∈ added, e.Fair alive

/-- Owned slots hold objects that are alive, and so do all slots that these report. -/
structure Closed (alive : ObjId → Bool) (own : SlotId → Prop) (w : World) : Prop where
  isLive : w.isLive = alive
  reported : ∀ p, alive p = true → ∀ s ∈ (w.valueAt p).connectSlots, own s
  targets : ∀ s, own s → ∀ c ∈ (w.slotAt s).targets, alive c = true

variable {alive : ObjId → Bool} {own : SlotId → Prop} {w w' w'' : World}

namespace Spares

theorem refl (w : World) : w.Spares alive own w :=
  ⟨rfl, rfl, fun _ => rfl, fun _ => rfl, fun _ _ => rfl, [], by simp⟩

theorem trans (h : w.Spares alive own w') (h' : w'.Spares alive own w'') :
    w.Spares alive own w'' := by
  obtain ⟨added, hlog, hfair⟩ := h.log
  obtain ⟨added', hlog', hfair'⟩ := h'.log
  refine ⟨h'.dropped.trans h.dropped, h'.size.trans h.size,
    fun o => (h'.objects o).trans (h.objects o), fun g => (h'.heaps g).trans (h.heaps g),
    fun s hs => (h'.slots s hs).trans (h.slots s hs), added ++ added', ?_, ?_⟩
  · rw [hlog', hlog, List.append_assoc]
  · intro e he
    rcases List.mem_append.mp he with he | he
    · exact hfair e he
    · exact hfair' e he

theorem isLive (h : w.Spares alive own w') : w'.isLive = w.isLive := by
  funext o
  rw [isLive_face, isLive_face, h.objects]

theorem valueAt (h : w.Spares alive own w') : w'.valueAt = w.valueAt := by
  funext o
  rw [valueAt_face, valueAt_face, h.objects]

theorem holdersAt (h : w.Spares alive own w') : w'.holdersAt = w.holdersAt := by
  funext g
  have hheap := h.heaps g
  unfold World.holdersAt
  cases hold : w.heaps[g]? <;> cases hnew : w'.heaps[g]? <;> simp_all [Heap.tenure]

theorem collectedAt (h : w.Spares alive own w') : w'.collectedAt = w.collectedAt := by
  funext g
  have hheap := h.heaps g
  unfold World.collectedAt
  cases hold : w.heaps[g]? <;> cases hnew : w'.heaps[g]? <;> simp_all [Heap.tenure]

/-! ### Steps -/

theorem modifyObject (w : World) (o : ObjId) {f : Object → Object}
    (hf : ∀ ob, (f ob).face = ob.face) : w.Spares alive own (w.modifyObject o f) := by
  have halike := Alike.modifyObject w o fun ob _ => hf ob
  exact ⟨rfl, halike.size, halike.objects, fun _ => rfl, fun _ _ => rfl, [], by simp [World.modifyObject]⟩

theorem modifyHeap (w : World) (g : HeapId) {f : Heap → Heap}
    (hf : ∀ heap, (f heap).tenure = heap.tenure) : w.Spares alive own (w.modifyHeap g f) := by
  refine ⟨rfl, rfl, fun _ => rfl, fun g' => ?_, fun _ _ => rfl, [], by simp [World.modifyHeap]⟩
  simp only [World.modifyHeap, Array.getElem?_modify]
  split
  · cases w.heaps[g']? <;> simp [hf]
  · rfl

theorem report (w : World) {events : List Event} (h : ∀ e ∈ events, e.Fair alive) :
    w.Spares alive own { w with log := w.log ++ events } :=
  ⟨rfl, rfl, fun _ => rfl, fun _ => rfl, fun _ _ => rfl, events, by simp, h⟩

theorem note (w : World) {e : Event} (h : e.Fair alive) : w.Spares alive own (w.note e) :=
  ⟨rfl, rfl, fun _ => rfl, fun _ => rfl, fun _ _ => rfl, [e], by simp [World.note], by simpa using h⟩

theorem retally (w : World) (ts : Tallies) : w.Spares alive own { w with tallies := ts } :=
  ⟨rfl, rfl, fun _ => rfl, fun _ => rfl, fun _ _ => rfl, [], by simp⟩

theorem writeSlot (w : World) {s : SlotId} (hs : own s) (content : Slot) :
    w.Spares alive own (w.writeSlot s content) := by
  refine ⟨rfl, rfl, fun _ => rfl, fun _ => rfl, fun s' hs' => ?_, [], by simp [World.writeSlot]⟩
  apply slotAt_writeSlot_of_ne
  rintro rfl
  exact hs' hs

end Spares

/-- Closed worlds stay closed as long as only live objects are stored. -/
theorem Closed.of_spares (h : w.Closed alive own) (hspares : w.Spares alive own w')
    (hslots : ∀ s, own s → ∀ c ∈ (w'.slotAt s).targets, alive c = true) : w'.Closed alive own :=
  ⟨hspares.isLive.trans h.isLive, hspares.valueAt ▸ h.reported, hslots⟩

theorem Closed.live_of_out (h : w.Closed alive own) {p c : ObjId} (hp : alive p = true)
    (hc : c ∈ w.out p) : alive c = true := by
  obtain ⟨s, hs, hc⟩ := mem_out.mp hc
  exact h.targets s (h.reported p hp s hs) c hc

/-- A sound world is closed for the slots that no task holds. -/
theorem Guarded.closed_world {todo : Multiset Task} {held : Multiset Holding}
    (h : w.Guarded todo held) : w.Closed w.isLive fun s => .slot s ∈ w.ledger 0 held := by
  refine ⟨rfl, fun p hp s hs => ?_, fun s hs c hc => ?_⟩
  · exact mem_ledger_of_live hp (Value.mem_holdings_of_reported hs)
  · rw [ledger, Multiset.zero_bind, add_zero] at hs
    rcases Multiset.mem_add.mp hs with hs | hs
    · obtain ⟨p, hp, hs⟩ := Multiset.mem_bind.mp hs
      exact h.value_live p (mem_lives.mp hp) _ (Multiset.mem_coe.mp hs) c (Multiset.mem_coe.mpr hc)
    · exact h.held_live _ hs c (Multiset.mem_coe.mpr hc)

end World

open World

/-- A world to which a closed one may come: it spares what is not owned, and stays closed. -/
structure World.Leads (alive : ObjId → Bool) (own : SlotId → Prop) (w w' : World) : Prop where
  spares : w.Spares alive own w'
  closed : w'.Closed alive own

/-- Whatever becomes of the session, it spares what is not its own, and stores live objects only. -/
def Locked.Confined {α : Type} (alive : ObjId → Bool) (own : SlotId → Prop) (op : Locked α) :
    Prop :=
  ∀ s : Session, s.world.Closed alive own →
    Ends op s (fun _ s' => s.world.Leads alive own s'.world)
      fun _ s' => s.world.Leads alive own s'.world

namespace Locked

variable {α β : Type} {alive : ObjId → Bool} {own : SlotId → Prop}

namespace Confined

theorem pure (a : α) : Confined alive own (Pure.pure a) :=
  fun s h => ⟨.refl s.world, h⟩

theorem throw (f : Fault) : Confined alive own (MonadExcept.throw f : Locked α) :=
  fun s h => ⟨.refl s.world, h⟩

theorem bind {op : Locked α} {next : α → Locked β} (h : Confined alive own op)
    (hnext : ∀ a, Confined alive own (next a)) : Confined alive own (op >>= next) := by
  intro s hclosed
  apply (h s hclosed).bind
  intro a s' hleads
  apply (hnext a s' hleads.closed).mono
  · exact fun _ _ hnext => ⟨hleads.spares.trans hnext.spares, hnext.closed⟩
  · exact fun _ _ hnext => ⟨hleads.spares.trans hnext.spares, hnext.closed⟩

theorem map {op : Locked α} (f : α → β) (h : Confined alive own op) :
    Confined alive own (f <$> op) := by
  rw [map_eq_pure_bind]
  exact .bind h fun a => .pure _

theorem update {f : World → World} (hspares : ∀ w : World, w.Spares alive own (f w))
    (hslots : ∀ w, (f w).slots = w.slots) : Confined alive own (update f) := by
  intro s hclosed
  refine ⟨hspares s.world, hclosed.of_spares (hspares s.world) fun s' hs' => ?_⟩
  rw [slotAt, hslots]
  exact hclosed.targets s' hs'

theorem writeSlot {s : SlotId} (hs : own s) {content : Slot}
    (hcontent : ∀ c ∈ content.targets, alive c = true) :
    Confined alive own (Locked.update (·.writeSlot s content)) := by
  intro session hclosed
  refine ⟨.writeSlot _ hs content, hclosed.of_spares (.writeSlot _ hs content) fun s' hs' c hc => ?_⟩
  by_cases heq : s' = s
  · subst heq
    by_cases hlt : s' < session.world.slots.size
    · rw [slotAt_writeSlot_self hlt] at hc
      exact hcontent c hc
    · have hnone : (session.world.writeSlot s' content).slotAt s' = .many [] := by
        simp [World.writeSlot, World.slotAt, hlt]
      rw [hnone] at hc
      cases hc
  · rw [slotAt_writeSlot_of_ne heq] at hc
    exact hclosed.targets s' hs' c hc

theorem suspect (os : List ObjId) : Confined alive own (suspect os) :=
  fun s h => ⟨.refl s.world, h⟩

theorem note {e : Event} (h : e.Fair alive) : Confined alive own (note e) :=
  .update (fun w => .note w h) fun _ => rfl

theorem violate (cause : Violation) : Confined alive own (violate cause : Locked α) :=
  .bind (.note ⟨by simp [Event.marks], rfl⟩) fun _ => .throw _

theorem retain (o : ObjId) : Confined alive own (Locked.update (·.retain o)) :=
  .update (fun w => .modifyObject w o fun _ => rfl) fun _ => rfl

theorem modifyHeap (g : HeapId) {f : Heap → Heap} (hf : ∀ heap, (f heap).tenure = heap.tenure) :
    Confined alive own (Locked.update (·.modifyHeap g f)) :=
  .update (fun w => .modifyHeap w g hf) fun _ => rfl

/-- What is looked up is known of a closed world. -/
theorem look {f : World → α} {next : α → Locked β}
    (h : ∀ w : World, w.Closed alive own → Confined alive own (next (f w))) :
    Confined alive own (look f >>= next) :=
  fun s hclosed => h s.world hclosed s hclosed

/-- What a pass makes is known of a closed world. -/
theorem pass {make : World → Tallies → α} {left : α → Tallies} {next : α → Locked β}
    (h : ∀ (w : World) (ts : Tallies), w.Closed alive own → Confined alive own (next (make w ts))) :
    Confined alive own (pass make left >>= next) := by
  intro s hclosed
  have hretallied (ts : Tallies) : World.Closed alive own { s.world with tallies := ts } :=
    hclosed.of_spares (.retally _ _) hclosed.targets
  have hnext := h { s.world with tallies := #[] } s.world.tallies (hretallied #[])
    { s with world := { s.world with
      tallies := left (make { s.world with tallies := #[] } s.world.tallies) } } (hretallied _)
  rw [Ends.bind_iff, ends_pass]
  apply hnext.mono
  · exact fun _ _ hs => ⟨(Spares.retally _ _).trans hs.spares, hs.closed⟩
  · exact fun _ _ hs => ⟨(Spares.retally _ _).trans hs.spares, hs.closed⟩

theorem forM {l : List α} {f : α → Locked PUnit} (h : ∀ a ∈ l, Confined alive own (f a)) :
    Confined alive own (l.forM f) := by
  induction l with
  | nil => exact .pure _
  | cons a l ih =>
      refine .bind (h a List.mem_cons_self) fun _ => ih fun b hb => ?_
      exact h b (List.mem_cons_of_mem _ hb)

theorem mapM {l : List α} {f : α → Locked β} (h : ∀ a ∈ l, Confined alive own (f a)) :
    Confined alive own (l.mapM f) := by
  induction l with
  | nil => exact .pure _
  | cons a l ih =>
      rw [List.mapM_cons]
      refine .bind (h a List.mem_cons_self) fun _ => .bind (ih fun b hb => ?_) fun _ => .pure _
      exact h b (List.mem_cons_of_mem _ hb)

end Confined

/-! ## Passes and roots -/

/-- A pass only counts edges of objects that the stack leads to. -/
theorem forall_touched {edges : ObjId → List ObjId} {owns : ObjId → Bool} {r : RootId}
    {ts : Tallies} {stack : List ObjId} {P : ObjId → Prop}
    (hclosed : ∀ o, P o → ∀ c ∈ edges o, P c) (hstack : ∀ o ∈ stack, P o) :
    ∀ t ∈ (connectAll edges owns r ts stack).touches, P t.obj := by
  fun_induction connectAll edges owns r ts stack with
  | case1 => simp
  | case2 ts o rest h _ _ pass ih =>
      have ho := hstack o List.mem_cons_self
      have hrest : ∀ c ∈ (edges o).reverse ++ rest, P c := by
        intro c hc
        rcases List.mem_append.mp hc with hc | hc
        · exact hclosed o ho c (List.mem_reverse.mp hc)
        · exact hstack c (List.mem_cons_of_mem _ hc)
      intro t ht
      rcases List.mem_cons.mp ht with rfl | ht
      · exact ho
      · exact ih hrest t ht
  | case3 ts o rest h _ _ pass ih =>
      intro t ht
      rcases List.mem_cons.mp ht with rfl | ht
      · exact hstack o List.mem_cons_self
      · exact ih (fun c hc => hstack c (List.mem_cons_of_mem _ hc)) t ht
  | case4 => simp
  | case5 => simp

theorem connect_confined (h : HeapId) (r : RootId) {t : ObjId} (ht : alive t = true) :
    Confined alive own (connect h r t) := by
  refine .bind (.modifyHeap h fun _ => rfl) fun _ => .pass fun w ts hclosed => .bind ?_ fun _ => ?_
  · refine .update (fun w' => .report w' fun e he => ?_) fun _ => rfl
    obtain ⟨touch, htouch, rfl⟩ := List.mem_map.mp he
    have halive : alive touch.obj = true := by
      refine forall_touched (P := fun o => alive o = true) (fun o ho c hc => ?_) (fun o ho => ?_)
        touch htouch
      · exact hclosed.live_of_out ho hc
      · rwa [List.mem_singleton.mp ho]
    exact ⟨by simpa [Event.marks] using halive, rfl⟩
  · split
    next => exact .pure _
    next => exact .look fun _ _ => .violate _

theorem scan_confined (h : HeapId) (r : RootId) (os : List ObjId) :
    Confined alive own (scan h r os) := by
  refine .bind (.modifyHeap h fun _ => rfl) fun _ => .pass fun w ts _ => ?_
  split
  next => exact .pure _
  next =>
    refine .bind (.note ⟨by simp [Event.marks], rfl⟩) fun _ =>
      .bind (.modifyHeap h fun _ => rfl) fun _ => .bind (.suspect _) fun _ => ?_
    split
    next => exact .throw _
    next => exact .pure _

theorem disconnect_confined (h : HeapId) (r : RootId) (t : ObjId) :
    Confined alive own (disconnect h r t) := by
  refine .bind (.modifyHeap h fun _ => rfl) fun _ => .pass fun w ts _ => .bind ?_ fun _ =>
    .bind (.suspect _) fun _ => ?_
  · refine .update (fun w' => .report w' fun e he => ?_) fun _ => rfl
    obtain ⟨touch, -, rfl⟩ := List.mem_map.mp he
    split
    next => exact ⟨by simp [Event.marks], rfl⟩
    next => exact ⟨by simp [Event.marks], rfl⟩
  · split
    next => exact .look fun _ _ => .violate _
    next =>
      split
      next => exact .pure _
      next => exact scan_confined h r _

theorem stripRoot_confined (r : RootId) (t : ObjId) : Confined alive own (stripRoot r t) :=
  .pass fun _ _ _ => .suspect _

theorem releaseStrong_confined (o : ObjId) : Confined alive own (releaseStrong o) := by
  refine .look fun w _ => ?_
  split
  next => exact .pure _
  next =>
    split
    next => exact .throw _
    next =>
      refine .bind (.update (fun w => .modifyObject w o fun _ => rfl) fun _ => rfl) fun _ =>
        .bind (.note ⟨by simp [Event.marks], rfl⟩) fun _ => .look fun w _ => ?_
      split
      next => exact .suspect _
      next => exact .pure _

theorem acquireRoot_confined (h : HeapId) {t : ObjId} (ht : alive t = true) :
    Confined alive own (acquireRoot h t) := by
  refine .look fun w _ => ?_
  split
  next => exact .pure _
  next =>
    exact .bind (.modifyHeap h fun _ => rfl) fun _ =>
      .bind (.note ⟨by simpa [Event.marks] using ht, rfl⟩) fun _ =>
        .bind (connect_confined h _ ht) fun _ => .pure _

theorem newHandle_confined (h : HeapId) {t : ObjId} (ht : alive t = true) :
    Confined alive own (newHandle h t) :=
  .bind (.retain t) fun _ => .bind (acquireRoot_confined h ht) fun _ => .pure _

theorem dropRoot_confined (h : HeapId) (r : RootId) : Confined alive own (dropRoot h r) := by
  refine .look fun w _ => ?_
  split
  next => exact .pure _
  next =>
    split
    next => exact .violate _
    next =>
      exact .bind (.modifyHeap h fun _ => rfl) fun _ =>
        .bind (.note ⟨by simp [Event.marks], rfl⟩) fun _ =>
          .bind (stripRoot_confined r _) fun _ => releaseStrong_confined _

theorem retarget_confined (h : HeapId) (r : RootId) {t : ObjId} (ht : alive t = true) :
    Confined alive own (retarget h r t) := by
  refine .look fun w _ => ?_
  split
  next => exact .pure _
  next =>
    split
    next => exact .violate _
    next =>
      exact .bind (.modifyHeap h fun _ => rfl) fun _ =>
        .bind (.note ⟨by simpa [Event.marks] using ht, rfl⟩) fun _ =>
          .bind (connect_confined h r ht) fun _ =>
            .bind (disconnect_confined h r _) fun _ => releaseStrong_confined _

theorem attach_confined (h : HeapId) (roots : List RootId) {t : ObjId} (ht : alive t = true) :
    Confined alive own (attach h roots t) :=
  .forM fun r _ => connect_confined h r ht

theorem detach_confined (h : HeapId) (roots : List RootId) (t : ObjId) :
    Confined alive own (detach h roots t) :=
  .forM fun r _ => disconnect_confined h r t

theorem gain_confined (h : HeapId) (roots : List RootId) {t : ObjId} (ht : alive t = true) :
    Confined alive own (gain h roots t) :=
  .bind (.retain t) fun _ => attach_confined h roots ht

theorem lose_confined (h : HeapId) (roots : List RootId) (t : ObjId) :
    Confined alive own (lose h roots t) :=
  .bind (detach_confined h roots t) fun _ => releaseStrong_confined t

theorem verifySlot_confined (h : HeapId) (o : ObjId) (s : SlotId) :
    Confined alive own (verifySlot h o s) := by
  refine .look fun w _ => ?_
  split
  next => exact .look fun _ _ => .violate _
  next => exact .pure _

theorem enroll_confined (h : HeapId) {o : ObjId} (ho : alive o = true) (n : String) :
    Confined alive own (enroll h o n) :=
  .bind (.modifyHeap h fun _ => rfl) fun _ =>
    .bind (.note ⟨by simp [Event.marks], rfl⟩) fun _ => acquireRoot_confined h ho

end Locked

/-- An upgrade roots its target only if it is live. -/
theorem WeakRef.claim_confined {alive : ObjId → Bool} {own : SlotId → Prop} (h : HeapId)
    (o : ObjId) : Locked.Confined alive own (WeakRef.claim h o) := by
  refine .look fun w hclosed => ?_
  split
  next hlive =>
    rw [hclosed.isLive] at hlive
    exact .map some (Locked.newHandle_confined h hlive)
  next => exact .pure _

/-! ## Through a handle -/

namespace World.Closed

variable {alive : ObjId → Bool} {own : SlotId → Prop} {w : World} {s : SlotId}

theorem live_of_fieldAt (h : w.Closed alive own) (hs : own s) {o : ObjId}
    (ho : w.fieldAt s = some o) : alive o = true :=
  h.targets s hs o (mem_targets_of_fieldAt ho)

theorem live_of_itemsAt (h : w.Closed alive own) (hs : own s) {o : ObjId}
    (ho : o ∈ w.itemsAt s) : alive o = true :=
  h.targets s hs o (mem_targets_of_itemsAt ho)

end World.Closed

namespace Handle

open Locked

variable (a : Handle) {s : SlotId} {alive : ObjId → Bool} {own : SlotId → Prop} (hs : own s)

theorem rebind_confined {t : ObjId} (ht : alive t = true) : Confined alive own (a.rebind t) :=
  .bind (.retain t) fun _ => retarget_confined a.heap a.root ht

/-- The operations that move a reference out of a slot end alike. -/
theorem moveOut_confined {β : Type} (hs : own s) {content : Slot}
    (hcontent : ∀ c ∈ content.targets, alive c = true) (roots : List RootId) {o : ObjId}
    (ho : alive o = true) (f : RootId → β) :
    Confined alive own (do
      update (·.writeSlot s content)
      let r ← acquireRoot a.heap o
      detach a.heap roots o
      pure (f r)) :=
  .bind (.writeSlot hs hcontent) fun _ => .bind (acquireRoot_confined a.heap ho) fun _ =>
    .bind (detach_confined a.heap roots o) fun _ => .pure _

include hs

theorem storeField_confined {target : Option ObjId} (htarget : ∀ o ∈ target, alive o = true) :
    Confined alive own (a.storeField s target) := by
  refine .bind (verifySlot_confined _ _ s) fun _ => .look fun w _ => .bind ?_ fun _ =>
    .look fun w' _ => .bind (.writeSlot hs fun c hc => ?_) fun _ => ?_
  · cases target with
    | none => exact .pure _
    | some o => exact gain_confined a.heap _ (htarget o rfl)
  · exact htarget c (Option.mem_toList.mp hc)
  · cases w'.fieldAt s with
    | none => exact .pure _
    | some o => exact lose_confined a.heap _ o

theorem unloadField_confined : Confined alive own (a.unloadField s) := by
  refine .bind (verifySlot_confined _ _ s) fun _ => .look fun w _ => .look fun w' hclosed => ?_
  cases hfound : w'.fieldAt s with
  | none => exact .pure _
  | some o =>
      exact moveOut_confined a hs (by simp [Slot.targets]) _ (hclosed.live_of_fieldAt hs hfound) _

theorem readField_confined : Confined alive own (a.readField s) := by
  refine .look fun w hclosed => ?_
  cases hfound : w.fieldAt s with
  | none => exact .pure _
  | some o => exact .map some (newHandle_confined a.heap (hclosed.live_of_fieldAt hs hfound))

theorem readItem_confined (index : Nat) : Confined alive own (a.readItem s index) := by
  refine .look fun w hclosed => ?_
  cases hfound : (w.itemsAt s)[index]? with
  | none => exact .pure _
  | some o =>
      have ho := hclosed.live_of_itemsAt hs (List.mem_of_getElem? hfound)
      exact .map some (newHandle_confined a.heap ho)

theorem readItems_confined : Confined alive own (a.readItems s) :=
  .look fun _ hclosed => .mapM fun _ ho =>
    newHandle_confined a.heap (hclosed.live_of_itemsAt hs ho)

theorem enlist_confined (index : Option Nat) {o : ObjId} (ho : alive o = true) :
    Confined alive own (a.enlist s index o) := by
  refine .bind (verifySlot_confined _ _ s) fun _ => .look fun w _ => .look fun w' hclosed => ?_
  dsimp only
  split
  next => exact .throw _
  next =>
    refine .bind (.retain o) fun _ => .bind (.writeSlot hs fun c hc => ?_) fun _ =>
      attach_confined a.heap _ ho
    rcases List.eq_or_mem_of_mem_insertIdx hc with rfl | hc
    · exact ho
    · exact hclosed.live_of_itemsAt hs hc

theorem replace_confined (index : Nat) {o : ObjId} (ho : alive o = true) :
    Confined alive own (a.replace s index o) := by
  refine .bind (verifySlot_confined _ _ s) fun _ => .look fun w _ => .look fun w' hclosed => ?_
  cases (w'.itemsAt s)[index]? with
  | none => exact .throw _
  | some old =>
      refine .bind (.retain o) fun _ => .bind (.writeSlot hs fun c hc => ?_) fun _ =>
        .bind (attach_confined a.heap _ ho) fun _ => lose_confined a.heap _ old
      rcases List.mem_or_eq_of_mem_set hc with hc | rfl
      · exact hclosed.live_of_itemsAt hs hc
      · exact ho

theorem removeAll_confined : Confined alive own (a.removeAll s) :=
  .bind (verifySlot_confined _ _ s) fun _ => .look fun _ _ => .look fun _ _ =>
    .bind (.writeSlot hs (by simp [Slot.targets])) fun _ => .forM fun o _ => lose_confined a.heap _ o

theorem extract_confined (roots : List RootId) {items : List ObjId}
    (hitems : ∀ c ∈ items, alive c = true) (index : Nat) {o : ObjId} (ho : o ∈ items) :
    Confined alive own (a.extract s roots items index o) := by
  have hleft : ∀ c ∈ (Slot.many (items.eraseIdx index)).targets, alive c = true := by
    intro c hc
    exact hitems c (List.mem_of_mem_eraseIdx hc)
  exact moveOut_confined a hs hleft roots (hitems o ho) _

theorem removeAt_confined (index : Nat) : Confined alive own (a.removeAt s index) := by
  refine .bind (verifySlot_confined _ _ s) fun _ => .look fun w _ => .look fun w' hclosed => ?_
  cases hfound : (w'.itemsAt s)[index]? with
  | none => exact .throw _
  | some o =>
      exact extract_confined a hs _ (fun _ hc => hclosed.live_of_itemsAt hs hc) index
        (List.mem_of_getElem? hfound)

theorem removeLast_confined : Confined alive own (a.removeLast s) := by
  refine .bind (verifySlot_confined _ _ s) fun _ => .look fun w _ => .look fun w' hclosed => ?_
  cases hfound : (w'.itemsAt s).getLast? with
  | none => exact .pure _
  | some o =>
      exact .map some (extract_confined a hs _ (fun _ hc => hclosed.live_of_itemsAt hs hc) _
        (List.mem_of_getLast? hfound))

end Handle

end RootedHeap
