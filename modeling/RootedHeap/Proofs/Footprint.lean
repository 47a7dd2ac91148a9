import RootedHeap.Proofs.Borders
import RootedHeap.Proofs.Edits
import RootedHeap.Proofs.Garbage

/-! # The footprint of a write

A write to a field or a list makes a connect and a disconnect pass for each root of the owner, orphan
scans, and in the end a trial deletion. All of these follow edges from what the write replaces,
removes or newly stores. What is reached from there is closed under the edges, before the slot is
written and after it (`World.Traps.writeSlot`): so no pass leaves it (`Session.Local`), and everything
else is left as it was (`Call.write_alters`). Nothing is asked of the world for this but that
disconnecting follows no slot that connecting does not report.
-/

namespace RootedHeap

open World

/-! ## Regions -/

section Passes

variable {edges : ObjId → List ObjId} {owns : ObjId → Bool} {r : RootId} {ts : Tallies}
  {P : ObjId → Prop}

theorem connectAll_count_of_outside {stack : List ObjId} (hclosed : ∀ o, P o → ∀ c ∈ edges o, P c)
    (hstack : ∀ o ∈ stack, P o) {o : ObjId} (ho : ¬ P o) (r' : RootId) :
    (connectAll edges owns r ts stack).tallies.count o r' = ts.count o r' := by
  have hbump (ts : Tallies) {x : ObjId} (h : x < ts.size) (hx : P x) :
      Tallies.count (ts.set x (ts[x].bump r)) o r' = ts.count o r' := by
    rw [Tallies.count_set ts h, if_neg]
    rintro rfl
    exact ho hx
  fun_induction connectAll edges owns r ts stack with
  | case1 => rfl
  | case2 ts x rest h _ _ pass ih =>
      have hx := hstack x List.mem_cons_self
      refine (ih fun c hc => ?_).trans (hbump ts h hx)
      rcases List.mem_append.mp hc with hc | hc
      · exact hclosed x hx c (List.mem_reverse.mp hc)
      · exact hstack c (List.mem_cons_of_mem _ hc)
  | case3 ts x rest h _ _ pass ih =>
      have hrest : ∀ c ∈ rest, P c := fun c hc => hstack c (List.mem_cons_of_mem _ hc)
      exact (ih hrest).trans (hbump ts h (hstack x List.mem_cons_self))
  | case4 => rfl
  | case5 => rfl

theorem orphans_subset_lost {candidates : List ObjId} :
    (scanOrphans edges r candidates ts).orphans ⊆ (orphanTrial edges r candidates ts).lost := by
  rw [scanOrphans_eq]
  split
  next => exact List.nil_subset _
  next => exact List.Subset.refl _

end Passes

namespace World

/-- Neither half of a value leads from an object of `P` to any other object. -/
structure Traps (w : World) (P : ObjId → Prop) : Prop where
  out : ∀ o, P o → ∀ c ∈ w.out o, P c
  back : ∀ o, P o → ∀ c ∈ w.back o, P c

/-- The slots that the disconnecting half of a value reports are among those of the connecting
half. -/
def Retraces (w : World) : Prop :=
  ∀ o, (w.valueAt o).disconnectSlots ⊆ (w.valueAt o).connectSlots

variable {w : World} {P : ObjId → Prop}

theorem Retraces.traps (h : w.Retraces) (hout : ∀ o, P o → ∀ c ∈ w.out o, P c) : w.Traps P := by
  refine ⟨hout, fun o ho c hc => hout o ho c ?_⟩
  rw [back_eq, List.mem_flatMap] at hc
  obtain ⟨s, hs, hc⟩ := hc
  exact mem_out.mpr ⟨s, h o hs, hc⟩

/-- A region stays one when a slot is written, if the slot comes to own what it owned before or what
is in the region: a value of the region that reports the slot leads to nothing else. -/
theorem Traps.writeSlot (hretraces : w.Retraces) (h : w.Traps P) {slot : SlotId} {content : Slot}
    (hcontent : ∀ c ∈ content.targets, P c ∨ c ∈ (w.slotAt slot).targets) :
    (w.writeSlot slot content).Traps P := by
  have hretraces' : (w.writeSlot slot content).Retraces := hretraces
  refine hretraces'.traps fun o ho c hc => ?_
  obtain ⟨s, hs, hc⟩ := mem_out.mp hc
  rw [valueAt_writeSlot] at hs
  have hold {c : ObjId} (hc : c ∈ (w.slotAt s).targets) : P c :=
    h.out o ho c (mem_out.mpr ⟨s, hs, hc⟩)
  rcases mem_targets_writeSlot hc with hc | ⟨rfl, hnew⟩
  · exact hold hc
  · -- `o` reports the slot, so all that the slot owned was in the region
    exact (hcontent c hnew).elim id hold

end World

/-! ## Sessions that keep to a region -/

/-- A session that has come from `base` without changing a slot, a value or a state, and has touched
objects of `P` only. Its suspects are in `Q`. -/
structure Session.Local (base : World) (P Q : ObjId → Prop) (s : Session) : Prop where
  slots : s.world.slots = base.slots
  values : s.world.valueAt = base.valueAt
  states : s.world.stateAt = base.stateAt
  objects : ∀ o : ObjId, ¬ P o → s.world.objects[o]? = base.objects[o]?
  size : s.world.tallies.size = base.tallies.size
  counts : ∀ o, ¬ P o → ∀ r, s.world.tallies.count o r = base.tallies.count o r
  suspects : ∀ o ∈ s.unrooted, Q o

namespace Session.Local

variable {base : World} {P Q : ObjId → Prop} {s : Session}

theorem slotAt (h : s.Local base P Q) : s.world.slotAt = base.slotAt := by
  funext sl
  rw [World.slotAt, h.slots]
  rfl

theorem out (h : s.Local base P Q) : s.world.out = base.out := by
  funext o
  rw [out_eq, out_eq, h.values, h.slotAt]

theorem back (h : s.Local base P Q) : s.world.back = base.back := by
  funext o
  rw [back_eq, back_eq, h.values, h.slotAt]

theorem traps (h : s.Local base P Q) (htraps : base.Traps P) : s.world.Traps P := by
  constructor
  · rw [h.out]
    exact htraps.out
  · rw [h.back]
    exact htraps.back

theorem of_same {w : World} (h : s.Local base P Q) (hslots : w.slots = s.world.slots)
    (hobjects : w.objects = s.world.objects) (htallies : w.tallies = s.world.tallies) :
    Local base P Q { s with world := w } where
  slots := hslots.trans h.slots
  values := by
    rw [← h.values]
    funext o
    rw [valueAt, valueAt, hobjects]
  states := by
    rw [← h.states]
    funext o
    rw [stateAt, stateAt, hobjects]
  objects := fun o ho => by rw [hobjects, h.objects o ho]
  size := by rw [htallies, h.size]
  counts := fun o ho r => by rw [htallies, h.counts o ho]
  suspects := h.suspects

/-- An object of the region may be counted differently. -/
theorem modifyObject (h : s.Local base P Q) {o : ObjId} (ho : P o) {f : Object → Object}
    (hvalue : ∀ ob, (f ob).value = ob.value) (hstate : ∀ ob, (f ob).state = ob.state) :
    Local base P Q { s with world := s.world.modifyObject o f } where
  slots := h.slots
  values := by
    rw [← h.values]
    funext x
    unfold valueAt World.modifyObject
    rw [Array.getElem?_modify]
    cases s.world.objects[x]? with
    | none => simp
    | some ob =>
        by_cases hx : o = x
        · simp [hx, hvalue]
        · simp [hx]
  states := by
    rw [← h.states]
    funext x
    unfold stateAt World.modifyObject
    rw [Array.getElem?_modify]
    cases s.world.objects[x]? with
    | none => simp
    | some ob =>
        by_cases hx : o = x
        · simp [hx, hstate]
        · simp [hx]
  objects := by
    intro x hx
    have hne : o ≠ x := fun heq => hx (heq ▸ ho)
    rw [← h.objects x hx, World.modifyObject, Array.getElem?_modify, if_neg hne]
  size := h.size
  counts := h.counts
  suspects := h.suspects

/-- The tallies of the region may change. -/
theorem retally (h : s.Local base P Q) {ts : Tallies} (hsize : ts.size = s.world.tallies.size)
    (hcounts : ∀ o, ¬ P o → ∀ r, ts.count o r = s.world.tallies.count o r) :
    Local base P Q { s with world := { s.world with tallies := ts } } where
  slots := h.slots
  values := h.values
  states := h.states
  objects := h.objects
  size := hsize.trans h.size
  counts := fun o ho r => (hcounts o ho r).trans (h.counts o ho r)
  suspects := h.suspects

/-- The session goes on from a world in which a slot was written. -/
theorem writeSlot (h : s.Local base P Q) (slot : SlotId) (content : Slot) :
    Local (base.writeSlot slot content) P Q
      { s with world := s.world.writeSlot slot content } where
  slots := congrArg (·.setIfInBounds slot content) h.slots
  values := h.values
  states := h.states
  objects := h.objects
  size := h.size
  counts := h.counts
  suspects := h.suspects

end Session.Local

namespace Locked

variable {α β : Type} {base : World} {P Q : ObjId → Prop}

/-- If the operation succeeds, the session keeps to the region. -/
def Stays (base : World) (P Q : ObjId → Prop) (op : Locked α) : Prop :=
  ∀ s : Session, s.Local base P Q → Ends op s (fun _ s' => s'.Local base P Q) fun _ _ => True

namespace Stays

theorem pure (a : α) : Stays base P Q (Pure.pure a) := fun _ h => h

theorem throw (f : Fault) : Stays base P Q (MonadExcept.throw f : Locked α) := fun _ _ => trivial

theorem violate (cause : Violation) : Stays base P Q (Locked.violate cause : Locked α) :=
  fun _ _ => trivial

theorem bind {op : Locked α} {next : α → Locked β} (hop : Stays base P Q op)
    (hnext : ∀ a, Stays base P Q (next a)) : Stays base P Q (op >>= next) :=
  fun s h => (hop s h).bind fun a s' h' => hnext a s' h'

/-- What is looked up is what the session has come to. -/
theorem look {f : World → α} {next : α → Locked β}
    (hnext : ∀ s : Session, s.Local base P Q → Stays base P Q (next (f s.world))) :
    Stays base P Q (Locked.look f >>= next) :=
  fun s h => hnext s h s h

/-- A pass finds the region closed. -/
theorem pass {make : World → Tallies → α} {left : α → Tallies} {next : α → Locked β}
    (htraps : base.Traps P) (hsize : ∀ w ts, (left (make w ts)).size = ts.size)
    (hcounts : ∀ w : World, w.Traps P → ∀ ts o, ¬ P o → ∀ r,
      (left (make w ts)).count o r = ts.count o r)
    (hnext : ∀ w : World, w.Traps P → ∀ ts, Stays base P Q (next (make w ts))) :
    Stays base P Q (Locked.pass make left >>= next) := by
  intro s h
  have hfound : World.Traps { s.world with tallies := #[] } P :=
    ⟨(h.traps htraps).out, (h.traps htraps).back⟩
  rw [Ends.bind_iff, ends_pass]
  exact hnext _ hfound _ _ (h.retally (hsize _ _) (hcounts _ hfound _))

theorem update {f : World → World} (hslots : ∀ w, (f w).slots = w.slots)
    (hobjects : ∀ w, (f w).objects = w.objects) (htallies : ∀ w, (f w).tallies = w.tallies) :
    Stays base P Q (Locked.update f) :=
  fun s h => h.of_same (hslots s.world) (hobjects s.world) (htallies s.world)

theorem modifyHeap (g : HeapId) (f : Heap → Heap) :
    Stays base P Q (Locked.update (·.modifyHeap g f)) :=
  .update (fun _ => rfl) (fun _ => rfl) fun _ => rfl

theorem note (e : Event) : Stays base P Q (Locked.note e) :=
  .update (fun _ => rfl) (fun _ => rfl) fun _ => rfl

theorem report (events : World → List Event) :
    Stays base P Q (Locked.update fun w => { w with log := w.log ++ events w }) :=
  .update (fun _ => rfl) (fun _ => rfl) fun _ => rfl

theorem retain {o : ObjId} (ho : P o) : Stays base P Q (Locked.update (·.retain o)) :=
  fun _ h => h.modifyObject ho (fun _ => rfl) fun _ => rfl

theorem suspect {os : List ObjId} (hos : ∀ o ∈ os, Q o) :
    Stays base P Q (Locked.suspect os) := by
  intro s h
  refine { h with suspects := fun o ho => ?_ }
  rcases List.mem_append.mp ho with ho | ho
  · exact h.suspects o ho
  · exact hos o ho

theorem forM {l : List α} {f : α → Locked PUnit} (hf : ∀ a ∈ l, Stays base P Q (f a)) :
    Stays base P Q (l.forM f) := by
  induction l with
  | nil => exact .pure _
  | cons a l ih =>
      apply bind (hf a List.mem_cons_self)
      exact fun _ => ih fun b hb => hf b (List.mem_cons_of_mem _ hb)

end Stays

/-! ### Passes and references -/

section Passes

variable (h : HeapId) (r : RootId) {t : ObjId}

/-- A connect pass suspects nothing. -/
theorem connect_stays (htraps : base.Traps P) (ht : P t) : Stays base P Q (connect h r t) := by
  refine .bind (.modifyHeap h _) fun _ => .pass htraps (fun _ _ => connectAll_size) ?_ fun w _ ts =>
    .bind (.report _) fun _ => ?_
  · intro w hw ts o ho
    apply connectAll_count_of_outside hw.out _ ho
    exact fun c hc => List.mem_singleton.mp hc ▸ ht
  · split
    next => exact .pure _
    next => exact .look fun _ _ => .violate _

theorem scan_stays (htraps : base.Traps P) {os : List ObjId} (hos : ∀ o ∈ os, P o) :
    Stays base P P (scan h r os) := by
  refine .bind (.modifyHeap h _) fun _ => .pass htraps (fun _ _ => scanOrphans_size os) ?_
    fun w hw ts => ?_
  · intro w hw ts o ho
    exact scanOrphans_count_of_outside hw.out hos ho
  · split
    next => exact .pure _
    next =>
      refine .bind (.note _) fun _ => .bind (.modifyHeap h _) fun _ => .bind (.suspect ?_) fun _ => ?_
      · intro o ho
        have horphan := orphans_subset_lost (List.mem_of_mem_filter ho)
        exact forall_mem_lost hw.out hos o horphan
      · split
        next => exact .throw _
        next => exact .pure _

theorem disconnect_stays (htraps : base.Traps P) (ht : P t) : Stays base P P (disconnect h r t) := by
  have hstack : ∀ o ∈ [t], P o := fun o ho => List.mem_singleton.mp ho ▸ ht
  refine .bind (.modifyHeap h _) fun _ => .pass htraps (fun _ _ => disconnectAll_size) ?_
    fun w hw ts => .bind (.report _) fun _ => .bind (.suspect ?_) fun _ => ?_
  · intro w hw ts o ho
    exact disconnectAll_count_of_outside hw.back hstack ho
  · intro o ho
    obtain ⟨touch, htouch, rfl⟩ := List.mem_map.mp (List.mem_of_mem_filter ho)
    exact forall_lowered hw.back hstack touch (List.mem_of_mem_filter htouch)
  · split
    next => exact .look fun _ _ => .violate _
    next =>
      split
      next => exact .pure _
      next =>
        apply scan_stays h r htraps
        intro o ho
        obtain ⟨touch, htouch, rfl⟩ := List.mem_map.mp ho
        exact forall_lowered hw.back hstack touch (List.mem_of_mem_filter htouch)

theorem releaseStrong_stays (ht : P t) : Stays base P P (releaseStrong t) := by
  refine .look fun s _ => ?_
  split
  next => exact .pure _
  next =>
    split
    next => exact .throw _
    next =>
      refine .bind ?_ fun _ => .bind (.note _) fun _ => .look fun _ _ => ?_
      · exact fun _ hs => hs.modifyObject ht (fun _ => rfl) fun _ => rfl
      · split
        next => exact .suspect fun o ho => List.mem_singleton.mp ho ▸ ht
        next => exact .pure _

theorem acquireRoot_stays (htraps : base.Traps P) (ht : P t) :
    Stays base P Q (acquireRoot h t) := by
  refine .look fun s _ => ?_
  split
  next => exact .pure _
  next =>
    exact .bind (.modifyHeap h _) fun _ => .bind (.note _) fun _ =>
      .bind (connect_stays h _ htraps ht) fun _ => .pure _

variable (roots : List RootId)

theorem attach_stays (htraps : base.Traps P) (ht : P t) : Stays base P Q (attach h roots t) :=
  .forM fun r _ => connect_stays h r htraps ht

theorem detach_stays (htraps : base.Traps P) (ht : P t) : Stays base P P (detach h roots t) :=
  .forM fun r _ => disconnect_stays h r htraps ht

theorem gain_stays (htraps : base.Traps P) (ht : P t) : Stays base P Q (gain h roots t) :=
  .bind (.retain ht) fun _ => attach_stays h roots htraps ht

theorem lose_stays (htraps : base.Traps P) (ht : P t) : Stays base P P (lose h roots t) :=
  .bind (detach_stays h roots htraps ht) fun _ => releaseStrong_stays ht

theorem verifySlot_stays (o : ObjId) (slot : SlotId) : Stays base P Q (verifySlot h o slot) := by
  refine .look fun s _ => ?_
  split
  next => exact .look fun _ _ => .violate _
  next => exact .pure _

end Passes

/-! ### Operations that write a slot -/

/-- If the operation succeeds, it wrote `slot`, or left it as it was, and kept to the region, which is
still one. -/
def Rewrites (base : World) (slot : SlotId) (P Q : ObjId → Prop) (op : Locked α) : Prop :=
  ∀ s : Session, s.Local base P Q → Ends op s (fun _ s' => ∃ content,
    (base.writeSlot slot content).Traps P ∧ s'.Local (base.writeSlot slot content) P Q)
    fun _ _ => True

namespace Rewrites

variable {slot : SlotId}

theorem of_stays (htraps : base.Traps P) {op : Locked α} (hop : Stays base P Q op) :
    Rewrites base slot P Q op := by
  intro s h
  refine (hop s h).mono (fun a s' h' => ⟨base.slotAt slot, ?_⟩) fun _ _ _ => trivial
  rw [World.writeSlot_self]
  exact ⟨htraps, h'⟩

theorem bind {op : Locked α} {next : α → Locked β} (hop : Stays base P Q op)
    (hnext : ∀ a, Rewrites base slot P Q (next a)) : Rewrites base slot P Q (op >>= next) :=
  fun s h => (hop s h).bind fun a s' h' => hnext a s' h'

theorem look {f : World → α} {next : α → Locked β}
    (hnext : ∀ s : Session, s.Local base P Q → Rewrites base slot P Q (next (f s.world))) :
    Rewrites base slot P Q (Locked.look f >>= next) :=
  fun s h => hnext s h s h

theorem write {content : Slot} {next : Unit → Locked β}
    (htraps : (base.writeSlot slot content).Traps P)
    (hnext : Stays (base.writeSlot slot content) P Q (next ())) :
    Rewrites base slot P Q (Locked.update (·.writeSlot slot content) >>= next) := by
  intro s h
  rw [Ends.bind_iff, ends_update]
  exact (hnext _ (h.writeSlot slot content)).mono (fun _ _ h' => ⟨content, htraps, h'⟩)
    fun _ _ _ => trivial

theorem map {op : Locked α} (f : α → β) (hop : Rewrites base slot P Q op) :
    Rewrites base slot P Q (f <$> op) :=
  fun s h => Ends.map_iff.mpr (hop s h)

theorem throw (f : Fault) : Rewrites base slot P Q (MonadExcept.throw f : Locked α) :=
  fun _ _ => trivial

end Rewrites

end Locked

/-! ## Through a handle -/

namespace Session.Local

variable {base : World} {P Q : ObjId → Prop} {s : Session}

theorem fieldAt (h : s.Local base P Q) (slot : SlotId) :
    s.world.fieldAt slot = base.fieldAt slot := by
  unfold World.fieldAt
  rw [h.slotAt]

theorem itemsAt (h : s.Local base P Q) (slot : SlotId) :
    s.world.itemsAt slot = base.itemsAt slot := by
  unfold World.itemsAt
  rw [h.slotAt]

end Session.Local

namespace Handle

open Locked

variable {base : World} {P Q : ObjId → Prop} {a : Handle} {slot : SlotId} {o : ObjId}
  (hretraces : base.Retraces) (htraps : base.Traps P)

include hretraces htraps

theorem storeField_rewrites {target : Option ObjId} (htarget : ∀ o ∈ target, P o)
    (hold : ∀ o ∈ base.fieldAt slot, P o) : Rewrites base slot P P (a.storeField slot target) := by
  have hafter : (base.writeSlot slot (.one target)).Traps P :=
    htraps.writeSlot hretraces fun c hc => .inl (htarget c (Option.mem_toList.mp hc))
  refine .bind (verifySlot_stays _ _ _) fun _ => .look fun s _ => .bind ?_ fun _ =>
    .look fun s' hs' => .write hafter ?_
  · cases target with
    | none => exact .pure _
    | some o => exact gain_stays a.heap _ htraps (htarget o rfl)
  · rw [hs'.fieldAt]
    cases hfound : base.fieldAt slot with
    | none => exact .pure _
    | some o => exact lose_stays a.heap _ hafter (hold o hfound)

/-- The operations that move a reference out of a slot end alike. -/
theorem moveOut_rewrites {α : Type} {content : Slot}
    (hcontent : content.targets ⊆ (base.slotAt slot).targets) (ho : P o) (roots : List RootId)
    (f : RootId → α) :
    Rewrites base slot P P (do
      update (·.writeSlot slot content)
      let r ← acquireRoot a.heap o
      detach a.heap roots o
      Pure.pure (f r)) := by
  have hafter : (base.writeSlot slot content).Traps P :=
    htraps.writeSlot hretraces fun c hc => .inr (hcontent hc)
  exact .write hafter (.bind (acquireRoot_stays a.heap hafter ho) fun _ =>
    .bind (detach_stays a.heap roots hafter ho) fun _ => .pure _)

theorem unloadField_rewrites (hold : ∀ o ∈ base.fieldAt slot, P o) :
    Rewrites base slot P P (a.unloadField slot) := by
  refine .bind (verifySlot_stays _ _ _) fun _ => .look fun _ _ => .look fun s hs => ?_
  rw [hs.fieldAt]
  cases hfound : base.fieldAt slot with
  | none => exact .of_stays htraps (.pure _)
  | some o =>
      exact moveOut_rewrites hretraces htraps (List.nil_subset _) (hold o hfound) _ _

/-- Nothing is suspected when something is put into a list. -/
theorem enlist_rewrites (index : Option Nat) (ho : P o) :
    Rewrites base slot P Q (a.enlist slot index o) := by
  refine .bind (verifySlot_stays _ _ _) fun _ => .look fun _ _ => .look fun s hs => ?_
  rw [hs.itemsAt]
  dsimp only
  split
  next => exact .throw _
  next =>
    refine .bind (.retain ho) fun _ => ?_
    have hafter : (base.writeSlot slot (.many ((base.itemsAt slot).insertIdx
        (index.getD (base.itemsAt slot).length) o))).Traps P := by
      apply htraps.writeSlot hretraces
      intro c hc
      rcases List.eq_or_mem_of_mem_insertIdx hc with rfl | hc
      · exact .inl ho
      · exact .inr (World.mem_targets_of_itemsAt hc)
    exact .write hafter (attach_stays a.heap _ hafter ho)

theorem replace_rewrites (index : Nat) (ho : P o) (hold : ∀ o ∈ (base.itemsAt slot)[index]?, P o) :
    Rewrites base slot P P (a.replace slot index o) := by
  refine .bind (verifySlot_stays _ _ _) fun _ => .look fun _ _ => .look fun s hs => ?_
  rw [hs.itemsAt]
  cases hfound : (base.itemsAt slot)[index]? with
  | none => exact .throw _
  | some old =>
      refine .bind (.retain ho) fun _ => ?_
      have hafter : (base.writeSlot slot (.many ((base.itemsAt slot).set index o))).Traps P := by
        apply htraps.writeSlot hretraces
        intro c hc
        rcases List.mem_or_eq_of_mem_set hc with hc | rfl
        · exact .inr (World.mem_targets_of_itemsAt hc)
        · exact .inl ho
      exact .write hafter (.bind (attach_stays a.heap _ hafter ho) fun _ =>
        lose_stays a.heap _ hafter (hold old hfound))

theorem extract_rewrites (roots : List RootId) (index : Nat) (ho : P o) :
    Rewrites base slot P P (a.extract slot roots (base.itemsAt slot) index o) := by
  have hleft : (Slot.many ((base.itemsAt slot).eraseIdx index)).targets ⊆
      (base.slotAt slot).targets :=
    fun c hc => World.mem_targets_of_itemsAt (List.mem_of_mem_eraseIdx hc)
  exact moveOut_rewrites hretraces htraps hleft ho roots _

theorem removeAt_rewrites (index : Nat) (hold : ∀ o ∈ (base.itemsAt slot)[index]?, P o) :
    Rewrites base slot P P (a.removeAt slot index) := by
  refine .bind (verifySlot_stays _ _ _) fun _ => .look fun _ _ => .look fun s hs => ?_
  rw [hs.itemsAt]
  cases hfound : (base.itemsAt slot)[index]? with
  | none => exact .throw _
  | some o => exact extract_rewrites hretraces htraps _ index (hold o hfound)

theorem removeLast_rewrites (hold : ∀ o ∈ (base.itemsAt slot).getLast?, P o) :
    Rewrites base slot P P (a.removeLast slot) := by
  refine .bind (verifySlot_stays _ _ _) fun _ => .look fun _ _ => .look fun s hs => ?_
  rw [hs.itemsAt]
  cases hfound : (base.itemsAt slot).getLast? with
  | none => exact .of_stays htraps (.pure _)
  | some o => exact .map some (extract_rewrites hretraces htraps _ _ (hold o hfound))

theorem removeAll_rewrites (hold : ∀ o ∈ base.itemsAt slot, P o) :
    Rewrites base slot P P (a.removeAll slot) := by
  refine .bind (verifySlot_stays _ _ _) fun _ => .look fun _ _ => .look fun s hs => ?_
  rw [hs.itemsAt]
  have hafter : (base.writeSlot slot (.many [])).Traps P :=
    htraps.writeSlot hretraces fun c hc => absurd hc List.not_mem_nil
  exact .write hafter (.forM fun o ho => lose_stays a.heap _ hafter (hold o ho))

end Handle

/-! ## Calls -/

theorem Tallies.getElem?_eq_of_count {ts ts' : Tallies} (hsize : ts'.size = ts.size) {o : ObjId}
    (h : ∀ r, ts'.count o r = ts.count o r) : ts'[o]? = ts[o]? := by
  by_cases ho : o < ts.size
  · have ho' : o < ts'.size := hsize ▸ ho
    rw [Array.getElem?_eq_getElem ho, Array.getElem?_eq_getElem ho']
    refine congrArg some (Tally.ext_count fun r => ?_)
    have := h r
    rwa [Tallies.count_getElem ts ho, Tallies.count_getElem ts' ho'] at this
  · rw [Array.getElem?_eq_none (Nat.le_of_not_lt ho),
      Array.getElem?_eq_none (hsize ▸ Nat.le_of_not_lt ho)]

/-- `w'` differs from `w` in the content of `slot`, and in objects of `P`. No value differs, and a
state only where a live object was chosen for collection. -/
structure World.Alters (w : World) (slot : SlotId) (P : ObjId → Prop) (w' : World) : Prop where
  slots : ∀ s, s ≠ slot → w'.slots[s]? = w.slots[s]?
  values : w'.valueAt = w.valueAt
  objects : ∀ o : ObjId, ¬ P o → w'.objects[o]? = w.objects[o]?
  tallies : ∀ o : ObjId, ¬ P o → w'.tallies[o]? = w.tallies[o]?
  states : ∀ o, w'.stateAt o ≠ w.stateAt o →
    P o ∧ w.isLive o = true ∧ w'.stateAt o = some .collecting

section Calls

variable {base w w' : World} {slot : SlotId} {P Q : ObjId → Prop}

theorem World.Condemns.valueAt {h : HeapId} {dead : List ObjId} (hcondemns : w.Condemns h dead w') :
    w'.valueAt = w.valueAt := by
  funext o
  unfold World.valueAt
  rw [hcondemns.object]
  cases w.objects[o]? with
  | none => rfl
  | some ob =>
      simp only [Option.map_some]
      split <;> rfl

/-- What is collected is of the region, and nothing is without suspects. -/
theorem Session.Local.reclaim {s : Session} (h : s.Local base P Q) (htraps : base.Traps P)
    (hsub : ∀ o, Q o → P o) (g : HeapId) :
    Ends (RootedHeap.reclaim g) s
      (fun dead s' => s.world.Condemns g dead s'.world ∧ (∀ o ∈ dead, P o) ∧
        ((∀ o, ¬ Q o) → dead = [])) fun _ _ => True := by
  have hexposed : ∀ o, s.world.Exposed s.unrooted o → P o ∧ ∃ u, Q u := by
    rintro o ⟨u, hu, -, hreach⟩
    have hQ := h.suspects u hu
    refine ⟨hreach.stays (fun p hp c hc => ?_) (hsub u hQ), u, hQ⟩
    exact (h.traps htraps).out p hp c (List.mem_of_mem_filter hc)
  refine ((reclaim_condemns g s).and (reclaim_lost g s)).mono ?_ fun _ _ _ => trivial
  rintro _ s' ⟨hcondemns, rfl⟩
  have hlost {o : ObjId} (ho : o ∈ (s.world.garbage s.unrooted).lost) :=
    hexposed o (mem_garbage_order_iff.mp (mem_garbage_lost.mp ho).1)
  refine ⟨hcondemns, fun o ho => (hlost ho).1, fun hnone => ?_⟩
  refine List.eq_nil_iff_forall_not_mem.mpr fun o ho => ?_
  obtain ⟨u, hu⟩ := (hlost ho).2
  exact hnone u hu

/-- A session that kept to a region keeps to it as objects are chosen for collection. -/
theorem Session.Local.alters {s : Session} {content : Slot} {g : HeapId} {dead : List ObjId}
    (h : s.Local (base.writeSlot slot content) P Q) (hcondemns : s.world.Condemns g dead w')
    (hdead : ∀ o ∈ dead, P o) : base.Alters slot P w' where
  slots := by
    intro sl hsl
    rw [hcondemns.slots, h.slots, World.writeSlot, Array.getElem?_setIfInBounds_ne (Ne.symm hsl)]
  values := hcondemns.valueAt.trans h.values
  objects := by
    intro o ho
    have hspared : o ∉ dead := fun hmem => ho (hdead o hmem)
    rw [hcondemns.object, h.objects o ho]
    simp [hspared, World.writeSlot]
  tallies := by
    intro o ho
    rw [hcondemns.tallies]
    exact Tallies.getElem?_eq_of_count h.size (h.counts o ho)
  states := by
    intro o hne
    have hbefore : s.world.stateAt o = base.stateAt o := congrFun h.states o
    rw [hcondemns.stateAt, hbefore] at hne ⊢
    by_cases ho : o ∈ dead
    · have hlive := isLive_iff_stateAt.mp (hcondemns.live o ho)
      rw [hbefore] at hlive
      simp [hlive, ho, hdead o ho, isLive_iff_stateAt]
    · simp [ho] at hne

/-- A call that writes a slot under the lock, and nothing else. -/
theorem Call.session_alters {α : Type} {h : HeapId} {op : Locked α} {give : α → Receipt}
    (hop : op.Rewrites w slot P Q) (hsub : ∀ o, Q o → P o) :
    Ends (Call.session h op give) w
      (fun _ w' => w.Alters slot P w' ∧ ((∀ o, ¬ Q o) → w'.stateAt = w.stateAt))
      fun _ _ => True := by
  have hstart : Session.Local w P Q ⟨w, []⟩ :=
    ⟨rfl, rfl, rfl, fun _ _ => rfl, rfl, fun _ _ _ => rfl, by simp⟩
  have hlocked : Ends (locked h op) w
      (fun _ w' => w.Alters slot P w' ∧ ((∀ o, ¬ Q o) → w'.stateAt = w.stateAt))
      fun _ _ => True := by
    apply Ends.locked (hop _ hstart)
    rintro a s ⟨content, htraps, hlocal⟩
    apply (hlocal.reclaim htraps hsub h).mono _ fun _ _ => id
    rintro dead s' ⟨hcondemns, hdead, hnone⟩
    refine ⟨hlocal.alters hcondemns hdead, fun hQ => ?_⟩
    have hstates : s.world.stateAt = w.stateAt := hlocal.states
    funext o
    rw [hcondemns.stateAt, hnone hQ, hstates]
    simp
  exact hlocked.bind fun _ _ h' => h'

end Calls

namespace Call

/-- The slot that a call writes. -/
def written : Call → Option SlotId
  | setField _ s _ | takeField _ s | pushItem _ s _ | insertItem _ s _ _ | setItem _ s _ _
  | removeItem _ s _ | popItem _ s | clearItems _ s => some s
  | _ => none

/-- What a write would replace, remove or newly store. -/
def concerned (w : World) : Call → List ObjId
  | setField _ s target => (w.fieldAt s).toList ++ target.toList.map (·.obj)
  | takeField _ s => (w.fieldAt s).toList
  | pushItem _ _ item | insertItem _ _ _ item => [item.obj]
  | setItem _ s index item => (w.itemsAt s)[index]?.toList ++ [item.obj]
  | removeItem _ s index => (w.itemsAt s)[index]?.toList
  | popItem _ s => (w.itemsAt s).getLast?.toList
  | clearItems _ s => w.itemsAt s
  | _ => []

/-- Whether a call puts something into a list and takes nothing out. -/
def inserts : Call → Bool
  | pushItem .. | insertItem .. => true
  | _ => false

/-- What a write would replace, remove or newly store leads to `o`. -/
def Touches (w : World) (call : Call) (o : ObjId) : Prop :=
  ∃ t ∈ call.concerned w, Reach w.out t o

/-- If the operation succeeds, it alters `slot` and what `call` touches, and no state if `call` only
puts something into a list. -/
def Contains (call : Call) (w : World) (slot : SlotId) (op : Op (Receipt × List Task)) : Prop :=
  Ends op w (fun _ w' => w.Alters slot (call.Touches w) w' ∧
    (call.inserts = true → w'.stateAt = w.stateAt)) fun _ _ => True

section Contains

variable {call : Call} {slot : SlotId} {w : World} {α : Type} {h : HeapId} {op : Locked α}
  {give : α → Receipt}

theorem Contains.of_session (hop : op.Rewrites w slot (call.Touches w) (call.Touches w))
    (hnot : call.inserts = false) : call.Contains w slot (session h op give) := by
  refine (session_alters hop fun _ => id).mono (fun _ _ h' => ⟨h'.1, ?_⟩) fun _ _ _ => trivial
  simp [hnot]

theorem Contains.of_inserting (hop : op.Rewrites w slot (call.Touches w) fun _ => False) :
    call.Contains w slot (session h op give) :=
  (session_alters hop fun _ => False.elim).mono
    (fun _ _ h' => ⟨h'.1, fun _ => h'.2 fun _ => id⟩) fun _ _ _ => trivial

theorem Contains.refuse (a : Handle) (breach : Breach) :
    call.Contains w slot (refuse a breach) := trivial

theorem start_contains (hwritten : call.written = some slot) (hretraces : w.Retraces) :
    call.Contains w slot call.start := by
  -- what is reached is closed under edges, so it is a region to begin with
  have htraps : w.Traps (call.Touches w) := by
    apply hretraces.traps
    rintro o ⟨t, ht, hreach⟩ c hc
    exact ⟨t, ht, hreach.tail hc⟩
  have hconcerned {t : ObjId} (ht : t ∈ call.concerned w) : call.Touches w t := ⟨t, ht, .refl⟩
  cases call with
  | setField a s target =>
      cases hwritten
      rw [start]
      split
      next =>
        refine .of_session (Handle.storeField_rewrites hretraces htraps (fun o ho => ?_) fun o ho => ?_)
          rfl
        · obtain ⟨b, hb, rfl⟩ := Option.mem_map.mp ho
          apply hconcerned
          exact List.mem_append_right _ (List.mem_map_of_mem (Option.mem_toList.mpr hb))
        · exact hconcerned (List.mem_append_left _ (Option.mem_toList.mpr ho))
      next => exact .refuse a _
  | takeField a s =>
      cases hwritten
      rw [start]
      exact .of_session (Handle.unloadField_rewrites hretraces htraps fun o ho =>
        hconcerned (Option.mem_toList.mpr ho)) rfl
  | pushItem a s item =>
      cases hwritten
      rw [start]
      split
      next =>
        exact .of_inserting (Handle.enlist_rewrites hretraces htraps none
          (hconcerned (List.mem_singleton_self item.obj)))
      next => exact .refuse a _
  | insertItem a s index item =>
      cases hwritten
      rw [start]
      split
      next =>
        exact .of_inserting (Handle.enlist_rewrites hretraces htraps (some index)
          (hconcerned (List.mem_singleton_self item.obj)))
      next => exact .refuse a _
  | setItem a s index item =>
      cases hwritten
      rw [start]
      split
      next =>
        refine .of_session (Handle.replace_rewrites hretraces htraps index ?_ fun o ho => ?_) rfl
        · exact hconcerned (List.mem_append_right _ (List.mem_singleton_self item.obj))
        · exact hconcerned (List.mem_append_left _ (Option.mem_toList.mpr ho))
      next => exact .refuse a _
  | removeItem a s index =>
      cases hwritten
      rw [start]
      exact .of_session (Handle.removeAt_rewrites hretraces htraps index fun o ho =>
        hconcerned (Option.mem_toList.mpr ho)) rfl
  | popItem a s =>
      cases hwritten
      rw [start]
      exact .of_session (Handle.removeLast_rewrites hretraces htraps fun o ho =>
        hconcerned (Option.mem_toList.mpr ho)) rfl
  | clearItems a s =>
      cases hwritten
      rw [start]
      exact .of_session (Handle.removeAll_rewrites hretraces htraps fun o ho => hconcerned ho) rfl
  | createHeap | shareHeap | dropHeap | alloc | clone | drop | assign | getField | getItem | items
  | downgrade | cloneWeak | dropWeak | upgrade | newField | newList | dropSlot => cases hwritten

end Contains

/-- A write to a field or a list changes the content of the selected slot, and apart from that only
tallies and objects that the replaced, removed and newly stored ones lead to, as the graph was before.
It chooses no others for collection, and none at all if it only puts something into a list. -/
theorem write_alters {call : Call} {slot : SlotId} {w w' : World} {r : Receipt × List Task}
    (hwritten : call.written = some slot)
    (hretraces : ∀ o, (w.valueAt o).disconnectSlots ⊆ (w.valueAt o).connectSlots)
    (hstart : call.start w = .ok r w') :
    w.Alters slot (call.Touches w) w' ∧ (call.inserts = true → w'.stateAt = w.stateAt) :=
  (start_contains hwritten hretraces).of_ok hstart

end Call

/-- An owner whose field leads to a cycle of two objects, and another rooted object. -/
def ringed : World where
  heaps := #[{ config := {}, live := 4 }]
  objects := #[{ heap := 0, typeName := "owner", value := .slot 0 },
    { heap := 0, typeName := "node", value := .slot 1, strong := 2 },
    { heap := 0, typeName := "node", value := .slot 2 },
    { heap := 0, typeName := "leaf", value := .plain }]
  tallies := #[Tally.empty.bump 1, (Tally.empty.bump 1).bump 1, Tally.empty.bump 1,
    Tally.empty.bump 2]
  slots := #[.one (some 1), .one (some 2), .one (some 1)]

theorem ringed_retraces (o : ObjId) :
    (ringed.valueAt o).disconnectSlots ⊆ (ringed.valueAt o).connectSlots := by
  have hsmall : ∀ o < 4,
      (ringed.valueAt o).disconnectSlots ⊆ (ringed.valueAt o).connectSlots := by decide
  by_cases ho : o < 4
  · exact hsmall o ho
  · obtain ⟨k, rfl⟩ := Nat.exists_eq_add_of_le' (Nat.le_of_not_lt ho)
    exact List.nil_subset _

/-- No edge leads to the owner. -/
theorem ringed_notMem_out (o : ObjId) : 0 ∉ ringed.out o := by
  have hsmall : ∀ o < 4, 0 ∉ ringed.out o := by decide
  by_cases ho : o < 4
  · exact hsmall o ho
  · obtain ⟨k, rfl⟩ := Nat.exists_eq_add_of_le' (Nat.le_of_not_lt ho)
    exact List.not_mem_nil

/-- Pointing the field at the other object collects the cycle and does not touch the owner. -/
theorem ringed_setField : ∃ r w',
    (Call.setField ⟨0, 1, 0⟩ 0 (some ⟨3, 2, 0⟩)).start ringed = .ok r w' ∧
      w'.slots[1]? = ringed.slots[1]? ∧ w'.objects[0]? = ringed.objects[0]? ∧
        w'.tallies[0]? = ringed.tallies[0]? ∧ w'.stateAt 1 = some .collecting := by
  have hcollects : Ends (Call.setField ⟨0, 1, 0⟩ 0 (some ⟨3, 2, 0⟩)).start ringed
      (fun _ w' => w'.stateAt 1 = some .collecting) fun _ _ => False := by cbv
  have howner : ¬ (Call.setField ⟨0, 1, 0⟩ 0 (some ⟨3, 2, 0⟩)).Touches ringed 0 := by
    rintro ⟨t, ht, hreach⟩
    cases hreach with
    | refl => exact absurd ht (by decide)
    | tail _ hedge => exact ringed_notMem_out _ hedge
  obtain ⟨r, w', hstart, hcollected⟩ := hcollects.exists_ok
  obtain ⟨halters, -⟩ := Call.write_alters rfl ringed_retraces hstart
  exact ⟨r, w', hstart, halters.slots 1 (by decide), halters.objects 0 howner,
    halters.tallies 0 howner, hcollected⟩

end RootedHeap
