import RootedHeap.Proofs.Bookkeeping

/-! # What a session does to other heaps

A connect pass asks who owns an object before it counts an edge into it; the other passes ask
nothing and follow what there is. Where the objects of a heap only lead to objects of that heap, none
of its passes leaves it. `World.Heeds` says of a step that it keeps to one heap: it changes tallies
of that heap only, and stores and points at objects of that heap only, in slots and roots of its own.
-/

namespace RootedHeap

/-- The objects whose tally an event reports to have changed. -/
def Event.tallied : Event → List ObjId
  | .tallyBumped o _ _ | .tagRemoved o _ | .tallyDropped o _ _ => [o]
  | .creatingHeap _ | .allocated .. | .orphansFound .. | .rootAcquired .. | .rootReleased ..
  | .rootRetargeted .. | .strongReleased .. | .stillHeld _ | .collected .. | .leaked ..
  | .heapDropped .. | .violated _ => []

/-! ## Passes -/

section Passes

variable {edges : ObjId → List ObjId} {owns : ObjId → Bool} {r : RootId} {ts : Tallies}
  {stack : List ObjId} {P : ObjId → Prop}

/-- No edge is counted into an object of another heap. -/
theorem owns_of_touched :
    ∀ t ∈ (connectAll edges owns r ts stack).touches, owns t.obj = true := by
  fun_induction connectAll edges owns r ts stack with
  | case1 => simp
  | case2 ts o rest h hown _ pass ih =>
      intro t ht
      rcases List.mem_cons.mp ht with rfl | ht
      · exact hown
      · exact ih t ht
  | case3 ts o rest h hown _ pass ih =>
      intro t ht
      rcases List.mem_cons.mp ht with rfl | ht
      · exact hown
      · exact ih t ht
  | case4 => simp
  | case5 => simp

theorem connectAll_count_of_foreign {o : ObjId} (ho : owns o = false) (r' : RootId) :
    (connectAll edges owns r ts stack).tallies.count o r' = ts.count o r' := by
  have hbump (ts : Tallies) {x : ObjId} (h : x < ts.size) (hx : owns x = true) :
      Tallies.count (ts.set x (ts[x].bump r)) o r' = ts.count o r' := by
    rw [Tallies.count_set ts h, if_neg]
    rintro rfl
    rw [hx] at ho
    cases ho
  fun_induction connectAll edges owns r ts stack with
  | case1 => rfl
  | case2 ts x rest h hx _ pass ih => exact ih.trans (hbump ts h hx)
  | case3 ts x rest h hx _ pass ih => exact ih.trans (hbump ts h hx)
  | case4 => rfl
  | case5 => rfl

/-- A cascade stays in whatever its stack is in and no edge leaves. -/
theorem forall_lowered (hclosed : ∀ o, P o → ∀ c ∈ edges o, P c) (hstack : ∀ o ∈ stack, P o) :
    ∀ t ∈ (disconnectAll edges r ts stack).touches, P t.obj := by
  fun_induction disconnectAll edges r ts stack with
  | case1 => simp
  | case2 => simp
  | case3 ts o rest h _ after pass ih =>
      have ho := hstack o List.mem_cons_self
      have hafter : ∀ c ∈ after, P c := by
        intro c hc
        have hmem : c ∈ (edges o).reverse ++ rest := by
          by_cases hlast : ts[o].count r = 1
          · simpa [after, hlast] using hc
          · exact List.mem_append_right _ (by simpa [after, hlast] using hc)
        rcases List.mem_append.mp hmem with hc | hc
        · exact hclosed o ho c (List.mem_reverse.mp hc)
        · exact hstack c (List.mem_cons_of_mem _ hc)
      intro t ht
      rcases List.mem_cons.mp ht with rfl | ht
      · exact ho
      · exact ih hafter t ht
  | case4 => simp

/-- What is reached from inside is inside, if no edge leads out. -/
theorem Reach.stays {a b : ObjId} (hclosed : ∀ o, P o → ∀ c ∈ edges o, P c)
    (h : Reach edges a b) (ha : P a) : P b :=
  (h.congr_of_closed (fun o c ho hc => hclosed o ho c hc) (fun _ _ _ hc => hc) ha).1

theorem disconnectAll_count_of_outside (hclosed : ∀ o, P o → ∀ c ∈ edges o, P c)
    (hstack : ∀ o ∈ stack, P o) {o : ObjId} (ho : ¬ P o) (r' : RootId) :
    (disconnectAll edges r ts stack).tallies.count o r' = ts.count o r' := by
  by_cases hr : r' = r
  · subst hr
    by_contra hne
    obtain ⟨s, hs, hreach⟩ := disconnectAll_reach (.inl hne)
    exact ho (hreach.stays hclosed (hstack s hs))
  · exact disconnectAll_count_of_ne hr o

theorem stripAll_count_of_outside (hclosed : ∀ o, P o → ∀ c ∈ edges o, P c)
    (hstack : ∀ o ∈ stack, P o) {o : ObjId} (ho : ¬ P o) (r' : RootId) :
    (stripAll edges r ts stack).tallies.count o r' = ts.count o r' := by
  rw [stripAll_count, if_neg]
  rintro ⟨hmem, -⟩
  obtain ⟨s, hs, hreach⟩ := reach_of_mem_stripAll hmem
  exact ho (hreach.stays hclosed (hstack s hs))

theorem lowerEach_size (os : List ObjId) (ts : Tallies) : (lowerEach r os ts).1.size = ts.size := by
  induction os generalizing ts with
  | nil => rfl
  | cons o os ih =>
      rw [lowerEach]
      split
      next => exact Array.size_modify
      next => exact (ih _).trans Array.size_modify

theorem lowerEach_count_of_not_mem {os : List ObjId} {o : ObjId} (ho : o ∉ os) (ts : Tallies)
    (r' : RootId) : (lowerEach r os ts).1.count o r' = ts.count o r' := by
  have hne {x : ObjId} (hx : o ≠ x) (ts : Tallies) :
      Tallies.count (ts.modify x (·.lower r)) o r' = ts.count o r' := by
    simp [count_modify_lower, hx]
  induction os generalizing ts with
  | nil => rfl
  | cons x os ih =>
      rw [List.mem_cons, not_or] at ho
      obtain ⟨hx, hos⟩ := ho
      rw [lowerEach]
      split
      next => exact hne hx ts
      next => exact (ih hos _).trans (hne hx ts)

theorem scanOrphans_size (os : List ObjId) : (scanOrphans edges r os ts).tallies.size = ts.size := by
  rw [scanOrphans_eq]
  split
  next => rfl
  next => rw [lowerEach_size, stripEach_size]

/-- Orphans are found where the candidates lead to. -/
theorem forall_mem_lost {os : List ObjId} (hclosed : ∀ o, P o → ∀ c ∈ edges o, P c)
    (hos : ∀ o ∈ os, P o) : ∀ c ∈ (orphanTrial edges r os ts).lost, P c := by
  intro c hc
  obtain ⟨s, hs, hreach⟩ := reach_of_mem_explore (lost_subset_order hc)
  apply hreach.stays fun o ho c hc => hclosed o ho c (List.mem_of_mem_filter hc)
  exact hos s (List.mem_of_mem_filter (List.mem_reverse.mp hs))

/-- So are the survivors that lose edges. -/
theorem scanOrphans_count_of_outside {os : List ObjId} (hclosed : ∀ o, P o → ∀ c ∈ edges o, P c)
    (hos : ∀ o ∈ os, P o) {o : ObjId} (ho : ¬ P o) (r' : RootId) :
    (scanOrphans edges r os ts).tallies.count o r' = ts.count o r' := by
  have hlost : ∀ c ∈ (orphanTrial edges r os ts).lost, P c := forall_mem_lost hclosed hos
  have hcut : ∀ c ∈ orphanCut edges r os ts, P c := by
    intro c hc
    obtain ⟨p, hp, hc⟩ := List.mem_flatMap.mp (List.mem_of_mem_filter hc)
    exact hclosed p (hlost p hp) c (List.mem_of_mem_filter hc)
  rw [scanOrphans_eq]
  split
  next => rfl
  next =>
    rw [lowerEach_count_of_not_mem fun hc => ho (hcut o hc), count_stripEach, if_neg]
    exact fun hc => ho (hlost o hc.1)

end Passes

/-! ## Keeping to one heap -/

/-- What of an object is settled when it is allocated. -/
def Object.origin (ob : Object) : HeapId × Value := (ob.heap, ob.value)

namespace World

/-- `o` is an object of the heap `site`, if there is one. -/
def Within (w : World) (site : Option HeapId) (o : ObjId) : Prop :=
  ∃ g ∈ site, w.owns g o = true

/-- A slot that some sane object of `site` reports. -/
def Writes (w : World) (site : Option HeapId) (sane : ObjId → Prop) (s : SlotId) : Prop :=
  ∃ p, sane p ∧ w.Within site p ∧ s ∈ (w.valueAt p).connectSlots

/-- `w'` goes on from `w` with tallies of `site` changed only, and objects of `site` stored and
pointed at only, in slots and roots of `site`. -/
structure Heeds (site : Option HeapId) (sane : ObjId → Prop) (w w' : World) : Prop where
  objects : ∀ o : ObjId, w'.objects[o]?.map Object.origin = w.objects[o]?.map Object.origin
  configs : ∀ g : HeapId, w'.heaps[g]?.map (·.config) = w.heaps[g]?.map (·.config)
  counts : ∀ o, ¬ w.Within site o → ∀ r, w'.tallies.count o r = w.tallies.count o r
  size : w'.tallies.size = w.tallies.size
  room : w'.slots.size = w.slots.size
  slots : ∀ s, ∀ c ∈ (w'.slotAt s).targets,
    c ∈ (w.slotAt s).targets ∨ w.Writes site sane s ∧ sane c ∧ w.Within site c
  next : ∀ g, (w.registryAt g).next ≤ (w'.registryAt g).next
  roots : ∀ g r t, r < (w.registryAt g).next → (w'.registryAt g).target? r = some t →
    (w.registryAt g).target? r = some t ∨ g ∈ site ∧ sane t ∧ w.owns g t = true
  log : ∃ added, w'.log.toList = w.log.toList ++ added ∧
    ∀ e ∈ added, ∀ o ∈ e.tallied, w.Within site o

variable {site : Option HeapId} {sane : ObjId → Prop} {w w' w'' : World}

namespace Heeds

theorem values (h : w.Heeds site sane w') : w'.valueAt = w.valueAt := by
  have hvalue (w : World) (o : ObjId) :
      w.valueAt o = ((w.objects[o]?.map Object.origin).map Prod.snd).getD .plain := by
    unfold valueAt
    cases w.objects[o]? <;> rfl
  funext o
  rw [hvalue, hvalue, h.objects]

theorem owns (h : w.Heeds site sane w') : w'.owns = w.owns := by
  have howner (w : World) (g : HeapId) (o : ObjId) :
      w.owns g o = ((w.objects[o]?.map Object.origin).map fun x => decide (x.1 = g)).getD false := by
    unfold World.owns
    cases w.objects[o]? <;> rfl
  funext g o
  rw [howner, howner, h.objects]

theorem extent (h : w.Heeds site sane w') : w'.objects.size = w.objects.size :=
  size_eq_of_map h.objects

theorem refl (w : World) : w.Heeds site sane w where
  objects := fun _ => rfl
  configs := fun _ => rfl
  counts := fun _ _ _ => rfl
  size := rfl
  room := rfl
  slots := fun _ _ hc => .inl hc
  next := fun _ => Nat.le_refl _
  roots := fun _ _ _ _ ht => .inl ht
  log := ⟨[], by simp⟩

theorem mono {sane' : ObjId → Prop} (hsub : ∀ o, sane o → sane' o) (h : w.Heeds site sane w') :
    w.Heeds site sane' w' where
  objects := h.objects
  configs := h.configs
  counts := h.counts
  size := h.size
  room := h.room
  slots := by
    intro s c hc
    rcases h.slots s c hc with hold | ⟨⟨p, hp, hwithin, hs⟩, hsane, hc⟩
    · exact .inl hold
    · exact .inr ⟨⟨p, hsub p hp, hwithin, hs⟩, hsub c hsane, hc⟩
  next := h.next
  roots := by
    intro g r t hr ht
    rcases h.roots g r t hr ht with hold | ⟨hg, hsane, ht⟩
    · exact .inl hold
    · exact .inr ⟨hg, hsub t hsane, ht⟩
  log := h.log

theorem within (h : w.Heeds site sane w') : w'.Within site = w.Within site := by
  funext o
  rw [Within, Within, h.owns]

theorem writes (h : w.Heeds site sane w') : w'.Writes site sane = w.Writes site sane := by
  funext s
  rw [Writes, Writes, h.within, h.values]

theorem trans (h : w.Heeds site sane w') (h' : w'.Heeds site sane w'') :
    w.Heeds site sane w'' where
  objects := fun o => (h'.objects o).trans (h.objects o)
  configs := fun g => (h'.configs g).trans (h.configs g)
  counts := fun o ho r => (h'.counts o (h.within ▸ ho) r).trans (h.counts o ho r)
  size := h'.size.trans h.size
  room := h'.room.trans h.room
  slots := by
    intro s c hc
    rcases h'.slots s c hc with hc | hc
    · exact h.slots s c hc
    · rw [h.writes, h.within] at hc
      exact .inr hc
  next := fun g => Nat.le_trans (h.next g) (h'.next g)
  roots := by
    intro g r t hr ht
    rcases h'.roots g r t (Nat.lt_of_lt_of_le hr (h.next g)) ht with ht | ht
    · exact h.roots g r t hr ht
    · rw [h.owns] at ht
      exact .inr ht
  log := by
    obtain ⟨added, hlog, hadded⟩ := h.log
    obtain ⟨added', hlog', hadded'⟩ := h'.log
    refine ⟨added ++ added', by rw [hlog', hlog, List.append_assoc], fun e he => ?_⟩
    rw [h.within] at hadded'
    rcases List.mem_append.mp he with he | he
    · exact hadded e he
    · exact hadded' e he

/-! ### Steps -/

/-- Nothing but counts, states, statistics and the log differs, and no tally is reported. -/
theorem of_same
    (hobjects : ∀ o : ObjId, w'.objects[o]?.map Object.origin = w.objects[o]?.map Object.origin)
    (hheaps : ∀ g : HeapId, w'.heaps[g]?.map (fun heap => (heap.config, heap.roots)) =
      w.heaps[g]?.map fun heap => (heap.config, heap.roots))
    (htallies : w'.tallies = w.tallies) (hslots : w'.slots = w.slots)
    (hlog : ∃ added, w'.log.toList = w.log.toList ++ added ∧ ∀ e ∈ added, e.tallied = []) :
    w.Heeds site sane w' := by
  have hregistry : w'.registryAt = w.registryAt := by
    funext g
    have hheap := hheaps g
    unfold registryAt
    cases hold : w.heaps[g]? <;> cases hnew : w'.heaps[g]? <;> simp_all
  refine
    { objects := hobjects
      configs := fun g => ?_
      counts := fun _ _ _ => by rw [htallies]
      size := by rw [htallies]
      room := by rw [hslots]
      slots := fun s c hc => .inl ?_
      next := fun g => by rw [hregistry]
      roots := fun g r t _ ht => .inl (hregistry ▸ ht)
      log := ?_ }
  · have hconfig := congrArg (Option.map Prod.fst) (hheaps g)
    simpa only [Option.map_map, Function.comp_def] using hconfig
  · rwa [slotAt, hslots] at hc
  · obtain ⟨added, hlog, hadded⟩ := hlog
    refine ⟨added, hlog, fun e he o ho => ?_⟩
    rw [hadded e he] at ho
    cases ho

theorem modifyObject (w : World) (o : ObjId) {f : Object → Object}
    (hf : ∀ ob, (f ob).origin = ob.origin) : w.Heeds site sane (w.modifyObject o f) := by
  apply of_same
  · intro o'
    simp only [World.modifyObject, Array.getElem?_modify]
    split
    · cases w.objects[o']? <;> simp [hf]
    · rfl
  · exact fun _ => rfl
  · rfl
  · rfl
  · exact ⟨[], by simp [World.modifyObject]⟩

/-- A heap with other roots: its numbers go on, and old numbers point where they pointed, or at
sane objects of the heap. -/
theorem register (w : World) (g : HeapId) {f : Heap → Heap}
    (hconfig : ∀ heap, (f heap).config = heap.config)
    (hroots : ∀ heap, w.heaps[g]? = some heap → heap.roots.next ≤ (f heap).roots.next ∧
      ∀ r t, r < heap.roots.next → (f heap).roots.target? r = some t →
        heap.roots.target? r = some t ∨ g ∈ site ∧ sane t ∧ w.owns g t = true) :
    w.Heeds site sane (w.modifyHeap g f) := by
  have hregistry (g' : HeapId) : (w.modifyHeap g f).registryAt g' = w.registryAt g' ∨
      g' = g ∧ ∃ heap, w.heaps[g]? = some heap ∧ w.registryAt g' = heap.roots ∧
        (w.modifyHeap g f).registryAt g' = (f heap).roots := by
    unfold registryAt
    rw [heaps_modifyHeap]
    by_cases hg : g' = g
    · subst hg
      cases hheap : w.heaps[g']? with
      | none => exact .inl rfl
      | some heap => exact .inr ⟨rfl, heap, rfl, rfl, by simp⟩
    · left
      cases w.heaps[g']? <;> simp [hg]
  refine
    { objects := fun _ => rfl
      configs := fun g' => ?_
      counts := fun _ _ _ => rfl
      size := rfl
      room := rfl
      slots := fun _ _ hc => .inl hc
      next := fun g' => ?_
      roots := fun g' r t hr ht => ?_
      log := ⟨[], by simp [World.modifyHeap]⟩ }
  · rw [heaps_modifyHeap]
    cases w.heaps[g']? with
    | none => rfl
    | some heap =>
        simp only [Option.map_some]
        split <;> simp [hconfig]
  · rcases hregistry g' with heq | ⟨rfl, heap, hheap, hold, hnew⟩
    · rw [heq]
    · rw [hold, hnew]
      exact (hroots heap hheap).1
  · rcases hregistry g' with heq | ⟨rfl, heap, hheap, hold, hnew⟩
    · exact .inl (heq ▸ ht)
    · rw [hold] at hr ⊢
      rw [hnew] at ht
      exact (hroots heap hheap).2 r t hr ht

theorem modifyHeap (w : World) (g : HeapId) {f : Heap → Heap}
    (hconfig : ∀ heap, (f heap).config = heap.config)
    (hroots : ∀ heap, (f heap).roots = heap.roots) : w.Heeds site sane (w.modifyHeap g f) := by
  apply register w g hconfig
  intro heap _
  rw [hroots]
  exact ⟨Nat.le_refl _, fun _ _ _ ht => .inl ht⟩

theorem report (w : World) {events : List Event}
    (h : ∀ e ∈ events, ∀ o ∈ e.tallied, w.Within site o) :
    w.Heeds site sane { w with log := w.log ++ events } :=
  { refl w with log := ⟨events, by simp, h⟩ }

theorem note (w : World) {e : Event} (h : e.tallied = []) : w.Heeds site sane (w.note e) :=
  { refl w with log := ⟨[e], by simp [World.note], by simp [h]⟩ }

theorem retally (w : World) {ts : Tallies} (hsize : ts.size = w.tallies.size)
    (hcounts : ∀ o, ¬ w.Within site o → ∀ r, ts.count o r = w.tallies.count o r) :
    w.Heeds site sane { w with tallies := ts } :=
  { refl w with
    counts := hcounts
    size := hsize }

theorem writeSlot (w : World) {s : SlotId} {content : Slot}
    (hcontent : ∀ c ∈ content.targets,
      c ∈ (w.slotAt s).targets ∨ w.Writes site sane s ∧ sane c ∧ w.Within site c) :
    w.Heeds site sane (w.writeSlot s content) := by
  have hslots : ∀ s', ∀ c ∈ ((w.writeSlot s content).slotAt s').targets,
      c ∈ (w.slotAt s').targets ∨ w.Writes site sane s' ∧ sane c ∧ w.Within site c := by
    intro s' c hc
    rcases mem_targets_writeSlot hc with hold | ⟨rfl, hnew⟩
    · exact .inl hold
    · exact hcontent c hnew
  exact { refl w with room := by simp [World.writeSlot], slots := hslots }

/-- Condemned objects are of the same heap and have the same value. -/
theorem condemn (w : World) (dead : List ObjId) : w.Heeds site sane (w.condemn dead) := by
  apply of_same
  · intro o
    have hobject : (w.condemn dead).objects[o]? = _ := getElem?_foldl_condemn dead w.objects o
    rw [hobject]
    cases w.objects[o]? with
    | none => rfl
    | some ob =>
        simp only [Option.map_some]
        split <;> rfl
  · exact fun _ => rfl
  · rfl
  · rfl
  · exact ⟨[], by simp [World.condemn]⟩

theorem enter (w : World) (g : HeapId) : w.Heeds site sane (w.enter g) :=
  modifyHeap w g (fun _ => rfl) fun _ => rfl

theorem leave (w : World) (g : HeapId) : w.Heeds site sane (w.leave g) := by
  unfold World.leave
  cases w.heaps[g]? with
  | none => exact .refl w
  | some heap =>
      have hleft : w.Heeds site sane
          (w.modifyHeap g fun heap => { heap with holders := heap.holders - 1 }) :=
        modifyHeap w g (fun _ => rfl) fun _ => rfl
      dsimp only
      split
      next => exact hleft.trans (note _ rfl)
      next => exact hleft

theorem retire (w : World) (g : HeapId) (o : ObjId) : w.Heeds site sane (w.retire g o) := by
  unfold World.retire
  split
  next heap ob _ _ =>
    split_ifs
    · exact (note w rfl).trans (modifyObject _ o fun _ => rfl)
    · exact modifyObject w o fun _ => rfl
    · exact modifyObject w o fun _ => rfl
  next => exact .refl w

end Heeds

end World

end RootedHeap
