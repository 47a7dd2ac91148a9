import RootedHeap.Proofs.Exactness

/-! # What outlasts the dropping of handles

While tasks are carried out, objects go and none are made. A set of live objects that what is kept
leads to, perhaps by way of handles and slots within the set, is `World.Sustained`: it outlasts every
task (`World.Wanes`). When nothing is left to be done, all live objects together are such a set
(`World.Steady.sustained`). So it is no matter of order what stays in the end: the largest set that
what is kept sustains.
-/

namespace RootedHeap

open World

namespace World

/-- Each object of `X` is live, and led to by what is kept, or by what an object of `X` holds apart from
the slots that it reports. -/
def Sustained (w : World) (kept : Multiset Holding) (X : Set ObjId) : Prop :=
  ∀ o ∈ X, w.isLive o = true ∧ ∃ x, (x ∈ kept ∨ ∃ p ∈ X, x ∈ (w.valueAt p).unseen) ∧
    ∃ t ∈ x.targets w, Reach w.out t o

/-- The number of live objects of heap `g`. -/
def aliveAt (w : World) (g : HeapId) : Nat := (w.lives.filter fun o => w.owns g o = true).card

/-- `w'` goes on from `w` with the same objects, of which some were collected. What is kept, and what
is left alive, has its slots as they were. -/
structure Wanes (kept : Multiset Holding) (w w' : World) : Prop where
  guarded : w'.Guarded 0 kept
  size : w'.objects.size = w.objects.size
  value : w'.valueAt = w.valueAt
  owns : w'.owns = w.owns
  live : ∀ o, w'.isLive o = true → w.isLive o = true
  slots : ∀ s, .slot s ∈ w'.ledger 0 kept → w'.slotAt s = w.slotAt s
  collected : ∀ g, w'.collectedAt g + w'.aliveAt g = w.collectedAt g + w.aliveAt g
  outlast : ∀ X, w.Sustained kept X → ∀ o ∈ X, w'.isLive o = true

variable {w w' w'' : World} {kept : Multiset Holding} {X : Set ObjId}

/-- What sustains live objects is among what there is. -/
theorem mem_ledger_of_sustaining (hmatched : ∀ o, (w.valueAt o).Matched)
    (hX : ∀ o ∈ X, w.isLive o = true) {x : Holding}
    (hx : x ∈ kept ∨ ∃ p ∈ X, x ∈ (w.valueAt p).unseen) : x ∈ w.ledger 0 kept := by
  rcases hx with hx | ⟨p, hp, hx⟩
  · exact mem_ledger_of_held hx
  · have hholding := Multiset.mem_of_le (unseen_le_holdings hmatched p) hx
    exact mem_ledger_of_live (hX p hp) (Multiset.mem_coe.mp hholding)

/-- What there is refers to live objects. -/
theorem Guarded.live_of_mem_ledger (h : w.Guarded 0 kept) {x : Holding} (hx : x ∈ w.ledger 0 kept)
    {t : ObjId} (ht : t ∈ x.targets w) : w.isLive t = true := by
  apply h.live_of_ledger _ ht
  rw [ledger, Multiset.zero_bind, add_zero] at hx
  rcases Multiset.mem_add.mp hx with hx | hx
  · obtain ⟨p, hp, hx⟩ := Multiset.mem_bind.mp hx
    exact .inr ⟨p, mem_lives.mp hp, Multiset.mem_coe.mp hx⟩
  · exact .inl hx

/-- Two worlds with the same values have the same things, where the same objects are live. -/
theorem ledger_congr (hlives : w'.lives = w.lives) (hvalue : w'.valueAt = w.valueAt) :
    w'.ledger 0 kept = w.ledger 0 kept := by
  rw [ledger, ledger, hlives, hvalue]
  rfl

theorem lives_congr (hsize : w'.objects.size = w.objects.size) (hlive : w'.isLive = w.isLive) :
    w'.lives = w.lives := by
  rw [lives, lives, hsize, hlive]

/-- With less to be kept, there is less to guard. -/
theorem Guarded.of_le {todo : Multiset Task} {held : Multiset Holding} (h : w.Guarded todo held)
    (hle : kept ≤ held) : w.Guarded todo kept where
  matched := h.matched
  heap_some := h.heap_some
  verify := h.verify
  closed := h.closed
  value_live := h.value_live
  held_live x hx := h.held_live x (Multiset.mem_of_le hle hx)
  handle_owned a ha := by
    obtain ⟨rest, rfl⟩ := Multiset.le_iff_exists_add.mp hle
    apply h.handle_owned a
    rw [add_comm, ledger_add_held]
    exact Multiset.mem_add.mpr (.inr ha)
  buried := h.buried
  dropped := h.dropped

/-! ## Objects whose heap is gone -/

/-- `strays` are handles, in name only, to live objects whose heap is gone. Nothing collects such an
object any more, as if it was kept. -/
def Strands (w : World) (strays : Multiset Holding) : Prop :=
  ∀ x ∈ strays, ∃ a, x = .root a ∧ w.isLive a.obj = true ∧ w.owns a.heap a.obj = true ∧
    w.heapExists a.heap = false

theorem strands_zero (w : World) : w.Strands 0 := fun _ hx => absurd hx (Multiset.notMem_zero _)

section Strays

variable {strays : Multiset Holding} (hstrays : w.Strands strays)

include hstrays

theorem Strands.slot_mem_ledger {s : SlotId} (hs : .slot s ∈ w'.ledger 0 (strays + kept)) :
    .slot s ∈ w'.ledger 0 kept := by
  rw [ledger_add_held] at hs
  refine (Multiset.mem_add.mp hs).resolve_left fun hmem => ?_
  obtain ⟨a, hroot, -⟩ := hstrays _ hmem
  cases hroot

theorem Strands.live_of_mem {x : Holding} (hx : x ∈ strays) {o : ObjId} (ho : o ∈ x.targets w') :
    w.isLive o = true := by
  obtain ⟨a, rfl, hlive, -⟩ := hstrays x hx
  rwa [Multiset.mem_singleton.mp ho]

theorem Guarded.add_strays {todo : Multiset Task} (h : w.Guarded todo kept) :
    w.Guarded todo (strays + kept) where
  matched := h.matched
  heap_some := h.heap_some
  verify := h.verify
  closed := h.closed
  value_live := h.value_live
  held_live x hx c hc := by
    rcases Multiset.mem_add.mp hx with hx | hx
    · exact hstrays.live_of_mem hx hc
    · exact h.held_live x hx c hc
  handle_owned a ha := by
    rw [ledger_add_held] at ha
    rcases Multiset.mem_add.mp ha with ha | ha
    · obtain ⟨b, hb, -, hown, -⟩ := hstrays _ ha
      cases hb
      exact hown
    · exact h.handle_owned a ha
  buried := h.buried
  dropped := h.dropped

end Strays

namespace Wanes

section Transfer

variable (h : w.Wanes kept w')

include h

/-- Nothing comes into being. -/
theorem mem_ledger {x : Holding} (hx : x ∈ w'.ledger 0 kept) : x ∈ w.ledger 0 kept := by
  rw [ledger, Multiset.zero_bind, add_zero] at hx
  rcases Multiset.mem_add.mp hx with hx | hx
  · obtain ⟨p, hp, hx⟩ := Multiset.mem_bind.mp hx
    rw [h.value] at hx
    exact mem_ledger_of_live (h.live p (mem_lives.mp hp)) (Multiset.mem_coe.mp hx)
  · exact mem_ledger_of_held hx

theorem targets_eq {x : Holding} (hx : x ∈ w'.ledger 0 kept) : x.targets w' = x.targets w := by
  cases x with
  | slot s => rw [Holding.targets, Holding.targets, h.slots s hx]
  | weak | root => rfl

theorem out_eq {p : ObjId} (hp : w'.isLive p = true) : w'.out p = w.out p := by
  rw [World.out_eq, World.out_eq, ← h.value]
  apply List.flatMap_congr
  intro s hs
  rw [h.slots s (mem_ledger_of_live hp (Value.mem_holdings_of_reported hs))]

/-- From live objects the same can be reached as before. -/
theorem reach_iff {t o : ObjId} (ht : w'.isLive t = true) : Reach w'.out t o ↔ Reach w.out t o := by
  constructor
  · intro hreach
    refine (Reach.congr_of_closed (P := fun p => w'.isLive p = true) ?_ ?_ ht hreach).2
    · exact fun p q hp hq => h.guarded.live_of_out hp hq
    · exact fun p q hp hq => h.out_eq hp ▸ hq
  · intro hreach
    refine (Reach.congr_of_closed (P := fun p => w'.isLive p = true) ?_ ?_ ht hreach).2
    · exact fun p q hp hq => h.guarded.live_of_out hp ((h.out_eq hp).symm ▸ hq)
    · exact fun p q hp hq => (h.out_eq hp).symm ▸ hq

/-- What is left alive is sustained now if it was sustained before. -/
theorem sustained_iff (hX : ∀ o ∈ X, w'.isLive o = true) :
    w'.Sustained kept X ↔ w.Sustained kept X := by
  have hmem {x : Holding} (hx : x ∈ kept ∨ ∃ p ∈ X, x ∈ (w.valueAt p).unseen) :
      x ∈ w'.ledger 0 kept :=
    mem_ledger_of_sustaining h.guarded.matched hX (h.value.symm ▸ hx)
  unfold Sustained
  rw [h.value]
  constructor
  · intro hsustained o ho
    obtain ⟨hlive, x, hx, t, ht, hreach⟩ := hsustained o ho
    have htlive := h.guarded.live_of_mem_ledger (hmem hx) ht
    rw [h.targets_eq (hmem hx)] at ht
    exact ⟨h.live o hlive, x, hx, t, ht, (h.reach_iff htlive).mp hreach⟩
  · intro hsustained o ho
    obtain ⟨-, x, hx, t, ht, hreach⟩ := hsustained o ho
    rw [← h.targets_eq (hmem hx)] at ht
    have htlive := h.guarded.live_of_mem_ledger (hmem hx) ht
    exact ⟨hX o ho, x, hx, t, ht, (h.reach_iff htlive).mpr hreach⟩

end Transfer

theorem refl (h : w.Guarded 0 kept) : w.Wanes kept w :=
  ⟨h, rfl, rfl, rfl, fun _ => id, fun _ _ => rfl, fun _ => rfl, fun _ hX o ho => (hX o ho).1⟩

theorem trans (h : w.Wanes kept w') (h' : w'.Wanes kept w'') : w.Wanes kept w'' where
  guarded := h'.guarded
  size := h'.size.trans h.size
  value := h'.value.trans h.value
  owns := h'.owns.trans h.owns
  live o ho := h.live o (h'.live o ho)
  slots s hs := (h'.slots s hs).trans (h.slots s (h'.mem_ledger hs))
  collected g := (h'.collected g).trans (h.collected g)
  outlast X hX := h'.outlast X ((h.sustained_iff (h.outlast X hX)).mpr hX)

/-- What outlasts the tasks with little to be kept outlasts them with more. -/
theorem of_le {held : Multiset Holding} (h : w.Wanes held w') (hle : kept ≤ held) :
    w.Wanes kept w' where
  guarded := h.guarded.of_le hle
  size := h.size
  value := h.value
  owns := h.owns
  live := h.live
  slots s hs := by
    obtain ⟨rest, rfl⟩ := Multiset.le_iff_exists_add.mp hle
    apply h.slots s
    rw [add_comm, ledger_add_held]
    exact Multiset.mem_add.mpr (.inr hs)
  collected := h.collected
  outlast X hX := by
    apply h.outlast X
    intro o ho
    obtain ⟨hlive, x, hx, hled⟩ := hX o ho
    exact ⟨hlive, x, hx.imp_left (Multiset.mem_of_le hle), hled⟩

/-- A world that grows without new objects. -/
theorem of_grows {own : SlotId → Prop} {spent : Option Task} (h : Grows own spent w w')
    (hsize : w'.objects.size = w.objects.size)
    (hown : ∀ s, .slot s ∈ w.ledger 0 kept → s < w.slots.size ∧ ¬ own s)
    (hguarded : w'.Guarded 0 kept) : w.Wanes kept w' := by
  have hface (o : ObjId) : w'.objects[o]?.map Object.face = w.objects[o]?.map Object.face := by
    by_cases ho : o < w.objects.size
    · exact h.objects o ho
    · rw [Array.getElem?_eq_none (Nat.le_of_not_lt ho),
        Array.getElem?_eq_none (hsize ▸ Nat.le_of_not_lt ho)]
  have hlive : w'.isLive = w.isLive := funext fun o => by rw [isLive_face, isLive_face, hface]
  have howns : w'.owns = w.owns := funext fun g => funext fun o => by
    rw [owns_face, owns_face, hface]
  have hvalue : w'.valueAt = w.valueAt := funext fun o => by rw [valueAt_face, valueAt_face, hface]
  refine ⟨hguarded, hsize, hvalue, howns, fun o ho => hlive ▸ ho, fun s hs => ?_, fun g => ?_,
    fun X hX o ho => hlive ▸ (hX o ho).1⟩
  · rw [ledger_congr (lives_congr hsize hlive) hvalue] at hs
    exact h.slots s (hown s hs).1 (hown s hs).2
  · rw [aliveAt, aliveAt, h.collected, lives_congr hsize hlive, howns]

end Wanes

/-- What is sustained is not reclaimed: neither does anything outside the graph refer to what is, nor
a live object that is not reclaimed itself. -/
theorem Reclaimed.notMem_dead {g : HeapId} {todo : Multiset Task} {dead : List ObjId}
    (h : w.Reclaimed g todo kept dead w') (hX : w.Sustained kept X) {o : ObjId} (ho : o ∈ X) :
    o ∉ dead := by
  intro hdead
  obtain ⟨-, x, hx, t, ht, hreach⟩ := hX o ho
  have hoff : x ∈ w.offGraph todo kept := by
    rcases hx with hx | ⟨p, hp, hx⟩
    · exact Multiset.mem_add.mpr (.inr hx)
    · have hmem : x ∈ w.lives.bind fun p => (w.valueAt p).unseen :=
        Multiset.mem_bind.mpr ⟨p, mem_lives.mpr (hX p hp).1, hx⟩
      exact Multiset.mem_add.mpr (.inl (Multiset.mem_add.mpr (.inl hmem)))
  have htouter : t ∈ w.outer todo kept :=
    Multiset.mem_add.mpr (.inl (Multiset.mem_bind.mpr ⟨x, hoff, ht⟩))
  have htlive : w.isLive t = true :=
    h.guarded.live_of_ledger (hx.imp_right fun ⟨p, hp, hx⟩ => ⟨p, (hX p hp).1, Multiset.mem_coe.mp
      (Multiset.mem_of_le (unseen_le_holdings h.guarded.matched p) hx)⟩) ht
  -- going back along the path, every object would be dead
  have hback : t ∈ dead := by
    clear ht htouter
    induction hreach using Relation.ReflTransGen.head_induction_on with
    | refl => exact hdead
    | @head p q hstep _ ih =>
        exact h.closed q (ih (h.guarded.live_of_out htlive hstep)) p htlive hstep
  exact h.outer t hback htouter

theorem Reclaimed.wanes {g : HeapId} {todo : Multiset Task} {dead : List ObjId}
    (h : w.Reclaimed g todo kept dead w') (hguarded : w'.Guarded 0 kept) : w.Wanes kept w' := by
  have hlive {o : ObjId} : w'.isLive o = true ↔ w.isLive o = true ∧ o ∉ dead := by
    rw [h.alike.isLive, isLive_collect]
  refine ⟨hguarded, h.alike.size.trans size_collect, h.alike.valueAt.trans valueAt_collect,
    h.alike.owns.trans owns_collect, fun o ho => (hlive.mp ho).1,
    fun s _ => congrFun h.alike.slotAt s, fun g' => ?_,
    fun X hX o ho => hlive.mpr ⟨(hX o ho).1, h.notMem_dead hX ho⟩⟩
  have hcard := card_lives_collect h.nodup h.live h.owned g'
  rw [h.collected, aliveAt, aliveAt, hcard, h.alike.lives, h.alike.owns, owns_collect]
  omega

/-- What is live at the end of a session was not reclaimed. -/
theorem Reclaimed.add_strays {g : HeapId} {todo : Multiset Task} {dead : List ObjId}
    {strays : Multiset Holding} (h : w.Reclaimed g todo kept dead w') (hstrays : w'.Strands strays) :
    w.Reclaimed g todo (strays + kept) dead w' := by
  have hlive {o : ObjId} : w'.isLive o = true ↔ w.isLive o = true ∧ o ∉ dead := by
    rw [h.alike.isLive, isLive_collect]
  have hbefore : w.Strands strays := by
    intro x hx
    obtain ⟨a, hroot, halive, hown, hgone⟩ := hstrays x hx
    rw [h.alike.owns, owns_collect] at hown
    rw [h.alike.heapExists, heapExists_collect] at hgone
    exact ⟨a, hroot, (hlive.mp halive).1, hown, hgone⟩
  refine ⟨h.guarded.add_strays hbefore, h.nodup, h.live, h.owned, fun o ho hmem => ?_, h.closed,
    h.alike, h.collected, h.log⟩
  rw [outer_add_held] at hmem
  rcases Multiset.mem_add.mp hmem with hmem | hmem
  · obtain ⟨x, hx, hox⟩ := Multiset.mem_bind.mp hmem
    exact (hlive.mp (hstrays.live_of_mem hx hox)).2 ho
  · exact h.outer o ho hmem

/-- A task touches no slot but its own, which nobody else has. -/
theorem Orderly.wanes {t : Task} {todo : Multiset Task} {heaps : Multiset HeapId} {more : List Task}
    {strays : Multiset Holding} (h : w.Orderly (t ::ₘ todo) kept heaps [])
    (hadvances : t.Advances w todo kept heaps [] more w') (hstrays : w'.Strands strays) :
    w.Wanes (strays + kept) w' := by
  have hnil : (([] : List Handle).map Holding.root : List Holding) + kept = kept := zero_add kept
  obtain ⟨hnext, hsize, g, dead, tail, -, hturn⟩ := hadvances
  obtain ⟨w₁, hgrows, hreclaimed⟩ := hturn.collects
  unfold Orderly at h hnext
  rw [hnil] at h hnext hreclaimed
  have hreclaimed := hreclaimed.add_strays hstrays
  have hguarded {w : World} {todo : Multiset Task} {kept : Multiset Holding}
      (hw : w.Guarded todo kept) : w.Guarded 0 kept := by
    rw [← add_zero todo] at hw
    exact hw.dropTasks
  have hgrown : w₁.objects.size = w.objects.size := by
    rw [← hsize, hreclaimed.alike.size, size_collect]
  have hle : t.holdings w + w.ledger 0 kept ≤ w.ledger (t ::ₘ todo) kept := by
    rw [ledger_cons_task, ← add_zero todo, ledger_add_tasks]
    gcongr
    exact Multiset.le_add_left _ _
  refine .trans (.of_grows hgrows hgrown (fun s hs => ⟨?_, fun hown => ?_⟩)
    (hguarded hreclaimed.guarded)) (hreclaimed.wanes ((hguarded hnext.guarded).add_strays hstrays))
  · have hmem := Multiset.mem_of_le hle (Multiset.mem_add.mpr (.inr (hstrays.slot_mem_ledger hs)))
    exact h.accounted.slots_lt s (Multiset.mem_bind.mpr ⟨_, hmem, Multiset.mem_singleton_self s⟩)
  · exact (h.accounted.apart hle hown).2 (hstrays.slot_mem_ledger hs)

/-! ## What tasks leave alone -/

/-- The kinds of the slots, whatever they own. -/
def kinds (w : World) : Array Slot := w.slots.map Slot.emptied

theorem kinds_writeSlot {s : SlotId} {content : Slot} (h : content.emptied = (w.slotAt s).emptied) :
    (w.writeSlot s content).kinds = w.kinds := by
  refine Array.ext (by simp [kinds, writeSlot]) fun i hi hi' => ?_
  rw [kinds, Array.size_map] at hi'
  simp only [kinds, writeSlot, Array.getElem_map]
  rw [Array.getElem_setIfInBounds hi']
  split
  next heq =>
    subst heq
    rw [h, slotAt, Array.getElem?_eq_getElem hi', Option.getD_some]
  next => rfl

/-- `w'` goes on from `w` with the same slots to be used, and neither are there new heaps nor was anything
collected whose heap was gone. -/
structure Reduces (w w' : World) : Prop where
  kinds : w'.kinds = w.kinds
  owns : w'.owns = w.owns
  heapExists : ∀ g, w'.heapExists g = true → w.heapExists g = true
  live : ∀ g o, w.heapExists g = false → w.owns g o = true → w'.isLive o = w.isLive o

namespace Reduces

theorem refl (w : World) : w.Reduces w := ⟨rfl, rfl, fun _ => id, fun _ _ _ _ => rfl⟩

theorem gone (h : w.Reduces w') {g : HeapId} (hg : w.heapExists g = false) :
    w'.heapExists g = false := by
  rw [Bool.eq_false_iff] at hg ⊢
  exact fun hexists => hg (h.heapExists g hexists)

theorem trans (h : w.Reduces w') (h' : w'.Reduces w'') : w.Reduces w'' where
  kinds := h'.kinds.trans h.kinds
  owns := h'.owns.trans h.owns
  heapExists g hg := h.heapExists g (h'.heapExists g hg)
  live g o hg hown := (h'.live g o (h.gone hg) (h.owns ▸ hown)).trans (h.live g o hg hown)

theorem of_mirrors (h : w.Mirrors w') (hexists : ∀ g, w'.heapExists g = true → w.heapExists g = true) :
    w.Reduces w' :=
  ⟨congrArg (Array.map Slot.emptied) h.slots, h.owns, hexists, fun _ o _ _ => congrFun h.isLive o⟩

theorem of_alike (h : w.Alike w') : w.Reduces w' :=
  .of_mirrors h.mirrors fun _ hg => h.heapExists ▸ hg

/-- A session of one heap collects nothing of another. -/
theorem locked {v : World} {g : HeapId} {α : Type} {op : Locked α} {todo : Multiset Task}
    {held : Multiset Holding} {owed : HeapId → ℤ} {E : Fault → Session → Prop} {r : α × List ObjId}
    (hop : Ends op ⟨w, []⟩ (fun _ s => s.Sound g v v.support todo held owed) E)
    (hexists : v.heapExists g = true) (hlocked : locked g op w = .ok r w') : v.Reduces w' := by
  have hends := locked_ends (P := fun _ s => v.Alike s.world)
    (hop.mono (fun _ _ hs => ⟨hs.alike, hs.settled⟩) fun _ _ => id)
  obtain ⟨-, s, halike, hreclaimed⟩ := hends.of_ok hlocked
  have hcollect : s.world.Reduces (s.world.collect g r.2) := by
    refine ⟨rfl, owns_collect, fun g' hg' => by rwa [heapExists_collect] at hg', fun g' o hg' hown => ?_⟩
    rw [Bool.eq_iff_iff, isLive_collect]
    refine and_iff_left fun hdead => ?_
    rw [halike.heapExists, owns_unique hown (hreclaimed.owned o hdead), hexists] at hg'
    cases hg'
  exact (of_alike halike).trans (hcollect.trans (of_alike hreclaimed.alike))

theorem strands {strays : Multiset Holding} (h : w.Reduces w') (hstrays : w.Strands strays) :
    w'.Strands strays := by
  intro x hx
  obtain ⟨a, hroot, hlive, hown, hgone⟩ := hstrays x hx
  exact ⟨a, hroot, (h.live _ _ hgone hown).trans hlive, h.owns ▸ hown, h.gone hgone⟩

end Reduces

/-- A heap that is held once more is there as before. -/
theorem heapExists_enter {g : HeapId} (h : w.heapExists g = true) :
    (w.enter g).heapExists = w.heapExists := by
  funext g'
  rw [heapExists_face] at h
  rw [heapExists_face, heapExists_face, World.enter, heaps_modifyHeap]
  cases hheap : w.heaps[g']? with
  | none => rfl
  | some heap =>
      by_cases hg : g' = g
      · rw [← hg, hheap] at h
        simpa [Heap.face, hg] using h
      · simp [hg]

theorem mirrors_leave (w : World) (g : HeapId) : w.Mirrors (w.leave g) := by
  unfold World.leave
  split
  · exact ⟨rfl, rfl, fun _ => rfl⟩
  · dsimp only
    split <;> exact ⟨rfl, rfl, fun _ => rfl⟩

/-- No heap comes back because another one is left. -/
theorem heapExists_of_leave {g g' : HeapId} (h : (w.leave g).heapExists g' = true) :
    w.heapExists g' = true := by
  have hmodify : (w.modifyHeap g fun heap => { heap with holders := heap.holders - 1 }).heapExists g' =
      true → w.heapExists g' = true := by
    rw [heapExists_face, heapExists_face, heaps_modifyHeap]
    cases w.heaps[g']? with
    | none => exact id
    | some heap =>
        by_cases hg : g' = g
        · simp [Heap.face, hg]
          omega
        · simp [hg]
  unfold World.leave at h
  split at h
  · exact h
  · dsimp only at h
    split_ifs at h <;> exact hmodify h

/-- What a task does. -/
theorem Orderly.reduces {t : Task} {todo : Multiset Task} {heaps : Multiset HeapId} {more : List Task}
    (h : w.Orderly (t ::ₘ todo) kept heaps []) (hstep : t.step w = .ok more w') : w.Reduces w' := by
  cases t with
  | dropValue o =>
      simp only [Task.step] at hstep
      split at hstep <;> cases hstep <;> exact .of_mirrors ⟨rfl, rfl, fun _ => rfl⟩ fun _ => id
  | dropSlot s =>
      cases hstep
      have hempty : (w.slotAt s).emptied.emptied = (w.slotAt s).emptied := by
        cases w.slotAt s <;> rfl
      exact ⟨kinds_writeSlot hempty, rfl, fun _ => id, fun _ _ _ _ => rfl⟩
  | release o =>
      have hsteady := Task.steady_of_orderly h (by simp)
      simp only [Task.step] at hstep
      split at hstep
      next =>
        cases hstep
        exact .refl w
      next ob hob =>
        have hown : w.owns ob.heap o = true := owns_iff.mpr ⟨ob, hob, rfl⟩
        split_ifs at hstep with hlive hstrong
        · have hpos : 0 < w.holdersAt ob.heap := by simpa [heapExists_eq] using hlive.2
          -- the session runs in a world that was entered, so the two reductions are put together
          have hentered := Steady.settled (Steady.enter hsteady hpos) ob.heap
          have hexists := heapExists_enter hlive.2
          split at hstep
          next r w₁ hlocked =>
            cases hstep
            have henter : w.Reduces (w.enter ob.heap) :=
              .of_mirrors ⟨rfl, rfl, fun _ => rfl⟩ fun _ hg => hexists ▸ hg
            exact henter.trans (.locked ((Locked.releaseStrong_ends hentered hown).mono
              (fun _ _ hs => hs.1) fun _ _ => id) (hexists ▸ hlive.2) hlocked)
          next => cases hstep
        · cases hstep
          exact .of_alike (.modifyObject _ _ fun _ _ => rfl)
  | dropWeak o =>
      cases hstep
      exact .of_alike (.modifyObject _ _ fun _ _ => rfl)
  | dropHandle a =>
      have hsteady := Task.steady_of_orderly h (by simp)
      have ha : .root a ∈ w.ledger (.dropHandle a ::ₘ todo) kept := by
        rw [ledger_cons_task, Task.holdings, Multiset.singleton_add]
        exact Multiset.mem_cons_self _ _
      -- the handle is still there, and with it its heap
      have hexists : w.heapExists a.heap = true := by
        simpa [heapExists_eq] using h.holdersAt_pos (.inl ⟨a, ha, rfl⟩)
      obtain ⟨heap, -, hop⟩ := Locked.dropRoot_sheds (hsteady.settled a.heap)
      simp only [Task.step] at hstep
      split at hstep
      next r w₁ hlocked =>
        cases hstep
        have hwithdrawn : w.Reduces (w.setRegistry a.heap (heap.roots.without a.root)) :=
          .of_mirrors ⟨rfl, rfl, fun _ => rfl⟩ fun g hg => by rwa [heapExists_setRegistry] at hg
        refine hwithdrawn.trans (.locked (hop.mono (fun _ _ hs => hs.sound) fun _ _ => id) ?_ hlocked)
        rwa [heapExists_setRegistry]
      next => cases hstep
  | leave g =>
      cases hstep
      exact .of_mirrors (mirrors_leave w g) fun _ => heapExists_of_leave
  | retire g o =>
      have hdead := h.guarded.buried _ (Multiset.mem_cons_self _ _) o rfl
      cases hstep
      exact .of_alike (alike_retire hdead.2).1

/-- When nothing is left to be done, what is kept sustains all that is live, if every live object has its
heap or is a stray. -/
theorem Steady.sustained {owed : HeapId → ℤ} {strays : Multiset Holding} (h : w.Steady 0 kept owed)
    (hhoused : ∀ g o, w.isLive o = true → w.owns g o = true → w.heapExists g = true ∨
      ∃ x ∈ strays, o ∈ x.targets w) :
    w.Sustained (strays + kept) { o | w.isLive o = true } := by
  intro o hlive
  have hlive : w.isLive o = true := hlive
  obtain ⟨g, hown⟩ := exists_owns hlive
  refine ⟨hlive, ?_⟩
  have hoff {x : Holding} (hx : x ∈ w.offGraph 0 kept) :
      x ∈ strays + kept ∨ ∃ p ∈ { o | w.isLive o = true }, x ∈ (w.valueAt p).unseen := by
    rw [offGraph, Multiset.zero_bind, add_zero] at hx
    rcases Multiset.mem_add.mp hx with hx | hx
    · obtain ⟨p, hp, hx⟩ := Multiset.mem_bind.mp hx
      exact .inr ⟨p, mem_lives.mp hp, hx⟩
    · exact .inl (Multiset.mem_add.mpr (.inr hx))
  by_cases hempty : w.tallies.isEmptyAt o = true
  · rcases hhoused g o hlive hown with hexists | ⟨x, hx, hox⟩
    · -- an untagged object is anchored from outside the graph, a tagged one by the target of its root
      obtain ⟨y, hy, -, hreach⟩ :=
        h.anchored g o hown hexists (candidateIn_iff.mpr ⟨hlive, hempty⟩)
      have houter : y ∈ w.outer 0 kept := hy.resolve_left List.not_mem_nil
      rw [outer, Multiset.zero_bind, add_zero] at houter
      obtain ⟨x, hx, hyx⟩ := Multiset.mem_bind.mp houter
      refine ⟨x, hoff hx, y, hyx, ?_⟩
      exact Relation.ReflTransGen.mono (fun _ _ hstep => (mem_candidateEdges.mp hstep).1) _ _ hreach
    · exact ⟨x, .inl (Multiset.mem_add.mpr (.inl hx)), o, hox, .refl⟩
  · rw [Tallies.isEmptyAt_iff] at hempty
    push Not at hempty
    obtain ⟨r, hr⟩ := hempty
    obtain ⟨t, htarget, hreach⟩ := (h.count_pos_iff hown r).mp (Nat.pos_of_ne_zero hr)
    have hactive := (Registry.target?_eq_some_iff (h.accounted.roots_nodup g)).mp htarget
    have hroot := h.accounted.exists_handle hactive
    rw [ledger_eq h.guarded.matched] at hroot
    refine ⟨.root ⟨t, r, g⟩, hoff ((Multiset.mem_add.mp hroot).resolve_left fun hslot => ?_), t,
      Multiset.mem_singleton_self t, hreach⟩
    -- a handle is no slot that a value reports
    obtain ⟨p, -, hslot⟩ := Multiset.mem_bind.mp hslot
    obtain ⟨s, -, hs⟩ := List.mem_map.mp (Multiset.mem_coe.mp hslot)
    cases hs

end World

end RootedHeap
