import RootedHeap.Proofs.Operations
import RootedHeap.Proofs.Runs

/-! # Runs on acyclic graphs

A scan for orphans runs whenever a disconnect leaves a count positive, also where the graph has no
cycle: below a diamond, an element that a list holds twice, or what two graphs share. There it finds
nothing. During an operation the graph is that of the slots as they are when the edges are taken away;
it has no cycle if there was none before the operation and there is none after it. As a scan counts
all that it takes out of the tallies, a count of none means that cascades did all the removing.
-/

namespace RootedHeap

variable {edges edges' : ObjId → List ObjId}

theorem OnCycle.mono {o : ObjId} (h : OnCycle edges o) (hsub : ∀ p, ∀ q ∈ edges p, q ∈ edges' p) :
    OnCycle edges' o :=
  Relation.TransGen.mono (fun p q hq => hsub p q hq) _ _ h

/-- A cycle leads through the one object whose edges differ, or is there either way. -/
theorem OnCycle.through {P : ObjId → Prop} {x o : ObjId} (h : OnCycle edges o) (ho : P o)
    (hclosed : ∀ p, P p → ∀ q ∈ edges p, P q) (hsame : ∀ p, P p → p ≠ x → edges p = edges' p) :
    OnCycle edges' o ∨ OnCycle edges x := by
  have hwalk : ∀ q, Relation.TransGen (fun p q => q ∈ edges p) o q →
      P q ∧ (Relation.TransGen (fun p q => q ∈ edges' p) o q ∨
        Relation.ReflTransGen (fun p q => q ∈ edges p) o x ∧
          Relation.TransGen (fun p q => q ∈ edges p) x q) := by
    intro q hq
    induction hq with
    | @single q hq =>
        refine ⟨hclosed o ho q hq, ?_⟩
        by_cases hx : o = x
        · exact .inr ⟨hx ▸ .refl, hx ▸ .single hq⟩
        · exact .inl (.single (hsame o ho hx ▸ hq))
    | @tail p q hop hq ih =>
        obtain ⟨hp, ih⟩ := ih
        refine ⟨hclosed p hp q hq, ?_⟩
        by_cases hx : p = x
        · exact .inr ⟨hx ▸ hop.to_reflTransGen, hx ▸ .single hq⟩
        · exact ih.imp (fun h => h.tail (hsame p hp hx ▸ hq)) fun h => ⟨h.1, h.2.tail hq⟩
  exact (hwalk o h).2.imp_right fun h => h.2.trans_left h.1

namespace World

variable {w w' : World} {s : SlotId} {content : Slot}

/-- Taking references out of a slot makes no cycle. -/
theorem Acyclic.writeSlot (h : w.Acyclic)
    (hsub : ∀ o ∈ content.targets, o ∈ (w.slotAt s).targets) : (w.writeSlot s content).Acyclic := by
  intro o ho hcycle
  refine h o ho (hcycle.mono fun p q hq => ?_)
  obtain ⟨s', hs', hq⟩ := World.mem_out.mp hq
  refine World.mem_out.mpr ⟨s', hs', (mem_targets_writeSlot hq).elim id ?_⟩
  rintro ⟨rfl, hadded⟩
  exact hsub q hadded

/-- Every edge leads to an older object. -/
def descends (w : World) : Bool := (List.range w.objects.size).all fun p => (w.out p).all (· < p)

theorem acyclic_of_descends (h : w.descends = true) : w.Acyclic := by
  have hedge : ∀ p, ∀ q ∈ w.out p, q < p := by
    intro p q hq
    by_cases hp : p < w.objects.size
    · simpa using List.all_eq_true.mp (List.all_eq_true.mp h p (List.mem_range.mpr hp)) q hq
    · unfold out visits at hq
      rw [Array.getElem?_eq_none (Nat.le_of_not_lt hp)] at hq
      cases hq
  have hwalk : ∀ o q, Relation.TransGen (fun p q => q ∈ w.out p) o q → q < o := by
    intro o q hq
    induction hq with
    | single hq => exact hedge _ _ hq
    | tail _ hq ih => exact Nat.lt_trans (hedge _ _ hq) ih
  exact fun o _ hcycle => Nat.lt_irrefl o (hwalk o o hcycle)

/-- A write makes no cycle if there is none once it is over and its owner is still alive: a new cycle
leads through the owner, and all of it is alive as well. -/
theorem Acyclic.of_wanes {p : ObjId} {kept held : Multiset Holding} (h : w.Acyclic)
    (hslots : ((w.ledger 0 held).bind Holding.slots).Nodup)
    (hmatched : ∀ o, (w.valueAt o).Matched) (hguarded : (w.writeSlot s content).Guarded 0 held)
    (hwanes : (w.writeSlot s content).Wanes kept w') (hafter : w'.Acyclic)
    (hp : w'.isLive p = true) (hs : s ∈ (w.valueAt p).connectSlots) :
    (w.writeSlot s content).Acyclic := by
  intro o ho hcycle
  have hplive : w.isLive p = true := hwanes.live p hp
  have hthrough : OnCycle w.out o ∨ OnCycle (w.writeSlot s content).out p :=
    hcycle.through (P := fun q => (w.writeSlot s content).isLive q = true) ho
      (fun q hq c hc => hguarded.live_of_out hq hc)
      fun q hq hne => out_writeSlot_of_ne hmatched hslots hplive hq hs hne
  rcases hthrough with hold | hnew
  · exact h o ho hold
  · refine hafter p hp ?_
    have hwalk : ∀ q, Relation.TransGen (fun p q => q ∈ (w.writeSlot s content).out p) p q →
        w'.isLive q = true ∧ Relation.TransGen (fun p q => q ∈ w'.out p) p q := by
      intro q hq
      induction hq with
      | @single q hq =>
          rw [← hwanes.out_eq hp] at hq
          exact ⟨hwanes.guarded.live_of_out hp hq, .single hq⟩
      | @tail a q _ hq ih =>
          rw [← hwanes.out_eq ih.1] at hq
          exact ⟨hwanes.guarded.live_of_out ih.1 hq, ih.2.tail hq⟩
    exact (hwalk p hnew).2

end World

/-! ## What scans count -/

theorem scanOrphans_tallies_of_none {edges : ObjId → List ObjId} {r : RootId}
    {candidates : List ObjId} {ts : Tallies} (h : (scanOrphans edges r candidates ts).orphans = []) :
    (scanOrphans edges r candidates ts).tallies = ts := by
  rw [scanOrphans_eq] at h ⊢
  split at h
  next hempty => rw [if_pos hempty]
  next hempty => exact absurd (List.isEmpty_iff.mpr h) hempty

theorem World.orphansFound_stats (w : World) (g : HeapId) :
    (w.stats g).orphansFound = (w.countersAt g).orphansFound := by
  unfold stats countersAt
  cases w.heaps[g]? <;> rfl

/-- The heap `g` is there, and has found `n` orphans so far. -/
def World.HasFound (w : World) (g : HeapId) (n : Nat) : Prop :=
  ∃ heap : Heap, w.heaps[g]? = some heap ∧ heap.counters.orphansFound = n

theorem World.HasFound.modifyCounters {w : World} {g : HeapId} {n : Nat} (h : w.HasFound g n)
    {f : Counters → Counters} {k : Nat} (hf : ∀ c, (f c).orphansFound = c.orphansFound + k) :
    (w.modifyCounters g f).HasFound g (n + k) := by
  obtain ⟨heap, hheap, rfl⟩ := h
  refine ⟨{ heap with counters := f heap.counters }, ?_, hf heap.counters⟩
  rw [World.modifyCounters, modifyHeap, Array.getElem?_modify, if_pos rfl, hheap]
  rfl

namespace Locked

variable {g : HeapId} {s : Session} {n : Nat} (h : s.world.HasFound g n)

include h

/-- A scan counts what it finds. -/
theorem scan_found (r : RootId) (candidates : List ObjId) :
    Ends (scan g r candidates) s (fun _ s' =>
      s'.world.tallies = (scanOrphans s.world.out r candidates s.world.tallies).tallies ∧
        s'.world.HasFound g
          (n + (scanOrphans s.world.out r candidates s.world.tallies).orphans.length))
      fun _ _ => True := by
  unfold scan
  simp only [Ends.bind_iff, ends_update, ends_pass]
  rw [scanOrphans_counted]
  have hscanned := h.modifyCounters (k := 0)
    (f := fun c => { c with cycleScans := c.cycleScans + 1 }) fun _ => rfl
  by_cases hnone : (scanOrphans s.world.out r candidates s.world.tallies).orphans = []
  · rw [hnone]
    exact ⟨rfl, hscanned⟩
  · rw [if_neg (by simpa using hnone)]
    simp only [Ends.bind_iff, ends_note, ends_update, ends_suspect]
    split
    · trivial
    · have hcounted := hscanned.modifyCounters
        (k := (scanOrphans s.world.out r candidates s.world.tallies).orphans.length)
        (f := fun c => { c with orphansFound := c.orphansFound + _ }) fun _ => rfl
      exact ⟨rfl, hcounted⟩

/-- A disconnect that counts no orphan leaves the tallies as its cascade left them. -/
theorem disconnect_found (r : RootId) (t : ObjId) :
    Ends (disconnect g r t) s (fun _ s' => ∃ k, s'.world.HasFound g (n + k) ∧
      (k = 0 → s'.world.tallies = (cascade s.world.back r t s.world.tallies).tallies))
      fun _ _ => True := by
  unfold disconnect
  simp only [Ends.bind_iff, ends_update, ends_pass, ends_suspect]
  rw [cascade_counted]
  have hbegun := h.modifyCounters (k := 0)
    (f := fun c => { c with disconnectPasses := c.disconnectPasses + 1 }) fun _ => rfl
  cases (cascade s.world.back r t s.world.tallies).unreached with
  | some o => trivial
  | none =>
      dsimp only
      by_cases hcand : (cascade s.world.back r t s.world.tallies).candidates.isEmpty = true
      · rw [if_pos hcand]
        exact ⟨0, hbegun, fun _ => rfl⟩
      · rw [if_neg hcand]
        refine (scan_found (n := n) ?_ r _).mono ?_ fun _ _ hf => hf
        · exact hbegun
        rintro _ s' ⟨htallies, hfound⟩
        refine ⟨_, hfound, fun hnone => ?_⟩
        rw [htallies, scanOrphans_tallies_of_none (List.length_eq_zero_iff.mp hnone)]

end Locked

/-- A disconnect takes no count back, and if it counts nothing, its cascade alone decides the tallies. -/
theorem Locked.disconnect_stats {g : HeapId} {s : Session} (hg : g < s.world.heaps.size) (r : RootId)
    (t : ObjId) :
    Ends (disconnect g r t) s (fun _ s' =>
      (s.world.stats g).orphansFound ≤ (s'.world.stats g).orphansFound ∧
        ((s'.world.stats g).orphansFound = (s.world.stats g).orphansFound →
          s'.world.tallies = (cascade s.world.back r t s.world.tallies).tallies))
      fun _ _ => True := by
  have hheap := Array.getElem?_eq_getElem hg
  refine (disconnect_found ⟨_, hheap, rfl⟩ r t).mono ?_ fun _ _ hf => hf
  rintro _ s' ⟨k, ⟨heap, hheap', hfound⟩, hcascade⟩
  rw [World.orphansFound_stats, World.orphansFound_stats, World.countersAt_eq hheap,
    World.countersAt_eq hheap', hfound]
  exact ⟨Nat.le_add_right _ _, fun hsame => hcascade (by omega)⟩

/-! ## Sessions that take edges away -/

section Sessions

variable {c : Client} {a : Handle} {s : SlotId}

open World Counters

/-- What is counted while a slot is rewritten, or a root redirected, is counted from the world as it
was. -/
theorem World.Barren.ticks_of_eq {w v w' : World} (h : v.Barren w') (hacyclic : v.Acyclic)
    (hsame : v.countersAt = w.countersAt) : w.Ticks SameOrphans w' := by
  intro g
  have hticks := h hacyclic g
  rwa [hsame] at hticks

/-- The session of a handle that is issued counts from the world as it was written. -/
theorem Session.Issues.ticks {g : HeapId} {w : World} {t : ObjId} {us : List ObjId}
    {todo : Multiset Task} {held : Multiset Holding} {owed : HeapId → ℤ} {s' : Session}
    (h : s'.Issues g w t us todo held owed) (hacyclic : w.Acyclic) :
    w.Ticks SameOrphans s'.world :=
  h.sound.barren.ticks_of_eq hacyclic (countersAt_modifyHeap w g fun _ => rfl)

namespace Call

/-- A call that was refused has no result. -/
theorem ne_ok_of_refuse {b : Breach} {w w' : World} {call : Call} {r : Receipt}
    (hstart : call.start = refuse a b) : call.run w ≠ .ok r w' := by
  have hrefused : Ends call.run w (fun _ _ => False) fun _ _ => True := by
    rw [run_eq_start, hstart]
    trivial
  exact fun hrun => hrefused.of_ok hrun

/-- A session that takes something out of a slot, or does nothing to it. -/
theorem run_ticks_of_takes {α : Type} {call : Call} {op : Locked α} {give : α → Receipt}
    (hstart : call.start = session a.heap op give)
    (hreported : s ∈ (c.world.valueAt a.obj).connectSlots →
      Ends op ⟨c.world, []⟩ (fun _ s' => c.world.Ticks SameOrphans s'.world) fun _ _ => True)
    (hrefused : s ∉ (c.world.valueAt a.obj).connectSlots →
      Ends op ⟨c.world, []⟩ (fun _ _ => False) fun _ _ => True) :
    Ends call.run c.world (fun _ w => c.world.Ticks SameOrphans w) fun _ _ => True := by
  refine run_ticks_of_session waxing_sameOrphans.toWaning (congrFun hstart c.world) ?_
  by_cases hs : s ∈ (c.world.valueAt a.obj).connectSlots
  · exact hreported hs
  · exact (hrefused hs).mono (fun _ _ hf => hf.elim) fun _ _ _ => trivial

variable (h : c.Sound) (hrest : c.AtRest)

include h hrest

/-- Moving a root to another object leaves the graph as it is. -/
theorem assign_ticks {b : Handle} (ha : .root a ∈ c.held) (hb : c.Sees (.root b))
    (hacyclic : c.world.Acyclic) :
    Ends (assign a b).run c.world (fun _ w => c.world.Ticks SameOrphans w) fun _ _ => True := by
  by_cases hobj : a.obj = b.obj
  · rw [run_eq_start, start_assign_same hobj]
    exact ((finish_ticks waxing_sameOrphans.toWaning _ _).ends c.world).mono (fun _ _ h => h)
      fun _ _ _ => trivial
  · by_cases hheap : a.heap = b.heap
    · obtain ⟨rest, hheld⟩ := Multiset.exists_cons_of_mem ha
      obtain ⟨hlive, hown⟩ := h.orderly.handle hb
      have hsteady := h.steady hrest
      rw [hheld] at hsteady
      refine run_ticks_of_session waxing_sameOrphans.toWaning
        (congrFun (start_assign hobj hheap) c.world) ?_
      unfold Handle.rebind
      rw [Ends.bind_iff, Locked.ends_update]
      have hretained := Locked.retain_sound (hsteady.settled a.heap) hlive
      obtain ⟨roots, hsheds⟩ := Locked.retarget_sheds hretained hlive (hheap ▸ hown)
      refine hsheds.mono (fun _ s' hs => ?_) fun _ _ _ => trivial
      exact hs.sound.barren.ticks_of_eq hacyclic (countersAt_modifyHeap c.world a.heap fun _ => rfl)
    · unfold Ends
      cases hrun : (assign a b).run c.world with
      | ok r w => exact absurd hrun (ne_ok_of_refuse (start_assign_foreign hobj hheap))
      | error => trivial

section Takes

variable (ha : c.Sees (.root a)) (hacyclic : c.world.Acyclic)

include ha hacyclic

theorem takeField_ticks (hs : c.SeesField s) :
    Ends (takeField a s).run c.world (fun _ w => c.world.Ticks SameOrphans w) fun _ _ => True := by
  have hsettled := (h.steady hrest).settled a.heap
  obtain ⟨old, hslot⟩ := hs.2
  have hstart : (takeField a s).start =
      session a.heap (a.unloadField s) fun found => { handles := found.toList } := rfl
  refine run_ticks_of_takes (s := s) hstart (fun hreported => ?_) fun hnot => ?_
  · cases old with
    | none =>
        refine (Handle.unloadField_null (s := ⟨c.world, []⟩) hreported hslot).mono ?_
          fun _ _ _ => trivial
        rintro _ _ ⟨-, rfl⟩
        exact fun _ => rfl
    | some o =>
        refine (Handle.unloadField_returns hsettled (h.reports hrest ha hreported).mem hreported
          hslot).mono (fun _ _ hs => ?_) fun _ _ _ => trivial
        exact hs.2.ticks (hacyclic.writeSlot (by simp [Slot.targets]))
  · exact (Locked.verifySlot_refused hsettled hnot).mono (fun _ _ hf => hf) fun _ _ _ => trivial

theorem removeItem_ticks (hs : c.SeesList s) (index : Nat) :
    Ends (removeItem a s index).run c.world (fun _ w => c.world.Ticks SameOrphans w)
      fun _ _ => True := by
  have hsettled := (h.steady hrest).settled a.heap
  obtain ⟨items, hslot⟩ := hs.2
  have hstart : (removeItem a s index).start =
      session a.heap (a.removeAt s index) fun b => { handles := [b] } := rfl
  refine run_ticks_of_takes (s := s) hstart (fun hreported => ?_) fun hnot => ?_
  · cases hitem : items[index]? with
    | none =>
        exact (Handle.removeAt_refused hsettled hslot hitem).mono (fun _ _ hf => hf)
          fun _ _ _ => trivial
    | some o =>
        refine (Handle.removeAt_returns hsettled (h.reports hrest ha hreported).mem hreported hslot
          hitem).mono (fun _ _ hs => hs.2.ticks (hacyclic.writeSlot fun q hq => ?_))
          fun _ _ _ => trivial
        rw [hslot]
        exact List.mem_of_mem_eraseIdx hq
  · exact (Locked.verifySlot_refused hsettled hnot).mono (fun _ _ hf => hf) fun _ _ _ => trivial

theorem popItem_ticks (hs : c.SeesList s) :
    Ends (popItem a s).run c.world (fun _ w => c.world.Ticks SameOrphans w) fun _ _ => True := by
  have hsettled := (h.steady hrest).settled a.heap
  obtain ⟨items, hslot⟩ := hs.2
  have hstart : (popItem a s).start =
      session a.heap (a.removeLast s) fun found => { handles := found.toList } := rfl
  refine run_ticks_of_takes (s := s) hstart (fun hreported => ?_) fun hnot => ?_
  · rcases List.eq_nil_or_concat items with rfl | ⟨rest, o, rfl⟩
    · refine (Handle.removeLast_empty (s := ⟨c.world, []⟩) hreported hslot).mono ?_
        fun _ _ _ => trivial
      rintro _ _ ⟨-, rfl⟩
      exact fun _ => rfl
    · rw [List.concat_eq_append] at hslot
      refine (Handle.removeLast_returns hsettled (h.reports hrest ha hreported).mem hreported
        hslot).mono (fun _ _ hs => hs.2.ticks (hacyclic.writeSlot fun q hq => ?_)) fun _ _ _ => trivial
      rw [hslot]
      exact List.mem_append_left [o] hq
  · exact (Locked.verifySlot_refused hsettled hnot).mono (fun _ _ hf => hf) fun _ _ _ => trivial

theorem clearItems_ticks (hs : c.SeesList s) :
    Ends (clearItems a s).run c.world (fun _ w => c.world.Ticks SameOrphans w) fun _ _ => True := by
  have hsettled := (h.steady hrest).settled a.heap
  obtain ⟨items, hslot⟩ := hs.2
  have hstart : (clearItems a s).start = session a.heap (a.removeAll s) fun _ => {} := rfl
  refine run_ticks_of_takes (s := s) hstart (fun hreported => ?_) fun hnot => ?_
  · refine (Handle.removeAll_returns hsettled (h.reports hrest ha hreported).mem hreported
      hslot).mono (fun _ _ hs => ?_) fun _ _ _ => trivial
    exact hs.barren.ticks_of_eq (hacyclic.writeSlot (by simp [Slot.targets])) rfl
  · exact (Locked.verifySlot_refused hsettled hnot).mono (fun _ _ hf => hf) fun _ _ _ => trivial

end Takes

/-- A write, provided that there is no cycle once it is over. -/
theorem run_ticks_of_write {call : Call} {op : Locked Unit} {content : Slot} {r : Receipt}
    {w : World} (ha : c.Sees (.root a)) (hreported : s ∈ (c.world.valueAt a.obj).connectSlots)
    (hstart : call.start = session a.heap op fun _ => {})
    (hop : Ends op ⟨c.world, []⟩ (fun _ s' => s'.Sound a.heap (c.world.writeSlot s content)
      (c.world.writeSlot s content).support 0 c.held (dues 0 c.heaps [])) fun _ _ => False)
    (hwanes : (c.world.writeSlot s content).Wanes c.held w)
    (hsound : Client.Sound ⟨w, c.held, c.heaps, [], []⟩)
    (hacyclic : c.world.Acyclic) (hafter : w.Acyclic) (hrun : call.run c.world = .ok r w) :
    c.world.Ticks SameOrphans w := by
  have hsteady := h.steady hrest
  obtain ⟨_, s', -, hwritten⟩ := hop.exists_ok
  have hlive := (hsound.orderly.handle (ha.mono (le_refl c.held) fun b _ =>
    congrFun hwanes.value b.obj)).1
  have hnone := hacyclic.of_wanes hsteady.accounted.slots_nodup hsteady.guarded.matched
    hwritten.sound.guarded hwanes hafter hlive hreported
  refine (run_ticks_of_session waxing_sameOrphans.toWaning (congrFun hstart c.world) ?_).of_ok hrun
  exact hop.mono (fun _ _ hs => hs.barren.ticks_of_eq hnone rfl) fun _ _ hf => hf.elim

theorem setField_ticks {target : Option Handle} {r : Receipt} {w : World}
    (ha : c.Sees (.root a)) (hs : c.SeesField s) (htarget : ∀ b ∈ target, c.Sees (.root b))
    (hacyclic : c.world.Acyclic) (hafter : w.Acyclic)
    (hrun : (setField a s target).run c.world = .ok r w) : c.world.Ticks SameOrphans w := by
  have hsettled := (h.steady hrest).settled a.heap
  obtain ⟨old, hslot⟩ := hs.2
  by_cases haccepts : a.accepts target = true
  · have hstart := start_setField (s := s) haccepts
    have hheap : ∀ b ∈ target, b.heap = a.heap := by
      rintro b ⟨⟩
      exact of_decide_eq_true haccepts
    by_cases hreported : s ∈ (c.world.valueAt a.obj).connectSlots
    · obtain ⟨w', hstore, hsound, hwanes⟩ := h.store_field hrest ha hreported hslot
        fun b hb => ⟨htarget b hb, hheap b hb⟩
      have hcall : (setField a s target).run c.world = .ok {} w' := bind_of_ok hstore
      obtain ⟨-, rfl⟩ := EStateM.Result.ok.inj (hcall.symm.trans hrun)
      have hstored : ∀ o ∈ target.map Handle.obj, c.world.isLive o = true ∧
          c.world.owns a.heap o = true := by
        intro o ho
        obtain ⟨b, hb, rfl⟩ := Option.map_eq_some_iff.mp ho
        obtain ⟨hlive, hown⟩ := h.orderly.handle (htarget b hb)
        exact ⟨hlive, hheap b hb ▸ hown⟩
      have hop := Handle.storeField_returns hsettled (h.reports hrest ha hreported).mem hreported
        hslot hstored
      exact run_ticks_of_write h hrest ha hreported hstart
        (hop.mono (fun _ _ hs => hs.1) fun _ _ hf => hf) hwanes hsound hacyclic hafter hrun
    · refine (run_ticks_of_session waxing_sameOrphans.toWaning (congrFun hstart c.world) ?_).of_ok hrun
      exact (Locked.verifySlot_refused hsettled hreported).mono (fun _ _ hf => hf)
        fun _ _ _ => trivial
  · exact absurd hrun (ne_ok_of_refuse (start_setField_foreign haccepts))

theorem setItem_ticks {index : Nat} {item : Handle} {r : Receipt} {w : World}
    (ha : c.Sees (.root a)) (hs : c.SeesList s) (hitem : c.Sees (.root item))
    (hacyclic : c.world.Acyclic) (hafter : w.Acyclic)
    (hrun : (setItem a s index item).run c.world = .ok r w) : c.world.Ticks SameOrphans w := by
  have hsettled := (h.steady hrest).settled a.heap
  obtain ⟨items, hslot⟩ := hs.2
  by_cases hheap : item.heap = a.heap
  · have hstart : (setItem a s index item).start =
        session a.heap (a.replace s index item.obj) fun _ => {} := if_pos hheap
    have hnone (hop : Ends (a.replace s index item.obj) ⟨c.world, []⟩
        (fun _ s' => c.world.Ticks SameOrphans s'.world) fun _ _ => True) :
        c.world.Ticks SameOrphans w :=
      (run_ticks_of_session waxing_sameOrphans.toWaning (congrFun hstart c.world) hop).of_ok hrun
    by_cases hreported : s ∈ (c.world.valueAt a.obj).connectSlots
    · cases hold : items[index]? with
      | none =>
          exact hnone ((Handle.replace_refused hsettled hslot hold).mono (fun _ _ hf => hf)
            fun _ _ _ => trivial)
      | some old =>
          obtain ⟨w', hstore, hsound, hwanes⟩ :=
            h.replace_item hrest ha hreported hslot hold hitem hheap
          have hcall : (setItem a s index item).run c.world = .ok {} w' := bind_of_ok hstore
          obtain ⟨-, rfl⟩ := EStateM.Result.ok.inj (hcall.symm.trans hrun)
          obtain ⟨hlive, hown⟩ := h.orderly.handle hitem
          have hop := Handle.replace_returns hsettled (h.reports hrest ha hreported).mem hreported
            hslot hold hlive (hheap ▸ hown)
          exact run_ticks_of_write h hrest ha hreported hstart
            (hop.mono (fun _ _ hs => hs.sound) fun _ _ hf => hf) hwanes hsound hacyclic hafter hrun
    · exact hnone ((Locked.verifySlot_refused hsettled hreported).mono (fun _ _ hf => hf)
        fun _ _ _ => trivial)
  · have hstart : (setItem a s index item).start = refuse a .foreignStore := if_neg hheap
    exact absurd hrun (ne_ok_of_refuse hstart)

/-- A call between two worlds without cycles finds no orphan. -/
theorem run_sameOrphans {call : Call} {r : Receipt} {w : World} (hallowed : call.Allowed c)
    (hacyclic : c.world.Acyclic) (hafter : w.Acyclic) (hrun : call.run c.world = .ok r w) :
    c.world.Ticks SameOrphans w := by
  by_cases hdetaches : call.Detaches
  · cases call with
    | assign a b => exact (assign_ticks h hrest hallowed.1 hallowed.2 hacyclic).of_ok hrun
    | setField a s target =>
        exact setField_ticks h hrest hallowed.1 hallowed.2.1 hallowed.2.2 hacyclic hafter hrun
    | takeField a s => exact (takeField_ticks h hrest hallowed.1 hacyclic hallowed.2).of_ok hrun
    | setItem a s index item =>
        exact setItem_ticks h hrest hallowed.1 hallowed.2.1 hallowed.2.2 hacyclic hafter hrun
    | removeItem a s index =>
        exact (removeItem_ticks h hrest hallowed.1 hacyclic hallowed.2 index).of_ok hrun
    | popItem a s => exact (popItem_ticks h hrest hallowed.1 hacyclic hallowed.2).of_ok hrun
    | clearItems a s => exact (clearItems_ticks h hrest hallowed.1 hacyclic hallowed.2).of_ok hrun
    | _ => exact absurd hdetaches id
  · exact (Call.run_ticks waxing_sameOrphans hdetaches).of_ok hrun

end Call

end Sessions

/-! ## Runs -/

/-- The states, between calls, of a client that behaves well and whose calls all leave a graph without
cycles. A call that fails does so in a check that comes before anything else. -/
inductive Client.Layered : Client → Prop
  | start : Layered {}
  | ran {c : Client} {call : Call} {r : Receipt} {w : World} (h : Layered c)
      (hallowed : call.Allowed c) (hrun : call.run c.world = .ok r w) (hacyclic : w.Acyclic) :
      Layered (c.after call r w)
  | refused {c : Client} {call : Call} {f : Fault} {w : World} (h : Layered c)
      (hallowed : call.Allowed c) (hrun : call.run c.world = .error f w) (hf : f.upFront = true)
      (hacyclic : w.Acyclic) : Layered { c with world := w }

namespace Client

variable {c : Client}

theorem Layered.reached (h : c.Layered) : c.Reached ∧ c.AtRest := by
  induction h with
  | start => exact ⟨.start, rfl, rfl⟩
  | ran _ hallowed hrun _ ih => exact ⟨.ran ih.1 ih.2 hallowed hrun, rfl, rfl⟩
  | refused _ hallowed hrun hf _ ih => exact ⟨.refused ih.1 ih.2 hallowed hrun hf, ih.2⟩

theorem Layered.acyclic (h : c.Layered) : c.world.Acyclic := by
  cases h with
  | start =>
      intro o ho
      simp [World.isLive] at ho
  | ran _ _ _ hacyclic => exact hacyclic
  | refused _ _ _ _ hacyclic => exact hacyclic

/-- However many scans ran, they found no orphan. In any session, a disconnect that counts no orphan
leaves the tallies as its counting cascade left them, and none takes a count back. So where no call
leaves a cycle, every tag is removed by the cascades alone. -/
theorem Layered.orphansFound_eq_zero (h : c.Layered) (g : HeapId) :
    (c.world.stats g).orphansFound = 0 ∧
      ∀ (s : Session) (r : RootId) (t : ObjId), g < s.world.heaps.size →
        Ends (Locked.disconnect g r t) s (fun _ s' =>
          (s.world.stats g).orphansFound ≤ (s'.world.stats g).orphansFound ∧
            ((s'.world.stats g).orphansFound = (s.world.stats g).orphansFound →
              s'.world.tallies = (cascade s.world.back r t s.world.tallies).tallies))
          fun _ _ => True := by
  refine ⟨?_, fun s r t hg => Locked.disconnect_stats hg r t⟩
  rw [World.orphansFound_stats]
  induction h with
  | start => simp [World.countersAt]
  | @ran c call r w hlayered hallowed hrun hacyclic ih =>
      have hreached := hlayered.reached
      have hsame := Call.run_sameOrphans hreached.1.sound hreached.2 hallowed hlayered.acyclic
        hacyclic hrun
      exact (hsame g).trans ih
  | @refused c call f w hlayered hallowed hrun hf hacyclic ih =>
      have hreported := ((Call.run_refuses call c.world).of_error hrun).2 hf
      have hheaps : w.heaps = c.world.heaps := by
        rw [hreported]
        rfl
      rw [World.countersAt_congr hheaps]
      exact ih

/-! ### A list that is cleared -/

/-- An owner whose list has a leaf twice. -/
def twofold : Client :=
  (lone.call (.newList [⟨0, 1, 0⟩, ⟨0, 1, 0⟩])).call (.alloc 0 "owner" (.slot 0))

theorem Layered.call {call : Call} (h : c.Layered) (hallowed : call.Allowed c)
    (haccepts : c.accepts call = true) (hdescends : (c.call call).world.descends = true) :
    (c.call call).Layered := by
  have hacyclic := World.acyclic_of_descends hdescends
  unfold Client.accepts at haccepts
  unfold Client.call at hacyclic ⊢
  cases hrun : call.run c.world with
  | ok r w =>
      rw [hrun] at hacyclic
      exact .ran h hallowed hrun hacyclic
  | error f w =>
      rw [hrun] at haccepts
      cases haccepts

theorem twofold_layered : twofold.Layered := by
  have hheaps : (lone.call (.newList [⟨0, 1, 0⟩, ⟨0, 1, 0⟩])).heaps = {0} := by cbv
  have hleaf : lone.held = {.root ⟨0, 1, 0⟩} := by cbv
  have hlist : (lone.call (.newList [⟨0, 1, 0⟩, ⟨0, 1, 0⟩])).held =
      {.slot 0, .root ⟨0, 1, 0⟩} := by cbv
  refine Layered.call (Layered.call (Layered.call (Layered.call .start rfl (by cbv) (by cbv))
    leaf_allowed (by cbv) (by cbv)) (fun b hb => .held ?_) (by cbv) (by cbv))
    ⟨?_, by decide, ?_⟩ (by cbv) (by cbv)
  · obtain rfl : b = ⟨0, 1, 0⟩ := by simpa using hb
    exact hleaf ▸ Multiset.mem_singleton_self _
  · exact hheaps ▸ Multiset.mem_singleton_self 0
  · exact hlist ▸ Multiset.singleton_le.mpr (Multiset.mem_cons_self _ _)

theorem clear_allowed : (Call.clearItems ⟨1, 2, 0⟩ 0).Allowed twofold := by
  have hheld : twofold.held = {.root ⟨1, 2, 0⟩, .root ⟨0, 1, 0⟩} := by cbv
  have hvalue : twofold.world.valueAt 1 = .slot 0 := by cbv
  have hslot : twofold.world.slotAt 0 = .many [0, 0] := by cbv
  have hsees : twofold.Sees (.root ⟨1, 2, 0⟩) := .held (hheld ▸ Multiset.mem_cons_self _ _)
  refine ⟨hsees, .within hsees ?_, _, hslot⟩
  rw [hvalue]
  exact List.mem_singleton_self _

/-- The owner's list was cleared. -/
def cleared : Client := twofold.call (.clearItems ⟨1, 2, 0⟩ 0)

/-- Clearing the list scanned once for orphans, and found none. A disconnect of the leaf's root that
finds none either would leave what its cascade leaves. -/
theorem twofold_orphansFound :
    cleared.Layered ∧ (cleared.world.stats 0).cycleScans = 1 ∧
      (cleared.world.stats 0).orphansFound = 0 ∧
      Ends (Locked.disconnect 0 1 0) ⟨cleared.world, []⟩ (fun _ s' =>
        (s'.world.stats 0).orphansFound = 0 →
          s'.world.tallies = (cascade cleared.world.back 1 0 cleared.world.tallies).tallies)
        fun _ _ => True := by
  have hlayered : cleared.Layered := twofold_layered.call clear_allowed (by cbv) (by cbv)
  obtain ⟨hnone, hcascades⟩ := hlayered.orphansFound_eq_zero 0
  refine ⟨hlayered, by cbv, hnone, ?_⟩
  refine (hcascades ⟨cleared.world, []⟩ 1 0 (by cbv)).mono ?_ fun _ _ h => h
  rintro _ s' ⟨-, hcascade⟩
  exact fun hzero => hcascade (hzero.trans hnone.symm)

end Client

end RootedHeap
