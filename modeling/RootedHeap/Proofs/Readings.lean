import RootedHeap.Proofs.Assignment
import RootedHeap.Proofs.Operations
import RootedHeap.Proofs.Taking

/-! # Operations that suspect nothing

Allocating, copying a handle, reading a field and filling an empty one give nothing up, so nothing is
collected at their end. What such an operation leaves is told in full: the objects, the slots, and what
its heap has counted (`Session.Stands`).
-/

namespace RootedHeap

open World

variable {α : Type} {g : HeapId} {c c' : Counters} {w w' : World} {s : Session}

/-! ## What is counted -/

namespace Counters

/-- `n` more edges were counted. -/
def linked (c : Counters) (n : Nat) : Counters := { c with connectPasses := c.connectPasses + n }

/-- One more root was acquired, and connected. -/
def rooted (c : Counters) : Counters := { c.linked 1 with rootsAcquired := c.rootsAcquired + 1 }

/-- One more object was allocated, and rooted. -/
def allocated (c : Counters) : Counters := { c.rooted with allocations := c.allocations + 1 }

/-- One more root was released. -/
def released (c : Counters) : Counters := { c with rootsReleased := c.rootsReleased + 1 }

/-- An operation ended with `n` objects to collect. -/
def emptied (c : Counters) (n : Nat) : Counters :=
  if n = 0 then c
  else { c with collected := c.collected + n, collections := c.collections + 1 }

end Counters

namespace World

/-- Heap `g` is there, and has counted `c`. -/
def Reads (w : World) (g : HeapId) (c : Counters) : Prop :=
  ∃ heap, w.heaps[g]? = some heap ∧ heap.counters = c

theorem Reads.countersAt (h : w.Reads g c) : w.countersAt g = c := by
  obtain ⟨heap, hheap, rfl⟩ := h
  exact countersAt_eq hheap

theorem Reads.modifyHeap (h : w.Reads g c) {f : Heap → Heap}
    (hf : ∀ heap : Heap, heap.counters = c → (f heap).counters = c') :
    (w.modifyHeap g f).Reads g c' := by
  obtain ⟨heap, hheap, hc⟩ := h
  refine ⟨f heap, ?_, hf heap hc⟩
  rw [heaps_modifyHeap, hheap]
  simp

theorem Reads.count (h : w.Reads g c) (f : Counters → Counters) :
    (w.modifyCounters g f).Reads g (f c) :=
  h.modifyHeap fun _ hc => congrArg f hc

theorem Reads.enter (h : w.Reads g c) (g' : HeapId) : (w.enter g').Reads g c := by
  obtain ⟨heap, hheap, hc⟩ := h
  refine ⟨if g = g' then { heap with holders := heap.holders + 1 } else heap, ?_, ?_⟩
  · rw [World.enter, heaps_modifyHeap, hheap, Option.map_some]
  · split <;> exact hc

end World

/-- The session has suspected nothing so far; its world has the objects and slots of `w`, and heap `g`
has counted `c`. -/
structure Session.Stands (g : HeapId) (c : Counters) (w : World) (s : Session) : Prop where
  unrooted : s.unrooted = []
  objects : s.world.objects = w.objects
  slots : s.world.slots = w.slots
  reads : s.world.Reads g c

/-! ## Sessions -/

/-- One more reference to `t` is one more to the world that the session stands for. -/
theorem Session.Stands.retain (h : s.Stands g c w) (t : ObjId) :
    Session.Stands g c (w.retain t) { s with world := s.world.retain t } := by
  refine ⟨h.unrooted, ?_, h.slots, h.reads⟩
  simp only [World.retain, modifyObject, h.objects]

namespace Locked

theorem connect_stands (h : s.Stands g c w) (r : RootId) (t : ObjId) :
    Ends (connect g r t) s (fun _ s' => s'.Stands g (c.linked 1) w) fun _ _ => True := by
  unfold connect
  simp only [Ends.bind_iff, ends_update, ends_pass]
  split
  · have hcounted := h.reads.count fun c => { c with connectPasses := c.connectPasses + 1 }
    exact ⟨h.unrooted, h.objects, h.slots, hcounted⟩
  · trivial

theorem acquireRoot_stands (h : s.Stands g c w) (t : ObjId) :
    Ends (acquireRoot g t) s (fun _ s' => s'.Stands g c.rooted w) fun _ _ => True := by
  obtain ⟨heap, hheap, -⟩ := h.reads
  unfold acquireRoot
  simp only [Ends.bind_iff, ends_look, hheap, ends_update, ends_note, Ends.pure_iff]
  refine connect_stands (c := { c with rootsAcquired := c.rootsAcquired + 1 }) ?_ _ t
  exact ⟨h.unrooted, h.objects, h.slots, h.reads.modifyHeap fun heap hc => by rw [hc]⟩

theorem newHandle_stands (h : s.Stands g c w) (t : ObjId) :
    Ends (newHandle g t) s (fun _ s' => s'.Stands g c.rooted (w.retain t)) fun _ _ => True := by
  unfold newHandle
  rw [Ends.bind_iff, ends_update]
  exact Ends.bind (acquireRoot_stands (h.retain t) t) fun _ _ hs => hs

theorem enroll_stands (h : s.Stands g c w) (o : ObjId) (n : String) :
    Ends (enroll g o n) s (fun _ s' => s'.Stands g c.allocated w) fun _ _ => True := by
  unfold enroll
  simp only [Ends.bind_iff, ends_update, ends_note]
  refine acquireRoot_stands (c := { c with allocations := c.allocations + 1 }) ?_ o
  exact ⟨h.unrooted, h.objects, h.slots, h.reads.modifyHeap fun heap hc => by rw [hc]⟩

theorem attach_stands (h : s.Stands g c w) (roots : List RootId) (t : ObjId) :
    Ends (attach g roots t) s (fun _ s' => s'.Stands g (c.linked roots.length) w)
      fun _ _ => True := by
  unfold attach
  induction roots generalizing s c with
  | nil => exact h
  | cons r roots ih =>
      refine Ends.bind (connect_stands h r t) fun _ s' hs => (ih hs).mono (fun _ s'' hs' => ?_)
        fun _ _ hf => hf
      have hsum : (c.linked 1).linked roots.length = c.linked (roots.length + 1) := by
        simp [Counters.linked]
        omega
      rwa [hsum] at hs'

theorem gain_stands (h : s.Stands g c w) (roots : List RootId) (t : ObjId) :
    Ends (gain g roots t) s (fun _ s' => s'.Stands g (c.linked roots.length) (w.retain t))
      fun _ _ => True := by
  unfold gain
  rw [Ends.bind_iff, ends_update]
  exact attach_stands (h.retain t) roots t

end Locked

namespace Handle

variable {a : Handle} {sl : SlotId}

theorem readField_stands {o : ObjId} (h : s.Stands a.heap c w)
    (hslot : w.slotAt sl = .one (some o)) :
    Ends (a.readField sl) s (fun _ s' => s'.Stands a.heap c.rooted (w.retain o)) fun _ _ => True := by
  have hfield : s.world.fieldAt sl = some o := by
    rw [fieldAt, slotAt, h.slots, ← slotAt, hslot]
  unfold readField
  rw [Ends.bind_iff, Locked.ends_look, hfield]
  exact Ends.map_iff.mpr (Locked.newHandle_stands h o)

/-- Each root of the owner comes to count the new edge. -/
theorem storeField_stands {t : ObjId} (h : s.Stands a.heap c w) (hslot : w.slotAt sl = .one none) :
    Ends (a.storeField sl (some t)) s (fun _ s' =>
      s'.Stands a.heap (c.linked (s.world.tallies[a.obj]?.getD .empty).roots.length)
        ((w.retain t).writeSlot sl (.one (some t)))) fun _ _ => True := by
  unfold storeField Locked.verifySlot
  simp only [bind_assoc, Ends.bind_iff, Locked.ends_look]
  split
  · trivial
  · simp only [Ends.pure_iff, Locked.rootsOf, Locked.ends_look]
    refine (Locked.gain_stands h _ t).mono (fun _ s' hs => ?_) fun _ _ _ => trivial
    have hat : s'.world.slotAt sl = .one none := by
      rw [slotAt, hs.slots]
      exact hslot
    have hfield : s'.world.fieldAt sl = none := by
      unfold World.fieldAt
      rw [hat]
    rw [hfield]
    exact ⟨hs.unrooted, hs.objects, congrArg (·.setIfInBounds sl (.one (some t))) hs.slots, hs.reads⟩

end Handle

/-! ## Operations -/

/-- A session that has suspected nothing is over when it ends. -/
theorem run_of_unsuspecting {op : Locked α} {a : α} (hop : op ⟨w, []⟩ = .ok a s)
    (hnone : s.unrooted = []) : run g op w = .ok a s.world := by
  have hlocked : locked g op w = .ok (a, []) s.world := by
    unfold locked reclaim
    rw [hop]
    simp [hnone]
  exact Call.run_of_locked hlocked (congrFun settle_nil _)

theorem Ends.run {op : Locked α} {Q : α → World → Prop}
    (h : Ends op ⟨w, []⟩ (fun a s => s.unrooted = [] ∧ Q a s.world) fun _ _ => True) :
    Ends (run g op) w Q fun _ _ => True := by
  unfold Ends at h ⊢
  cases hop : op ⟨w, []⟩ with
  | ok a s =>
      rw [hop] at h
      rw [run_of_unsuspecting hop h.1]
      exact h.2
  | error f s =>
      have hlocked : RootedHeap.locked g op w = .error f s.world := by
        rw [RootedHeap.locked, hop]
      rw [Call.run_of_fault hlocked]
      trivial

namespace Handle

variable {a : Handle} {sl : SlotId}

theorem clone_reads (h : w.Reads a.heap c) :
    Ends a.clone w (fun _ w' => w'.Reads a.heap c.rooted) fun _ _ => True := by
  have hsession := Locked.newHandle_stands (s := ⟨w, []⟩) ⟨rfl, rfl, rfl, h⟩ a.obj
  exact Ends.bind (Ends.run (hsession.mono (fun _ _ hs => ⟨hs.unrooted, hs.reads⟩) fun _ _ => id))
    fun b _ hw => World.Reads.enter hw b.heap

theorem getField_reads {o : ObjId} (h : w.Reads a.heap c) (hslot : w.slotAt sl = .one (some o)) :
    Ends (a.getField sl) w (fun _ w' => w'.Reads a.heap c.rooted) fun _ _ => True := by
  have hsession := readField_stands (s := ⟨w, []⟩) ⟨rfl, rfl, rfl, h⟩ hslot
  refine Ends.bind (Q := fun _ w' => w'.Reads a.heap c.rooted)
    (Ends.run (hsession.mono (fun _ _ hs => ⟨hs.unrooted, hs.reads⟩) fun _ _ => id)) fun found _ hw => ?_
  cases found with
  | none => exact hw
  | some b => exact hw.enter b.heap

theorem setField_reads {b : Handle} (h : w.Reads a.heap c) (hslot : w.slotAt sl = .one none) :
    Ends (a.setField sl (some b)) w (fun _ w' =>
      w'.Reads a.heap (c.linked (w.tallies[a.obj]?.getD .empty).roots.length)) fun _ _ => True := by
  have hsession := storeField_stands (s := ⟨w, []⟩) (t := b.obj) ⟨rfl, rfl, rfl, h⟩ hslot
  unfold setField
  split
  · exact Ends.run (hsession.mono (fun _ _ hs => ⟨hs.unrooted, hs.reads⟩) fun _ _ => id)
  · trivial

end Handle

/-! ## Giving a handle up -/

namespace Locked

theorem stripRoot_reads (h : s.world.Reads g c) (r : RootId) (t : ObjId) :
    Ends (stripRoot r t) s (fun _ s' => s'.world.Reads g c) fun _ _ => True := by
  unfold stripRoot
  rw [Ends.bind_iff, ends_pass, ends_suspect]
  exact h

theorem releaseStrong_reads (h : s.world.Reads g c) (o : ObjId) :
    Ends (releaseStrong o) s (fun _ s' => s'.world.Reads g c) fun _ _ => True := by
  unfold releaseStrong
  rw [Ends.bind_iff, ends_look]
  split
  next => exact h
  next =>
    split
    · trivial
    · simp only [Ends.bind_iff, ends_update, ends_note, ends_look]
      split <;> exact h

theorem dropRoot_reads (h : s.world.Reads g c) (r : RootId) :
    Ends (dropRoot g r) s (fun _ s' => s'.world.Reads g c.released) fun _ _ => True := by
  obtain ⟨heap, hheap, -⟩ := id h
  unfold dropRoot
  simp only [Ends.bind_iff, ends_look, hheap]
  cases heap.roots.release r with
  | error cause => trivial
  | ok p =>
      have hend {s' : Session} (hs : s'.world.Reads g c.released) :
          Ends (do stripRoot r p.1; releaseStrong p.1) s'
            (fun _ s'' => s''.world.Reads g c.released) fun _ _ => True :=
        Ends.bind (stripRoot_reads hs r p.1) fun _ _ hs => releaseStrong_reads hs p.1
      rw [Ends.bind_iff, ends_update, Ends.bind_iff, ends_note]
      refine hend (World.Reads.modifyHeap (c := c) h fun heap hc => ?_)
      rw [← hc]
      rfl

end Locked

theorem reclaim_reads (h : s.world.Reads g c) :
    Ends (reclaim g) s (fun dead s' => s'.world.Reads g (c.emptied dead.length))
      fun _ _ => True := by
  unfold Ends reclaim
  by_cases hnone : s.unrooted.isEmpty = true
  · simp only [if_pos hnone]
    exact h
  simp only [if_neg hnone]
  by_cases hdead : (s.world.garbage s.unrooted).lost.isEmpty = true
  · by_cases hkept : (s.world.garbage s.unrooted).kept.isEmpty = true
    · simp only [if_pos hdead, if_pos hkept]
      exact h
    · simp only [if_pos hdead, if_neg hkept]
      exact h
  have hpos : (s.world.garbage s.unrooted).lost.length ≠ 0 := by
    rw [Ne, List.length_eq_zero_iff]
    simpa using hdead
  obtain ⟨heap, hheap, -⟩ := id h
  have hcondemned : (s.world.condemn (s.world.garbage s.unrooted).lost).heaps[g]? = some heap := hheap
  simp only [if_neg hdead, hcondemned]
  by_cases hlive : heap.live < (s.world.garbage s.unrooted).lost.length
  · simp only [if_pos hlive]
  · simp only [if_neg hlive]
    refine World.Reads.modifyHeap (c := c) h fun heap hc => ?_
    rw [Counters.emptied, if_neg hpos, ← hc]

/-- What the first task of dropping a handle counts. -/
theorem Task.dropHandle_reads {a : Handle} {more : List Task} (h : w.Reads a.heap c)
    (hstep : (Task.dropHandle a).step w = .ok more w') :
    ∃ dead, more = Task.finalizing a.heap dead ++ [.leave a.heap] ∧
      w'.Reads a.heap (c.released.emptied dead.length) := by
  have hlocked : Ends (locked a.heap (Locked.dropRoot a.heap a.root)) w
      (fun p w' => w'.Reads a.heap (c.released.emptied p.2.length)) fun _ _ => True :=
    Ends.locked (P := fun _ s => s.world.Reads a.heap c.released)
      (Locked.dropRoot_reads (s := ⟨w, []⟩) h a.root) fun _ s hs => reclaim_reads hs
  simp only [Task.step] at hstep
  split at hstep
  next r dead w₁ hrun =>
    cases hstep
    exact ⟨dead, rfl, hlocked.of_ok hrun⟩
  next => cases hstep

/-! ## Clients at rest -/

namespace Client

variable {c : Client} {a : Handle} {s : SlotId} {k : Counters}

/-- A value whose slots lead nowhere outside heap `g` is allocated there. -/
theorem Sound.alloc {g : HeapId} {n : String} {v : Value} (h : c.Sound) (hrest : c.AtRest)
    (hg : g ∈ c.heaps) (hv : v.Matched) (hholdings : (v.holdings : Multiset Holding) ≤ c.held)
    (hown : ∀ s ∈ v.connectSlots, ∀ o ∈ (c.world.slotAt s).targets, c.world.owns g o = true)
    (hreads : c.world.Reads g k) :
    ∃ a w, RootedHeap.alloc g n v c.world = .ok a w ∧ a.obj = c.world.objects.size ∧ a.heap = g ∧
      Sound ⟨w, .root a ::ₘ (c.held - v.holdings), c.heaps, [], []⟩ ∧
      w.objects = c.world.objects.push { heap := g, typeName := n, value := v } ∧
      w.slots = c.world.slots ∧ w.Reads g k.allocated := by
  obtain ⟨rest, hheld⟩ := Multiset.le_iff_exists_add.mp hholdings
  have hsteady := h.steady hrest
  rw [hheld] at hsteady
  obtain ⟨heap, hheap, -⟩ := id hreads
  have hplace : place g n v c.world = .ok c.world.objects.size _ := rfl
  have hstands := Locked.enroll_stands (g := g) (c := k)
    (s := ⟨{ c.world with
      objects := c.world.objects.push { heap := g, typeName := n, value := v }
      tallies := c.world.tallies.push .empty }, []⟩) ⟨rfl, rfl, rfl, hreads⟩ c.world.objects.size n
  have hyields := Locked.enroll_yields hsteady hv hheap hplace
  -- nothing of another heap is held, so the connect pass has nothing to refuse
  obtain ⟨r, s, hrun, -, hs⟩ := Ends.exists_ok <| (hyields.and hstands).mono (fun _ _ hs => hs)
    fun f _ hf => by
      obtain ⟨s, hs, o, ho, hforeign⟩ := hf.1.2
      rw [hown s hs o ho] at hforeign
      cases hforeign
  have halloc : RootedHeap.alloc g n v c.world =
      .ok ⟨c.world.objects.size, r, g⟩ (s.world.enter g) := by
    rw [RootedHeap.alloc, bind_of_ok hplace]
    exact bind_of_ok (run_of_unsuspecting hrun hs.unrooted)
  refine ⟨_, _, halloc, rfl, rfl, ?_, hs.objects, hs.slots, hs.reads.enter g⟩
  have hcall : (Call.alloc g n v).run c.world =
      .ok { handles := [⟨c.world.objects.size, r, g⟩] } (s.world.enter g) := bind_of_ok halloc
  have hallowed : (Call.alloc g n v).Allowed c := ⟨hg, hv, hholdings⟩
  have hafter := (Call.run_ends h hrest hallowed).of_ok hcall
  have hsame : c.after (.alloc g n v) { handles := [⟨c.world.objects.size, r, g⟩] } (s.world.enter g) =
      ⟨s.world.enter g, .root ⟨c.world.objects.size, r, g⟩ ::ₘ (c.held - v.holdings), c.heaps, [],
        []⟩ := by
    unfold Client.after
    congr 1
    · simp [Call.spends]
    · simp [Call.leaves]
  rwa [hsame] at hafter

/-- A handle is copied. -/
theorem Sound.clone (h : c.Sound) (hrest : c.AtRest) (ha : c.Sees (.root a))
    (hreads : c.world.Reads a.heap k) :
    ∃ b w, a.clone c.world = .ok b w ∧ b.obj = a.obj ∧ b.heap = a.heap ∧
      Sound ⟨w, .root b ::ₘ c.held, c.heaps, [], []⟩ ∧ c.world.Mirrors w ∧
      w.Reads a.heap k.rooted := by
  have hmem := h.mem_ledger hrest ha
  obtain ⟨b, w, hclone, hobj, hheap, hsteady, hmirrors, -⟩ :=
    (h.steady hrest).clone_handle hmem (h.orderly.holdersAt_pos (.inr ⟨a, ha, rfl⟩))
  exact ⟨b, w, hclone, hobj, hheap, sound_of_steady hsteady, hmirrors,
    (Handle.clone_reads hreads).of_ok hclone⟩

/-- The target of a field is rooted. -/
theorem Sound.get_field {o : ObjId} (h : c.Sound) (hrest : c.AtRest) (ha : c.Sees (.root a))
    (hs : s ∈ (c.world.valueAt a.obj).connectSlots) (hslot : c.world.slotAt s = .one (some o))
    (hreads : c.world.Reads a.heap k) :
    ∃ b w, a.getField s c.world = .ok (some b) w ∧ b.obj = o ∧ b.heap = a.heap ∧
      Sound ⟨w, .root b ::ₘ c.held, c.heaps, [], []⟩ ∧ c.world.Mirrors w ∧
      w.Reads a.heap k.rooted := by
  have hmem := h.mem_ledger hrest ha
  obtain ⟨w, hget, hsteady, halike⟩ := (h.steady hrest).get_field hmem hs
    (h.orderly.holdersAt_pos (.inr ⟨a, ha, rfl⟩)) hslot
  exact ⟨_, w, hget, rfl, rfl, sound_of_steady hsteady,
    (issued_mirrors c.world a.heap o).trans halike.mirrors,
    (Handle.getField_reads hreads hslot).of_ok hget⟩

/-- An empty field comes to point at an object. -/
theorem Sound.fill_field {b : Handle} (h : c.Sound) (hrest : c.AtRest) (ha : c.Sees (.root a))
    (hs : s ∈ (c.world.valueAt a.obj).connectSlots) (hslot : c.world.slotAt s = .one none)
    (hb : c.Sees (.root b)) (hheap : b.heap = a.heap) (hreads : c.world.Reads a.heap k) :
    ∃ w, a.setField s (some b) c.world = .ok () w ∧ Sound ⟨w, c.held, c.heaps, [], []⟩ ∧
      (c.world.writeSlot s (.one (some b.obj))).Mirrors w ∧
      w.Reads a.heap (k.linked (c.world.tallies[a.obj]?.getD .empty).roots.length) := by
  obtain ⟨hlive, hown⟩ := h.orderly.handle hb
  have htarget : ∀ o ∈ some b.obj, c.world.isLive o = true ∧ c.world.owns a.heap o = true := by
    rintro _ ⟨⟩
    exact ⟨hlive, hheap ▸ hown⟩
  -- the field was empty, so nothing loses a reference and the session suspects nobody
  have hreturns := Handle.storeField_returns ((h.steady hrest).settled a.heap)
    (h.reports hrest ha hs).mem hs hslot htarget
  obtain ⟨w, hrun, hsteady, halike, -⟩ := run_quiet (b := ()) <| hreturns.mono (fun _ s' hs => by
    refine ⟨rfl, hs.1, fun u hu => ?_⟩
    obtain ⟨o, ho, -⟩ := (hs.2 u hu).resolve_left List.not_mem_nil
    cases ho) fun _ _ hf => hf
  have haccepts : a.accepts (some b) = true := decide_eq_true hheap
  have hset : a.setField s (some b) c.world = .ok () w := by
    rw [Handle.setField, if_pos haccepts]
    exact hrun
  exact ⟨w, hset, sound_of_steady hsteady, halike.mirrors,
    (Handle.setField_reads hreads hslot).of_ok hset⟩

end Client

end RootedHeap
