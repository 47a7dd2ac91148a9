import RootedHeap.Proofs.Draining
import RootedHeap.Proofs.Ventures

/-! # Whole operations of a client at rest

A session, the tasks it leaves and the delivery of what it returns, taken as one. Counters go on as the
session and the tasks move them, and what the session leaves wanes until the tasks are done.
-/

namespace RootedHeap

variable {α : Type} {R : Counters → Counters → Prop}

/-! ## Counters -/

section Waning

variable (hR : Counters.Waning R)

include hR

theorem Task.step_ticks (t : Task) (w : World) :
    Ends t.step w (fun _ w' => w.Ticks R w') fun _ w' => w.Ticks R w' := by
  have hleaving {g : HeapId} {op : Locked Unit} (hop : Locked.Ticks R op) {w₁ : World}
      (hw : w.Ticks R w₁) : Ends (locked g op) w₁ (fun _ w' => w.Ticks R w')
        fun _ w' => w.Ticks R (w'.leave g) :=
    ((hop.locked hR g).ends w₁).mono (fun _ _ h => hw.trans hR h) fun _ w' h =>
      (hw.trans hR h).trans hR (.leave hR w' g)
  cases t with
  | dropValue o =>
      unfold Ends
      simp only [step]
      cases w.objects[o]? <;> exact .of_eq hR rfl
  | dropSlot | dropWeak => exact World.Ticks.of_eq hR rfl
  | release o =>
      refine ends_release (fun _ => .of_eq hR rfl) (fun ob _ _ _ => ?_) fun ob _ => ?_
      · exact hleaving (.releaseStrong hR o) (.enter hR w ob.heap)
      · split <;> exact .of_eq hR rfl
  | dropHandle a => exact ends_dropHandle (hleaving (.dropRoot hR a.heap a.root) (.of_eq hR rfl))
  | leave g => exact World.Ticks.leave hR w g
  | retire g o => exact World.Ticks.retire hR w g o

theorem settle_ticks (tasks : List Task) : Keeps (World.Ticks R) (settle tasks) := by
  intro w
  refine settle_ends (M := fun _ w' => w.Ticks R w') (fun t rest w₁ h => ?_) (.of_eq hR rfl)
  exact (t.step_ticks hR w₁).mono (fun _ _ h' => h.trans hR h') fun _ _ h' => h.trans hR h'

theorem finish_ticks (r : Receipt) (tasks : List Task) :
    Keeps (World.Ticks R) (Call.finish r tasks) := by
  refine Keeps.bind (fun h h' => h.trans hR h') (settle_ticks hR tasks) fun _ =>
    Keeps.bind (fun h h' => h.trans hR h') ?_ fun _ => Keeps.pure (fun _ => .of_eq hR rfl) r
  exact Keeps.forM (fun _ => .of_eq hR rfl) (fun h h' => h.trans hR h') fun a =>
    Keeps.modify fun w => .enter hR w a.heap

/-- A call whose session moves the counters as permitted does so altogether. -/
theorem Call.run_ticks_of_session {call : Call} {w : World} {g : HeapId} {op : Locked α}
    {give : α → Receipt} (hstart : call.start w = Call.session g op give w)
    (hop : Ends op ⟨w, []⟩ (fun _ s => w.Ticks R s.world) fun _ _ => True) :
    Ends call.run w (fun _ w' => w.Ticks R w') fun _ _ => True := by
  have hlocked : Ends (locked g op) w (fun _ w' => w.Ticks R w') fun _ _ => True := by
    refine Ends.locked (P := fun _ s => w.Ticks R s.world) hop fun _ s hs => ?_
    exact ((Locked.Ticks.reclaim hR g).ends s).mono (fun _ _ h => hs.trans hR h) fun _ _ _ => trivial
  have hbegun : Ends call.start w (fun _ w' => w.Ticks R w') fun _ _ => True := by
    unfold Ends
    rw [hstart]
    exact Ends.bind hlocked fun _ _ h => h
  rw [run_eq_start]
  refine hbegun.bind fun p w' h => ?_
  exact ((finish_ticks hR p.1 p.2).ends w').mono (fun _ _ h' => h.trans hR h') fun _ _ _ => trivial

theorem run_ticks {op : Locked α} (hop : Locked.Ticks R op) (g : HeapId) :
    Keeps (World.Ticks R) (run g op) :=
  Keeps.bind (fun h h' => h.trans hR h') (hop.locked hR g) fun p =>
    Keeps.bind (fun h h' => h.trans hR h') (settle_ticks hR _) fun _ =>
      Keeps.pure (fun _ => .of_eq hR rfl) p.1

theorem hold_ticks (a : Handle) : Keeps (World.Ticks R) a.hold :=
  Keeps.bind (fun h h' => h.trans hR h') (Keeps.modify fun w => .enter hR w a.heap) fun _ =>
    Keeps.pure (fun _ => .of_eq hR rfl) a

end Waning

theorem World.heaps_retainAll (handles : List Handle) (w : World) :
    (handles.foldl (fun w a => w.retain a.obj) w).heaps = w.heaps := by
  induction handles generalizing w with
  | nil => rfl
  | cons a rest ih => exact ih (w.retain a.obj)

/-- The calls whose sessions may take edges away. -/
def Call.Detaches : Call → Prop
  | assign .. | setField .. | takeField .. | setItem .. | removeItem .. | popItem ..
  | clearItems .. => True
  | _ => False

theorem upgrade_ticks (hR : Counters.Waxing R) (x : WeakRef) : Keeps (World.Ticks R) x.upgrade := by
  have hw := hR.toWaning
  intro w
  unfold WeakRef.upgrade
  cases x.target with
  | none => exact World.Ticks.of_eq hw rfl
  | some o =>
      dsimp only
      cases w.objects[o]? with
      | none => exact World.Ticks.of_eq hw rfl
      | some ob =>
          dsimp only
          by_cases hexists : w.heapExists ob.heap = true
          · have hclaim := run_ticks hw (.claim hR ob.heap o) ob.heap (w.enter ob.heap)
            have hentered := World.Ticks.enter hw w ob.heap
            rw [if_pos hexists]
            cases hrun : run ob.heap (WeakRef.claim ob.heap o) (w.enter ob.heap) with
            | ok found w' =>
                rw [hrun] at hclaim
                have hclaimed := hentered.trans hw hclaim
                cases found with
                | some a => exact hclaimed
                | none => exact hclaimed.trans hw (.leave hw w' ob.heap)
            | error f w' =>
                rw [hrun] at hclaim
                exact (hentered.trans hw hclaim).trans hw (.leave hw w' ob.heap)
          · rw [if_neg hexists]
            exact World.Ticks.of_eq hw rfl

/-- Any other call moves counters as coming by references and giving them up does. -/
theorem Call.run_ticks (hR : Counters.Waxing R) {call : Call} (hcall : ¬ call.Detaches) :
    Keeps (World.Ticks R) call.run := by
  have hw := hR.toWaning
  -- calls are made up of few shapes, and each shape passes `Ticks` on from its parts
  have hpure {β : Type} (b : β) : Keeps (World.Ticks R) (pure b : Op β) :=
    Keeps.pure (fun _ => .of_eq hw rfl) b
  have hthen {β γ : Type} {op : Op β} {next : β → Op γ} (hop : Keeps (World.Ticks R) op)
      (hnext : ∀ b, Keeps (World.Ticks R) (next b)) : Keeps (World.Ticks R) (op >>= next) :=
    Keeps.bind (fun h h' => h.trans hw h') hop hnext
  have hgive {β : Type} {m : Op β} (hm : Keeps (World.Ticks R) m) (f : β → Receipt) :
      Keeps (World.Ticks R) (m >>= fun b => pure (f b)) := hthen hm fun b => hpure (f b)
  have hissue {g : HeapId} {op : Locked Handle} (hop : Locked.Ticks R op) :
      Keeps (World.Ticks R) (RootedHeap.run g op >>= Handle.hold) :=
    hthen (RootedHeap.run_ticks hw hop g) (hold_ticks hw)
  have hread {g : HeapId} {op : Locked (Option Handle)} (hop : Locked.Ticks R op) :
      Keeps (World.Ticks R) (RootedHeap.run g op >>= fun found => found.mapM Handle.hold) := by
    refine hthen (RootedHeap.run_ticks hw hop g) fun found => ?_
    cases found with
    | none => exact hpure none
    | some a => exact hthen (hold_ticks hw a) fun b => hpure (some b)
  have hstore (a item : Handle) {op : Locked Unit} (hop : Locked.Ticks R op) :
      Keeps (World.Ticks R) (a.storing item op) := by
    unfold Handle.storing
    split
    · exact RootedHeap.run_ticks hw hop a.heap
    · exact hthen (fun _ => .of_eq hw rfl) fun w =>
        hthen (Keeps.modify fun w => .note hw w _) fun _ => Keeps.throw (fun _ => .of_eq hw rfl) _
  cases call with
  | assign | setField | takeField | setItem | removeItem | popItem | clearItems =>
      exact absurd trivial hcall
  | createHeap config =>
      exact hgive (m := RootedHeap.createHeap config)
        (fun w => .of_eq hw (World.countersAt_push w config _)) _
  | shareHeap g => exact hthen (Keeps.modify fun w => .enter hw w g) fun _ => hpure _
  | dropHeap | drop | dropSlot | dropWeak => exact hthen (settle_ticks hw _) fun _ => hpure _
  | alloc g n value =>
      refine hgive (m := RootedHeap.alloc g n value) ?_ _
      exact hthen (fun w => .of_eq hw rfl) fun o =>
        hthen (RootedHeap.run_ticks hw (.enroll hR g o n) g) fun r => hold_ticks hw _
  | clone a => exact hgive (m := a.clone) (hissue (.newHandle hR a.heap a.obj)) _
  | getField a s => exact hgive (m := a.getField s) (hread (.readField hR a s)) _
  | getItem a s index => exact hgive (m := a.getItem s index) (hread (.readItem hR a s index)) _
  | items a s =>
      refine hgive (m := a.items s) (hthen (RootedHeap.run_ticks hw (.readItems hR a s) a.heap)
        fun handles => ?_) _
      exact Keeps.mapM (fun _ => .of_eq hw rfl) (fun h h' => h.trans hw h') (hold_ticks hw)
  | pushItem a s item => exact hthen (hstore a item (.enlist hR a s none item.obj)) fun _ => hpure _
  | insertItem a s index item =>
      exact hthen (hstore a item (.enlist hR a s (some index) item.obj)) fun _ => hpure _
  | downgrade a => exact hgive (m := WeakRef.ofHandle a) (fun w => .of_eq hw rfl) _
  | cloneWeak x =>
      refine hgive (m := x.clone) ?_ _
      obtain ⟨_ | o⟩ := x
      · exact hpure _
      · exact hthen (Keeps.modify fun w => .of_eq hw rfl) fun _ => hpure _
  | upgrade x => exact hgive (m := x.upgrade) (upgrade_ticks hR x) _
  | newField target =>
      refine hgive (m := RootedHeap.newField target) (fun w => ?_) _
      cases target <;> exact World.Ticks.of_eq hw rfl
  | newList targets =>
      refine hgive (m := RootedHeap.newList targets) (fun w => .of_eq hw ?_) _
      exact World.countersAt_congr (World.heaps_retainAll targets w)

/-! ## Writes -/

section Writes

open World

variable {c : Client} {a : Handle} {s : SlotId}

namespace Client

/-- The object of `a`, which the client can get at, reports slot `s`. -/
structure Reports (c : Client) (a : Handle) (s : SlotId) : Prop where
  mem : .root a ∈ c.world.ledger 0 c.held
  exists_heap : c.world.heapExists a.heap = true
  reported : .slot s ∈ c.world.ledger 0 c.held

theorem Sound.reports (h : c.Sound) (hrest : c.AtRest) (ha : c.Sees (.root a))
    (hs : s ∈ (c.world.valueAt a.obj).connectSlots) : c.Reports a s := by
  have hmem := h.mem_ledger hrest ha
  refine ⟨hmem, ?_, mem_ledger_of_live (World.Sound.handle (h.steady hrest) hmem).1
    (Value.mem_holdings_of_reported hs)⟩
  simpa [heapExists_eq] using h.orderly.holdersAt_pos (.inr ⟨a, ha, rfl⟩)

/-- A write that returns nothing and comes to `content` in slot `s`: what it leaves wanes. -/
theorem Sound.write {op : Locked Unit} {content : Slot} (h : c.Sound) (hrest : c.AtRest)
    (hreports : c.Reports a s)
    (hop : Ends op ⟨c.world, []⟩ (fun _ s' => s'.Sound a.heap (c.world.writeSlot s content)
      (c.world.writeSlot s content).support 0 c.held (dues 0 c.heaps [])) fun _ _ => False)
    (hconfined : op.Confined c.world.isLive fun s => .slot s ∈ c.world.ledger 0 c.held) :
    ∃ w, run a.heap op c.world = .ok () w ∧ Sound ⟨w, c.held, c.heaps, [], []⟩ ∧
      (c.world.writeSlot s content).Wanes c.held w := by
  obtain ⟨w, hrun, hsound, hwanes, -⟩ := run_wanes (b := ())
    (hop.mono (fun _ _ hs => ⟨rfl, hs⟩) fun _ _ hf => hf) hconfined
    (h.steady hrest).guarded.closed_world rfl hreports.exists_heap (strands_zero _)
  rw [zero_add] at hwanes
  exact ⟨w, hrun, hsound, hwanes⟩

theorem Sound.store_field {old : Option ObjId} {target : Option Handle} (h : c.Sound)
    (hrest : c.AtRest) (ha : c.Sees (.root a)) (hs : s ∈ (c.world.valueAt a.obj).connectSlots)
    (hslot : c.world.slotAt s = .one old)
    (htarget : ∀ b ∈ target, c.Sees (.root b) ∧ b.heap = a.heap) :
    ∃ w, a.setField s target c.world = .ok () w ∧ Sound ⟨w, c.held, c.heaps, [], []⟩ ∧
      (c.world.writeSlot s (.one (target.map Handle.obj))).Wanes c.held w := by
  have hreports := h.reports hrest ha hs
  have hstored : ∀ o ∈ target.map Handle.obj, c.world.isLive o = true ∧
      c.world.owns a.heap o = true := by
    intro o ho
    obtain ⟨b, hb, rfl⟩ := Option.map_eq_some_iff.mp ho
    obtain ⟨hsees, hheap⟩ := htarget b hb
    obtain ⟨hlive, hown⟩ := h.orderly.handle hsees
    exact ⟨hlive, hheap ▸ hown⟩
  have haccepts : a.accepts target = true := by
    cases target with
    | none => rfl
    | some b => exact decide_eq_true (htarget b rfl).2
  have hreturns := Handle.storeField_returns ((h.steady hrest).settled a.heap) hreports.mem hs hslot
    hstored
  obtain ⟨w, hrun, hend⟩ := h.write hrest hreports (hreturns.mono (fun _ _ hs => hs.1) fun _ _ hf => hf)
    (Handle.storeField_confined a hreports.reported fun o ho => (hstored o ho).1)
  refine ⟨w, ?_, hend⟩
  rw [Handle.setField, if_pos haccepts]
  exact hrun

theorem Sound.replace_item {items : List ObjId} {index : Nat} {old : ObjId} {item : Handle}
    (h : c.Sound) (hrest : c.AtRest) (ha : c.Sees (.root a))
    (hs : s ∈ (c.world.valueAt a.obj).connectSlots) (hslot : c.world.slotAt s = .many items)
    (hold : items[index]? = some old) (hitem : c.Sees (.root item)) (hheap : item.heap = a.heap) :
    ∃ w, a.setItem s index item c.world = .ok () w ∧ Sound ⟨w, c.held, c.heaps, [], []⟩ ∧
      (c.world.writeSlot s (.many (items.set index item.obj))).Wanes c.held w := by
  have hreports := h.reports hrest ha hs
  obtain ⟨hlive, hown⟩ := h.orderly.handle hitem
  have hreturns := Handle.replace_returns ((h.steady hrest).settled a.heap) hreports.mem hs hslot
    hold hlive (hheap ▸ hown)
  obtain ⟨w, hrun, hend⟩ := h.write hrest hreports
    (hreturns.mono (fun _ _ hs => hs.sound) fun _ _ hf => hf)
    (Handle.replace_confined a hreports.reported index hlive)
  refine ⟨w, ?_, hend⟩
  rw [Handle.setItem, Handle.storing, if_pos hheap]
  exact hrun

end Client

end Writes

end RootedHeap
