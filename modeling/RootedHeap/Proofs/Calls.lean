import RootedHeap.Proofs.Clients
import RootedHeap.Proofs.Edits

/-! # What calls do to a client

A client that behaves well always has a `World.Orderly` world (`Client.Reached.sound`): every call
either is refused up front or leads to such a world, and so does every task on the way.
-/

namespace RootedHeap

open World

namespace Client

variable {c c' : Client}

/-- All that the client holds, with the handles that are on their way to it. -/
def holds (c : Client) : Multiset Holding := (c.incoming.map Holding.root : List Holding) + c.held

/-- The slots that the client or a live object has, so that no task drops them. -/
def Owns (c : Client) (s : SlotId) : Prop := .slot s ∈ c.world.ledger 0 c.holds

/-- The client's world is orderly, whatever is under way. -/
def Orderly (c : Client) : Prop := c.world.Orderly c.todo c.held c.heaps c.incoming

/-- What always holds of a client. The handles on their way to it are of heaps that it knows, and
that cannot go before the handles arrive. -/
structure Sound (c : Client) : Prop where
  orderly : c.Orderly
  known : ∀ a ∈ c.incoming, c.Knows a.heap

namespace Orderly

theorem steady (h : c.Orderly) : c.world.Steady c.todo c.holds (dues c.todo c.heaps c.incoming) := h

theorem mem_ledger (h : c.Orderly) {x : Holding} (hx : c.Sees x) :
    x ∈ c.world.ledger c.todo c.held := by
  induction hx with
  | held hx => exact mem_ledger_of_held hx
  | @within a x _ hx ih =>
      have ha : .root a ∈ c.world.ledger c.todo c.holds := by
        rw [holds, ledger_add_held]
        exact Multiset.mem_add.mpr (.inr ih)
      exact mem_ledger_of_live (World.Sound.handle h.steady ha).1 hx

/-- What the client can get at, no task drops. -/
theorem mem_ledger_holds (h : c.Orderly) {x : Holding} (hx : c.Sees x) :
    x ∈ c.world.ledger c.todo c.holds := by
  rw [holds, ledger_add_held]
  exact Multiset.mem_add.mpr (.inr (h.mem_ledger hx))

theorem handle (h : c.Orderly) {a : Handle} (ha : c.Sees (.root a)) :
    c.world.isLive a.obj = true ∧ c.world.owns a.heap a.obj = true := by
  obtain ⟨hlive, hown, -⟩ := World.Sound.handle h.steady (h.mem_ledger_holds ha)
  exact ⟨hlive, hown⟩

theorem live_of_sees (h : c.Orderly) {x : Holding} (hx : c.Sees x) {o : ObjId}
    (ho : o ∈ x.targets c.world) : c.world.isLive o = true := by
  refine h.steady.guarded.live_of_ledger ?_ ho
  cases hx with
  | held hx => exact .inl (Multiset.mem_add.mpr (.inr hx))
  | @within a _ ha hx => exact .inr ⟨a.obj, (h.handle ha).1, hx⟩

theorem owns_of_sees (h : c.Orderly) {s : SlotId} (hs : c.Sees (.slot s)) : c.Owns s := by
  unfold Owns
  cases hs with
  | held hs => exact mem_ledger_of_held (Multiset.mem_add.mpr (.inr hs))
  | @within a _ ha hs => exact mem_ledger_of_live (h.handle ha).1 hs

theorem holdersAt_pos (h : c.Orderly) {g : HeapId} (hg : c.Knows g) :
    0 < c.world.holdersAt g := by
  apply World.Orderly.holdersAt_pos h
  rcases hg with hg | ⟨a, ha, rfl⟩
  · exact .inr (.inr hg)
  · exact .inl ⟨a, h.mem_ledger ha, rfl⟩

theorem exists_heap (h : c.Orderly) {g : HeapId} (hg : c.Knows g) :
    ∃ heap, c.world.heaps[g]? = some heap := by
  have hpos := h.holdersAt_pos hg
  cases hheap : c.world.heaps[g]? with
  | none => simp [holdersAt, hheap] at hpos
  | some heap => exact ⟨heap, rfl⟩

/-- The client and the live objects have their slots to themselves. -/
theorem closed_world (h : c.Orderly) : c.world.Closed c.world.isLive c.Owns :=
  h.steady.guarded.closed_world

theorem apart (h : c.Orderly) : ∀ u ∈ (c.todo : Multiset Task), ∀ s, .slot s ∈ u.holdings c.world →
    s < c.world.slots.size ∧ ¬ c.Owns s := by
  intro u hu s hs
  refine h.steady.accounted.apart ?_ hs
  obtain ⟨rest, hrest⟩ := Multiset.exists_cons_of_mem hu
  rw [hrest, ledger_cons_task, ← add_zero rest, ledger_add_tasks]
  gcongr
  exact Multiset.le_add_left _ _

end Orderly

/-- What a client can get at stays when the values that it can look into do. -/
theorem Sees.mono {x : Holding} (hx : c.Sees x) (hheld : c.held ≤ c'.held)
    (hvalues : ∀ a, c.Sees (.root a) → c'.world.valueAt a.obj = c.world.valueAt a.obj) :
    c'.Sees x := by
  induction hx with
  | held hx => exact .held (Multiset.mem_of_le hheld hx)
  | @within a _ ha hx ih => exact .within ih (by rwa [hvalues a ha])

theorem Knows.mono {g : HeapId} (hg : c.Knows g) (hheld : c.held ≤ c'.held)
    (hheaps : c.heaps ≤ c'.heaps)
    (hvalues : ∀ a, c.Sees (.root a) → c'.world.valueAt a.obj = c.world.valueAt a.obj) :
    c'.Knows g := by
  rcases hg with hg | ⟨a, ha, rfl⟩
  · exact .inl (Multiset.mem_of_le hheaps hg)
  · exact .inr ⟨a, ha.mono hheld hvalues, rfl⟩

/-- At rest a client's world is steady, and nothing is left to be done. -/
theorem Sound.steady (h : c.Sound) (hrest : c.AtRest) :
    c.world.Steady 0 c.held (dues 0 c.heaps []) := by
  have horderly := h.orderly
  unfold Orderly at horderly
  rw [hrest.1, hrest.2] at horderly
  simpa [World.Orderly] using horderly

theorem Sound.mem_ledger (h : c.Sound) (hrest : c.AtRest) {x : Holding} (hx : c.Sees x) :
    x ∈ c.world.ledger 0 c.held := by
  have hmem := h.orderly.mem_ledger hx
  rwa [hrest.1] at hmem

theorem sound_of_steady {w : World} {held : Multiset Holding} {heaps : Multiset HeapId}
    {tasks : List Task} (h : w.Steady tasks held (dues tasks heaps [])) :
    Sound ⟨w, held, heaps, tasks, []⟩ := by
  refine ⟨?_, by simp⟩
  simpa [Orderly, World.Orderly] using h

end Client

open Client

variable {c : Client}

/-- What a client may do, it may do with more at hand. -/
theorem Call.Allowed.mono {c c' : Client} {call : Call} (h : call.Allowed c)
    (hworld : c'.world = c.world) (hheld : c.held ≤ c'.held) (hheaps : c.heaps ≤ c'.heaps) :
    call.Allowed c' := by
  have hsees {x : Holding} (hx : c.Sees x) : c'.Sees x :=
    hx.mono hheld fun _ _ => by rw [hworld]
  have hfield {s : SlotId} (hs : c.SeesField s) : c'.SeesField s := by
    unfold Client.SeesField
    rw [hworld]
    exact ⟨hsees hs.1, hs.2⟩
  have hlist {s : SlotId} (hs : c.SeesList s) : c'.SeesList s := by
    unfold Client.SeesList
    rw [hworld]
    exact ⟨hsees hs.1, hs.2⟩
  cases call with
  | createHeap => exact h
  | shareHeap => exact Client.Knows.mono h hheld hheaps fun _ _ => by rw [hworld]
  | dropHeap => exact Multiset.mem_of_le hheaps h
  | alloc => exact ⟨Multiset.mem_of_le hheaps h.1, h.2.1, h.2.2.trans hheld⟩
  | clone | downgrade => exact hsees h
  | drop | dropSlot => exact Multiset.mem_of_le hheld h
  | assign => exact ⟨Multiset.mem_of_le hheld h.1, hsees h.2⟩
  | getField | takeField => exact ⟨hsees h.1, hfield h.2⟩
  | setField => exact ⟨hsees h.1, hfield h.2.1, fun b hb => hsees (h.2.2 b hb)⟩
  | pushItem | insertItem | setItem => exact ⟨hsees h.1, hlist h.2.1, hsees h.2.2⟩
  | getItem | items | removeItem | popItem | clearItems => exact ⟨hsees h.1, hlist h.2⟩
  | cloneWeak | upgrade => exact fun o ho => hsees (h o ho)
  | dropWeak => exact le_trans h hheld
  | newField | newList => exact fun b hb => hsees (h b hb)

/-- A client gives away what it holds. -/
theorem Call.Allowed.spends_le {call : Call} (h : call.Allowed c) :
    (call.spends : Multiset Holding) ≤ c.held := by
  cases call with
  | alloc => exact h.2.2
  | drop | dropSlot => exact Multiset.singleton_le.mpr h
  | assign => exact Multiset.singleton_le.mpr h.1
  | dropWeak => exact h
  | _ => exact Multiset.zero_le _

theorem Call.Allowed.leaves_le {call : Call} (h : call.Allowed c) :
    (call.leaves : Multiset HeapId) ≤ c.heaps := by
  cases call with
  | dropHeap => exact Multiset.singleton_le.mpr h
  | _ => exact Multiset.zero_le _

/-- The heap of the handles that a call returns is one that the client knew, and knows after the
call. -/
theorem Call.Allowed.knows {call : Call} (hallowed : call.Allowed c) {g : HeapId}
    (hhome : call.home = some g) : c.Knows g := by
  cases call <;> cases hhome
  case alloc => exact .inl hallowed.1
  case clone a => exact .inr ⟨a, hallowed, rfl⟩
  all_goals exact .inr ⟨_, hallowed.1, rfl⟩

theorem Call.Allowed.knows_after {call : Call} (hallowed : call.Allowed c) {g : HeapId}
    (hhome : call.home = some g) {c' : Client} (hheld : c.held - call.spends ≤ c'.held)
    (hheaps : c.heaps - call.leaves ≤ c'.heaps)
    (hvalues : ∀ a, c.Sees (.root a) → c'.world.valueAt a.obj = c.world.valueAt a.obj) :
    c'.Knows g := by
  have hmono (hspends : call.spends = []) (hleaves : call.leaves = []) : c'.Knows g := by
    rw [hspends, Multiset.coe_nil, tsub_zero] at hheld
    rw [hleaves, Multiset.coe_nil, tsub_zero] at hheaps
    exact (hallowed.knows hhome).mono hheld hheaps hvalues
  cases call <;> cases hhome
  case alloc =>
    change c.heaps - 0 ≤ c'.heaps at hheaps
    rw [tsub_zero] at hheaps
    exact .inl (Multiset.mem_of_le hheaps hallowed.1)
  all_goals exact hmono rfl rfl

/-- A call whose session is over, with `tasks` to be done: what it returns is held or on its way, and
the world took a turn. -/
structure Call.Begun (call : Call) (c : Client) (r : Receipt) (tasks : List Task) (w : World) :
    Prop where
  orderly : w.Orderly ((tasks ++ c.todo : List Task) : Multiset Task)
    (r.others + (c.held - call.spends)) (r.heaps + (c.heaps - call.leaves)) (r.handles ++ c.incoming)
  home : ∀ a ∈ r.handles, call.home = some a.heap
  turns : ∃ held, c.world.Turns c.Owns none c.todo held tasks w

/-- A call that was refused: if that was in an up-front check, then nothing changed that matters. -/
structure Call.Refused (call : Call) (c : Client) (f : Fault) (w : World) : Prop where
  orderly : f.upFront = true → Client.Orderly { c with world := w }
  turns : f.upFront = true → ∃ held, c.world.Turns c.Owns none c.todo held [] w
  strays : f.upFront = false → call.Strays c.world

/-- How a call begins: its session is over, or it was refused. -/
def Call.Begins (call : Call) (c : Client) : Prop :=
  Ends call.start c.world (fun p w => call.Begun c p.1 p.2 w) (call.Refused c)

/-- A session that fails leaves a world that is spared. -/
theorem Client.Orderly.refused (h : c.Orderly) {call : Call} {f : Fault} {s : Session}
    (hspares : c.world.Spares c.world.isLive c.Owns s.world)
    (hrefused : Session.Refused ⟨c.world, []⟩ (call.Strays c.world) f s) :
    call.Refused c f s.world := by
  have hsteady (hf : f.upFront = true) : s.world.Steady c.todo c.holds _ :=
    h.steady.refused (hrefused.passed hf) rfl
  refine ⟨hsteady, fun hf => ⟨c.holds, ?_⟩, hrefused.stray⟩
  exact .of_grows (.of_spares hspares) (hsteady hf).guarded h.apart (by simp) (by simp)

/-- Handles that are returned are on their way like those before them. -/
theorem orderly_of_yielded {w : World} {tasks todo : List Task} {held : Multiset Holding}
    {heaps : Multiset HeapId} {handles incoming : List Handle}
    (h : w.Steady (tasks + todo) ((handles.map Holding.root : List Holding) +
        ((incoming.map Holding.root : List Holding) + held))
      (dues (tasks + todo) heaps (handles ++ incoming))) :
    w.Orderly ((tasks ++ todo : List Task) : Multiset Task) held heaps (handles ++ incoming) := by
  unfold World.Orderly
  rwa [List.map_append, ← Multiset.coe_add, ← Multiset.coe_add, add_assoc]

/-- What is due once a session is over, and handles are on their way. -/
theorem dues_yielded (g : HeapId) (dead : List ObjId) (todo : Multiset Task)
    (heaps : Multiset HeapId) (handles incoming : List Handle) :
    dues (Task.finalizing g dead + todo) heaps (handles ++ incoming) = fun g' =>
      dues todo heaps incoming g' - (handles.map Handle.heap).count g' := by
  rw [dues_finalizing g dead]
  funext g'
  simp only [dues, List.map_append, List.count_append, Nat.cast_add]
  omega

/-- A session that yields handles, and spares what it does not own, with the reclaiming at its end. -/
theorem locked_yields {α : Type} {g : HeapId} {op : Locked α} {w : World} {todo : Multiset Task}
    {held : Multiset Holding} {owed : HeapId → ℤ} {handles : α → List Handle} {P : Session → Prop}
    {E E' : Fault → Session → Prop} (hconfined : Ends op ⟨w, []⟩ (fun _ s => P s) E)
    (hop : Ends op ⟨w, []⟩ (fun a s => s.Yields g todo held owed (handles a)) E') :
    Ends (locked g op) w
      (fun r w' => w'.Steady (Task.finalizing g r.2 + todo)
          (((handles r.1).map Holding.root : List Holding) + held)
          (fun g' => owed g' - ((handles r.1).map Handle.heap).count g') ∧
        ∃ s, ((∀ a ∈ handles r.1, a.heap = g) ∧ P s) ∧ s.world.Reclaimed g todo
          (((handles r.1).map Holding.root : List Holding) + held) r.2 w')
      fun f w' => ∃ s, (E f s ∧ E' f s) ∧ s.world = w' := by
  have hends : Ends op ⟨w, []⟩
      (fun a s => ((∀ b ∈ handles a, b.heap = g) ∧ P s) ∧ s.Settled g todo
        (((handles a).map Holding.root : List Holding) + held)
        (fun g' => owed g' - ((handles a).map Handle.heap).count g')) (fun f s => E f s ∧ E' f s) := by
    apply (hconfined.and hop).mono
    · rintro a s ⟨hP, hheaps, hsettled⟩
      exact ⟨⟨hheaps, hP⟩, hsettled⟩
    · exact fun _ _ hf => hf
  exact locked_ends hends

/-- A session that takes nothing from the client, and returns handles. -/
theorem Client.Orderly.session {α : Type} (h : c.Orderly) {call : Call} {g : HeapId}
    {op : Locked α} (handles : α → List Handle)
    (hstart : call.start = Call.session g op fun a => { handles := handles a })
    (hspends : call.spends = []) (hleaves : call.leaves = [])
    (hhome : ∀ a, handles a ≠ [] → call.home = some g)
    (hconfined : op.Confined c.world.isLive c.Owns)
    (hop : Ends op ⟨c.world, []⟩
      (fun a s => s.Yields g c.todo c.holds (dues c.todo c.heaps c.incoming) (handles a))
      (Session.Refused ⟨c.world, []⟩ (call.Strays c.world))) : call.Begins c := by
  have hends := locked_yields (hconfined ⟨c.world, []⟩ h.closed_world) hop
  unfold Call.Begins
  rw [hstart, Call.session, Ends.bind_iff]
  apply hends.mono
  · rintro ⟨a, dead⟩ w ⟨hw, s, ⟨hheaps, hleads⟩, hreclaimed⟩
    refine ⟨?_, fun b hb => ?_, _, .of_collect (.of_spares hleads.spares) hreclaimed h.apart⟩
    · rw [← dues_yielded g dead] at hw
      rw [hspends, hleaves, Multiset.coe_nil, Multiset.coe_nil, tsub_zero, tsub_zero, zero_add,
        zero_add]
      exact orderly_of_yielded hw
    · rw [hheaps b hb]
      exact hhome a (List.ne_nil_of_mem hb)
  · rintro f _ ⟨s, ⟨hleads, hrefused⟩, rfl⟩
    exact h.refused hleads.spares hrefused

/-- Rooting the target of a weak reference does not fail. -/
theorem WeakRef.claim_yields {g : HeapId} {o : ObjId} {todo : Multiset Task}
    {held : Multiset Holding} {owed : HeapId → ℤ} {s : Session} (h : s.Settled g todo held owed)
    (hown : s.world.owns g o = true) :
    Ends (WeakRef.claim g o) s (fun found s' => s'.Yields g todo held owed found.toList)
      fun _ _ => False := by
  obtain ⟨heap, hheap⟩ := h.sound.guarded.heap_some g o hown
  unfold WeakRef.claim
  rw [Ends.bind_iff, Locked.ends_look]
  split_ifs with hlive
  · refine Ends.map_iff.mpr ((Locked.newHandle_yields h hheap hlive).mono (fun _ _ hs => hs.1) ?_)
    rintro _ _ ⟨hnot, -⟩
    rw [hown] at hnot
    cases hnot
  · exact Session.yields_nil_iff.mpr h

/-- Rooting an object fails when an edge of it leaves the heap. -/
theorem Locked.acquireRoot_closed {g : HeapId} {t : ObjId} {heap : Heap} {s : Session}
    (hheap : s.world.heaps[g]? = some heap) (ht : t < s.world.tallies.size)
    (hempty : ∀ r, s.world.tallies.count t r = 0) :
    Ends (acquireRoot g t) s (fun _ _ => ∀ c ∈ s.world.out t, s.world.owns g c = true)
      fun f _ => f.upFront = false := by
  unfold acquireRoot
  simp only [Ends.bind_iff, ends_look, hheap, ends_update, ends_note, Ends.pure_iff]
  refine (connect_passed _ t).mono ?_ fun _ _ hf => hf.2
  rintro _ _ ⟨hno, -⟩
  exact owns_edges_of_connect ht (hempty _) hno

section Birth

variable {w : World} {g : HeapId} {n : String} {v : Value} {heap : Heap} {todo : Multiset Task}
  {held : Multiset Holding} {owed : HeapId → ℤ} (h : w.Steady todo (v.holdings + held) owed)
  (hv : v.Matched) (hheap : w.heaps[g]? = some heap)

include h hv hheap

theorem Locked.acquireRoot_birth {s : Session} (halike : (w.birth g n v).Alike s.world)
    (hbarren : (w.birth g n v).Barren s.world)
    (htallies : s.world.tallies = w.tallies.push .empty)
    (hstrong : s.world.strongAt = (w.birth g n v).strongAt) (hnone : s.unrooted = []) :
    Ends (acquireRoot g w.objects.size) s
      (fun r s' => s'.Yields g todo held owed [⟨w.objects.size, r, g⟩]) fun f _ =>
        f.upFront = false ∧ ∃ s ∈ v.connectSlots, ∃ o ∈ (w.slotAt s).targets, w.owns g o = false := by
  have hnew : (w.birth g n v).heaps[g]? = some { heap with live := heap.live + 1 } := by
    rw [heaps_birth, hheap]
    simp
  -- a value that holds objects of another heap is found out by the connect pass
  by_cases hedges : ∀ c ∈ (w.birth g n v).out w.objects.size, w.owns g c = true
  · have hborn : (w.birth g n v).Sound (w.tallies.push .empty) (w.birth g n v).strongAt w.support []
        (.release w.objects.size ::ₘ todo) held owed :=
      World.Sound.birth h hv hheap hedges strongAt_birth
    have hlive : (w.birth g n v).isLive w.objects.size = true := by simp [isLive_birth]
    rw [← htallies, ← hstrong, ← hnone] at hborn
    have hsound : s.Sound g (w.birth g n v) (w.birth g n v).support
        (.release w.objects.size ::ₘ todo) held owed := by
      refine ⟨halike, ?_, by simp [hnone], hbarren⟩
      rw [h.accounted.support_birth h.guarded]
      exact hborn
    refine (acquireRoot_ends hsound hnew hlive fun hown => support_acquire hnew hown).mono ?_
      fun _ _ hf => ?_
    · rintro r s' ⟨rfl, -, hs, -⟩
      exact Session.yields_cons_iff.mpr ⟨rfl, Session.yields_nil_iff.mpr hs.settled⟩
    · have hforeign := hf.1
      rw [owns_birth, if_pos rfl] at hforeign
      simp at hforeign
  · obtain ⟨heap', hheap', -⟩ := halike.heap_eq hnew
    have hstray : ∃ s ∈ v.connectSlots, ∃ o ∈ (w.slotAt s).targets, w.owns g o = false := by
      push Not at hedges
      obtain ⟨c, hc, hforeign⟩ := hedges
      rw [out_birth_self, List.mem_flatMap] at hc
      obtain ⟨s, hs, hc⟩ := hc
      exact ⟨s, hs, c, hc, by simpa using hforeign⟩
    -- if the pass came to its end, the edges would all stay in the heap
    refine (acquireRoot_closed hheap' ?_ fun r => ?_).mono (fun _ _ hclosed => ?_)
      fun _ _ hf => ⟨hf, hstray⟩
    · rw [htallies, Array.size_push, h.tallied.size_eq]
      exact Nat.lt_succ_self _
    · rw [htallies, Tallies.count_push_empty]
      exact Tallies.count_eq_zero_of_size_le h.tallied.size_eq.le
    · refine absurd (fun c hc => ?_) hedges
      rw [halike.out, halike.owns] at hclosed
      have hown := hclosed c hc
      rw [out_birth_self, List.mem_flatMap] at hc
      obtain ⟨s, hs, hc⟩ := hc
      have hlive := h.guarded.held_live (.slot s)
        (Multiset.mem_add.mpr (.inl (Value.mem_holdings_of_reported hs))) c (Multiset.mem_coe.mpr hc)
      rwa [owns_birth, if_neg (ne_size_of_isLive hlive)] at hown

/-- A new object is rooted, unless its value holds objects of another heap. -/
theorem Locked.enroll_yields {w' : World} {o : ObjId} (hplace : place g n v w = .ok o w') :
    Ends (enroll g o n) ⟨w', []⟩ (fun r s => s.Yields g todo held owed [⟨o, r, g⟩]) fun f _ =>
      f.upFront = false ∧ ∃ s ∈ v.connectSlots, ∃ o ∈ (w.slotAt s).targets, w.owns g o = false := by
  cases hplace
  unfold enroll
  simp only [Ends.bind_iff, ends_update, ends_note]
  refine acquireRoot_birth h hv hheap ⟨rfl, rfl, rfl, fun _ => rfl, fun g' => ?_⟩
    (.of_ticks ?_) rfl rfl rfl
  · simp only [World.note, World.birth, World.modifyHeap, Array.getElem?_modify]
    split
    · cases w.heaps[g']? <;> rfl
    · rfl
  · have hwaning := Counters.waxing_sameOrphans.toWaning
    have hborn : (w.birth g n v).countersAt = w.countersAt := countersAt_modifyHeap w g fun _ => rfl
    have hback : (w.birth g n v).Ticks Counters.SameOrphans w := .of_eq hwaning hborn.symm
    exact hback.trans hwaning (World.Ticks.modifyHeap hwaning w g fun _ => rfl)

end Birth

namespace Call

/-- A call that stores something of another heap is refused. -/
theorem refuse_begins (h : c.Orderly) {call : Call} {a : Handle} {breach : Breach}
    (hbreach : breach = .foreignStore ∨ breach = .foreignAssign)
    (hstart : call.start = refuse a breach) : call.Begins c := by
  have hup (n : String) : (Fault.violation (.protocol n breach)).upFront = true := by
    rcases hbreach with rfl | rfl <;> rfl
  have hnoted (n : String) : (c.world.note (.violated (.protocol n breach))).Steady c.todo c.holds
      (dues c.todo c.heaps c.incoming) := .of_alike h.steady (.note _ _)
  unfold Begins
  rw [hstart]
  refine ⟨fun _ => hnoted _, fun _ => ⟨c.holds, ?_⟩, fun hf => ?_⟩
  · exact .of_grows (.of_spares (.note _ ⟨by simp [Event.marks], rfl⟩)) (hnoted _).guarded h.apart
      (by simp) (by simp)
  · rw [hup] at hf
    cases hf

section Rooted

variable {a : Handle} {s : SlotId} (h : c.Orderly) (ha : c.Sees (.root a))

include h ha

theorem clone_begins : (clone a).Begins c := by
  obtain ⟨heap, hheap⟩ := h.exists_heap (.inr ⟨a, ha, rfl⟩)
  obtain ⟨hlive, hown⟩ := h.handle ha
  refine h.session (fun b => [b]) rfl rfl rfl (fun _ _ => rfl) (Locked.newHandle_confined _ hlive) ?_
  refine (Locked.newHandle_yields (h.steady.settled a.heap) hheap hlive).mono
    (fun _ _ hs => hs.1) ?_
  rintro f _ ⟨hnot, -⟩
  rw [hown] at hnot
  cases hnot

theorem getField_begins (hs : c.SeesField s) : (getField a s).Begins c := by
  obtain ⟨heap, hheap⟩ := h.exists_heap (.inr ⟨a, ha, rfl⟩)
  refine h.session Option.toList rfl rfl rfl (fun _ _ => rfl)
    (a.readField_confined (h.owns_of_sees hs.1)) ?_
  exact Handle.readField_yields (h.steady.settled a.heap) hheap fun o ho =>
    h.live_of_sees hs.1 (Multiset.mem_coe.mpr ho)

theorem setField_begins (hs : c.SeesField s) {target : Option Handle}
    (htarget : ∀ b ∈ target, c.Sees (.root b)) : (setField a s target).Begins c := by
  by_cases haccepts : a.accepts target = true
  · have hstored : ∀ o ∈ target.map Handle.obj, c.world.isLive o = true ∧
        c.world.owns a.heap o = true := by
      intro o ho
      obtain ⟨b, hb, rfl⟩ := Option.map_eq_some_iff.mp ho
      obtain ⟨hlive, hown⟩ := h.handle (htarget b hb)
      rw [hb] at haccepts
      have hheap : b.heap = a.heap := of_decide_eq_true haccepts
      exact ⟨hlive, hheap ▸ hown⟩
    refine h.session (fun _ => []) (start_setField haccepts) rfl rfl (by simp)
      (a.storeField_confined (h.owns_of_sees hs.1) fun o ho => (hstored o ho).1) ?_
    obtain ⟨old, hold⟩ := hs.2
    exact (Handle.storeField_ends (h.steady.settled a.heap) (h.mem_ledger_holds ha) hold
      hstored).mono (fun _ _ hs => Session.yields_nil_iff.mpr hs) fun _ _ hf => hf
  · exact refuse_begins h (.inl rfl) (start_setField_foreign haccepts)

theorem takeField_begins (hs : c.SeesField s) : (takeField a s).Begins c := by
  obtain ⟨old, hold⟩ := hs.2
  refine h.session Option.toList rfl rfl rfl (fun _ _ => rfl)
    (a.unloadField_confined (h.owns_of_sees hs.1)) ?_
  exact Handle.unloadField_ends (h.steady.settled a.heap) (h.mem_ledger_holds ha) hold

omit ha in
/-- Storing in a list, if the item is of the list's heap. -/
theorem storing_begins {item : Handle} (hitem : c.Sees (.root item)) {op : Locked Unit} {call : Call}
    (hstart : call.start =
      if item.heap = a.heap then session a.heap op fun _ => {} else refuse a .foreignStore)
    (hspends : call.spends = []) (hleaves : call.leaves = [])
    (hconfined : c.world.isLive item.obj = true → op.Confined c.world.isLive c.Owns)
    (hop : c.world.isLive item.obj = true → c.world.owns a.heap item.obj = true →
      Ends op ⟨c.world, []⟩
        (fun _ s => s.Settled a.heap c.todo c.holds (dues c.todo c.heaps c.incoming))
        (Session.Refused ⟨c.world, []⟩ (call.Strays c.world))) : call.Begins c := by
  by_cases hheap : item.heap = a.heap
  · obtain ⟨hlive, hown⟩ := h.handle hitem
    refine h.session (fun _ => []) (hstart.trans (if_pos hheap)) hspends hleaves (by simp)
      (hconfined hlive) ?_
    exact (hop hlive (hheap ▸ hown)).mono (fun _ _ hs => Session.yields_nil_iff.mpr hs)
      fun _ _ hf => hf
  · exact refuse_begins h (.inl rfl) (hstart.trans (if_neg hheap))

variable (hs : c.SeesList s)

include hs

theorem enlist_begins {item : Handle} (hitem : c.Sees (.root item)) (index : Nat) :
    (pushItem a s item).Begins c ∧ (insertItem a s index item).Begins c := by
  obtain ⟨items, hitems⟩ := hs.2
  refine ⟨?_, ?_⟩ <;>
    exact storing_begins h hitem rfl rfl rfl
      (a.enlist_confined (h.owns_of_sees hs.1) _)
      fun hlive hown => Handle.enlist_ends (h.steady.settled a.heap)
        (h.mem_ledger_holds ha) hitems hlive hown

theorem setItem_begins {item : Handle} (hitem : c.Sees (.root item)) (index : Nat) :
    (setItem a s index item).Begins c := by
  obtain ⟨items, hitems⟩ := hs.2
  refine storing_begins h hitem rfl rfl rfl
    (a.replace_confined (h.owns_of_sees hs.1) index) fun hlive hown => ?_
  exact Handle.replace_ends (h.steady.settled a.heap) (h.mem_ledger_holds ha) hitems hlive hown

theorem getItem_begins (index : Nat) : (getItem a s index).Begins c := by
  obtain ⟨heap, hheap⟩ := h.exists_heap (.inr ⟨a, ha, rfl⟩)
  refine h.session Option.toList rfl rfl rfl (fun _ _ => rfl)
    (a.readItem_confined (h.owns_of_sees hs.1) index) ?_
  refine Handle.readItem_yields (h.steady.settled a.heap) hheap (fun o ho => ?_) index
  exact h.live_of_sees hs.1 (Multiset.mem_coe.mpr ho)

theorem items_begins : (items a s).Begins c := by
  obtain ⟨heap, hheap⟩ := h.exists_heap (.inr ⟨a, ha, rfl⟩)
  refine h.session id rfl rfl rfl (fun _ _ => rfl) (a.readItems_confined (h.owns_of_sees hs.1)) ?_
  exact Handle.readItems_yield (h.steady.settled a.heap) hheap fun o ho =>
    h.live_of_sees hs.1 (Multiset.mem_coe.mpr ho)

theorem removeItem_begins (index : Nat) : (removeItem a s index).Begins c := by
  obtain ⟨items, hitems⟩ := hs.2
  refine h.session (fun b => [b]) rfl rfl rfl (fun _ _ => rfl)
    (a.removeAt_confined (h.owns_of_sees hs.1) index) ?_
  exact Handle.removeAt_ends (h.steady.settled a.heap) (h.mem_ledger_holds ha) hitems

theorem popItem_begins : (popItem a s).Begins c := by
  obtain ⟨items, hitems⟩ := hs.2
  refine h.session Option.toList rfl rfl rfl (fun _ _ => rfl)
    (a.removeLast_confined (h.owns_of_sees hs.1)) ?_
  exact Handle.removeLast_ends (h.steady.settled a.heap) (h.mem_ledger_holds ha) hitems

theorem clearItems_begins : (clearItems a s).Begins c := by
  obtain ⟨items, hitems⟩ := hs.2
  refine h.session (fun _ => []) rfl rfl rfl (by simp)
    (a.removeAll_confined (h.owns_of_sees hs.1)) ?_
  exact (Handle.removeAll_ends (h.steady.settled a.heap) (h.mem_ledger_holds ha)
    hitems).mono (fun _ _ hs => Session.yields_nil_iff.mpr hs) fun _ _ hf => hf

end Rooted

section Others

/-- A call that returns no handles has begun well when the world is steady. -/
theorem begun_of_steady {call : Call} {r : Receipt} {tasks : List Task} {w : World}
    {rest : Multiset Holding} {kept : Multiset HeapId} (hr : r.handles = [])
    (hheld : c.held = call.spends + rest) (hheaps : c.heaps = call.leaves + kept)
    (hw : w.Steady (tasks + c.todo)
      (r.others + ((c.incoming.map Holding.root : List Holding) + rest))
      (dues (tasks + c.todo) (r.heaps + kept) c.incoming))
    (hturns : ∃ held, c.world.Turns c.Owns none c.todo held tasks w) :
    call.Begun c r tasks w := by
  refine ⟨?_, by simp [hr], hturns⟩
  rw [hr, hheld, hheaps, add_tsub_cancel_left, add_tsub_cancel_left]
  rw [add_left_comm] at hw
  rw [List.nil_append, World.Orderly, ← Multiset.coe_add]
  exact hw

/-- A call without a session has begun well when the world only grew. -/
theorem begun_of_grows (h : c.Orderly) {call : Call} {r : Receipt} {tasks : List Task} {w : World}
    {rest : Multiset Holding} {kept : Multiset HeapId} (hr : r.handles = [])
    (hheld : c.held = call.spends + rest) (hheaps : c.heaps = call.leaves + kept)
    (hgrows : c.world.Grows c.Owns none w)
    (hw : w.Steady (tasks + c.todo)
      (r.others + ((c.incoming.map Holding.root : List Holding) + rest))
      (dues (tasks + c.todo) (r.heaps + kept) c.incoming))
    (hidle : ∀ u ∈ tasks, u.buries = none)
    (hlive : ∀ u ∈ tasks, ∀ o ∈ u.targets w, ¬ c.world.Gone o) : call.Begun c r tasks w := by
  refine begun_of_steady hr hheld hheaps hw ⟨_, .of_grows hgrows hw.guarded.dropTasks h.apart hidle ?_⟩
  exact fun u hu o ho hgone => absurd hgone (hlive u hu o ho)

theorem dues_cons_heap (todo : Multiset Task) (g : HeapId) (heaps : Multiset HeapId)
    (incoming : List Handle) :
    dues todo (g ::ₘ heaps) incoming =
      fun g' => dues todo heaps incoming g' + if g' = g then 1 else 0 := by
  funext g'
  unfold dues
  rw [Multiset.count_cons]
  push_cast
  omega

theorem dues_leave (todo : Multiset Task) (g : HeapId) (heaps : Multiset HeapId)
    (incoming : List Handle) :
    dues (.leave g ::ₘ todo) heaps incoming = dues todo (g ::ₘ heaps) incoming := by
  rw [dues_cons_heap]
  funext g'
  rw [dues_cons]
  simp [eq_comm]

variable (h : c.Orderly)

include h

theorem createHeap_begins {config : Config} (hverify : config.verify = true) :
    (createHeap config).Begins c := by
  have hfound := h.steady.found hverify
  rw [← dues_cons_heap] at hfound
  have hnoted : ((c.world.found config).note (.creatingHeap config)).Steady c.todo c.holds
      (dues c.todo (c.world.heaps.size ::ₘ c.heaps) c.incoming) := .of_alike hfound (.note _ _)
  have hnote : (c.world.found config).Spares (c.world.found config).isLive (fun _ => True)
      ((c.world.found config).note (.creatingHeap config)) :=
    .note _ ⟨by simp [Event.marks], rfl⟩
  have hgrows : c.world.Grows c.Owns none ((c.world.found config).note (.creatingHeap config)) :=
    (Grows.found c.world config).trans_spares hnote fun _ _ _ => rfl
  refine begun_of_grows h rfl (zero_add _).symm (zero_add _).symm hgrows ?_ (by simp) (by simp)
  simp only [Multiset.coe_nil, zero_add, Multiset.coe_singleton, Multiset.singleton_add]
  exact hnoted

theorem shareHeap_begins {g : HeapId} (hg : c.Knows g) : (shareHeap g).Begins c := by
  have hentered := h.steady.enter (h.holdersAt_pos hg)
  rw [← dues_cons_heap] at hentered
  refine begun_of_grows h rfl (zero_add _).symm (zero_add _).symm (.enter _ g) ?_ (by simp) (by simp)
  simpa [holds] using hentered

theorem dropHeap_begins {g : HeapId} (hg : g ∈ c.heaps) : (dropHeap g).Begins c := by
  obtain ⟨kept, hkept⟩ := Multiset.exists_cons_of_mem hg
  have hleft := World.Sound.addLeave h.steady g
  rw [hkept, ← dues_leave] at hleft
  refine begun_of_grows h rfl (zero_add _).symm hkept (.refl _) ?_ (by simp [Task.buries])
    (by simp [Task.targets, Task.holdings, Task.released])
  simp only [Multiset.coe_nil, zero_add]
  exact hleft

/-- A call that gives holdings up leaves tasks to do so. -/
theorem give_begins {call : Call} (hstart : call.start = pure ({}, call.spends.map .ofHolding))
    (hleaves : call.leaves = []) (hspends : (call.spends : Multiset Holding) ≤ c.held) :
    call.Begins c := by
  obtain ⟨rest, hheld⟩ := Multiset.le_iff_exists_add.mp hspends
  have hsteady := h.steady
  rw [holds, hheld, add_left_comm] at hsteady
  have hgiven := World.Sound.giveAll call.spends hsteady
  have hdues : dues ((call.spends.map Task.ofHolding : List Task) + (c.todo : Multiset Task)) c.heaps
      c.incoming = dues c.todo c.heaps c.incoming := by
    have hleave (g : HeapId) : Task.leave g ∉ call.spends.map Task.ofHolding := by
      intro hg
      obtain ⟨x, -, hx⟩ := List.mem_map.mp hg
      cases x <;> cases hx
    funext g
    rw [dues_add, Multiset.coe_count, List.count_eq_zero.mpr (hleave g), Nat.cast_zero, add_zero]
  unfold Begins
  rw [hstart]
  refine begun_of_grows h rfl hheld (by rw [hleaves]; exact (zero_add _).symm) (.refl _) ?_
    (fun u hu => ?_) fun u hu o ho hgone => ?_
  · simp only [Multiset.coe_nil, zero_add, hdues]
    exact hgiven
  · obtain ⟨x, -, rfl⟩ := List.mem_map.mp hu
    cases x <;> rfl
  · obtain ⟨x, hx, rfl⟩ := List.mem_map.mp hu
    rw [Task.targets_ofHolding] at ho
    have hlive := h.live_of_sees (.held (Multiset.mem_of_le hspends hx)) ho
    rw [hgone.2] at hlive
    cases hlive

/-- One more weak reference. -/
theorem addWeak_steady (o : ObjId) :
    (c.world.retainWeak o).Steady c.todo (.weak o ::ₘ c.holds) (dues c.todo c.heaps c.incoming) := by
  have hstrong : (c.world.retainWeak o).strongAt = c.world.strongAt :=
    strongAt_modifyObject fun _ => rfl
  refine .of_alike ?_ (.modifyObject _ o fun _ _ => rfl)
  rw [hstrong]
  exact h.steady.addWeak o

theorem addWeak_begun {call : Call} (hspends : call.spends = []) (hleaves : call.leaves = [])
    (o : ObjId) : call.Begun c { others := [.weak o] } [] (c.world.retainWeak o) := by
  refine begun_of_grows h rfl (by rw [hspends]; exact (zero_add _).symm)
    (by rw [hleaves]; exact (zero_add _).symm) (.modifyObject _ o fun _ _ => rfl) ?_ (by simp) (by simp)
  simp only [Multiset.coe_nil, zero_add]
  exact addWeak_steady h o

theorem downgrade_begins {a : Handle} : (downgrade a).Begins c := addWeak_begun h rfl rfl a.obj

/-- A call that does nothing. -/
theorem begun_nothing {call : Call} (hspends : call.spends = []) (hleaves : call.leaves = []) :
    call.Begun c {} [] c.world := by
  refine begun_of_grows h rfl (by rw [hspends]; exact (zero_add _).symm)
    (by rw [hleaves]; exact (zero_add _).symm) (.refl _) ?_ (by simp) (by simp)
  simp only [Multiset.coe_nil, zero_add]
  exact h.steady

theorem cloneWeak_begins {x : WeakRef} : (cloneWeak x).Begins c := by
  obtain ⟨target⟩ := x
  cases target with
  | none => exact begun_nothing h rfl rfl
  | some o => exact addWeak_begun h rfl rfl o

theorem newList_begins {targets : List Handle} (htargets : ∀ b ∈ targets, c.Sees (.root b)) :
    (newList targets).Begins c := by
  obtain ⟨hretained, halike⟩ := h.steady.retainAll fun b hb => (h.handle (htargets b hb)).1
  have hslot := Steady.addSlot (.many (targets.map Handle.obj)) hretained fun o ho => by
    obtain ⟨b, hb, rfl⟩ := List.mem_map.mp ho
    rw [halike.isLive]
    exact (h.handle (htargets b hb)).1
  obtain ⟨hgrows, hslots⟩ := Grows.retainAll (w := c.world) targets
  refine begun_of_grows h rfl (zero_add _).symm (zero_add _).symm (hgrows.addSlot hslots _) ?_
    (by simp) (by simp)
  simp only [Multiset.coe_nil, zero_add]
  exact hslot

theorem newField_begins {target : Option Handle} (htarget : ∀ b ∈ target, c.Sees (.root b)) :
    (newField target).Begins c := by
  cases target with
  | none =>
      have hslot := Steady.addSlot (.one none) ((zero_add (c.todo : Multiset Task)).symm ▸ h.steady)
        (by simp [Slot.targets])
      refine begun_of_grows h rfl (zero_add _).symm (zero_add _).symm ((Grows.refl _).addSlot rfl _) ?_
        (by simp) (by simp)
      simp only [Multiset.coe_nil, zero_add]
      exact hslot
  | some b =>
      have hlive := (h.handle (htarget b rfl)).1
      have halike : c.world.Alike (c.world.retain b.obj) := .modifyObject _ _ fun _ _ => rfl
      have hretained := h.steady.retain hlive
      rw [← Multiset.singleton_add] at hretained
      have hslot := Steady.addSlot (.one (some b.obj)) hretained fun o ho => by
        rw [halike.isLive, List.mem_singleton.mp ho]
        exact hlive
      have hgrows : c.world.Grows c.Owns none (c.world.retain b.obj) :=
        .modifyObject _ _ fun _ _ => rfl
      refine begun_of_grows h rfl (zero_add _).symm (zero_add _).symm (hgrows.addSlot rfl _) ?_
        (by simp) (by simp)
      simp only [Multiset.coe_nil, zero_add]
      exact hslot

/-- Rebinding a handle that the client holds. -/
theorem assign_begins {a b : Handle} (ha : .root a ∈ c.held) (hb : c.Sees (.root b)) :
    (assign a b).Begins c := by
  obtain ⟨rest, hheld⟩ := Multiset.exists_cons_of_mem ha
  have hsteady := h.steady
  rw [holds, hheld, Multiset.add_cons] at hsteady
  by_cases hobj : a.obj = b.obj
  · unfold Begins
    rw [start_assign_same hobj]
    refine begun_of_grows h rfl hheld (zero_add _).symm (.refl _) ?_ (by simp) (by simp)
    simp only [Multiset.coe_nil, zero_add]
    exact hsteady
  · by_cases hheap : a.heap = b.heap
    · obtain ⟨hlive, hown⟩ := h.handle hb
      rw [← hheap] at hown
      have hrebound : Ends (a.rebind b.obj) ⟨c.world, []⟩
          (fun _ s => s.Settled a.heap c.todo
            (.root { a with obj := b.obj } ::ₘ ((c.incoming.map Holding.root : List Holding) + rest))
            (dues c.todo c.heaps c.incoming)) fun _ _ => False := by
        unfold Handle.rebind
        rw [Ends.bind_iff, Locked.ends_update]
        -- the new target is retained first, so that the redirected root never lacks its reference
        have hretained := Locked.retain_sound (hsteady.settled a.heap) hlive
        exact Locked.retarget_ends hretained hlive hown
      have hconfined : Locked.Confined c.world.isLive c.Owns (a.rebind b.obj) := a.rebind_confined hlive
      unfold Begins
      rw [start_assign hobj hheap, session, Ends.bind_iff]
      refine (locked_ends (P := fun _ s => c.world.Leads c.world.isLive c.Owns s.world)
        ((hconfined _ h.closed_world).and hrebound)).mono ?_ fun _ _ hf => hf.choose_spec.1.2.elim
      rintro ⟨_, dead⟩ w ⟨hw, s, hleads, hreclaimed⟩
      refine begun_of_steady rfl hheld (zero_add _).symm ?_
        ⟨_, .of_collect (.of_spares hleads.spares) hreclaimed h.apart⟩
      rw [← dues_finalizing a.heap dead] at hw
      simp only [Multiset.coe_nil, zero_add]
      exact hw
    · exact refuse_begins h (.inr rfl) (start_assign_foreign hobj hheap)

/-- An upgrade holds the heap of its target while it claims it. -/
theorem claim_ends {o : ObjId} {ob : Object} (hob : c.world.objects[o]? = some ob)
    (hexists : c.world.heapExists ob.heap = true) :
    ∃ found dead w w₁, locked ob.heap (WeakRef.claim ob.heap o) (c.world.enter ob.heap) =
        .ok (found, dead) w ∧
      (∀ a ∈ found.toList, a.heap = ob.heap) ∧
      w.Steady (Task.finalizing ob.heap dead + c.todo)
        ((found.toList.map Holding.root : List Holding) + c.holds)
        (fun g => (dues c.todo c.heaps c.incoming g + if g = ob.heap then 1 else 0) -
          (found.toList.map Handle.heap).count g) ∧
      c.world.Grows c.Owns none w₁ ∧
      w₁.Reclaimed ob.heap c.todo ((found.toList.map Holding.root : List Holding) + c.holds) dead w := by
  have hpos : 0 < c.world.holdersAt ob.heap := by simpa [heapExists_eq] using hexists
  have hentered := (h.steady.enter hpos).settled ob.heap
  have hclaimed := WeakRef.claim_yields hentered (World.owns_iff.mpr ⟨ob, hob, rfl⟩)
  have hconfined := WeakRef.claim_confined ob.heap o ⟨c.world.enter ob.heap, []⟩
    hentered.sound.guarded.closed_world
  have hends := locked_yields hconfined hclaimed
  obtain ⟨⟨found, dead⟩, w, hlocked, hw, s, ⟨hheaps, hleads⟩, hreclaimed⟩ :=
    (hends.mono (fun _ _ hs => hs) fun _ _ hf => hf.choose_spec.1.2).exists_ok
  have hgrows : c.world.Grows c.Owns none s.world :=
    (Grows.enter c.world ob.heap).trans_spares hleads.spares fun s _ hs => hleads.spares.slots s hs
  exact ⟨found, dead, w, s.world, hlocked, hheaps, hw, hgrows, hreclaimed⟩

/-- The handle that an upgrade returns takes over the hold on the heap. -/
theorem upgrade_found {o : ObjId} {g : HeapId} {a : Handle} {dead : List ObjId} {w w₁ : World}
    {held : Multiset Holding} (hheap : a.heap = g)
    (hw : w.Steady (Task.finalizing g dead + c.todo) (([a].map Holding.root : List Holding) + c.holds)
      (fun g' => (dues c.todo c.heaps c.incoming g' + if g' = g then 1 else 0) -
        ([a].map Handle.heap).count g'))
    (hgrows : c.world.Grows c.Owns none w₁) (hreclaimed : w₁.Reclaimed g c.todo held dead w) :
    (upgrade ⟨some o⟩).Begun c { others := [.root a] } (Task.finalizing g dead) w := by
  have howed : (fun g' => (dues c.todo c.heaps c.incoming g' + if g' = g then 1 else 0) -
      ([a].map Handle.heap).count g') = dues c.todo c.heaps c.incoming := by
    funext g'
    rw [Handle.count_heaps_cons, hheap]
    simp
  rw [howed] at hw
  refine begun_of_steady rfl (zero_add _).symm (zero_add _).symm ?_
    ⟨_, .of_collect hgrows hreclaimed h.apart⟩
  simp only [Multiset.coe_nil, zero_add, dues_finalizing]
  exact hw

/-- When nothing was found, the heap is left again, as the last task. -/
theorem upgrade_lost {o : ObjId} {g : HeapId} {dead : List ObjId} {w w₁ : World}
    {held : Multiset Holding}
    (hw : w.Steady (Task.finalizing g dead + c.todo) c.holds
      (fun g' => dues c.todo c.heaps c.incoming g' + if g' = g then 1 else 0))
    (hgrows : c.world.Grows c.Owns none w₁) (hreclaimed : w₁.Reclaimed g c.todo held dead w) :
    (upgrade ⟨some o⟩).Begun c {} (Task.finalizing g dead ++ [.leave g]) w := by
  refine begun_of_steady rfl (zero_add _).symm (zero_add _).symm ?_
    ⟨_, .of_session hgrows hreclaimed h.apart ?_⟩
  · have htasks : ((Task.finalizing g dead ++ [.leave g] : List Task) : Multiset Task) +
        (c.todo : Multiset Task) =
          .leave g ::ₘ ((Task.finalizing g dead : Multiset Task) + (c.todo : Multiset Task)) := by
      rw [← Multiset.coe_add, add_right_comm, ← Multiset.singleton_add, add_comm {Task.leave g}]
      rfl
    have howed : dues (.leave g ::ₘ ((Task.finalizing g dead : Multiset Task) + c.todo)) c.heaps
        c.incoming = fun g' => dues c.todo c.heaps c.incoming g' + if g' = g then 1 else 0 := by
      funext g'
      rw [dues_cons, dues_finalizing]
      simp [eq_comm]
    simp only [Multiset.coe_nil, zero_add]
    rw [htasks, howed]
    exact World.Sound.addLeave hw g
  · intro u hu
    rw [List.mem_singleton.mp hu]
    exact ⟨rfl, fun _ => rfl⟩

theorem upgrade_begins {x : WeakRef} : (upgrade x).Begins c := by
  unfold Begins Ends
  obtain ⟨-, -, hnothing⟩ | ⟨o, ob, rfl, hob, hexists⟩ := upgrade_cases x c.world
  · rw [hnothing]
    exact begun_nothing h rfl rfl
  · obtain ⟨found, dead, w, w₁, hlocked, hheaps, hw, hgrows, hreclaimed⟩ := claim_ends h hob hexists
    simp only [start, hob, if_pos hexists, hlocked]
    cases found with
    | some a => exact upgrade_found h (hheaps a (List.mem_singleton_self a)) hw hgrows hreclaimed
    | none =>
        apply upgrade_lost h _ hgrows hreclaimed
        simpa using hw

/-- A world in which an object is placed is closed, if the client has what its value holds. -/
theorem closed_place {g : HeapId} {n : String} {v : Value}
    (hholdings : (v.holdings : Multiset Holding) ≤ c.held) {w : World} {o : ObjId}
    (hplace : place g n v c.world = .ok o w) : w.Closed w.isLive c.Owns ∧ w.isLive o = true := by
  cases hplace
  have hclosed := h.closed_world
  have hbirth (p : ObjId) : (World.isLive { c.world with
      objects := c.world.objects.push { heap := g, typeName := n, value := v },
      tallies := c.world.tallies.push .empty } p) =
        (decide (p = c.world.objects.size) || c.world.isLive p) :=
    isLive_birth (w := c.world) (g := g) (n := n) (v := v) p
  have hvalue (p : ObjId) : (World.valueAt { c.world with
      objects := c.world.objects.push { heap := g, typeName := n, value := v },
      tallies := c.world.tallies.push .empty } p) =
        if p = c.world.objects.size then v else c.world.valueAt p :=
    valueAt_birth (w := c.world) (g := g) (n := n) (v := v) p
  refine ⟨⟨rfl, fun p hp s hs => ?_, fun s hs t ht => ?_⟩, by simp [hbirth]⟩
  · rw [hvalue] at hs
    rw [hbirth] at hp
    split_ifs at hs with hnew
    · apply mem_ledger_of_held
      exact Multiset.mem_add.mpr (.inr (Multiset.mem_of_le hholdings
        (Multiset.mem_coe.mpr (Value.mem_holdings_of_reported hs))))
    · exact hclosed.reported p (by simpa [hnew] using hp) s hs
  · rw [hbirth, hclosed.targets s hs t ht, Bool.or_true]

theorem alloc_begins {g : HeapId} {n : String} {v : Value} (hg : g ∈ c.heaps) (hv : v.Matched)
    (hholdings : (v.holdings : Multiset Holding) ≤ c.held) : (alloc g n v).Begins c := by
  obtain ⟨rest, hheld⟩ := Multiset.le_iff_exists_add.mp hholdings
  have hsteady := h.steady
  rw [holds, hheld, add_left_comm] at hsteady
  obtain ⟨heap, hheap⟩ := h.exists_heap (.inl hg)
  have hexists : c.world.heapExists g = true := by
    rw [heapExists_eq]
    exact decide_eq_true (h.holdersAt_pos (.inl hg))
  unfold Begins
  rw [start, Ends.bind_iff]
  have hplace : place g n v c.world = .ok c.world.objects.size _ := rfl
  obtain ⟨hclosed, hlive⟩ := closed_place h hholdings hplace
  have hgrown : c.world.Grows c.Owns none _ := Grows.place hexists hplace
  have hconfined := Locked.enroll_confined g hlive n ⟨_, []⟩ hclosed
  have hends := locked_yields hconfined (Locked.enroll_yields hsteady hv hheap hplace)
  refine Ends.bind_iff.mpr (hends.mono ?_ ?_)
  · rintro ⟨r, dead⟩ w ⟨hw, s, ⟨-, hleads⟩, hreclaimed⟩
    have hgrows := hgrown.trans_spares hleads.spares fun s _ hs => hleads.spares.slots s hs
    refine ⟨?_, fun a ha => ?_, _, .of_collect hgrows hreclaimed h.apart⟩
    · have hspends : c.held - (alloc g n v).spends = rest := by
        rw [hheld]
        exact add_tsub_cancel_left _ _
      have hleaves : c.heaps - (alloc g n v).leaves = c.heaps := tsub_zero _
      rw [← dues_yielded g dead] at hw
      rw [hspends, hleaves, Multiset.coe_nil, Multiset.coe_nil, zero_add, zero_add]
      exact orderly_of_yielded hw
    · rw [List.mem_singleton.mp ha]
      rfl
  · rintro f w ⟨s, ⟨hleads, hf, hstray⟩, rfl⟩
    have hnot : f.upFront ≠ true := by simp [hf]
    exact ⟨fun hup => absurd hup hnot, fun hup => absurd hup hnot, fun _ => hstray⟩

end Others

/-- Every call that is allowed begins well. -/
theorem begins {call : Call} (h : c.Orderly) (hallowed : call.Allowed c) :
    call.Begins c := by
  cases call with
  | createHeap => exact createHeap_begins h hallowed
  | shareHeap => exact shareHeap_begins h hallowed
  | dropHeap => exact dropHeap_begins h hallowed
  | alloc => exact alloc_begins h hallowed.1 hallowed.2.1 hallowed.2.2
  | clone => exact clone_begins h hallowed
  | drop a => exact give_begins h rfl rfl (Multiset.singleton_le.mpr hallowed)
  | assign => exact assign_begins h hallowed.1 hallowed.2
  | getField => exact getField_begins h hallowed.1 hallowed.2
  | setField => exact setField_begins h hallowed.1 hallowed.2.1 hallowed.2.2
  | takeField => exact takeField_begins h hallowed.1 hallowed.2
  | pushItem => exact (enlist_begins h hallowed.1 hallowed.2.1 hallowed.2.2 0).1
  | insertItem a s index =>
      exact (enlist_begins h hallowed.1 hallowed.2.1 hallowed.2.2 index).2
  | setItem a s index => exact setItem_begins h hallowed.1 hallowed.2.1 hallowed.2.2 index
  | getItem a s index => exact getItem_begins h hallowed.1 hallowed.2 index
  | items => exact items_begins h hallowed.1 hallowed.2
  | removeItem a s index => exact removeItem_begins h hallowed.1 hallowed.2 index
  | popItem => exact popItem_begins h hallowed.1 hallowed.2
  | clearItems => exact clearItems_begins h hallowed.1 hallowed.2
  | downgrade => exact downgrade_begins h
  | cloneWeak => exact cloneWeak_begins h
  | dropWeak => exact give_begins h rfl rfl hallowed
  | upgrade => exact upgrade_begins h
  | newField => exact newField_begins h hallowed
  | newList => exact newList_begins h hallowed
  | dropSlot => exact give_begins h rfl rfl (Multiset.singleton_le.mpr hallowed)

end Call

namespace Client

/-- What the client can look into keeps its value. -/
theorem Orderly.valueAt_eq (h : c.Orderly) {own : SlotId → Prop} {spent : Option Task}
    {todo : Multiset Task} {held : Multiset Holding} {more : List Task} {w : World}
    (hturns : c.world.Turns own spent todo held more w) {a : Handle} (ha : c.Sees (.root a)) :
    w.valueAt a.obj = c.world.valueAt a.obj := by
  obtain ⟨g, dead, tail, -, hturn⟩ := hturns
  exact hturn.valueAt (lt_size_of_isLive (h.handle ha).1)

/-- A call of a client at rest has begun. -/
theorem Sound.opened (h : c.Sound) (hrest : c.AtRest) {call : Call} (hallowed : call.Allowed c)
    {r : Receipt} {tasks : List Task} {w : World} (hbegun : call.Begun c r tasks w) :
    (c.opened call r tasks w).Sound := by
  obtain ⟨htodo, hincoming⟩ := hrest
  obtain ⟨held, hturns⟩ := hbegun.turns
  refine ⟨?_, fun a ha => ?_⟩
  · have horderly := hbegun.orderly
    rwa [htodo, hincoming, List.append_nil, List.append_nil] at horderly
  · refine hallowed.knows_after (hbegun.home a ha) (Multiset.le_add_left _ _)
      (Multiset.le_add_left _ _) fun b hb => ?_
    exact h.orderly.valueAt_eq hturns hb

/-- A call that was refused changed nothing that matters. -/
theorem Sound.of_refused (hrest : c.AtRest) {call : Call} {f : Fault} {w : World}
    (hrefused : call.Refused c f w) (hf : f.upFront = true) : Sound { c with world := w } := by
  refine ⟨hrefused.orderly hf, fun a ha => ?_⟩
  rw [hrest.2] at ha
  cases ha

/-- A handle arrives, and holds its heap from now on. -/
theorem Orderly.arrive {a : Handle} {rest : List Handle} (h : c.Orderly)
    (hincoming : c.incoming = a :: rest) (hknows : c.Knows a.heap) :
    Orderly ⟨c.world.enter a.heap, .root a ::ₘ c.held, c.heaps, c.todo, rest⟩ := by
  have hentered := h.steady.enter (h.holdersAt_pos hknows)
  rw [holds, hincoming] at hentered
  have hheld : ((a :: rest).map Holding.root : List Holding) + c.held =
      (rest.map Holding.root : List Holding) + .root a ::ₘ c.held := by
    rw [List.map_cons, ← Multiset.cons_coe, Multiset.cons_add, Multiset.add_cons]
  have hdues : (fun g => dues c.todo c.heaps (a :: rest) g + if g = a.heap then 1 else 0) =
      dues c.todo c.heaps rest := by
    funext g
    unfold dues
    rw [List.map_cons, List.count_cons]
    by_cases hg : g = a.heap
    · simp [hg]
      omega
    · simp [hg, Ne.symm hg]
  rw [hheld, hdues] at hentered
  exact hentered

theorem Sound.arrive {a : Handle} {rest : List Handle} (h : c.Sound)
    (hincoming : c.incoming = a :: rest) :
    Sound ⟨c.world.enter a.heap, .root a ::ₘ c.held, c.heaps, c.todo, rest⟩ := by
  refine ⟨h.orderly.arrive hincoming (h.known a (hincoming ▸ List.mem_cons_self)), fun b hb => ?_⟩
  exact (h.known b (hincoming ▸ List.mem_cons_of_mem _ hb)).mono (Multiset.le_cons_self _ _)
    (le_refl _) fun _ _ => rfl

/-- All handles arrive, one by one. -/
theorem Sound.arriveAll {motive : Client → Prop} (h : c.Sound) (hbase : motive c)
    (htodo : c.todo = [])
    (hstep : ∀ (c : Client) (a : Handle) (rest : List Handle), motive c → c.todo = [] →
      c.incoming = a :: rest →
        motive ⟨c.world.enter a.heap, .root a ::ₘ c.held, c.heaps, c.todo, rest⟩) :
    ∃ w, Receipt.deliver { handles := c.incoming } c.world = .ok () w ∧
      Sound ⟨w, (c.incoming.map .root : List Holding) + c.held, c.heaps, c.todo, []⟩ ∧
      motive ⟨w, (c.incoming.map .root : List Holding) + c.held, c.heaps, c.todo, []⟩ := by
  unfold Receipt.deliver
  obtain ⟨w, held, heaps, todo, incoming⟩ := c
  dsimp only at htodo ⊢
  induction incoming generalizing w held with
  | nil =>
      rw [List.map_nil, Multiset.coe_nil, zero_add]
      exact ⟨w, rfl, h, hbase⟩
  | cons a rest ih =>
      obtain ⟨w', hrest, hsound⟩ := ih _ _ (h.arrive rfl) (hstep _ a rest hbase htodo rfl)
      refine ⟨w', hrest, ?_⟩
      rw [List.map_cons, ← Multiset.cons_coe, Multiset.cons_add, ← Multiset.add_cons]
      exact hsound

/-- A task is carried out. -/
theorem Sound.advances {t : Task} {rest more : List Task} {w : World} (h : c.Sound)
    (htodo : c.todo = t :: rest) (hstep : t.step c.world = .ok more w) :
    t.Advances c.world rest c.held c.heaps c.incoming more w := by
  have horderly := h.orderly
  unfold Orderly at horderly
  rw [htodo, ← Multiset.cons_coe] at horderly
  exact (Task.step_ends horderly).of_ok hstep

theorem Sound.step {t : Task} {rest more : List Task} {w : World} (h : c.Sound)
    (htodo : c.todo = t :: rest) (hstep : t.step c.world = .ok more w) :
    Sound { c with world := w, todo := more ++ rest } := by
  obtain ⟨hnext, -, hturns⟩ := h.advances htodo hstep
  rw [Multiset.coe_add] at hnext
  refine ⟨hnext, fun a ha => (h.known a ha).mono (le_refl _) (le_refl _) fun b hb => ?_⟩
  exact h.orderly.valueAt_eq hturns hb

/-- All tasks are carried out, one by one. -/
theorem Sound.settle {motive : Client → Prop} (h : c.Sound) (hbase : motive c)
    (hstep : ∀ (c : Client) (t : Task) (rest more : List Task) (w : World), motive c →
      c.todo = t :: rest → t.step c.world = .ok more w →
        motive { c with world := w, todo := more ++ rest }) :
    ∃ w, settle c.todo c.world = .ok () w ∧ Sound { c with world := w, todo := [] } ∧
      motive { c with world := w, todo := [] } := by
  obtain ⟨w, held, heaps, todo, incoming⟩ := c
  dsimp only
  fun_induction RootedHeap.settle todo w with
  | case1 w => exact ⟨w, rfl, h, hbase⟩
  | case2 t rest w more w' hnext ih => exact ih (h.step rfl hnext) (hstep _ t rest more w' hbase rfl hnext)
  | case3 t rest w fault w' hfault =>
      have horderly := h.orderly
      unfold Orderly at horderly
      rw [← Multiset.cons_coe] at horderly
      exact ((Task.step_ends horderly).of_error hfault).elim

/-- A call of a client at rest is a session, the tasks that it leaves, one by one, and the delivery. -/
theorem Sound.finish {motive : Client → Prop} {call : Call} {r : Receipt} {tasks : List Task}
    {w : World} (h : (c.opened call r tasks w).Sound) (hbase : motive (c.opened call r tasks w))
    (hstep : ∀ (c : Client) (t : Task) (rest more : List Task) (w : World), motive c →
      c.todo = t :: rest → t.step c.world = .ok more w →
        motive { c with world := w, todo := more ++ rest })
    (harrive : ∀ (c : Client) (a : Handle) (rest : List Handle), motive c → c.todo = [] →
      c.incoming = a :: rest →
        motive ⟨c.world.enter a.heap, .root a ::ₘ c.held, c.heaps, c.todo, rest⟩) :
    ∃ w', Call.finish r tasks w = .ok r w' ∧ (c.after call r w').Sound ∧
      motive (c.after call r w') := by
  obtain ⟨w₁, hsettle, hsettled, hmotive⟩ := h.settle hbase hstep
  obtain ⟨w₂, hdeliver, hdelivered⟩ := hsettled.arriveAll hmotive rfl harrive
  exact ⟨w₂, Call.finish_of_settle hsettle hdeliver, hdelivered⟩

end Client

/-- A call that has begun comes to its end. -/
theorem Call.finishes {call : Call} (h : c.Sound) (hrest : c.AtRest) (hallowed : call.Allowed c)
    {r : Receipt} {tasks : List Task} {w : World} (hstart : call.start c.world = .ok (r, tasks) w) :
    ∃ w', call.run c.world = .ok r w' ∧ (c.after call r w').Sound := by
  have hopened := h.opened hrest hallowed ((begins h.orderly hallowed).of_ok hstart)
  obtain ⟨w', hfinish, hafter, -⟩ := hopened.finish (motive := fun _ => True) trivial
    (fun _ _ _ _ _ _ _ _ => trivial) fun _ _ _ _ _ _ => trivial
  exact ⟨w', run_of_start hstart hfinish, hafter⟩

/-- A call that is allowed leads to a sound client, or is refused. -/
theorem Call.run_ends {call : Call} (h : c.Sound) (hrest : c.AtRest) (hallowed : call.Allowed c) :
    Ends call.run c.world (fun r w => (c.after call r w).Sound) (call.Refused c) := by
  unfold Ends
  cases hstart : call.start c.world with
  | error f w =>
      rw [run_of_refusal hstart]
      exact (begins h.orderly hallowed).of_error hstart
  | ok p w =>
      obtain ⟨w', hrun, hafter⟩ := finishes h hrest hallowed hstart
      rw [hrun]
      exact hafter

/-- In the beginning there is nothing. -/
theorem World.steady_empty : Steady {} 0 0 (dues 0 0 []) := by
  have hlives : World.lives {} = 0 := rfl
  have hdead (o : ObjId) : World.isLive {} o = false := by simp [World.isLive]
  have hledger : World.ledger {} 0 0 = 0 := by simp [World.ledger, hlives]
  have hroots (g : HeapId) : World.rootsAt {} g = [] := by
    simp [World.rootsAt, World.registryAt, Registry.empty]
  have hsupport (r : RootId) (o : ObjId) : World.support {} r o = 0 := by simp [World.support]
  have hcount (o : ObjId) (r : RootId) : Tallies.count #[] o r = 0 := by simp [Tallies.count]
  refine ⟨⟨fun o => ?_, ?_, ?_, fun s _ => ?_, fun g => ?_, fun g => ?_, fun g => ?_, ?_⟩,
    ⟨fun o => ?_, ?_, ?_, ?_, ?_, ?_, fun a ha => ?_, ?_, ?_⟩, ⟨rfl, fun r => ?_, fun r o ho => ?_⟩,
    fun g o ho => ?_, fun g => ?_⟩
  · simp [World.strongAt, World.refs, hledger]
  · simp [hledger]
  · simp [hledger]
  · simp [World.slotAt, Slot.targets]
  · simp [hledger, hroots]
  · simp [hroots]
  · simp [hroots]
  · simp
  · simp [World.valueAt]
    decide
  · simp [World.owns]
  · simp
  · simp [hdead]
  · simp [hdead]
  · simp
  · simp [hledger] at ha
  · simp
  · simp
  · refine ⟨⟨fun o => ?_⟩, fun o ho => ?_⟩
    · simp [hcount, hsupport, Tallies.inflow, Tallies.tags]
    · simp [hcount] at ho
  · simp [hsupport] at ho
  · simp [World.owns] at ho
  · simp [World.holdersAt, hroots, dues]

/-- A client that behaves well has an orderly world at all times. -/
theorem Client.Reached.sound (h : c.Reached) : c.Sound := by
  induction h with
  | start => exact sound_of_steady steady_empty
  | ran _ hrest hallowed hrun ih => exact (Call.run_ends ih hrest hallowed).of_ok hrun
  | refused _ hrest hallowed hrun hf ih =>
      exact .of_refused hrest ((Call.run_ends ih hrest hallowed).of_error hrun) hf
  | opened _ hrest hallowed hstart ih =>
      exact ih.opened hrest hallowed ((Call.begins ih.orderly hallowed).of_ok hstart)
  | stepped _ htodo hstep ih => exact ih.step htodo hstep

end RootedHeap
