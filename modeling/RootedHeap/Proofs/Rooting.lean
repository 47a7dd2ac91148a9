import RootedHeap.Proofs.Sessions

/-! # Sessions that work on roots

Between operations every root has the support that the registry gives it. `Session.Settled` says so
of a session that is about to end; an operation that fails in an up-front check is
`Session.Refused`.
-/

namespace RootedHeap

/-- A sound session whose roots have the support that the registries give them. -/
def Session.Settled (g : HeapId) (todo : Multiset Task) (held : Multiset Holding)
    (owed : HeapId → ℤ) (s : Session) : Prop :=
  s.Sound g s.world s.world.support todo held owed

/-- A session that is about to end in the world `w`, having given references to `t` up. -/
structure Session.Sheds (g : HeapId) (w : World) (t : ObjId) (us : List ObjId)
    (todo : Multiset Task) (held : Multiset Holding) (owed : HeapId → ℤ) (s : Session) : Prop where
  sound : s.Sound g w w.support todo held owed
  letsGo : s.LetsGo w t us

/-- The handle that heap `g` issues next, to `t`. -/
def World.issue (w : World) (g : HeapId) (t : ObjId) : Handle := ⟨t, (w.registryAt g).next, g⟩

/-- The world in which that handle's root is registered. -/
def World.issued (w : World) (g : HeapId) (t : ObjId) : World :=
  w.setRegistry g ((w.registryAt g).acquire t).2

/-- A session that is about to end in the world `w`, but for a new handle to `t` that it issued. -/
structure Session.Issues (g : HeapId) (w : World) (t : ObjId) (us : List ObjId)
    (todo : Multiset Task) (held : Multiset Holding) (owed : HeapId → ℤ) (s : Session) : Prop where
  sound : s.Sound g (w.issued g t) (w.issued g t).support todo (.root (w.issue g t) ::ₘ held)
    fun g' => owed g' - if g' = g then 1 else 0
  below : s.Below (w.issued g t) t us

/-- A settled session that ends with `handles` of its heap under way to the client: their roots are
registered, but they do not hold the heap yet. -/
def Session.Yields (g : HeapId) (todo : Multiset Task) (held : Multiset Holding)
    (owed : HeapId → ℤ) (handles : List Handle) (s : Session) : Prop :=
  (∀ a ∈ handles, a.heap = g) ∧
    s.Settled g todo ((handles.map Holding.root : List Holding) + held) fun g' =>
      owed g' - (handles.map Handle.heap).count g'

/-- One more handle is one more that holds its heap. -/
theorem Handle.count_heaps_cons (a : Handle) (handles : List Handle) (g : HeapId) :
    (((a :: handles).map Handle.heap).count g : ℤ) =
      (handles.map Handle.heap).count g + if g = a.heap then 1 else 0 := by
  rw [List.map_cons, List.count_cons, Nat.cast_add]
  by_cases hg : g = a.heap
  · simp [hg]
  · simp [hg, Ne.symm hg]

/-- A fault in an up-front check changed nothing but the log; any other fault is due to a `stray`
object, which is of another heap. -/
structure Session.Refused (s : Session) (stray : Prop) (f : Fault) (s' : Session) : Prop where
  passed : f.upFront = true → s.Passed s.world.tallies s.unrooted s'
  stray : f.upFront = false → stray

variable {g : HeapId} {w : World} {support : RootId → ObjId → Nat} {todo : Multiset Task}
  {held : Multiset Holding} {owed : HeapId → ℤ} {s : Session}

theorem Session.Sound.settled (h : s.Sound g w w.support todo held owed) :
    s.Settled g todo held owed := by
  refine ⟨.refl _, ?_, ?_, .refl _⟩
  · rw [h.alike.support]
    exact h.sound.congr h.alike
  · rw [h.alike.owns]
    exact h.owned

theorem Session.yields_nil_iff :
    s.Yields g todo held owed [] ↔ s.Settled g todo held owed := by
  simp [Session.Yields]

theorem Session.yields_cons_iff {a : Handle} {handles : List Handle} :
    s.Yields g todo held owed (a :: handles) ↔
      a.heap = g ∧ s.Yields g todo (.root a ::ₘ held)
        (fun g' => owed g' - if g' = a.heap then 1 else 0) handles := by
  have hheld : ((a :: handles).map Holding.root : List Holding) + held =
      (handles.map Holding.root : List Holding) + .root a ::ₘ held := by
    rw [List.map_cons, ← Multiset.cons_coe, Multiset.cons_add, Multiset.add_cons]
  have howed (g' : HeapId) : owed g' - ((a :: handles).map Handle.heap).count g' =
      (owed g' - if g' = a.heap then 1 else 0) - (handles.map Handle.heap).count g' := by
    rw [Handle.count_heaps_cons, sub_add_eq_sub_sub_swap]
  simp only [Session.Yields, hheld, howed, List.forall_mem_cons, and_assoc]

theorem Session.Issues.yields {t : ObjId} {us : List ObjId}
    (h : s.Issues g w t us todo held owed) : s.Yields g todo held owed [w.issue g t] :=
  Session.yields_cons_iff.mpr ⟨rfl, Session.yields_nil_iff.mpr h.sound.settled⟩

theorem Session.Refused.of_upFront {stray : Prop} {f : Fault} {s' : Session}
    (hf : f.upFront = true) (h : s.Passed s.world.tallies s.unrooted s') : s.Refused stray f s' := by
  refine ⟨fun _ => h, fun hnot => ?_⟩
  rw [hf] at hnot
  cases hnot

theorem Session.Refused.of_stray {stray : Prop} {f : Fault} {s' : Session}
    (hf : f.upFront = false) (h : stray) : s.Refused stray f s' := by
  refine ⟨fun hup => ?_, fun _ => h⟩
  rw [hf] at hup
  cases hup

/-- A handle that there is roots its object, which is live and of the handle's heap. -/
theorem World.Sound.handle {ts : Tallies} {strong : ObjId → Nat} {suspects : List ObjId}
    (h : w.Sound ts strong w.support suspects todo held owed) {a : Handle}
    (ha : .root a ∈ w.ledger todo held) :
    w.isLive a.obj = true ∧ w.owns a.heap a.obj = true ∧ 0 < w.support a.root a.obj := by
  have hown := h.guarded.handle_owned a ha
  have hsupport : 0 < w.support a.root a.obj := by
    rw [World.support_of_owns hown, Multiset.count_pos, h.accounted.roots_eq]
    exact Multiset.mem_bind.mpr ⟨.root a, ha, by simp [Holding.entries]⟩
  exact ⟨h.tallied.supported _ _ hsupport, hown, hsupport⟩

/-- Support of the same root that is registered elsewhere leads elsewhere: root numbers are shared
between heaps, and edges stay in their heap. -/
theorem World.Sound.apart {ts : Tallies} {strong : ObjId → Nat} {suspects : List ObjId}
    (h : w.Sound ts strong w.support suspects todo held owed) {heap : Heap}
    (hheap : w.heaps[g]? = some heap) {r : RootId} {t : ObjId}
    (ht : w.isLive t = true) (hown : w.owns g t = true) {p o : ObjId}
    (hp : 0 < (w.setRegistry g (heap.roots.without r)).support r p) (hpo : Reach w.out p o) :
    ¬ Reach w.out t o := by
  intro hto
  have hgone (x : ObjId) : (r, x) ∉ (heap.roots.without r).active := by
    simp [Registry.without]
  rw [World.support_setRegistry hheap] at hp
  split at hp
  next => exact hgone p (Multiset.count_pos.mp hp)
  next hne =>
    have hlive := h.tallied.supported r p hp
    obtain ⟨g', hg'⟩ := World.exists_owns hlive
    have hog := h.guarded.owns_of_reach ht hown hto
    have hog' := h.guarded.owns_of_reach hlive hg' hpo
    exact hne (World.owns_unique hog' hog ▸ hg')

namespace Locked

/-- Withdrawing the root of a handle, along with its reference. -/
theorem dropRoot_sheds {a : Handle} (h : s.Settled a.heap (.dropHandle a ::ₘ todo) held owed) :
    ∃ heap, s.world.heaps[a.heap]? = some heap ∧ Ends (dropRoot a.heap a.root) s
      (fun _ s' => s'.Sheds a.heap (s.world.setRegistry a.heap (heap.roots.without a.root)) a.obj
        s.unrooted todo held fun g => owed g + if g = a.heap then 1 else 0)
      fun _ _ => False := by
  have ha : .root a ∈ s.world.ledger (.dropHandle a ::ₘ todo) held := by
    rw [World.ledger_cons_task, Task.holdings, Multiset.singleton_add]
    exact Multiset.mem_cons_self _ _
  obtain ⟨hlive, hown, -⟩ := h.sound.handle ha
  obtain ⟨heap, hheap⟩ := h.sound.accounted.exists_heap ha
  refine ⟨heap, hheap, ?_⟩
  have htarget := h.sound.accounted.target?_of_mem hheap ha rfl
  have hnodup := h.sound.accounted.roots_nodup a.heap
  rw [World.rootsAt_eq hheap] at hnodup
  have hmem := (Registry.target?_eq_some_iff hnodup).mp htarget
  unfold dropRoot
  simp only [Ends.bind_iff, ends_look, hheap, Registry.release_eq htarget, ends_update, ends_note]
  have hwithdrawn := h.sound.withdraw hheap
  refine Ends.mono (stripRoot_ends (h.register ?_ ?_ hwithdrawn) hlive hown
    (World.support_withdraw hheap hnodup hmem hown) ?_) ?_ fun _ _ hf => hf
  · exact fun _ => rfl
  · exact fun _ => rfl
  · exact fun p o hp hpo => h.sound.apart hheap hlive hown hp hpo
  · rintro _ s' ⟨hsound, hbelow⟩
    exact (releaseStrong_ends hsound hown).mono (fun _ _ hs => ⟨hs.1, hs.2 _ hbelow⟩)
      fun _ _ hf => hf

theorem dropRoot_ends {a : Handle} (h : s.Settled a.heap (.dropHandle a ::ₘ todo) held owed) :
    Ends (dropRoot a.heap a.root) s
      (fun _ s' => s'.Settled a.heap todo held fun g => owed g + if g = a.heap then 1 else 0)
      fun _ _ => False := by
  obtain ⟨heap, -, hends⟩ := dropRoot_sheds h
  exact hends.mono (fun _ _ hs => hs.sound.settled) fun _ _ hf => hf

/-- Redirecting the root of a handle to an object that a reference on its way points at. -/
theorem retarget_sheds {a : Handle} {t : ObjId}
    (h : s.Sound a.heap w w.support (.release t ::ₘ todo) (.root a ::ₘ held) owed)
    (ht : w.isLive t = true) (hown : w.owns a.heap t = true) :
    ∃ roots, Ends (retarget a.heap a.root t) s
      (fun _ s' => s'.Sheds a.heap (w.setRegistry a.heap roots) a.obj s.unrooted todo
        (.root { a with obj := t } ::ₘ held) owed)
      fun _ _ => False := by
  have ha : .root a ∈ w.ledger (.release t ::ₘ todo) (.root a ::ₘ held) :=
    World.mem_ledger_of_held (Multiset.mem_cons_self _ _)
  obtain ⟨hlive, hold, -⟩ := h.sound.handle ha
  obtain ⟨heap, hheap⟩ := h.sound.accounted.exists_heap ha
  obtain ⟨heap', hheap', hface⟩ := h.alike.heap_eq hheap
  simp only [Heap.face, Prod.mk.injEq] at hface
  have htarget := h.sound.accounted.target?_of_mem hheap ha rfl
  have hnodup := h.sound.accounted.roots_nodup a.heap
  rw [World.rootsAt_eq hheap] at hnodup
  have hmem := (Registry.target?_eq_some_iff hnodup).mp htarget
  have hsupport := World.support_redirect hheap hnodup hmem hold hown
  unfold retarget
  simp only [Ends.bind_iff, ends_look, hheap', hface.2.1, Registry.retarget_eq htarget,
    ends_update, ends_note]
  have hredirected := h.sound.redirect hheap ht hown
  refine ⟨heap.roots.redirect a.root t, Ends.mono
    (connect_ends (h.register ?_ ?_ hredirected) ht hown hsupport) ?_ fun _ _ hf => hf⟩
  · exact fun _ => rfl
  · exact fun _ => rfl
  · rintro _ s' ⟨hsound, hidle⟩
    refine Ends.mono (disconnect_ends hsound hlive hold fun _ _ => rfl) ?_ fun _ _ hf => hf
    rintro _ s'' ⟨hsound', hbelow⟩
    rw [hidle] at hbelow
    exact (releaseStrong_ends hsound' hold).mono (fun _ _ hs => ⟨hs.1, hs.2 _ hbelow⟩)
      fun _ _ hf => hf

theorem retarget_ends {a : Handle} {t : ObjId}
    (h : s.Sound a.heap w w.support (.release t ::ₘ todo) (.root a ::ₘ held) owed)
    (ht : w.isLive t = true) (hown : w.owns a.heap t = true) :
    Ends (retarget a.heap a.root t) s
      (fun _ s' => s'.Settled a.heap todo (.root { a with obj := t } ::ₘ held) owed)
      fun _ _ => False := by
  obtain ⟨roots, hends⟩ := retarget_sheds h ht hown
  exact hends.mono (fun _ _ hs => hs.sound.settled) fun _ _ hf => hf

/-- A new handle to a live object fails only when the object is of another heap. -/
theorem newHandle_issues {t : ObjId} {heap : Heap} (h : s.Settled g todo held owed)
    (hheap : s.world.heaps[g]? = some heap) (ht : s.world.isLive t = true) :
    Ends (newHandle g t) s
      (fun a s' => a = s.world.issue g t ∧ s'.Issues g s.world t s.unrooted todo held owed)
      fun f _ => s.world.owns g t = false ∧ f.upFront = false := by
  have hregistry : s.world.registryAt g = heap.roots := by rw [World.registryAt, hheap]
  refine (newHandle_ends h hheap ht fun hown => World.support_acquire hheap hown).mono ?_
    fun _ _ hf => hf
  rintro a s' ⟨-, rfl, hsound, hidle⟩
  refine ⟨by rw [World.issue, hregistry], ⟨?_, fun o ho => .inl (hidle ▸ ho)⟩⟩
  rw [World.issued, World.issue, hregistry]
  exact hsound

theorem newHandle_yields {t : ObjId} {heap : Heap} (h : s.Settled g todo held owed)
    (hheap : s.world.heaps[g]? = some heap) (ht : s.world.isLive t = true) :
    Ends (newHandle g t) s
      (fun a s' => s'.Yields g todo held owed [a] ∧ s'.world.isLive = s.world.isLive ∧
        s'.world.owns = s.world.owns ∧ ∃ heap', s'.world.heaps[g]? = some heap')
      fun f _ => s.world.owns g t = false ∧ f.upFront = false := by
  refine (newHandle_issues h hheap ht).mono ?_ fun _ _ hf => hf
  rintro a s' ⟨rfl, hissues⟩
  refine ⟨hissues.yields, hissues.sound.alike.isLive, hissues.sound.alike.owns, ?_⟩
  have hset : (s.world.issued g t).heaps[g]? = _ := World.heaps_setRegistry g
  rw [hheap] at hset
  obtain ⟨heap', hheap', -⟩ := hissues.sound.alike.heap_eq hset
  exact ⟨heap', hheap'⟩

/-- New handles to live objects, one by one. -/
theorem newHandles_yield {ts : List ObjId} {heap : Heap} (h : s.Settled g todo held owed)
    (hheap : s.world.heaps[g]? = some heap) (hts : ∀ t ∈ ts, s.world.isLive t = true) :
    Ends (ts.mapM (newHandle g)) s (fun handles s' => s'.Yields g todo held owed handles) fun f _ =>
      (∃ t ∈ ts, s.world.owns g t = false) ∧ f.upFront = false := by
  induction ts generalizing s held owed heap with
  | nil => exact Session.yields_nil_iff.mpr h
  | cons t ts ih =>
      rw [List.mapM_cons]
      refine Ends.bind ((newHandle_yields h hheap (hts t List.mem_cons_self)).mono (fun _ _ hs => hs)
        fun _ _ hf => ⟨⟨t, List.mem_cons_self, hf.1⟩, hf.2⟩) ?_
      rintro a s' ⟨hyields, hlive, howns, heap', hheap'⟩
      obtain ⟨ha, hyields⟩ := Session.yields_cons_iff.mp hyields
      have hrest := ih (Session.yields_nil_iff.mp hyields) hheap' fun t' ht' => by
        rw [hlive]
        exact hts t' (List.mem_cons_of_mem _ ht')
      refine Ends.bind (hrest.mono (fun _ _ hs => hs) ?_) ?_
      · rintro f _ ⟨⟨t', ht', hstray⟩, hf⟩
        exact ⟨⟨t', List.mem_cons_of_mem _ ht', howns ▸ hstray⟩, hf⟩
      · exact fun handles s'' hs => Session.yields_cons_iff.mpr ⟨ha, hs⟩

end Locked

end RootedHeap
