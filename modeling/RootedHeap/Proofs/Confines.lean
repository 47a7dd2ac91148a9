import RootedHeap.Proofs.Borders
import RootedHeap.Proofs.Calls

/-! # Sessions that keep to their heap

Each operation under a heap's lock heeds that heap, from wherever the sane objects of the heap lead to
objects of the heap only: a connect pass by its own check, the others because what they follow is
there. Reading a slot asks for nothing; the connect pass of the new root then finds out whose object
it is. A handle that comes of a session points at a sane object of its heap, and so does its root.
-/

namespace RootedHeap

/-- What is known of something that is held: a handle's root is registered, if at all, for a sane
object of the handle's heap. -/
def Holding.Fits (sane : ObjId → Prop) (w : World) : Holding → Prop
  | .slot _ => True
  | .weak o => sane o
  | .root a =>
    sane a.obj ∧ w.owns a.heap a.obj = true ∧ a.root < (w.registryAt a.heap).next ∧
      ∀ t, (w.registryAt a.heap).target? a.root = some t → sane t ∧ w.owns a.heap t = true

/-- The heap once it has acquired a root, which left it with `roots`. -/
def Heap.rooted (heap : Heap) (roots : Registry) : Heap :=
  { heap with
    roots := roots
    counters := { heap.counters with rootsAcquired := heap.counters.rootsAcquired + 1 } }

/-- The world once `heap`, which is heap `h`, has registered a root for `t`. -/
def World.rooted (w : World) (h : HeapId) (heap : Heap) (t : ObjId) : World :=
  (w.modifyHeap h (·.rooted (heap.roots.acquire t).2)).note (.rootAcquired heap.roots.next t)

/-- What a session of heap `h` finds: slots own sane objects, and the sane objects of `h` lead to
objects of `h`. Objects are those of `base`. -/
structure World.Fenced (h : HeapId) (sane : ObjId → Prop) (w base : World) : Prop where
  owns : w.owns = base.owns
  values : w.valueAt = base.valueAt
  verify : ∃ heap : Heap, w.heaps[h]? = some heap ∧ heap.config.verify = true
  matched : ∀ o, (w.valueAt o).Matched
  filled : ∀ s, ∀ c ∈ (w.slotAt s).targets, sane c
  closed : ∀ p, sane p → w.owns h p = true → ∀ c ∈ w.out p, w.owns h c = true

section Sessions

variable {h : HeapId} {sane : ObjId → Prop} {base w w' : World} {site : Option HeapId}

theorem Holding.Fits.heeds {x : Holding} (hx : x.Fits sane w) (hw : w.Heeds site sane w') :
    x.Fits sane w' := by
  cases x with
  | slot s => trivial
  | weak o => exact hx
  | root a =>
      obtain ⟨hobj, howns, hissued, htarget⟩ := hx
      refine ⟨hobj, by rw [hw.owns]; exact howns, Nat.lt_of_lt_of_le hissued (hw.next a.heap), ?_⟩
      intro t ht
      rw [hw.owns]
      rcases hw.roots a.heap a.root t hissued ht with hold | ⟨-, hnew⟩
      · exact htarget t hold
      · exact hnew

namespace World

theorem within_some {o : ObjId} : w.Within (some h) o ↔ w.owns h o = true := by
  simp [Within]

theorem Fenced.heeds (hw : w.Fenced h sane base) (hheeds : w.Heeds (some h) sane w') :
    w'.Fenced h sane base := by
  refine ⟨hheeds.owns.trans hw.owns, hheeds.values.trans hw.values, ?_, ?_, ?_, ?_⟩
  · obtain ⟨heap, hheap, hverify⟩ := hw.verify
    have hconfig := hheeds.configs h
    rw [hheap] at hconfig
    obtain ⟨heap', hheap', hsame⟩ := Option.map_eq_some_iff.mp hconfig
    exact ⟨heap', hheap', hsame ▸ hverify⟩
  · rw [hheeds.values]
    exact hw.matched
  · intro s c hc
    rcases hheeds.slots s c hc with hc | hc
    · exact hw.filled s c hc
    · exact hc.2.1
  · intro p hp howns c hc
    rw [hheeds.owns] at howns ⊢
    obtain ⟨s, hs, hc⟩ := mem_out.mp hc
    rw [hheeds.values] at hs
    rcases hheeds.slots s c hc with hc | hc
    · exact hw.closed p hp howns c (mem_out.mpr ⟨s, hs, hc⟩)
    · exact within_some.mp hc.2.2

/-- Neither half of a value leads from sane objects of the heap to others. -/
theorem Fenced.back_closed (hw : w.Fenced h sane base) :
    ∀ p, sane p ∧ w.owns h p = true → ∀ c ∈ w.back p, sane c ∧ w.owns h c = true := by
  rintro p ⟨hp, howns⟩ c hc
  have hout := (back_perm (hw.matched p)).mem_iff.mp hc
  obtain ⟨s, -, hs⟩ := mem_out.mp hout
  exact ⟨hw.filled s c hs, hw.closed p hp howns c hout⟩

theorem Fenced.out_closed (hw : w.Fenced h sane base) :
    ∀ p, sane p ∧ w.owns h p = true → ∀ c ∈ w.out p, sane c ∧ w.owns h c = true :=
  fun p hp c hc => hw.back_closed p hp c ((back_perm (hw.matched p)).mem_iff.mpr hc)

section Rooted

variable {heap : Heap} (hheap : w.heaps[h]? = some heap)

include hheap

theorem registryAt_rooted (t : ObjId) :
    (w.rooted h heap t).registryAt h = (heap.roots.acquire t).2 := by
  have hnew : (w.rooted h heap t).heaps[h]? = some (heap.rooted (heap.roots.acquire t).2) := by
    change (w.modifyHeap h _).heaps[h]? = _
    rw [heaps_modifyHeap, hheap]
    simp
  rw [registryAt, hnew]
  rfl

theorem Heeds.rooted (t : ObjId) : w.Heeds site sane (w.rooted h heap t) := by
  have hregister : w.Heeds site sane (w.modifyHeap h (·.rooted (heap.roots.acquire t).2)) := by
    apply Heeds.register
    · exact fun _ => rfl
    intro heap' hheap'
    cases hheap.symm.trans hheap'
    refine ⟨Nat.le_succ _, fun r t' hr ht' => .inl ?_⟩
    -- an old number is not the one that was issued
    change (heap.roots.acquire t).2.target? r = some t' at ht'
    rwa [Registry.target?_acquire, if_neg (Nat.ne_of_lt hr)] at ht'
  exact hregister.trans (.note _ rfl)

/-- A new root points at its target only. -/
theorem fits_rooted {t : ObjId} (howns : (w.rooted h heap t).owns h t = true) :
    (Holding.root ⟨t, heap.roots.next, h⟩).Fits (fun o => sane o ∨ o = t) (w.rooted h heap t) := by
  refine ⟨.inr rfl, howns, ?_, fun t' ht' => ?_⟩
  · rw [registryAt_rooted hheap]
    exact Nat.lt_succ_self _
  · rw [registryAt_rooted hheap, Registry.target?_acquire, if_pos rfl] at ht'
    cases ht'
    exact ⟨.inr rfl, howns⟩

end Rooted

end World

/-- The session, however it ends, heeds heap `h` from `s` on; the handles that come of it fit. -/
def Locked.Heeds {α : Type} (h : HeapId) (sane : ObjId → Prop) (gives : α → List Handle)
    (op : Locked α) (s : Session) : Prop :=
  Ends op s
    (fun a s' => s.world.Heeds (some h) sane s'.world ∧
      ∀ b ∈ gives a, (Holding.root b).Fits sane s'.world)
    fun _ s' => s.world.Heeds (some h) sane s'.world

/-- Whatever the session starts from, it heeds heap `h`. -/
abbrev Locked.Heedful {α : Type} (h : HeapId) (sane : ObjId → Prop) (base : World)
    (gives : α → List Handle) (op : Locked α) : Prop :=
  ∀ s : Session, s.world.Fenced h sane base → op.Heeds h sane gives s

end Sessions

namespace Locked

variable {α β : Type} {h : HeapId} {sane : ObjId → Prop} {base : World} {s : Session}
  {gives : α → List Handle} {gives' : β → List Handle}

namespace Heeds

theorem pure (a : α) (ha : ∀ b ∈ gives a, (Holding.root b).Fits sane s.world) :
    Heeds h sane gives (Pure.pure a) s :=
  ⟨.refl s.world, ha⟩

theorem throw (f : Fault) : Heeds h sane gives (MonadExcept.throw f : Locked α) s :=
  World.Heeds.refl s.world

/-- What goes on from a session that heeds its heap finds the heap fenced again. -/
theorem bind {op : Locked α} {next : α → Locked β} (hs : s.world.Fenced h sane base)
    (hop : Heeds h sane gives op s)
    (hnext : ∀ a (s' : Session), s'.world.Fenced h sane base →
      (∀ b ∈ gives a, (Holding.root b).Fits sane s'.world) → Heeds h sane gives' (next a) s') :
    Heeds h sane gives' (op >>= next) s := by
  apply Ends.bind hop
  rintro a s' ⟨hheeds, hgives⟩
  apply (hnext a s' (hs.heeds hheeds) hgives).mono
  · rintro b s'' ⟨hheeds', hgives'⟩
    exact ⟨hheeds.trans hheeds', hgives'⟩
  · exact fun _ _ hheeds' => hheeds.trans hheeds'

theorem look {f : World → α} {next : α → Locked β} (hnext : Heeds h sane gives' (next (f s.world)) s) :
    Heeds h sane gives' (Locked.look f >>= next) s := hnext

theorem update {f : World → World} (hf : s.world.Heeds (some h) sane (f s.world)) :
    Heeds h sane (fun _ => []) (Locked.update f) s := ⟨hf, by simp⟩

end Heeds

namespace Heedful

theorem pure (a : α) : Heedful h sane base (fun _ => []) (Pure.pure a) :=
  fun _ _ => .pure a (by simp)

theorem bind {op : Locked α} {next : α → Locked β} (hop : Heedful h sane base gives op)
    (hnext : ∀ a, Heedful h sane base gives' (next a)) :
    Heedful h sane base gives' (op >>= next) :=
  fun s hs => .bind hs (hop s hs) fun a s' hs' _ => hnext a s' hs'

theorem look {f : World → α} {next : α → Locked β}
    (hnext : ∀ w : World, w.Fenced h sane base → Heedful h sane base gives' (next (f w))) :
    Heedful h sane base gives' (Locked.look f >>= next) :=
  fun s hs => .look (hnext s.world hs s hs)

theorem update {f : World → World}
    (hf : ∀ w : World, w.Fenced h sane base → w.Heeds (some h) sane (f w)) :
    Heedful h sane base (fun _ => []) (Locked.update f) :=
  fun s hs => .update (hf s.world hs)

/-- What a pass makes of the tallies is known of a fenced heap. -/
theorem pass {make : World → Tallies → α} {left : α → Tallies} {next : α → Locked β}
    (hleft : ∀ w : World, w.Fenced h sane base → w.Heeds (some h) sane
      { w with tallies := left (make { w with tallies := #[] } w.tallies) })
    (hnext : ∀ w : World, w.Fenced h sane base →
      Heedful h sane base gives' (next (make { w with tallies := #[] } w.tallies))) :
    Heedful h sane base gives' (Locked.pass make left >>= next) := by
  intro s hs
  have hpassed := hleft s.world hs
  apply Ends.bind_iff.mpr
  apply ends_pass.mpr
  apply (hnext s.world hs _ (hs.heeds hpassed)).mono
  · rintro b s' ⟨hheeds, hgives⟩
    exact ⟨hpassed.trans hheeds, hgives⟩
  · exact fun _ _ hheeds => hpassed.trans hheeds

theorem modifyHeap (g : HeapId) {f : Heap → Heap} (hconfig : ∀ heap, (f heap).config = heap.config)
    (hroots : ∀ heap, (f heap).roots = heap.roots) :
    Heedful h sane base (fun _ => []) (Locked.update (·.modifyHeap g f)) :=
  .update fun w _ => .modifyHeap w g hconfig hroots

theorem note {e : Event} (he : e.tallied = []) :
    Heedful h sane base (fun _ => []) (Locked.note e) :=
  .update fun w _ => .note w he

theorem suspect (os : List ObjId) : Heedful h sane base (fun _ => []) (Locked.suspect os) :=
  fun s _ => ⟨.refl s.world, by simp⟩

theorem violate (cause : Violation) : Heedful h sane base gives (Locked.violate cause : Locked α) :=
  fun s _ => World.Heeds.note s.world rfl

theorem retain (o : ObjId) : Heedful h sane base (fun _ => []) (Locked.update (·.retain o)) :=
  .update fun w _ => .modifyObject w o fun _ => rfl

theorem map {f : α → β} {op : Locked α} (hop : Heedful h sane base gives op)
    (hgives : ∀ a, gives' (f a) = gives a) : Heedful h sane base gives' (f <$> op) := by
  intro s hs
  apply Ends.map_iff.mpr
  apply (hop s hs).mono
  · rintro a s' ⟨hheeds, hfits⟩
    exact ⟨hheeds, by rwa [hgives]⟩
  · exact fun _ _ hheeds => hheeds

theorem forM {l : List α} {f : α → Locked PUnit}
    (hf : ∀ a ∈ l, Heedful h sane base (fun _ => []) (f a)) :
    Heedful h sane base (fun _ => []) (l.forM f) := by
  induction l with
  | nil => exact .pure _
  | cons a l ih =>
      apply bind (hf a List.mem_cons_self)
      exact fun _ => ih fun b hb => hf b (List.mem_cons_of_mem _ hb)

/-- The handles that come of each step fit in the end. -/
theorem mapM {l : List α} {f : α → Locked Handle}
    (hf : ∀ a ∈ l, Heedful h sane base (fun b => [b]) (f a)) :
    Heedful h sane base (fun handles => handles) (l.mapM f) := by
  induction l with
  | nil => exact fun s _ => .pure [] (by simp)
  | cons a l ih =>
      rw [List.mapM_cons]
      intro s hs
      apply Heeds.bind hs (hf a List.mem_cons_self s hs)
      intro b s' hs' hb
      -- the first handle fits still when the others are there
      apply Ends.bind (ih (fun a ha => hf a (List.mem_cons_of_mem _ ha)) s' hs')
      rintro handles s'' ⟨hheeds, hfits⟩
      refine ⟨hheeds, fun b' hb' => ?_⟩
      rcases List.mem_cons.mp hb' with rfl | hb'
      · exact (hb b' (List.mem_singleton_self b')).heeds hheeds
      · exact hfits b' hb'

/-- The handles that came of a session fit still after another. -/
theorem carry {op : Locked α} {rest : α → Locked PUnit} {f : α → β}
    (hop : Heedful h sane base gives op)
    (hrest : ∀ a, Heedful h sane base (fun _ => []) (rest a))
    (hgives : ∀ a, gives' (f a) = gives a) :
    Heedful h sane base gives' (do
      let a ← op
      rest a
      return f a) := by
  intro s hs
  apply Heeds.bind hs (hop s hs)
  intro a s' hs' ha
  apply Ends.bind (hrest a s' hs')
  rintro _ s'' ⟨hheeds, -⟩
  refine ⟨hheeds, fun b hb => ?_⟩
  rw [hgives] at hb
  exact (ha b hb).heeds hheeds

end Heedful

/-! ### Passes and roots -/

/-- Events about tallies of the heap. -/
theorem Heedful.report {events : List Event}
    (he : ∀ e ∈ events, ∀ o ∈ e.tallied, base.owns h o = true) :
    Heedful h sane base (fun _ => []) (Locked.update fun w => { w with log := w.log ++ events }) := by
  apply Heedful.update
  intro w hw
  apply World.Heeds.report
  intro e hmem o ho
  rw [World.within_some, hw.owns]
  exact he e hmem o ho

/-- A connect pass keeps to its heap by itself. -/
theorem connect_heedful (r : RootId) (t : ObjId) :
    Heedful h sane base (fun _ => []) (connect h r t) := by
  refine .bind (.modifyHeap h (fun _ => rfl) fun _ => rfl) fun _ => .pass ?_ fun w hw =>
    .bind (.report ?_) fun _ => ?_
  · intro w hw
    apply World.Heeds.retally
    · exact connectAll_size
    · intro o ho
      apply connectAll_count_of_foreign
      exact Bool.eq_false_iff.mpr (mt World.within_some.mpr ho)
  · intro e he o ho
    obtain ⟨touch, htouch, rfl⟩ := List.mem_map.mp he
    rw [List.mem_singleton.mp ho, ← hw.owns]
    exact owns_of_touched touch htouch
  · split
    next => exact .pure _
    next => exact .look fun _ _ => .violate _

/-- The other passes follow the edges of objects that the heap owns. -/
theorem scan_heedful (r : RootId) {os : List ObjId}
    (hos : ∀ o ∈ os, sane o ∧ base.owns h o = true) :
    Heedful h sane base (fun _ => []) (scan h r os) := by
  refine .bind (.modifyHeap h (fun _ => rfl) fun _ => rfl) fun _ => .pass ?_ fun w _ => ?_
  · intro w hw
    apply World.Heeds.retally
    · exact scanOrphans_size os
    · intro o ho
      apply scanOrphans_count_of_outside hw.out_closed
      · exact fun o ho => hw.owns ▸ hos o ho
      · exact fun hmem => ho (World.within_some.mpr hmem.2)
  · split
    next => exact .pure _
    next =>
      refine .bind (.note rfl) fun _ => .bind (.modifyHeap h (fun _ => rfl) fun _ => rfl) fun _ =>
        .bind (.suspect _) fun _ => ?_
      split
      next => exact fun _ _ => .throw _
      next => exact .pure _

theorem disconnect_heedful (r : RootId) {t : ObjId} (ht : sane t ∧ base.owns h t = true) :
    Heedful h sane base (fun _ => []) (disconnect h r t) := by
  have hstack (w : World) (hw : w.Fenced h sane base) :
      ∀ o ∈ [t], sane o ∧ w.owns h o = true := by
    intro o ho
    rw [List.mem_singleton.mp ho, hw.owns]
    exact ht
  have hlowered (w : World) (hw : w.Fenced h sane base) :
      ∀ touch ∈ (cascade w.back r t w.tallies).touches,
        sane touch.obj ∧ base.owns h touch.obj = true := by
    rw [← hw.owns]
    exact forall_lowered hw.back_closed (hstack w hw)
  refine .bind (.modifyHeap h (fun _ => rfl) fun _ => rfl) fun _ => .pass ?_ fun w hw =>
    .bind (.report ?_) fun _ => .bind (.suspect _) fun _ => ?_
  · intro w hw
    apply World.Heeds.retally
    · exact disconnectAll_size
    · intro o ho
      apply disconnectAll_count_of_outside hw.back_closed (hstack w hw)
      exact fun hmem => ho (World.within_some.mpr hmem.2)
  · intro e he o ho
    obtain ⟨touch, htouch, rfl⟩ := List.mem_map.mp he
    have hobj : o = touch.obj := by
      split at ho <;> exact List.mem_singleton.mp ho
    rw [hobj]
    exact (hlowered w hw touch htouch).2
  · split
    next => exact .look fun _ _ => .violate _
    next =>
      split
      next => exact .pure _
      next =>
        apply scan_heedful
        intro o ho
        obtain ⟨touch, htouch, rfl⟩ := List.mem_map.mp ho
        exact hlowered w hw touch (List.mem_of_mem_filter htouch)

theorem stripRoot_heedful (r : RootId) {t : ObjId} (ht : sane t ∧ base.owns h t = true) :
    Heedful h sane base (fun _ => []) (stripRoot r t) := by
  refine .pass ?_ fun w _ => .suspect _
  intro w hw
  apply World.Heeds.retally
  · exact stripAll_size
  · intro o ho
    apply stripAll_count_of_outside hw.back_closed
    · intro o ho
      rw [List.mem_singleton.mp ho, hw.owns]
      exact ht
    · exact fun hmem => ho (World.within_some.mpr hmem.2)

theorem releaseStrong_heedful (o : ObjId) :
    Heedful h sane base (fun _ => []) (releaseStrong o) := by
  refine .look fun w _ => ?_
  split
  next => exact .pure _
  next =>
    split
    next => exact fun _ _ => .throw _
    next =>
      refine .bind (.update fun w _ => .modifyObject w o fun _ => rfl) fun _ =>
        .bind (.note rfl) fun _ => .look fun _ _ => ?_
      split
      next => exact .suspect _
      next => exact .pure _

/-- Rooting an object keeps to the heap, and the handle fits if the object counts as sane. -/
theorem acquireRoot_fits (t : ObjId) (hs : s.world.Fenced h sane base) :
    Ends (acquireRoot h t) s
      (fun r s' => s.world.Heeds (some h) sane s'.world ∧
        (Holding.root ⟨t, r, h⟩).Fits (fun o => sane o ∨ o = t) s'.world)
      fun _ s' => s.world.Heeds (some h) sane s'.world := by
  obtain ⟨heap, hheap, -⟩ := hs.verify
  have hrooted : s.world.Heeds (some h) sane (s.world.rooted h heap t) := .rooted hheap t
  have hs₁ : World.Fenced h sane (s.world.rooted h heap t) base := hs.heeds hrooted
  have hconnect := connect_heedful heap.roots.next t { s with world := s.world.rooted h heap t } hs₁
  unfold acquireRoot
  simp only [Ends.bind_iff, ends_look, hheap, ends_update, ends_note, Ends.pure_iff]
  apply (hconnect.and (connect_passed heap.roots.next t)).mono
  · rintro _ s₂ ⟨⟨hconnected, -⟩, hno, -⟩
    have howns : (s.world.rooted h heap t).owns h t = true :=
      owns_of_connectAll hno t List.mem_cons_self
    -- the new root points at `t`, and a connect pass redirects no root
    have hfits := (World.fits_rooted hheap howns).heeds (hconnected.mono fun _ => .inl)
    exact ⟨hrooted.trans hconnected, hfits⟩
  · rintro _ s₂ ⟨hconnected, -⟩
    exact hrooted.trans hconnected

theorem acquireRoot_heedful {t : ObjId} (ht : sane t) :
    Heedful h sane base (fun r => [⟨t, r, h⟩]) (acquireRoot h t) := by
  have hsane : (fun o => sane o ∨ o = t) = sane := by
    funext o
    exact propext ⟨fun ho => ho.elim id fun heq => heq ▸ ht, .inl⟩
  intro s hs
  apply (acquireRoot_fits t hs).mono
  · rintro r s' ⟨hheeds, hfits⟩
    rw [hsane] at hfits
    exact ⟨hheeds, by simpa using hfits⟩
  · exact fun _ _ hheeds => hheeds

theorem newHandle_heedful {t : ObjId} (ht : sane t) :
    Heedful h sane base (fun a => [a]) (newHandle h t) := by
  refine .bind (.retain t) fun _ s hs => ?_
  apply Heeds.bind hs (acquireRoot_heedful ht s hs)
  exact fun r s' _ hfits => .pure _ hfits

theorem attach_heedful (roots : List RootId) (t : ObjId) :
    Heedful h sane base (fun _ => []) (attach h roots t) :=
  .forM fun r _ => connect_heedful r t

theorem gain_heedful (roots : List RootId) (t : ObjId) :
    Heedful h sane base (fun _ => []) (gain h roots t) :=
  .bind (.retain t) fun _ => attach_heedful roots t

theorem detach_heedful (roots : List RootId) {t : ObjId} (ht : sane t ∧ base.owns h t = true) :
    Heedful h sane base (fun _ => []) (detach h roots t) :=
  .forM fun r _ => disconnect_heedful r ht

theorem lose_heedful (roots : List RootId) {t : ObjId} (ht : sane t ∧ base.owns h t = true) :
    Heedful h sane base (fun _ => []) (lose h roots t) :=
  .bind (detach_heedful roots ht) fun _ => releaseStrong_heedful t

/-- A root of a handle that fits leads to objects of its heap. -/
theorem dropRoot_heeds {a : Handle} (hs : s.world.Fenced a.heap sane base)
    (ha : (Holding.root a).Fits sane s.world) :
    Heeds a.heap sane (fun _ => []) (dropRoot a.heap a.root) s := by
  obtain ⟨heap, hheap, -⟩ := hs.verify
  have hregistry : s.world.registryAt a.heap = heap.roots := by rw [World.registryAt, hheap]
  obtain ⟨-, -, -, htarget⟩ := ha
  unfold dropRoot
  apply Heeds.look
  simp only [hheap]
  cases hrelease : heap.roots.release a.root with
  | error cause => exact Heedful.violate cause s hs
  | ok found =>
      obtain ⟨t, roots⟩ := found
      obtain ⟨hold, rfl⟩ := Registry.release_eq_ok_iff.mp hrelease
      have ht := htarget t (hregistry ▸ hold)
      rw [hs.owns] at ht
      apply Heeds.bind hs
      · apply Heeds.update
        apply World.Heeds.register
        · exact fun _ => rfl
        · intro heap' hheap'
          cases hheap.symm.trans hheap'
          exact ⟨Nat.le_refl _, fun r t' _ ht' => .inl (Registry.target?_of_without ht')⟩
      · intro _ s₁ hs₁ _
        refine Heedful.bind (.note rfl) (fun _ => ?_) s₁ hs₁
        exact .bind (stripRoot_heedful a.root ht) fun _ => releaseStrong_heedful t

/-- The root of a handle is moved to an object of its heap. -/
theorem retarget_heeds {a : Handle} {t : ObjId} (hs : s.world.Fenced a.heap sane base)
    (ha : (Holding.root a).Fits sane s.world) (ht : sane t ∧ base.owns a.heap t = true) :
    Heeds a.heap sane (fun _ => []) (retarget a.heap a.root t) s := by
  obtain ⟨heap, hheap, -⟩ := hs.verify
  have hregistry : s.world.registryAt a.heap = heap.roots := by rw [World.registryAt, hheap]
  obtain ⟨-, -, -, htarget⟩ := ha
  unfold retarget
  apply Heeds.look
  simp only [hheap]
  cases hretarget : heap.roots.retarget a.root t with
  | error cause => exact Heedful.violate cause s hs
  | ok found =>
      obtain ⟨old, roots⟩ := found
      obtain ⟨hold, rfl⟩ := Registry.retarget_eq_ok_iff.mp hretarget
      have hformer := htarget old (hregistry ▸ hold)
      rw [hs.owns] at hformer
      apply Heeds.bind hs
      · apply Heeds.update
        apply World.Heeds.register
        · exact fun _ => rfl
        · intro heap' hheap'
          cases hheap.symm.trans hheap'
          refine ⟨Nat.le_refl _, fun r t' _ ht' => ?_⟩
          rcases Registry.target?_of_redirect ht' with ht' | rfl
          · exact .inl ht'
          · exact .inr ⟨rfl, ht.1, hs.owns ▸ ht.2⟩
      · intro _ s₁ hs₁ _
        refine Heedful.bind (.note rfl) (fun _ => ?_) s₁ hs₁
        refine .bind (connect_heedful a.root t) fun _ => ?_
        exact .bind (disconnect_heedful a.root hformer) fun _ => releaseStrong_heedful old

end Locked

theorem WeakRef.claim_heedful {h : HeapId} {sane : ObjId → Prop} {base : World} {o : ObjId}
    (ho : sane o) : Locked.Heedful h sane base Option.toList (WeakRef.claim h o) := by
  refine .look fun w _ => ?_
  split
  next => exact .map (Locked.newHandle_heedful ho) fun _ => rfl
  next => exact fun s _ => .pure none (by simp)

/-! ## Through a handle -/

namespace World.Fenced

variable {h : HeapId} {sane : ObjId → Prop} {base w : World} {s : SlotId} {o : ObjId}

theorem sane_of_fieldAt (hw : w.Fenced h sane base) (ho : w.fieldAt s = some o) : sane o :=
  hw.filled s o (mem_targets_of_fieldAt ho)

theorem sane_of_itemsAt (hw : w.Fenced h sane base) (ho : o ∈ w.itemsAt s) : sane o :=
  hw.filled s o (mem_targets_of_itemsAt ho)

end World.Fenced

namespace Handle

open Locked

variable {α β : Type} {sane : ObjId → Prop} {base : World} {a : Handle} {slot : SlotId} {o : ObjId}
  {gives : β → List Handle}

/-- The handle's object is a sane one of the handle's heap. -/
def Anchors (a : Handle) (sane : ObjId → Prop) (w : World) : Prop :=
  sane a.obj ∧ w.owns a.heap a.obj = true

/-- Slots are checked: what is written is a slot of the handle's object. -/
theorem admitted {next : Unit → Locked β}
    (hnext : slot ∈ (base.valueAt a.obj).connectSlots →
      Heedful a.heap sane base gives (next ())) :
    Heedful a.heap sane base gives (verifySlot a.heap a.obj slot >>= next) := by
  intro s hs
  have hmust := a.mustVerify_iff s.world slot
  unfold Locked.Heeds verifySlot
  rw [Ends.bind_iff, Ends.bind_iff, ends_look]
  split
  next => exact World.Heeds.note s.world rfl
  next hrefused =>
    refine hnext ?_ s hs
    rcases not_not.mp (mt hmust.mpr hrefused) with hvisits | ⟨-, hunchecked⟩
    · rw [← hs.values]
      exact World.contains_visits.mp (List.contains_iff_mem.mpr hvisits)
    · obtain ⟨heap, hheap, hverify⟩ := hs.verify
      simp [hheap, hverify] at hunchecked

section Write

variable (ha : a.Anchors sane base) (hslot : slot ∈ (base.valueAt a.obj).connectSlots)

include ha hslot

/-- What a slot of the handle's object owns is of the handle's heap. -/
theorem Anchors.target {w : World} (hw : w.Fenced a.heap sane base)
    (ho : o ∈ (w.slotAt slot).targets) : sane o ∧ base.owns a.heap o = true := by
  refine ⟨hw.filled slot o ho, ?_⟩
  rw [← hw.owns]
  apply hw.closed a.obj ha.1 (hw.owns ▸ ha.2)
  exact World.mem_out.mpr ⟨slot, hw.values ▸ hslot, ho⟩

theorem Anchors.item {w : World} (hw : w.Fenced a.heap sane base) (ho : o ∈ w.itemsAt slot) :
    sane o ∧ base.owns a.heap o = true :=
  ha.target hslot hw (World.mem_targets_of_itemsAt ho)

theorem Anchors.field {w : World} (hw : w.Fenced a.heap sane base) (ho : w.fieldAt slot = some o) :
    sane o ∧ base.owns a.heap o = true :=
  ha.target hslot hw (World.mem_targets_of_fieldAt ho)

theorem write_heedful {content : Slot}
    (hcontent : ∀ c ∈ content.targets, sane c ∧ base.owns a.heap c = true) :
    Heedful a.heap sane base (fun _ => []) (update (·.writeSlot slot content)) := by
  apply Heedful.update
  intro w hw
  apply World.Heeds.writeSlot
  intro c hc
  obtain ⟨hsane, howns⟩ := hcontent c hc
  have hwrites : w.Writes (some a.heap) sane slot :=
    ⟨a.obj, ha.1, World.within_some.mpr (hw.owns ▸ ha.2), hw.values ▸ hslot⟩
  exact .inr ⟨hwrites, hsane, World.within_some.mpr (hw.owns ▸ howns)⟩

/-- The operations that move a reference out of a slot end alike. -/
theorem moveOut_heedful {content : Slot}
    (hcontent : ∀ c ∈ content.targets, sane c ∧ base.owns a.heap c = true) (roots : List RootId)
    (ho : sane o ∧ base.owns a.heap o = true) {f : RootId → β}
    (hgives : ∀ r, gives (f r) = [⟨o, r, a.heap⟩]) :
    Heedful a.heap sane base gives (do
      update (·.writeSlot slot content)
      let r ← acquireRoot a.heap o
      detach a.heap roots o
      pure (f r)) :=
  .bind (write_heedful ha hslot hcontent) fun _ =>
    .carry (acquireRoot_heedful ho.1) (fun _ => detach_heedful roots ho) hgives

theorem extract_heedful (roots : List RootId) {items : List ObjId}
    (hitems : ∀ c ∈ items, sane c ∧ base.owns a.heap c = true) (index : Nat) (ho : o ∈ items) :
    Heedful a.heap sane base (fun b => [b]) (a.extract slot roots items index o) := by
  have hleft : ∀ c ∈ (Slot.many (items.eraseIdx index)).targets,
      sane c ∧ base.owns a.heap c = true :=
    fun c hc => hitems c (List.mem_of_mem_eraseIdx hc)
  exact moveOut_heedful ha hslot hleft roots (hitems o ho) fun _ => rfl

end Write

theorem rebind_heeds {s : Session} {t : ObjId} (hs : s.world.Fenced a.heap sane base)
    (ha : (Holding.root a).Fits sane s.world) (ht : sane t ∧ base.owns a.heap t = true) :
    Locked.Heeds a.heap sane (fun _ => []) (a.rebind t) s := by
  have hretain : s.world.Heeds (some a.heap) sane (s.world.retain t) := .modifyObject _ t fun _ => rfl
  have hkept : Locked.Heeds a.heap sane (fun _ => [a]) (update (·.retain t)) s :=
    ⟨hretain, by simpa using ha.heeds hretain⟩
  apply Heeds.bind hs hkept
  exact fun _ s' hs' ha' => retarget_heeds hs' (ha' a (List.mem_singleton_self a)) ht

/-- Reading asks for no check: a handle comes of it only to an object of the handle's heap. -/
theorem readField_heedful : Heedful a.heap sane base Option.toList (a.readField slot) := by
  refine .look fun w hw => ?_
  cases hfound : w.fieldAt slot with
  | none => exact fun s _ => .pure none (by simp)
  | some o => exact .map (newHandle_heedful (hw.sane_of_fieldAt hfound)) fun _ => rfl

theorem readItem_heedful (index : Nat) :
    Heedful a.heap sane base Option.toList (a.readItem slot index) := by
  refine .look fun w hw => ?_
  cases hfound : (w.itemsAt slot)[index]? with
  | none => exact fun s _ => .pure none (by simp)
  | some o =>
      have ho := hw.sane_of_itemsAt (List.mem_of_getElem? hfound)
      exact .map (newHandle_heedful ho) fun _ => rfl

theorem readItems_heedful :
    Heedful a.heap sane base (fun handles => handles) (a.readItems slot) :=
  .look fun _ hw => .mapM fun _ ho => newHandle_heedful (hw.sane_of_itemsAt ho)

variable (ha : a.Anchors sane base)

include ha

theorem storeField_heedful {target : Option ObjId}
    (htarget : ∀ o ∈ target, sane o ∧ base.owns a.heap o = true) :
    Heedful a.heap sane base (fun _ => []) (a.storeField slot target) := by
  have hgain (roots : List RootId) :
      Heedful a.heap sane base (fun _ => []) (target.forM (gain a.heap roots)) := by
    cases target with
    | none => exact .pure _
    | some o => exact gain_heedful roots o
  refine admitted fun hslot => .look fun w _ => .bind (hgain _) fun _ => .look fun w' hw' =>
    .bind (write_heedful ha hslot ?_) fun _ => ?_
  · exact fun c hc => htarget c (Option.mem_toList.mp hc)
  · cases hold : w'.fieldAt slot with
    | none => exact .pure _
    | some o => exact lose_heedful _ (ha.field hslot hw' hold)

theorem unloadField_heedful : Heedful a.heap sane base Option.toList (a.unloadField slot) := by
  refine admitted fun hslot => .look fun w _ => .look fun w' hw' => ?_
  cases hfound : w'.fieldAt slot with
  | none => exact fun s _ => .pure none (by simp)
  | some o =>
      have ho := ha.field hslot hw' hfound
      exact moveOut_heedful ha hslot (by simp [Slot.targets]) _ ho fun _ => rfl

theorem enlist_heedful (index : Option Nat) (ho : sane o ∧ base.owns a.heap o = true) :
    Heedful a.heap sane base (fun _ => []) (a.enlist slot index o) := by
  refine admitted fun hslot => .look fun w _ => .look fun w' hw' => ?_
  dsimp only
  split
  next => exact fun _ _ => .throw _
  next =>
    refine .bind (.retain o) fun _ => .bind (write_heedful ha hslot ?_) fun _ => attach_heedful _ o
    intro c hc
    rcases List.eq_or_mem_of_mem_insertIdx hc with rfl | hc
    · exact ho
    · exact ha.item hslot hw' hc

theorem replace_heedful (index : Nat) (ho : sane o ∧ base.owns a.heap o = true) :
    Heedful a.heap sane base (fun _ => []) (a.replace slot index o) := by
  refine admitted fun hslot => .look fun w _ => .look fun w' hw' => ?_
  cases hfound : (w'.itemsAt slot)[index]? with
  | none => exact fun _ _ => .throw _
  | some old =>
      have hold := ha.item hslot hw' (List.mem_of_getElem? hfound)
      refine .bind (.retain o) fun _ => .bind (write_heedful ha hslot ?_) fun _ =>
        .bind (attach_heedful _ o) fun _ => lose_heedful _ hold
      intro c hc
      rcases List.mem_or_eq_of_mem_set hc with hc | rfl
      · exact ha.item hslot hw' hc
      · exact ho

theorem removeAt_heedful (index : Nat) :
    Heedful a.heap sane base (fun b => [b]) (a.removeAt slot index) := by
  refine admitted fun hslot => .look fun w _ => .look fun w' hw' => ?_
  cases hfound : (w'.itemsAt slot)[index]? with
  | none => exact fun _ _ => .throw _
  | some o =>
      exact extract_heedful ha hslot _ (fun _ hc => ha.item hslot hw' hc) index
        (List.mem_of_getElem? hfound)

theorem removeLast_heedful : Heedful a.heap sane base Option.toList (a.removeLast slot) := by
  refine admitted fun hslot => .look fun w _ => .look fun w' hw' => ?_
  cases hfound : (w'.itemsAt slot).getLast? with
  | none => exact fun s _ => .pure none (by simp)
  | some o =>
      exact .map (extract_heedful ha hslot _ (fun _ hc => ha.item hslot hw' hc) _
        (List.mem_of_getLast? hfound)) fun _ => rfl

theorem removeAll_heedful : Heedful a.heap sane base (fun _ => []) (a.removeAll slot) := by
  refine admitted fun hslot => .look fun w _ => .look fun w' hw' => ?_
  refine .bind (write_heedful ha hslot (by simp [Slot.targets])) fun _ => .forM fun o ho => ?_
  exact lose_heedful _ (ha.item hslot hw' ho)

end Handle

/-! ## Reclaiming -/

section Locked

variable {α : Type} {h : HeapId} {sane : ObjId → Prop} {w : World}

/-- Reclaiming makes no pass: it changes no tally and nothing that objects hold. -/
theorem reclaim_heeds {site : Option HeapId} (h : HeapId) (s : Session) :
    Ends (reclaim h) s (fun _ s' => s.world.Heeds site sane s'.world)
      fun _ s' => s.world.Heeds site sane s'.world := by
  unfold Ends reclaim
  dsimp only
  have hcondemned : s.world.Heeds site sane (s.world.condemn (s.world.garbage s.unrooted).lost) :=
    .condemn _ _
  split_ifs
  · exact .refl s.world
  · exact .refl s.world
  · exact .note s.world rfl
  · cases (s.world.condemn (s.world.garbage s.unrooted).lost).heaps[h]? with
    | none => exact hcondemned
    | some heap =>
        dsimp only
        split_ifs
        · exact hcondemned
        · refine hcondemned.trans (.trans ?_ (.note _ rfl))
          exact .modifyHeap _ h (fun _ => rfl) fun _ => rfl

/-- A session that heeds its heap does so with its reclaim, and what is known of its result is known
still. -/
theorem locked_heeds {op : Locked α} {Q : α → World → Prop}
    (hkept : ∀ a w₁ w₂, Q a w₁ → w₁.Heeds (some h) sane w₂ → Q a w₂)
    (hop : Ends op ⟨w, []⟩ (fun a s => w.Heeds (some h) sane s.world ∧ Q a s.world)
      fun _ s => w.Heeds (some h) sane s.world) :
    Ends (locked h op) w (fun p w' => w.Heeds (some h) sane w' ∧ Q p.1 w')
      fun _ w' => w.Heeds (some h) sane w' := by
  apply Ends.locked hop
  rintro a s ⟨hheeds, hQ⟩
  apply (reclaim_heeds h s).mono
  · exact fun _ s' hreclaim => ⟨hheeds.trans hreclaim, hkept a _ _ hQ hreclaim⟩
  · exact fun _ s' hreclaim => hheeds.trans hreclaim

end Locked

end RootedHeap
