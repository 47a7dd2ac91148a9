import Mathlib
import RootedHeap.Proofs.Partition
import RootedHeap.Proofs.Ventures

/-! # Heaps stay separate

Whatever a client asks for with handles it has, and whatever comes of it, heaps stay separate: calls
that fail leave objects behind that lead to other heaps, but nothing that the client can get at. A
pass of one heap never comes to an object of another, though both number their roots from one. Mathlib
is imported whole for the equations of the state monad by which `cbv` evaluates the run at the end.
-/

namespace RootedHeap

open World

/-- What a step changes about tallies is about objects of `site`, by what it leaves and by what it
reports on the way. Passes report each count that they raise, so no pass of the step lowers a count of
another object either: it could not be raised again. -/
structure World.Secludes (site : Option HeapId) (w w' : World) : Prop where
  counts : ∀ o, ¬ w'.Within site o → ∀ r, w'.tallies.count o r = w.tallies.count o r
  log : ∃ added, w'.log.toList = w.log.toList ++ added ∧
    ∀ e ∈ added, ∀ o ∈ e.tallied, w'.Within site o

/-- Heaps are separate, and what tasks are still to give up fits. -/
def World.Apart (held : Multiset Holding) (heaps : Multiset HeapId) (tasks : List Task)
    (w : World) : Prop :=
  ∃ sane, w.Parted sane held heaps ∧ ∀ t ∈ tasks, ∀ x ∈ t.holdings w, x.Fits sane w

/-- The heap whose lock a task takes, if it takes one. -/
def Task.site (w : World) : Task → Option HeapId
  | .release o => w.objects[o]?.map (·.heap)
  | .dropHandle a => some a.heap
  | .dropValue _ | .dropSlot _ | .dropWeak _ | .leave _ | .retire .. => none

/-- The heap whose lock a call takes at first, if it takes one. -/
def Call.site (w : World) : Call → Option HeapId
  | alloc h _ _ => some h
  | clone a | assign a _ | getField a _ | setField a _ _ | takeField a _ | pushItem a _ _
  | insertItem a _ _ _ | setItem a _ _ _ | getItem a _ _ | items a _ | removeItem a _ _ | popItem a _
  | clearItems a _ => some a.heap
  | upgrade x => x.target.bind fun o => w.objects[o]?.map (·.heap)
  | createHeap _ | shareHeap _ | dropHeap _ | drop _ | downgrade _ | cloneWeak _ | dropWeak _
  | newField _ | newList _ | dropSlot _ => none

/-- What a client gets by a call. -/
def Receipt.gains (r : Receipt) : Multiset Holding :=
  (r.handles.map .root : List Holding) + (r.others : Multiset Holding)

section Steps

variable {sane : ObjId → Prop} {held held' : Multiset Holding} {heaps heaps' : Multiset HeapId}
  {site : Option HeapId} {w w₁ w' : World} {t : Task} {tasks rest : List Task}

namespace World

theorem Heeds.secludes (h : w.Heeds site sane w') : w.Secludes site w' := by
  refine ⟨fun o ho => ?_, ?_⟩
  · rw [h.within] at ho
    exact h.counts o ho
  · rw [h.within]
    exact h.log

theorem Secludes.refl (w : World) : w.Secludes site w := ⟨fun _ _ _ => rfl, [], by simp⟩

theorem Heeds.retainAll (w : World) (handles : List Handle) :
    w.Heeds site sane (handles.foldl (fun w a => w.retain a.obj) w) := by
  induction handles generalizing w with
  | nil => exact .refl w
  | cons a rest ih =>
      have hretain : w.Heeds site sane (w.retain a.obj) := .modifyObject w a.obj fun _ => rfl
      exact hretain.trans (ih (w.retain a.obj))

/-- A step may begin with something that is no matter of tallies. -/
theorem Heeds.secludes_from (h : w₁.Heeds site sane w')
    (hcounts : ∀ o r, w₁.tallies.count o r = w.tallies.count o r) (hlog : w₁.log = w.log) :
    w.Secludes site w' := by
  have hsecludes := h.secludes
  exact ⟨fun o ho r => (hsecludes.counts o ho r).trans (hcounts o r), hlog ▸ hsecludes.log⟩

theorem Heeds.holdings (h : w.Heeds site sane w') : Task.holdings w' = Task.holdings w := by
  funext t
  cases t with
  | dropValue o => rw [Task.holdings, Task.holdings, h.values]
  | dropSlot | release | dropWeak | dropHandle | leave | retire => rfl

theorem Apart.anti (h : w.Apart held heaps tasks) (hheld : held' ≤ held) (hheaps : heaps' ≤ heaps)
    (htasks : rest ⊆ tasks) : w.Apart held' heaps' rest := by
  obtain ⟨sane, hparted, hfits⟩ := h
  exact ⟨sane, hparted.anti hheld hheaps, fun t ht => hfits t (htasks ht)⟩

/-- What values hold that are still to be dropped fits. -/
theorem Parted.finalizing (h : w.Parted sane held heaps) (g : HeapId) (dead : List ObjId) :
    ∀ t ∈ Task.finalizing g dead, ∀ x ∈ t.holdings w, x.Fits sane w := by
  intro t ht x hx
  rcases List.mem_append.mp ht with ht | ht
  · obtain ⟨o, -, rfl⟩ := List.mem_map.mp ht
    exact h.values_fit o x (Multiset.mem_coe.mp hx)
  · obtain ⟨o, -, rfl⟩ := List.mem_map.mp ht
    simp [Task.holdings] at hx

/-- A session that heeds its heap ends with heaps as separate as before. -/
theorem Parted.locked {α : Type} {g : HeapId} {op : Locked α} {gives : α → List Handle}
    (h : w.Parted sane held heaps) (hop : op.Heeds g sane gives ⟨w, []⟩) :
    Ends (RootedHeap.locked g op) w
      (fun p w' => w.Heeds (some g) sane w' ∧ w'.Parted sane held heaps ∧
        ∀ b ∈ gives p.1, (Holding.root b).Fits sane w')
      fun _ w' => w.Heeds (some g) sane w' := by
  let Q : α → World → Prop := fun a w' => ∀ b ∈ gives a, (Holding.root b).Fits sane w'
  have hkept : ∀ a w₁ w₂, Q a w₁ → w₁.Heeds (some g) sane w₂ → Q a w₂ :=
    fun a w₁ w₂ hfits hheeds b hb => (hfits b hb).heeds hheeds
  have hlocked : Ends (RootedHeap.locked g op) w (fun p w' => w.Heeds (some g) sane w' ∧ Q p.1 w')
      fun _ w' => w.Heeds (some g) sane w' := locked_heeds hkept hop
  apply hlocked.mono
  · exact fun p w' hok => ⟨hok.1, h.heeds hok.1, hok.2⟩
  · exact fun _ _ herror => herror

end World

/-- Every task keeps to one heap at most, and leaves tasks that fit. -/
theorem Task.step_heeds (h : w.Parted sane held heaps) (ht : ∀ x ∈ t.holdings w, x.Fits sane w) :
    Ends t.step w
      (fun more w' => w.Heeds (t.site w) sane w' ∧ ∀ u ∈ more, ∀ x ∈ u.holdings w', x.Fits sane w')
      fun _ w' => w.Heeds (t.site w) sane w' := by
  have hsession {g : HeapId} {op : Locked Unit} {w₁ : World} (hw₁ : w.Heeds (some g) sane w₁)
      (hop : op.Heeds g sane (fun _ => []) ⟨w₁, []⟩) :
      Ends (locked g op) w₁
        (fun p w' => w.Heeds (some g) sane w' ∧
          ∀ u ∈ finalizing g p.2 ++ [.leave g], ∀ x ∈ u.holdings w', x.Fits sane w')
        fun _ w' => w.Heeds (some g) sane (w'.leave g) := by
    apply ((h.heeds hw₁).locked hop).mono
    · rintro ⟨_, dead⟩ w' ⟨hheeds, hparted, -⟩
      refine ⟨hw₁.trans hheeds, fun u hu x hx => ?_⟩
      rcases List.mem_append.mp hu with hu | hu
      · exact hparted.finalizing g dead u hu x hx
      · rw [List.mem_singleton.mp hu] at hx
        simp [Task.holdings] at hx
    · exact fun _ w' hheeds => (hw₁.trans hheeds).trans (.leave w' g)
  -- only `release` and `dropHandle` make a session, of one heap
  cases t with
  | dropValue o =>
      unfold Ends
      simp only [step]
      cases hob : w.objects[o]? with
      | none => exact ⟨.refl w, by simp⟩
      | some ob =>
          refine ⟨.of_same (fun _ => rfl) (fun _ => rfl) rfl rfl ⟨[], by simp⟩, fun u hu x hx => ?_⟩
          obtain ⟨y, hy, rfl⟩ := List.mem_map.mp hu
          have hvalue : w.valueAt o = ob.value := by rw [valueAt, hob]
          have hxy : x = y := by cases y <;> exact Multiset.mem_singleton.mp hx
          have hfits := ht x (by rw [hxy]; exact Multiset.mem_coe.mpr (hvalue ▸ hy))
          cases x <;> exact hfits
  | dropSlot s =>
      refine ⟨.writeSlot w ?_, ?_⟩
      · cases w.slotAt s <;> simp [Slot.emptied, Slot.targets]
      · intro u hu x hx
        obtain ⟨o, -, rfl⟩ := List.mem_map.mp hu
        simp [Task.holdings] at hx
  | release o =>
      apply ends_release
      · exact fun _ => ⟨.refl w, by simp⟩
      · intro ob hob _ _
        have hsite : (Task.release o).site w = some ob.heap := by simp [site, hob]
        rw [hsite]
        have hg := h.settled ob.heap o (owns_iff.mpr ⟨ob, hob, rfl⟩)
        have henter : w.Heeds (some ob.heap) sane (w.enter ob.heap) := .enter w ob.heap
        exact hsession henter (Locked.releaseStrong_heedful o _ ((h.fenced hg).heeds henter))
      · intro ob _
        split
        next => exact .refl w
        next => exact ⟨.modifyObject w o fun _ => rfl, by simp⟩
  | dropWeak o => exact ⟨.modifyObject w o fun _ => rfl, by simp⟩
  | dropHandle a =>
      apply ends_dropHandle
      have ha : (Holding.root a).Fits sane w := ht _ (Multiset.mem_singleton_self _)
      have hg := h.settled a.heap a.obj ha.2.1
      exact hsession (.refl w) (Locked.dropRoot_heeds (h.fenced hg) ha)
  | leave g => exact ⟨.leave w g, by simp⟩
  | retire g o => exact ⟨.retire w g o, by simp⟩

theorem World.Apart.step (h : w.Apart held heaps (t :: rest)) :
    Ends t.step w
      (fun more w' => w.Secludes (t.site w) w' ∧ w'.Apart held heaps (more ++ rest))
      fun _ w' => w.Secludes (t.site w) w' ∧ w'.Apart held heaps [] := by
  obtain ⟨sane, hparted, hfits⟩ := h
  apply (Task.step_heeds hparted (hfits t List.mem_cons_self)).mono
  · rintro more w' ⟨hheeds, hmore⟩
    refine ⟨hheeds.secludes, sane, hparted.heeds hheeds, fun u hu x hx => ?_⟩
    rcases List.mem_append.mp hu with hu | hu
    · exact hmore u hu x hx
    · rw [hheeds.holdings] at hx
      exact (hfits u (List.mem_cons_of_mem _ hu) x hx).heeds hheeds
  · exact fun _ w' hheeds => ⟨hheeds.secludes, sane, hparted.heeds hheeds, by simp⟩

end Steps

/-! ## Calls -/

/-- The call keeps to one heap at most, and leaves heaps separate, whatever becomes of it. A handle
that was to be moved stays, if the call fails. -/
def Call.Divides (call : Call) (c : Client) : Prop :=
  Ends call.start c.world
    (fun p w' => c.world.Secludes (call.site c.world) w' ∧
      w'.Apart (p.1.gains + (c.held - (call.forfeits : Multiset Holding)))
        ((p.1.heaps : Multiset HeapId) + (c.heaps - (call.leaves : Multiset HeapId))) p.2)
    fun _ w' => c.world.Secludes (call.site c.world) w' ∧
      w'.Apart (c.held - (call.forfeits : Multiset Holding))
        (c.heaps - (call.leaves : Multiset HeapId)) []

section Calls

variable {sane : ObjId → Prop} {c : Client} {call : Call}

/-- What a client can get at fits. -/
theorem World.Parted.fits_of_sees {held : Multiset Holding} {heaps : Multiset HeapId}
    (h : c.world.Parted sane held heaps) (hheld : c.held ≤ held) {x : Holding} (hx : c.Sees x) :
    x.Fits sane c.world := by
  induction hx with
  | held hx => exact h.fits _ (Multiset.mem_of_le hheld hx)
  | within _ hx _ => exact h.values_fit _ _ hx

namespace Call

/-- A call that begins with something that needs no lock. -/
theorem divides_of_quiet {r : Receipt} {tasks : List Task} {w' : World}
    (hstart : call.start c.world = .ok (r, tasks) w')
    (hsecludes : c.world.Secludes (call.site c.world) w')
    (hapart : w'.Apart (r.gains + (c.held - (call.forfeits : Multiset Holding)))
      ((r.heaps : Multiset HeapId) + (c.heaps - (call.leaves : Multiset HeapId))) tasks) :
    call.Divides c := by
  unfold Divides Ends
  rw [hstart]
  exact ⟨hsecludes, hapart⟩

variable (h : c.world.Parted sane c.held c.heaps)

include h

theorem divides_of_refusal {a : Handle} {b : Breach}
    (hstart : call.start c.world = refuse a b c.world) : call.Divides c := by
  have hnote : c.world.Heeds (call.site c.world) sane
      (c.world.note (.violated (.protocol (c.world.typeName a.obj) b))) := .note _ rfl
  unfold Divides Ends
  rw [hstart]
  refine ⟨hnote.secludes, sane, ?_, by simp⟩
  exact (h.heeds hnote).anti (Multiset.sub_le_self _ _) (Multiset.sub_le_self _ _)

theorem divides_of_session {α : Type} {g : HeapId} {op : Locked α} {give : α → Receipt}
    {gives : α → List Handle} (hforfeits : call.forfeits = []) (hleaves : call.leaves = [])
    (hsite : call.site c.world = some g)
    (hstart : call.start c.world = session g op give c.world)
    (hop : op.Heeds g sane gives ⟨c.world, []⟩) (hheaps : ∀ a, (give a).heaps = [])
    (hgive : ∀ a w', c.world.Heeds (some g) sane w' →
      (∀ b ∈ gives a, (Holding.root b).Fits sane w') →
        ∀ x ∈ (give a).gains, x.slots = 0 ∧ x.Fits sane w') : call.Divides c := by
  have hsession : Ends (session g op give) c.world
      (fun p w' => c.world.Secludes (some g) w' ∧ w'.Apart (p.1.gains + c.held)
        ((p.1.heaps : Multiset HeapId) + c.heaps) p.2)
      fun _ w' => c.world.Secludes (some g) w' ∧ w'.Apart c.held c.heaps [] := by
    apply Ends.bind ((h.locked hop).mono (fun _ _ hok => hok) ?_)
    · rintro ⟨a, dead⟩ w' ⟨hheeds, hparted, hfits⟩
      refine ⟨hheeds.secludes, sane, ?_, hparted.finalizing g dead⟩
      rw [hheaps, Multiset.coe_nil, zero_add]
      exact hparted.gain (hgive a w' hheeds hfits)
    · exact fun _ w' hheeds => ⟨hheeds.secludes, sane, h.heeds hheeds, by simp⟩
  unfold Divides Ends at *
  rw [hforfeits, hleaves, hsite, hstart]
  simpa only [Multiset.coe_nil, Multiset.sub_zero] using hsession

/-- Most sessions return the handles that come of them and nothing else. -/
theorem divides_of_handles {α : Type} {g : HeapId} {op : Locked α} {gives : α → List Handle}
    (hforfeits : call.forfeits = []) (hleaves : call.leaves = [])
    (hsite : call.site c.world = some g)
    (hstart : call.start c.world = session g op (fun a => { handles := gives a }) c.world)
    (hop : op.Heeds g sane gives ⟨c.world, []⟩) : call.Divides c := by
  apply divides_of_session h hforfeits hleaves hsite hstart hop
  · exact fun _ => rfl
  · intro a w' _ hfits x hx
    rw [Receipt.gains, Multiset.coe_nil, add_zero, Multiset.mem_coe] at hx
    obtain ⟨b, hb, rfl⟩ := List.mem_map.mp hx
    exact ⟨rfl, hfits b hb⟩

/-- A call that comes to no more than something new to hold. -/
theorem divides_of_gain {more : List Holding} {w' : World} (hforfeits : call.forfeits = [])
    (hleaves : call.leaves = [])
    (hstart : call.start c.world = .ok ({ others := more }, []) w')
    (hw' : c.world.Heeds (call.site c.world) sane w')
    (hmore : ∀ x ∈ more, x.slots = 0 ∧ x.Fits sane w') : call.Divides c := by
  apply divides_of_quiet hstart hw'.secludes
  refine ⟨sane, ?_, by simp⟩
  have hgained := (h.heeds hw').gain fun x hx => hmore x (Multiset.mem_coe.mp hx)
  simpa [Receipt.gains, hforfeits, hleaves] using hgained

/-- A call that only gives something away. -/
theorem divides_of_giving {tasks : List Task}
    (hstart : call.start c.world = .ok ({}, tasks) c.world)
    (htasks : ∀ t ∈ tasks, ∀ x ∈ t.holdings c.world, x.Fits sane c.world) : call.Divides c := by
  apply divides_of_quiet hstart (.refl c.world)
  refine ⟨sane, ?_, htasks⟩
  simpa [Receipt.gains] using h.anti (Multiset.sub_le_self c.held _) (Multiset.sub_le_self c.heaps _)

theorem divides_of_newSlot {content : Slot} {w₁ : World} (hforfeits : call.forfeits = [])
    (hleaves : call.leaves = [])
    (hstart : call.start c.world =
      .ok ({ others := [.slot w₁.slots.size] }, []) (w₁.addSlot content).2)
    (hw₁ : c.world.Heeds (call.site c.world) sane w₁) (hcontent : ∀ o ∈ content.targets, sane o) :
    call.Divides c := by
  have hsecludes := hw₁.secludes
  apply divides_of_quiet hstart ⟨hsecludes.counts, hsecludes.log⟩
  refine ⟨sane, ?_, by simp⟩
  simpa [Receipt.gains, hforfeits, hleaves] using (h.heeds hw₁).addSlot hcontent

/-- What is stored is of the same heap, or the call is refused. -/
theorem divides_of_storing {op : Locked Unit} {a item : Handle} (hforfeits : call.forfeits = [])
    (hleaves : call.leaves = []) (hsite : call.site c.world = some a.heap)
    (hstart : call.start c.world = (if item.heap = a.heap then session a.heap op fun _ => {}
      else refuse a .foreignStore) c.world)
    (hop : item.heap = a.heap → op.Heeds a.heap sane (fun _ => []) ⟨c.world, []⟩) :
    call.Divides c := by
  by_cases hheap : item.heap = a.heap
  · rw [if_pos hheap] at hstart
    exact divides_of_handles h hforfeits hleaves hsite hstart (hop hheap)
  · rw [if_neg hheap] at hstart
    exact divides_of_refusal h hstart

omit h in
/-- The first root of an object that nothing tags yet goes to what the object leads to, if all of that
is the heap's. -/
theorem introduce_fits {g : HeapId} {o : ObjId} {n : String} {w : World}
    (hfenced : w.Fenced g sane w) (hlt : o < w.tallies.size)
    (hempty : ∀ r, w.tallies.count o r = 0) :
    Ends (Locked.introduce g o n) ⟨w, []⟩
      (fun r s => w.Heeds (some g) sane s.world ∧
        (Holding.root ⟨o, r, g⟩).Fits (fun p => sane p ∨ p = o) s.world ∧
          ∀ p ∈ w.out o, w.owns g p = true)
      fun _ s => w.Heeds (some g) sane s.world := by
  have hnoted : w.Heeds (some g) sane (w.note (.allocated o n)) := .note w rfl
  obtain ⟨heap, hheap, -⟩ := hfenced.verify
  unfold Locked.introduce
  rw [Ends.bind_iff, Locked.ends_note]
  -- the connect pass of the first root asks whose the edges of the new object are
  apply ((Locked.acquireRoot_fits o (hfenced.heeds hnoted)).and
    (Locked.acquireRoot_closed hheap hlt hempty)).mono
  · rintro r s ⟨⟨hheeds, hfits⟩, hedges⟩
    exact ⟨hnoted.trans hheeds, hfits, hedges⟩
  · exact fun _ s herror => hnoted.trans herror.1

/-- An allocation is refused if a slot of the value holds something of another heap. Then the object
stays behind; otherwise it leads to objects of its heap. -/
theorem alloc_divides {g : HeapId} {n : String} {v : Value} (hg : g ∈ c.heaps) (hv : v.Matched)
    (hheld : (v.holdings : Multiset Holding) ≤ c.held) : (alloc g n v).Divides c := by
  have hborn := h.enroll (n := n) hg hv hheld
  have hfenced := hborn.fenced (hborn.heaps_lt g hg)
  -- the new object is sane only once the connect pass has seen its edges
  set o := c.world.objects.size with ho
  set w₁ := c.world.enroll g n v with hw₁
  have howns : w₁.owns g o = true := by
    rw [hw₁, Parted.owns_enroll, if_pos ho, decide_eq_true rfl]
  have hempty (r : RootId) : w₁.tallies.count o r = 0 :=
    (Tallies.count_push_empty c.world.tallies o r).trans
      (Tallies.count_eq_zero_of_size_le h.size_eq.le)
  have hlt : o < w₁.tallies.size := by
    rw [hborn.size_eq]
    exact (Array.getElem?_eq_some_iff.mp (owns_iff.mp howns).choose_spec.1).1
  let Q : RootId → World → Prop := fun r w' =>
    (Holding.root ⟨o, r, g⟩).Fits (fun p => sane p ∨ p = o) w' ∧ ∀ p ∈ w₁.out o, w₁.owns g p = true
  have hkept : ∀ r w₂ w₃, Q r w₂ → w₂.Heeds (some g) sane w₃ → Q r w₃ :=
    fun r w₂ w₃ hQ hheeds => ⟨hQ.1.heeds (hheeds.mono fun _ => .inl), hQ.2⟩
  have hsecludes {w' : World} (hheeds : w₁.Heeds (some g) sane w') :
      c.world.Secludes (some g) w' :=
    hheeds.secludes_from (Tallies.count_push_empty c.world.tallies) rfl
  apply ends_alloc
  apply (locked_heeds hkept (introduce_fits hfenced hlt hempty)).mono
  · rintro ⟨r, dead⟩ w' ⟨hheeds, hfits, hedges⟩
    have hstill : w'.owns g o = true := by rw [hheeds.owns]; exact howns
    have hclosed : ∀ p ∈ w'.out o, w'.owns g p = true := by
      intro p hp
      rw [hheeds.owns]
      obtain ⟨s, hs, hp⟩ := mem_out.mp hp
      rw [hheeds.values] at hs
      rcases hheeds.slots s p hp with hp | ⟨-, -, hp⟩
      · exact hedges p (mem_out.mpr ⟨s, hs, hp⟩)
      · exact within_some.mp hp
    have hadopted := (hborn.heeds hheeds).adopt hstill hclosed
    refine ⟨hsecludes hheeds, fun p => sane p ∨ p = o, ?_, hadopted.finalizing g dead⟩
    have hgains : ∀ x ∈ Receipt.gains { handles := [⟨o, r, g⟩] },
        x.slots = 0 ∧ x.Fits (fun p => sane p ∨ p = o) w' := by
      intro x hx
      have hx : x = .root ⟨o, r, g⟩ := by simpa [Receipt.gains] using hx
      rw [hx]
      exact ⟨rfl, hfits⟩
    simpa [forfeits, leaves, spends] using hadopted.gain hgains
  · intro _ w' hheeds
    exact ⟨hsecludes hheeds, sane, by simpa [forfeits, leaves, spends] using hborn.heeds hheeds, by simp⟩

/-- An upgrade roots its target in the target's own heap. -/
theorem upgrade_divides {x : WeakRef} (hx : ∀ o ∈ x.target, c.Sees (.weak o)) :
    (upgrade x).Divides c := by
  have hnone : c.held - ((upgrade x).forfeits : Multiset Holding) = c.held := by
    simp [forfeits, spends]
  have hheaps : c.heaps - ((upgrade x).leaves : Multiset HeapId) = c.heaps := by simp [leaves]
  unfold Divides
  rw [hnone, hheaps]
  apply ends_upgrade
  · intro _
    refine ⟨.refl c.world, sane, ?_, by simp⟩
    simpa [Receipt.gains] using h
  · intro o ho ob hob _
    have hsite : (upgrade x).site c.world = some ob.heap := by
      rw [site, ho]
      simp [hob]
    rw [hsite]
    -- a weak reference leads to a sane object, so it may become a handle
    have hsane : sane o := h.fits_of_sees (le_refl c.held) (hx o ho)
    have hg := h.settled ob.heap o (owns_iff.mpr ⟨ob, hob, rfl⟩)
    have henter : c.world.Heeds (some ob.heap) sane (c.world.enter ob.heap) := .enter _ _
    have hentered := h.heeds henter
    have hclaim := WeakRef.claim_heedful hsane ⟨_, []⟩ ((h.fenced hg).heeds henter)
    apply (hentered.locked hclaim).mono
    · rintro ⟨found, dead⟩ w' ⟨hheeds, hparted, hfits⟩
      have hsecludes := (henter.trans hheeds).secludes
      cases found with
      | none => exact ⟨hsecludes, sane, by simpa [Receipt.gains] using hparted, by simp [Task.holdings]⟩
      | some a =>
          have ha := hfits a (by simp)
          have hgains : ∀ y ∈ Receipt.gains { others := [.root a] }, y.slots = 0 ∧ y.Fits sane w' := by
            intro y hy
            have hy : y = .root a := by simpa [Receipt.gains] using hy
            rw [hy]
            exact ⟨rfl, ha⟩
          exact ⟨hsecludes, sane, by simpa using hparted.gain hgains, by simp⟩
    · intro _ w' hheeds
      have hleft := (henter.trans hheeds).trans (.leave w' ob.heap)
      exact ⟨hleft.secludes, sane, h.heeds hleft, by simp⟩

/-- A handle that goes to another object takes its root along, in its heap. -/
theorem assign_divides {a b : Handle} (ha : (Holding.root a).Fits sane c.world)
    (hb : b.Anchors sane c.world) : (assign a b).Divides c := by
  by_cases hobj : a.obj = b.obj
  · have hstart := congrFun (start_assign_same hobj) c.world
    exact divides_of_gain h rfl rfl hstart (.refl c.world) (by simpa using ⟨rfl, ha⟩)
  · by_cases hheap : a.heap = b.heap
    · have hstart := congrFun (start_assign hobj hheap) c.world
      have hfenced := h.fenced (h.settled a.heap a.obj ha.2.1)
      have htarget : sane b.obj ∧ c.world.owns a.heap b.obj = true := hheap ▸ hb
      apply divides_of_session h rfl rfl rfl hstart (Handle.rebind_heeds hfenced ha htarget)
        fun _ => rfl
      intro _ w' hheeds _ x hx
      have hx : x = .root { a with obj := b.obj } := by simpa [Receipt.gains] using hx
      obtain ⟨-, -, hissued, hregistered⟩ := ha.heeds hheeds
      rw [hx]
      exact ⟨rfl, htarget.1, by rw [hheeds.owns]; exact htarget.2, hissued, hregistered⟩
    · exact divides_of_refusal h (congrFun (start_assign_foreign hobj hheap) c.world)

/-- Every call that is allowed keeps heaps separate. -/
theorem divides (hallowed : call.Allowed c) : call.Divides c := by
  have hsees {x : Holding} (hx : c.Sees x) : x.Fits sane c.world := h.fits_of_sees (le_refl _) hx
  have hanchors {a : Handle} (ha : c.Sees (.root a)) : a.Anchors sane c.world :=
    ⟨(hsees ha).1, (hsees ha).2.1⟩
  have hfenced {a : Handle} (ha : c.Sees (.root a)) : c.world.Fenced a.heap sane c.world :=
    h.fenced (h.settled a.heap a.obj (hsees ha).2.1)
  have hitem {a b : Handle} (hb : c.Sees (.root b)) (hheap : b.heap = a.heap) :
      sane b.obj ∧ c.world.owns a.heap b.obj = true := hheap ▸ hanchors hb
  -- each case names the one heap that its session may touch
  cases call with
  | createHeap config =>
      have hstart : (createHeap config).start c.world =
          .ok ({ heaps := [c.world.heaps.size] }, [])
            ((c.world.found config).note (.creatingHeap config)) := rfl
      apply divides_of_quiet hstart
      · exact ⟨fun _ _ _ => rfl, [.creatingHeap config], by simp [note, found], by simp [Event.tallied]⟩
      · have hfound := h.createHeap hallowed
        have hnote : (c.world.found config).Heeds none sane
            ((c.world.found config).note (.creatingHeap config)) := .note _ rfl
        refine ⟨sane, ?_, by simp⟩
        simpa [Receipt.gains, forfeits, spends, leaves] using hfound.heeds hnote
  | shareHeap g =>
      have hg : g < c.world.heaps.size := by
        rcases hallowed with hg | ⟨a, ha, rfl⟩
        · exact h.heaps_lt g hg
        · exact h.settled a.heap a.obj (hsees ha).2.1
      have hentered : c.world.Heeds none sane (c.world.enter g) := .enter _ _
      have hstart : (shareHeap g).start c.world =
          .ok ({ heaps := [g] }, []) (c.world.enter g) := rfl
      apply divides_of_quiet hstart hentered.secludes
      refine ⟨sane, ?_, by simp⟩
      simpa [Receipt.gains, forfeits, spends, leaves] using (h.own hg).heeds hentered
  | dropHeap g => exact divides_of_giving h rfl (by simp [Task.holdings])
  | alloc g n v => exact alloc_divides h hallowed.1 hallowed.2.1 hallowed.2.2
  | clone a =>
      exact divides_of_handles h rfl rfl rfl rfl
        (Locked.newHandle_heedful (hsees hallowed).1 _ (hfenced hallowed))
  | drop a => exact divides_of_giving h rfl (by simpa [Task.holdings] using hsees (.held hallowed))
  | assign a b => exact assign_divides h (hsees (.held hallowed.1)) (hanchors hallowed.2)
  | getField a s =>
      exact divides_of_handles h rfl rfl rfl rfl
        (Handle.readField_heedful _ (hfenced hallowed.1))
  | setField a s target =>
      by_cases haccepts : a.accepts target = true
      · have hstart := congrFun (start_setField (s := s) haccepts) c.world
        have htarget : ∀ o ∈ target.map (·.obj), sane o ∧ c.world.owns a.heap o = true := by
          intro o ho
          obtain ⟨b, hb, rfl⟩ := Option.map_eq_some_iff.mp ho
          subst hb
          exact hitem (hallowed.2.2 b rfl) (by simpa [Handle.accepts] using haccepts)
        exact divides_of_handles h rfl rfl rfl hstart
          (Handle.storeField_heedful (hanchors hallowed.1) htarget _ (hfenced hallowed.1))
      · exact divides_of_refusal h (congrFun (start_setField_foreign haccepts) c.world)
  | takeField a s =>
      exact divides_of_handles h rfl rfl rfl rfl
        (Handle.unloadField_heedful (hanchors hallowed.1) _ (hfenced hallowed.1))
  | pushItem a s item =>
      -- an item of another heap is refused up front, so that the session may take it for its own
      refine divides_of_storing h rfl rfl rfl rfl fun hheap => ?_
      exact Handle.enlist_heedful (hanchors hallowed.1) none (hitem hallowed.2.2 hheap) _
        (hfenced hallowed.1)
  | insertItem a s index item =>
      refine divides_of_storing h rfl rfl rfl rfl fun hheap => ?_
      exact Handle.enlist_heedful (hanchors hallowed.1) (some index) (hitem hallowed.2.2 hheap) _
        (hfenced hallowed.1)
  | setItem a s index item =>
      refine divides_of_storing h rfl rfl rfl rfl fun hheap => ?_
      exact Handle.replace_heedful (hanchors hallowed.1) index (hitem hallowed.2.2 hheap) _
        (hfenced hallowed.1)
  | getItem a s index =>
      exact divides_of_handles h rfl rfl rfl rfl
        (Handle.readItem_heedful index _ (hfenced hallowed.1))
  | items a s =>
      exact divides_of_handles h rfl rfl rfl rfl
        (Handle.readItems_heedful _ (hfenced hallowed.1))
  | removeItem a s index =>
      exact divides_of_handles h rfl rfl rfl rfl
        (Handle.removeAt_heedful (hanchors hallowed.1) index _ (hfenced hallowed.1))
  | popItem a s =>
      exact divides_of_handles h rfl rfl rfl rfl
        (Handle.removeLast_heedful (hanchors hallowed.1) _ (hfenced hallowed.1))
  | clearItems a s =>
      exact divides_of_handles h rfl rfl rfl rfl
        (Handle.removeAll_heedful (hanchors hallowed.1) _ (hfenced hallowed.1))
  | downgrade a =>
      have hstart : (downgrade a).start c.world =
          .ok ({ others := [.weak a.obj] }, []) (c.world.retainWeak a.obj) := rfl
      exact divides_of_gain h rfl rfl hstart (.modifyObject _ _ fun _ => rfl)
        (by simpa using ⟨rfl, (hsees hallowed).1⟩)
  | cloneWeak x =>
      obtain ⟨_ | o⟩ := x
      · have hstart : (cloneWeak ⟨none⟩).start c.world = .ok ({ others := [] }, []) c.world := rfl
        exact divides_of_gain h rfl rfl hstart (.refl c.world) (by simp)
      · have hstart : (cloneWeak ⟨some o⟩).start c.world =
            .ok ({ others := [.weak o] }, []) (c.world.retainWeak o) := rfl
        exact divides_of_gain h rfl rfl hstart (.modifyObject _ _ fun _ => rfl)
          (by simpa using ⟨rfl, hsees (hallowed o rfl)⟩)
  | dropWeak x =>
      apply divides_of_giving h rfl
      intro t ht y hy
      obtain ⟨z, hz, rfl⟩ := List.mem_map.mp ht
      have hyz : y = z := by cases z <;> exact Multiset.mem_singleton.mp hy
      rw [hyz]
      exact h.fits z (Multiset.mem_of_le hallowed (Multiset.mem_coe.mpr hz))
  | upgrade x => exact upgrade_divides h hallowed
  | newField target =>
      cases target with
      | none =>
          have hstart : (newField none).start c.world =
              .ok ({ others := [.slot c.world.slots.size] }, []) (c.world.addSlot (.one none)).2 := rfl
          exact divides_of_newSlot h rfl rfl hstart (.refl c.world) (by simp [Slot.targets])
      | some b =>
          have hstart : (newField (some b)).start c.world =
              .ok ({ others := [.slot (c.world.retain b.obj).slots.size] }, [])
                ((c.world.retain b.obj).addSlot (.one (some b.obj))).2 := rfl
          apply divides_of_newSlot h rfl rfl hstart (.modifyObject _ _ fun _ => rfl)
          simpa [Slot.targets] using (hsees (hallowed b rfl)).1
  | newList targets =>
      let w₁ := targets.foldl (fun w a => w.retain a.obj) c.world
      have hstart : (newList targets).start c.world =
          .ok ({ others := [.slot w₁.slots.size] }, []) (w₁.addSlot (.many (targets.map (·.obj)))).2 :=
        rfl
      apply divides_of_newSlot h rfl rfl hstart (.retainAll c.world targets)
      intro o ho
      obtain ⟨b, hb, rfl⟩ := List.mem_map.mp ho
      exact (hsees (hallowed b hb)).1
  | dropSlot s => exact divides_of_giving h rfl (by simp [Task.holdings, Holding.Fits])

/-- A whole call leaves heaps separate, with the tasks it comes to. -/
theorem run_apart (hallowed : call.Allowed c) :
    Ends call.run c.world
      (fun r w' => w'.Apart (r.gains + (c.held - (call.forfeits : Multiset Holding)))
        ((r.heaps : Multiset HeapId) + (c.heaps - (call.leaves : Multiset HeapId))) [])
      fun _ w' => w'.Apart (c.held - (call.forfeits : Multiset Holding))
        (c.heaps - (call.leaves : Multiset HeapId)) [] := by
  refine run_ends_of (M := fun r tasks w =>
    w.Apart (r.gains + (c.held - (call.forfeits : Multiset Holding)))
      ((r.heaps : Multiset HeapId) + (c.heaps - (call.leaves : Multiset HeapId))) tasks) ?_ ?_ ?_
  · exact (divides h hallowed).mono (fun _ _ hok => hok.2) fun _ _ herror => herror.2
  · intro r t rest w hw
    apply hw.step.mono
    · exact fun _ _ hok => hok.2
    · exact fun _ _ herror => herror.2.anti (Multiset.le_add_left _ _) (Multiset.le_add_left _ _)
        (List.Subset.refl _)
  · rintro r g w ⟨sane, hparted, -⟩
    have henter : w.Heeds none sane (w.enter g) := .enter w g
    exact ⟨sane, hparted.heeds henter, by simp⟩

omit h in
theorem spent_le (call : Call) (held : Multiset Holding) :
    held - (call.spends : Multiset Holding) ≤ held - (call.forfeits : Multiset Holding) := by
  cases call with
  | assign => simp [forfeits]
  | _ => exact le_refl _

end Call

end Calls

/-! ## Runs -/

namespace Client

variable {c : Client}

/-- In every run heaps are separate, also in the middle of a call. -/
theorem Ventures.apart (h : c.Ventures Call.Allowed) :
    c.world.Apart (c.held + ((c.incoming.map .root : List Holding) : Multiset Holding)) c.heaps
      c.todo := by
  have hrested {c : Client} (hrest : c.AtRest)
      (ih : c.world.Apart (c.held + ((c.incoming.map .root : List Holding) : Multiset Holding))
        c.heaps c.todo) : ∃ sane, c.world.Parted sane c.held c.heaps := by
    obtain ⟨sane, hparted, -⟩ := ih
    exact ⟨sane, by simpa [hrest.2] using hparted⟩
  have hgains {c : Client} (call : Call) (r : Receipt) :
      r.others + (c.held - (call.spends : Multiset Holding)) +
          ((r.handles.map .root : List Holding) : Multiset Holding) ≤
        r.gains + (c.held - (call.forfeits : Multiset Holding)) := by
    rw [Receipt.gains, add_comm, ← add_assoc]
    exact Multiset.add_le_add_left (call.spent_le c.held)
  -- which objects are sane may change with each step, so the set is found anew
  induction h with
  | start => exact ⟨_, Parted.empty, by simp⟩
  | @ran c call r w _ hrest hallowed hrun ih =>
      obtain ⟨sane, hparted⟩ := hrested hrest ih
      apply ((Call.run_apart hparted hallowed).of_ok hrun).anti ?_ (le_refl _)
        (List.Subset.refl _)
      simpa [after, add_comm, add_left_comm] using hgains call r
  | @failed c call f w _ hrest hallowed hrun ih =>
      obtain ⟨sane, hparted⟩ := hrested hrest ih
      simpa [bereft] using (Call.run_apart hparted hallowed).of_error hrun
  | @opened c call r tasks w _ hrest hallowed hstart ih =>
      obtain ⟨sane, hparted⟩ := hrested hrest ih
      apply ((Call.divides hparted hallowed).of_ok hstart).2.anti (hgains call r) (le_refl _)
        (List.Subset.refl _)
  | @stepped c t rest more w _ htodo hstep ih =>
      rw [htodo] at ih
      exact (ih.step.of_ok hstep).2
  | @copied c a _ ha ih =>
      obtain ⟨sane, hparted, htasks⟩ := ih
      have hfits := hparted.fits_of_sees (Multiset.le_add_right _ _) ha
      refine ⟨sane, ?_, htasks⟩
      have hmore : ∀ x ∈ ({.root a} : Multiset Holding), x.slots = 0 ∧ x.Fits sane c.world := by
        simpa using ⟨rfl, hfits⟩
      simpa using hparted.gain hmore

/-- Whatever a client asks of its heaps, and whatever comes of it: what a handle leads to that it can
get at belongs to the handle's heap, and a step changes tallies only of objects of the heap whose lock
it takes. So does each pass of the step. -/
theorem Ventures.secluded (h : c.Ventures Call.Allowed) :
    (∀ a, c.Sees (.root a) ∨ a ∈ c.incoming →
      ∀ o, Reach c.world.out a.obj o → c.world.owns a.heap o = true) ∧
    (c.AtRest → ∀ call : Call, call.Allowed c →
      Ends call.start c.world (fun _ w' => c.world.Secludes (call.site c.world) w')
        fun _ w' => c.world.Secludes (call.site c.world) w') ∧
    ∀ (t : Task) (rest : List Task), c.todo = t :: rest →
      Ends t.step c.world (fun _ w' => c.world.Secludes (t.site c.world) w')
        fun _ w' => c.world.Secludes (t.site c.world) w' := by
  have hapart := h.apart
  refine ⟨fun a ha o hreach => ?_, fun hrest call hallowed => ?_, fun t rest htodo => ?_⟩
  · obtain ⟨sane, hparted, -⟩ := hapart
    have hfits : (Holding.root a).Fits sane c.world := by
      rcases ha with ha | ha
      · exact hparted.fits_of_sees (Multiset.le_add_right _ _) ha
      · apply hparted.fits
        exact Multiset.mem_add.mpr (.inr (Multiset.mem_coe.mpr (List.mem_map.mpr ⟨a, ha, rfl⟩)))
    exact hparted.owns_of_reach hfits.1 hfits.2.1 hreach
  · obtain ⟨sane, hparted, -⟩ := hapart
    have hdivides : call.Divides c := Call.divides (by simpa [hrest.2] using hparted) hallowed
    exact hdivides.mono (fun _ _ hok => hok.1) fun _ _ herror => herror.1
  · rw [htodo] at hapart
    exact hapart.step.mono (fun _ _ hok => hok.1) fun _ _ herror => herror.1

/-- Two heaps. The slot that a node of the second one was to take over holds an object of the first,
so its allocation failed; another one came off. One more field holds the object of the first heap. -/
def bordered : Client :=
  let founded := (({ } : Client).attempt (.createHeap {})).attempt (.createHeap {})
  let stored := (founded.attempt (.alloc 0 "leaf" .plain)).attempt (.newField (some ⟨0, 1, 0⟩))
  let failed := stored.attempt (.alloc 1 "node" (.slot 0))
  (failed.attempt (.alloc 1 "other" .plain)).attempt (.newField (some ⟨0, 1, 0⟩))

theorem bordered_ventures : bordered.Ventures Call.Allowed ∧ bordered.AtRest := by
  have hstart : Ventures Call.Allowed {} ∧ AtRest {} := ⟨.start, rfl, rfl⟩
  unfold bordered
  refine Ventures.attempt (Ventures.attempt (Ventures.attempt (Ventures.attempt (Ventures.attempt
    (Ventures.attempt (Ventures.attempt hstart ?_) ?_) ?_) ?_) ?_) ?_) ?_
  · rfl
  · rfl
  · refine ⟨?_, by decide, Multiset.zero_le _⟩
    cbv
    exact .tail _ (.head _)
  · rintro _ ⟨⟩
    apply Sees.held
    cbv
    exact .head _
  · refine ⟨?_, by decide, Multiset.singleton_le.mpr ?_⟩
    · cbv
      exact .head _
    · cbv
      exact .head _
  · refine ⟨?_, by decide, Multiset.zero_le _⟩
    cbv
    exact .head _
  · rintro _ ⟨⟩
    apply Sees.held
    cbv
    exact .tail _ (.head _)

/-- The failed node leads to the other heap and is still tagged, but no handle leads there, and an
attempt to read the field through the second heap's handle tags nothing of the first heap. -/
theorem bordered_secluded :
    (bordered.world.tallies.count 1 1 = 1 ∧ 0 ∈ bordered.world.out 1 ∧
      bordered.world.owns 1 0 = false) ∧
    ¬ Reach bordered.world.out 2 0 ∧
    ∃ w', (Call.getField ⟨2, 2, 1⟩ 1).start bordered.world =
        .error (.violation (.protocol "leaf" .foreignTarget)) w' ∧
      bordered.world.Secludes (some 1) w' := by
  obtain ⟨hbelongs, hcalls, -⟩ := bordered_ventures.1.secluded
  have howns : bordered.world.owns 1 0 = false := by cbv
  have hseesHandle : bordered.Sees (.root ⟨2, 2, 1⟩) := by
    apply Sees.held
    cbv
    exact .tail _ (.head _)
  have hseesField : bordered.SeesField 1 := by
    refine ⟨.held ?_, some 0, by cbv⟩
    cbv
    exact .head _
  have hread := hcalls bordered_ventures.2 (.getField ⟨2, 2, 1⟩ 1) ⟨hseesHandle, hseesField⟩
  have hrefused : ∃ w', (Call.getField ⟨2, 2, 1⟩ 1).start bordered.world =
      .error (.violation (.protocol "leaf" .foreignTarget)) w' := ⟨_, by cbv⟩
  refine ⟨⟨by cbv, ?_, howns⟩, fun hreach => ?_, ?_⟩
  · cbv
    exact .head _
  · have hown := hbelongs ⟨2, 2, 1⟩ (.inl hseesHandle) 0 hreach
    rw [howns] at hown
    cases hown
  · obtain ⟨w', hstart⟩ := hrefused
    exact ⟨w', hstart, hread.of_error hstart⟩

end Client

end RootedHeap
