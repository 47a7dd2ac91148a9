import Mathlib.Algebra.Order.Group.Int
import RootedHeap.Locked
import RootedHeap.Proofs.Ledger
import RootedHeap.Proofs.Release

/-! # Sound worlds

What holds of a world at every moment, inside a session as well as between operations. A world is
looked at along with the tallies and strong counts a session has come to, the support that each root
is to have, the suspects noticed so far, the tasks still to be done and what clients hold:

- every strong reference, slot and root is accounted for (`World.Accounted`);
- nothing that is still held refers to an object on its way out (`World.Guarded`);
- every root's tallies balance (`World.Tallied`);
- every object that may be garbage is led to by a suspect or by an outer reference
  (`World.Anchored`);
- a heap has as many holders as there are reasons to keep it (`World.Attended`).
-/

namespace RootedHeap

/-- The object that a task puts away, once it was collected. -/
def Task.buries : Task → Option ObjId
  | .dropValue o | .retire _ o => some o
  | .dropSlot _ | .release _ | .dropWeak _ | .dropHandle _ | .leave _ => none

namespace World

/-- The registry of heap `h`; a heap that does not exist has no roots. -/
def registryAt (w : World) (h : HeapId) : Registry :=
  match w.heaps[h]? with
  | some heap => heap.roots
  | none => .empty

/-- The active roots of heap `h` with their targets. -/
def rootsAt (w : World) (h : HeapId) : List (RootId × ObjId) := (w.registryAt h).active

/-- What keeps heap `h` in existence. -/
def holdersAt (w : World) (h : HeapId) : Nat :=
  match w.heaps[h]? with
  | some heap => heap.holders
  | none => 0

/-- The strong count of `o`. -/
def strongAt (w : World) (o : ObjId) : Nat :=
  match w.objects[o]? with
  | some ob => ob.strong
  | none => 0

/-- The support that root `r` of `o`'s heap gives to `o`: one unit at its registered target. -/
def support (w : World) (r : RootId) (o : ObjId) : Nat :=
  match w.objects[o]? with
  | some ob => (w.rootsAt ob.heap : Multiset (RootId × ObjId)).count (r, o)
  | none => 0

/-- Whether `o` may be garbage, by the tallies `ts`. -/
def candidateIn (w : World) (ts : Tallies) (o : ObjId) : Bool := w.isLive o && ts.isEmptyAt o

/-- The edges between objects that may be garbage. -/
def candidateEdges (w : World) (ts : Tallies) (o : ObjId) : List ObjId :=
  (w.out o).filter (w.candidateIn ts)

/-- Every strong reference, slot, root and live object is accounted for. -/
structure Accounted (w : World) (strong : ObjId → Nat) (todo : Multiset Task)
    (held : Multiset Holding) : Prop where
  strong_eq : ∀ o, strong o = (w.refs todo held).count o
  slots_nodup : ((w.ledger todo held).bind Holding.slots).Nodup
  slots_lt : ∀ s ∈ (w.ledger todo held).bind Holding.slots, s < w.slots.size
  /-- A slot that nobody holds any more owns nothing. -/
  slots_idle : ∀ s ∉ (w.ledger todo held).bind Holding.slots, (w.slotAt s).targets = []
  /-- The registered roots are those of the handles there are. -/
  roots_eq : ∀ h, (w.rootsAt h : Multiset (RootId × ObjId)) =
    (w.ledger todo held).bind (Holding.entries h)
  roots_nodup : ∀ h, ((w.rootsAt h).map Prod.fst).Nodup
  roots_lt : ∀ h, ∀ e ∈ w.rootsAt h, e.1 < (w.registryAt h).next
  live_eq : ∀ (h : HeapId) (heap : Heap), w.heaps[h]? = some heap →
    heap.live = (w.lives.filter fun o => w.owns h o = true).card

/-- Whether `o` is on its way out. -/
def Gone (w : World) (o : ObjId) : Prop := o < w.objects.size ∧ w.isLive o = false

/-- Nothing that is still held refers to an object on its way out. -/
structure Guarded (w : World) (todo : Multiset Task) (held : Multiset Holding) : Prop where
  matched : ∀ o, (w.valueAt o).Matched
  heap_some : ∀ h o, w.owns h o = true → ∃ heap, w.heaps[h]? = some heap
  verify : ∀ (h : HeapId) (heap : Heap), w.heaps[h]? = some heap → heap.config.verify = true
  /-- Edges of live objects stay in their heap. -/
  closed : ∀ p, w.isLive p = true → ∀ c ∈ w.out p, ∀ h, w.owns h p = true → w.owns h c = true
  value_live : ∀ p, w.isLive p = true → ∀ x ∈ (w.valueAt p).holdings, ∀ c ∈ x.targets w,
    w.isLive c = true
  held_live : ∀ x ∈ held, ∀ c ∈ x.targets w, w.isLive c = true
  handle_owned : ∀ a, .root a ∈ w.ledger todo held → w.owns a.heap a.obj = true
  buried : ∀ t ∈ todo, ∀ o, t.buries = some o → w.Gone o
  dropped : ∀ o ∈ w.dropped, w.Gone o

/-- Every root's tallies balance, on live objects only. -/
structure Tallied (w : World) (ts : Tallies) (support : RootId → ObjId → Nat) : Prop where
  size_eq : ts.size = w.objects.size
  balanced : ∀ r, Balanced w.out r (support r) ts
  supported : ∀ r o, 0 < support r o → w.isLive o = true

/-- In a heap that exists, every object that may be garbage is led to, through objects that may be
garbage, by a suspect or by an outer reference. -/
def Anchored (w : World) (ts : Tallies) (suspects : List ObjId) (todo : Multiset Task)
    (held : Multiset Holding) : Prop :=
  ∀ h x, w.owns h x = true → w.heapExists h = true → w.candidateIn ts x = true →
    ∃ y, (y ∈ suspects ∨ y ∈ w.outer todo held) ∧ w.candidateIn ts y = true ∧
      Reach (w.candidateEdges ts) y x

/-- A heap has a holder for each active root, and `owed` more. -/
def Attended (w : World) (owed : HeapId → ℤ) : Prop :=
  ∀ h, (w.holdersAt h : ℤ) = (w.rootsAt h).length + owed h

/-- A sound world, with the tallies, strong counts, support and suspects of a session, the tasks to
be done, what clients hold, and the holders of heaps that are no roots. -/
structure Sound (w : World) (ts : Tallies) (strong : ObjId → Nat)
    (support : RootId → ObjId → Nat) (suspects : List ObjId) (todo : Multiset Task)
    (held : Multiset Holding) (owed : HeapId → ℤ) : Prop where
  accounted : w.Accounted strong todo held
  guarded : w.Guarded todo held
  tallied : w.Tallied ts support
  anchored : w.Anchored ts suspects todo held
  attended : w.Attended owed

section Heaps

variable {w : World} {g : HeapId} {f : Heap → Heap}

theorem registryAt_modifyHeap (hf : ∀ heap, (f heap).roots = heap.roots) :
    (w.modifyHeap g f).registryAt = w.registryAt := by
  funext g'
  exact match_heaps_modifyHeap (d := Registry.empty) hf g'

theorem holdersAt_modifyHeap (hf : ∀ heap, (f heap).holders = heap.holders) :
    (w.modifyHeap g f).holdersAt = w.holdersAt := by
  funext g'
  exact match_heaps_modifyHeap (d := 0) hf g'

theorem heapExists_eq (g' : HeapId) : w.heapExists g' = decide (0 < w.holdersAt g') := by
  unfold heapExists holdersAt
  cases w.heaps[g']? <;> simp

theorem heapExists_modifyHeap (hf : ∀ heap, (f heap).holders = heap.holders) :
    (w.modifyHeap g f).heapExists = w.heapExists := by
  funext g'
  rw [heapExists_eq, heapExists_eq, holdersAt_modifyHeap hf]

end Heaps

theorem owns_iff {w : World} {h : HeapId} {o : ObjId} :
    w.owns h o = true ↔ ∃ ob, w.objects[o]? = some ob ∧ ob.heap = h := by
  unfold owns
  cases w.objects[o]? <;> simp

theorem exists_owns {w : World} {o : ObjId} (h : w.isLive o = true) :
    ∃ g, w.owns g o = true := by
  obtain ⟨ob, hob, _⟩ := isLive_iff.mp h
  exact ⟨ob.heap, owns_iff.mpr ⟨ob, hob, rfl⟩⟩

theorem owns_unique {w : World} {g h : HeapId} {o : ObjId} (hg : w.owns g o = true)
    (hh : w.owns h o = true) : g = h := by
  obtain ⟨ob, hob, rfl⟩ := owns_iff.mp hg
  obtain ⟨ob', hob', rfl⟩ := owns_iff.mp hh
  rw [hob] at hob'
  exact congrArg Object.heap (Option.some.inj hob')

theorem support_of_owns {w : World} {h : HeapId} {o : ObjId} (ho : w.owns h o = true)
    (r : RootId) :
    w.support r o = (w.rootsAt h : Multiset (RootId × ObjId)).count (r, o) := by
  obtain ⟨ob, hob, rfl⟩ := owns_iff.mp ho
  simp [support, hob]

theorem candidateIn_iff {w : World} {ts : Tallies} {o : ObjId} :
    w.candidateIn ts o = true ↔ w.isLive o = true ∧ ts.isEmptyAt o = true := by
  rw [candidateIn, Bool.and_eq_true]

theorem mem_candidateEdges {w : World} {ts : Tallies} {p c : ObjId} :
    c ∈ w.candidateEdges ts p ↔ c ∈ w.out p ∧ w.candidateIn ts c = true :=
  List.mem_filter

/-- Every active root is that of a handle. -/
theorem Accounted.exists_handle {w : World} {strong : ObjId → Nat} {todo : Multiset Task}
    {held : Multiset Holding} (h : w.Accounted strong todo held) {g : HeapId} {r : RootId} {t : ObjId}
    (he : (r, t) ∈ w.rootsAt g) : .root ⟨t, r, g⟩ ∈ w.ledger todo held := by
  have hmem : (r, t) ∈ (w.rootsAt g : Multiset (RootId × ObjId)) := he
  rw [h.roots_eq] at hmem
  obtain ⟨x, hx, hentry⟩ := Multiset.mem_bind.mp hmem
  cases x with
  | root a =>
      simp only [Holding.entries] at hentry
      split at hentry
      next hg =>
        cases Multiset.mem_singleton.mp hentry
        cases hg
        exact hx
      next => cases hentry
  | slot | weak => cases hentry

section Guarded

variable {w : World} {todo : Multiset Task} {held : Multiset Holding}

theorem Guarded.live_of_out (h : w.Guarded todo held) {p c : ObjId} (hp : w.isLive p = true)
    (hc : c ∈ w.out p) : w.isLive c = true := by
  obtain ⟨s, hs, hc⟩ := mem_out.mp hc
  exact h.value_live p hp (.slot s) (Value.mem_holdings_of_reported hs) c hc

theorem Guarded.live_of_reach (h : w.Guarded todo held) {p c : ObjId} (hp : w.isLive p = true)
    (hreach : Reach w.out p c) : w.isLive c = true := by
  induction hreach with
  | refl => exact hp
  | tail _ hstep ih => exact h.live_of_out ih hstep

theorem Guarded.owns_of_reach (h : w.Guarded todo held) {p c : ObjId} {g : HeapId}
    (hp : w.isLive p = true) (hown : w.owns g p = true) (hreach : Reach w.out p c) :
    w.owns g c = true := by
  induction hreach with
  | refl => exact hown
  | tail hpre hstep ih => exact h.closed _ (h.live_of_reach hp hpre) _ hstep g ih

theorem Guarded.back_perm (h : w.Guarded todo held) (p : ObjId) : (w.back p).Perm (w.out p) :=
  World.back_perm (h.matched p)

/-- What a live object or a client refers to is live. -/
theorem Guarded.live_of_ledger (h : w.Guarded todo held) {x : Holding}
    (hx : x ∈ held ∨ ∃ p, w.isLive p = true ∧ x ∈ (w.valueAt p).holdings) {c : ObjId}
    (hc : c ∈ x.targets w) : w.isLive c = true := by
  rcases hx with hx | ⟨p, hp, hx⟩
  · exact h.held_live x hx c hc
  · exact h.value_live p hp x hx c hc

theorem Guarded.dropTask {t : Task} (h : w.Guarded (t ::ₘ todo) held) : w.Guarded todo held where
  matched := h.matched
  heap_some := h.heap_some
  verify := h.verify
  closed := h.closed
  value_live := h.value_live
  held_live := h.held_live
  handle_owned a ha := h.handle_owned a (by
    rw [ledger_cons_task]
    exact Multiset.mem_add.mpr (.inr ha))
  buried u hu := h.buried u (Multiset.mem_cons_of_mem hu)
  dropped := h.dropped

theorem Guarded.dropTasks {more : Multiset Task} (h : w.Guarded (more + todo) held) :
    w.Guarded todo held := by
  induction more using Multiset.induction with
  | empty => rwa [Multiset.zero_add] at h
  | cons t more ih =>
      rw [Multiset.cons_add] at h
      exact ih h.dropTask

/-- Tasks that bury nothing and hold nothing do not matter here. -/
theorem Guarded.addTasks (h : w.Guarded todo held) (more : Multiset Task)
    (hheld : more.bind (Task.holdings w) = 0) (hburies : ∀ t ∈ more, t.buries = none) :
    w.Guarded (more + todo) held where
  matched := h.matched
  heap_some := h.heap_some
  verify := h.verify
  closed := h.closed
  value_live := h.value_live
  held_live := h.held_live
  handle_owned a ha := h.handle_owned a (by
    rwa [ledger_add_tasks, hheld, Multiset.zero_add] at ha)
  buried t ht o ho := by
    rcases Multiset.mem_add.mp ht with ht | ht
    · rw [hburies t ht] at ho
      cases ho
    · exact h.buried t ht o ho
  dropped := h.dropped

end Guarded

section Tallied

variable {w : World} {ts : Tallies} {support : RootId → ObjId → Nat} {todo : Multiset Task}
  {held : Multiset Holding}

/-- Tagged objects are live. -/
theorem Tallied.live_of_count (h : w.Tallied ts support) (hg : w.Guarded todo held) {r : RootId}
    {o : ObjId} (ho : 0 < ts.count o r) : w.isLive o = true := by
  obtain ⟨s, hs, hreach⟩ := (h.balanced r).rooted o ho
  exact hg.live_of_reach (h.supported r s hs) hreach

/-- What a tagged object leads to may not be garbage. -/
theorem Tallied.not_candidate (h : w.Tallied ts support) {p c : ObjId} {r : RootId}
    (hp : 0 < ts.count p r) (hreach : Reach w.out p c) : ¬ w.candidateIn ts c = true := by
  intro hc
  have hempty := Tallies.isEmptyAt_iff.mp (candidateIn_iff.mp hc).2 r
  have hpos := (h.balanced r).count_pos_of_reach hp hreach
  omega

/-- Whatever leads to an object that may be garbage, and is live, may be garbage too. -/
theorem Tallied.candidate_of_out (h : w.Tallied ts support) {p c : ObjId}
    (hp : w.isLive p = true) (hc : c ∈ w.out p) (hcand : w.candidateIn ts c = true) :
    w.candidateIn ts p = true := by
  refine candidateIn_iff.mpr ⟨hp, Tallies.isEmptyAt_iff.mpr fun r => ?_⟩
  by_contra hne
  exact h.not_candidate (Nat.pos_of_ne_zero hne) (.single hc) hcand

end Tallied

/-- How anchors carry over from one world to another: no new object may be garbage unless it is
noticed, and no anchor goes unless another one leads to what it led to. -/
theorem Anchored.transfer {w w' : World} {ts ts' : Tallies} {suspects suspects' : List ObjId}
    {todo todo' : Multiset Task} {held held' : Multiset Holding}
    (h : w.Anchored ts suspects todo held)
    (hcand : ∀ g o, w'.candidateIn ts' o = true → w'.owns g o = true → w'.heapExists g = true →
      (w.candidateIn ts o = true ∧ w.owns g o = true ∧ w.heapExists g = true) ∨
        o ∈ suspects' ∨ o ∈ w'.outer todo' held')
    (hout : ∀ p c, w.candidateIn ts p = true → c ∈ w.out p → w'.candidateIn ts' c = true →
      w'.candidateIn ts' p = true ∧ c ∈ w'.out p)
    (hsource : ∀ y, w'.candidateIn ts' y = true → y ∈ suspects ∨ y ∈ w.outer todo held →
      ∃ y', (y' ∈ suspects' ∨ y' ∈ w'.outer todo' held') ∧ w'.candidateIn ts' y' = true ∧
        Reach (w'.candidateEdges ts') y' y) :
    w'.Anchored ts' suspects' todo' held' := by
  intro g x hown hexists hx
  rcases hcand g x hx hown hexists with ⟨hx₀, hown₀, hexists₀⟩ | hnoticed
  · obtain ⟨y, hy, hycand, hreach⟩ := h g x hown₀ hexists₀ hx₀
    have hpath : w.candidateIn ts y = true →
        w'.candidateIn ts' y = true ∧ Reach (w'.candidateEdges ts') y x := by
      clear hy hycand
      induction hreach using Relation.ReflTransGen.head_induction_on with
      | refl => exact fun _ => ⟨hx, .refl⟩
      | @head a c hstep _ ih =>
          intro ha
          obtain ⟨hc, hccand⟩ := mem_candidateEdges.mp hstep
          obtain ⟨hc', hreach'⟩ := ih hccand
          obtain ⟨ha', hac⟩ := hout a c ha hc hc'
          exact ⟨ha', .head (mem_candidateEdges.mpr ⟨hac, hc'⟩) hreach'⟩
    obtain ⟨hy', hreach'⟩ := hpath hycand
    obtain ⟨z, hz, hzcand, hzy⟩ := hsource y hy' hy
    exact ⟨z, hz, hzcand, hzy.trans hreach'⟩
  · exact ⟨x, hnoticed, hx, .refl⟩

/-- The case in which neither live objects nor their edges change. -/
theorem Anchored.congr {w : World} {ts : Tallies} {suspects suspects' : List ObjId}
    {todo todo' : Multiset Task} {held held' : Multiset Holding}
    (h : w.Anchored ts suspects todo held)
    (hsource : ∀ y, w.candidateIn ts y = true → y ∈ suspects ∨ y ∈ w.outer todo held →
      y ∈ suspects' ∨ y ∈ w.outer todo' held') :
    w.Anchored ts suspects' todo' held' :=
  h.transfer (fun _ _ hc ho he => .inl ⟨hc, ho, he⟩) (fun _ _ hp hc _ => ⟨hp, hc⟩)
    fun y hy hs => ⟨y, hsource y hy hs, hy, .refl⟩

end World

end RootedHeap
