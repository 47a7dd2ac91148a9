import RootedHeap.Proofs.Shedding
import RootedHeap.Proofs.Upgrades

/-! # Handles on loan

Handles that a client takes, and gives back in whatever order, leave no trace but the next root number
and three counters (`Client.Reached.take_neutral`). In between, a world is told by what its heap did
with the handles (`World.Reroots`, `World.Lends`); tallies and strong counts follow from the rest. What
loses its last tag when a handle goes had none when the handle came, so something else held it then,
and holds it still (`Session.Settled.lost_eq_nil`).
-/

namespace RootedHeap

open World

namespace Heap

/-- One more root is registered, for `t`. -/
def lend (t : ObjId) (heap : Heap) : Heap :=
  { heap with
    roots := (heap.roots.acquire t).2
    counters := { heap.counters with rootsAcquired := heap.counters.rootsAcquired + 1 } }

/-- One more connect pass is made. -/
def connected (heap : Heap) : Heap :=
  { heap with
    counters := { heap.counters with connectPasses := heap.counters.connectPasses + 1 } }

/-- Root `r` is withdrawn. -/
def redeem (r : RootId) (heap : Heap) : Heap :=
  { heap with
    roots := heap.roots.without r
    counters := { heap.counters with rootsReleased := heap.counters.rootsReleased + 1 } }

/-- The heap once `n` handles came and went. -/
def served (n : Nat) (heap : Heap) : Heap :=
  { heap with
    roots := { heap.roots with next := heap.roots.next + n }
    counters :=
      { heap.counters with
        rootsAcquired := heap.counters.rootsAcquired + n
        rootsReleased := heap.counters.rootsReleased + n
        connectPasses := heap.counters.connectPasses + n } }

/-- Of `n` roots that the heap registered since, `k` were withdrawn. -/
structure Lends (heap : Heap) (n k : Nat) (heap' : Heap) : Prop where
  config : heap'.config = heap.config
  live : heap'.live = heap.live
  counters : heap'.counters =
    { heap.counters with
      rootsAcquired := heap.counters.rootsAcquired + n
      rootsReleased := heap.counters.rootsReleased + k
      connectPasses := heap.counters.connectPasses + n }
  next : heap'.roots.next = heap.roots.next + n
  /-- The roots that were there before are still there, in their order. -/
  active : heap'.roots.active.filter (fun e => e.1 < heap.roots.next) = heap.roots.active

namespace Lends

variable {heap heap' : Heap} {n k : Nat}

theorem refl (h : ∀ e ∈ heap.roots.active, e.1 < heap.roots.next) : heap.Lends 0 0 heap := by
  refine ⟨rfl, rfl, rfl, rfl, List.filter_eq_self.mpr fun e he => ?_⟩
  exact decide_eq_true (h e he)

theorem lend (h : heap.Lends n k heap') (t : ObjId) :
    heap.Lends (n + 1) k (heap'.lend t).connected := by
  refine ⟨h.config, h.live, ?_, ?_, ?_⟩
  · simp only [Heap.lend, Heap.connected, h.counters, Nat.add_assoc]
  · simp only [Heap.lend, Heap.connected, Registry.acquire, h.next, Nat.add_assoc]
  · have hnew : ¬ heap'.roots.next < heap.roots.next :=
      h.next ▸ Nat.not_lt.mpr (Nat.le_add_right _ _)
    simp only [Heap.lend, Heap.connected, Registry.acquire]
    rw [List.filter_cons_of_neg (by simpa using hnew), h.active]

theorem redeem (h : heap.Lends n k heap') {r : RootId} (hr : heap.roots.next ≤ r) :
    heap.Lends n (k + 1) (heap'.redeem r) := by
  refine ⟨h.config, h.live, ?_, h.next, ?_⟩
  · simp only [Heap.redeem, h.counters, Nat.add_assoc]
  · simp only [Heap.redeem, Registry.without, List.filter_filter]
    rw [← h.active]
    refine List.filter_congr fun e _ => ?_
    by_cases he : e.1 < heap.roots.next
    · have hne : e.1 ≠ r := Nat.ne_of_lt (Nat.lt_of_lt_of_le he hr)
      simp [he, hne]
    · simp [he]

/-- Holders come and go along with the handles. -/
theorem rehold (h : heap.Lends n k heap') (f : Nat → Nat) :
    heap.Lends n k { heap' with holders := f heap'.holders } :=
  ⟨h.config, h.live, h.counters, h.next, h.active⟩

theorem eq_served (h : heap.Lends n n heap') (hactive : heap'.roots.active = heap.roots.active)
    (hholders : heap'.holders = heap.holders) : heap' = heap.served n := by
  obtain ⟨config, ⟨next, active⟩, live, counters, holders⟩ := heap'
  obtain ⟨hconfig, hlive, hcounters, hnext, -⟩ := h
  dsimp only at *
  subst hconfig hlive hcounters hnext hactive hholders
  rfl

end Lends

end Heap

theorem Object.ext_body {ob ob' : Object} (hbody : ob'.body = ob.body)
    (hstrong : ob'.strong = ob.strong) : ob' = ob := by
  obtain ⟨heap, typeName, value, strong, weak, state, freed⟩ := ob
  obtain ⟨heap', typeName', value', strong', weak', state', freed'⟩ := ob'
  simp only [Object.body, Object.mk.injEq] at hbody hstrong ⊢
  exact ⟨hbody.1, hbody.2.1, hbody.2.2.1, hstrong, hbody.2.2.2.2⟩

/-! ## What sessions do to roots -/

/-- Apart from tallies, strong counts and the log, `w'` is `w` with heap `g` changed by `f`. -/
structure World.Reroots (w : World) (g : HeapId) (f : Heap → Heap) (w' : World) : Prop where
  slots : w'.slots = w.slots
  dropped : w'.dropped = w.dropped
  objects : ∀ o : ObjId, w'.objects[o]?.map Object.body = w.objects[o]?.map Object.body
  heaps : ∀ g' : HeapId,
    w'.heaps[g']? = w.heaps[g']?.map fun heap => if g' = g then f heap else heap

namespace World.Reroots

variable {w w' w'' : World} {g : HeapId} {f f' : Heap → Heap}

/-- A heap that does not exist does not change. -/
theorem of_none (hnone : w.heaps[g]? = none) : w.Reroots g f w := by
  refine ⟨rfl, rfl, fun _ => rfl, fun g' => ?_⟩
  by_cases hg : g' = g <;> simp [hg, hnone]

theorem modifyHeap (hf : ∀ heap, w.heaps[g]? = some heap → f' heap = f heap) :
    w.Reroots g f (w.modifyHeap g f') := by
  refine ⟨rfl, rfl, fun _ => rfl, fun g' => ?_⟩
  rw [heaps_modifyHeap]
  refine Option.map_congr fun heap hheap => ?_
  split
  next hg =>
    subst hg
    exact hf heap hheap
  next => rfl

theorem trans (h : w.Reroots g f w') (h' : w'.Reroots g f' w'') : w.Reroots g (f' ∘ f) w'' := by
  refine ⟨h'.slots.trans h.slots, h'.dropped.trans h.dropped,
    fun o => (h'.objects o).trans (h.objects o), fun g' => ?_⟩
  rw [h'.heaps, h.heaps, Option.map_map]
  refine congrArg (Option.map · _) (funext fun heap => ?_)
  by_cases hg : g' = g <;> simp [hg]

/-- What else changes in the course. -/
theorem aside (h : w.Reroots g f w') (hslots : w''.slots = w'.slots)
    (hdropped : w''.dropped = w'.dropped) (hheaps : w''.heaps = w'.heaps)
    (hobjects : ∀ o : ObjId, w''.objects[o]?.map Object.body = w'.objects[o]?.map Object.body) :
    w.Reroots g f w'' :=
  ⟨hslots.trans h.slots, hdropped.trans h.dropped, fun o => (hobjects o).trans (h.objects o),
    hheaps ▸ h.heaps⟩

theorem leave (w : World) (g : HeapId) :
    w.Reroots g (fun heap => { heap with holders := heap.holders - 1 }) (w.leave g) := by
  have hleft : w.Reroots g (fun heap => { heap with holders := heap.holders - 1 })
      (w.modifyHeap g fun heap => { heap with holders := heap.holders - 1 }) :=
    modifyHeap fun _ _ => rfl
  unfold World.leave
  cases hheap : w.heaps[g]? with
  | none => exact of_none hheap
  | some heap =>
      dsimp only
      split
      · exact hleft.aside rfl rfl rfl fun _ => rfl
      · exact hleft

theorem mirrors (h : w.Reroots g f w') : w.Mirrors w' := by
  have htrades : ∀ o : ObjId, w'.objects[o]?.map Object.face = w.objects[o]?.map Object.face := by
    have hcomp : Object.face = Object.face ∘ Object.body := rfl
    intro o
    rw [hcomp, ← Option.map_map, ← Option.map_map, h.objects]
  exact ⟨h.slots, size_eq_of_map h.objects, htrades⟩

end World.Reroots

namespace Locked

variable {g : HeapId} {r : RootId} {t : ObjId} {s : Session}

theorem connect_reroots : Ends (connect g r t) s (fun _ s' =>
    s'.unrooted = s.unrooted ∧ s.world.Reroots g Heap.connected s'.world) fun _ _ => True := by
  unfold connect
  simp only [Ends.bind_iff, ends_update, ends_pass]
  split
  next => exact ⟨rfl, (Reroots.modifyHeap fun _ _ => rfl).aside rfl rfl rfl fun _ => rfl⟩
  next => trivial

/-- A new handle costs its heap a root number, and what is counted with it. -/
theorem newHandle_reroots {heap : Heap} (hheap : s.world.heaps[g]? = some heap) :
    Ends (newHandle g t) s (fun a s' => a = ⟨t, heap.roots.next, g⟩ ∧ s'.unrooted = s.unrooted ∧
      s.world.Reroots g (fun heap => (heap.lend t).connected) s'.world) fun _ _ => True := by
  have hkept : (s.world.retain t).heaps[g]? = some heap := hheap
  have hregistered : s.world.Reroots g (Heap.lend t) (s.world.modifyHeap g fun heap' =>
      { heap' with
        roots := (heap.roots.acquire t).2
        counters := { heap'.counters with rootsAcquired := heap'.counters.rootsAcquired + 1 } }) := by
    refine .modifyHeap fun heap' hheap' => ?_
    cases hheap.symm.trans hheap'
    rfl
  unfold newHandle acquireRoot
  simp only [Ends.bind_iff, ends_update, ends_look, hkept, ends_note]
  refine connect_reroots.mono ?_ fun _ _ _ => trivial
  rintro _ s' ⟨hidle, hconnected⟩
  refine ⟨rfl, hidle, Reroots.trans (hregistered.aside ?_ ?_ ?_ ?_) hconnected⟩
  exacts [rfl, rfl, rfl, (Trades.retain _ t).objects]

/-- Withdrawing a root costs its heap the root. -/
theorem dropRoot_reroots : Ends (dropRoot g r) s
    (fun _ s' => s.world.Reroots g (Heap.redeem r) s'.world) fun _ _ => True := by
  unfold dropRoot
  rw [Ends.bind_iff, ends_look]
  cases hheap : s.world.heaps[g]? with
  | none => exact .of_none hheap
  | some heap =>
      cases hrelease : heap.roots.release r with
      | error cause =>
          simp only [hrelease]
          trivial
      | ok found =>
          obtain ⟨o, roots⟩ := found
          obtain ⟨-, rfl⟩ := Registry.release_eq_ok_iff.mp hrelease
          have hwithdrawn : s.world.Reroots g (Heap.redeem r) (s.world.modifyHeap g fun heap' =>
              { heap' with
                roots := heap.roots.without r
                counters :=
                  { heap'.counters with rootsReleased := heap'.counters.rootsReleased + 1 } }) := by
            refine .modifyHeap fun heap' hheap' => ?_
            cases hheap.symm.trans hheap'
            rfl
          simp only [hrelease]
          unfold stripRoot
          simp only [Ends.bind_iff, ends_update, ends_note, ends_pass, ends_suspect]
          unfold releaseStrong
          rw [Ends.bind_iff, ends_look]
          split
          next => exact hwithdrawn.aside rfl rfl rfl fun _ => rfl
          next ob _ =>
            split_ifs
            · trivial
            · simp only [Ends.bind_iff, ends_update, ends_note, ends_look]
              have hreleased (u : World) := Trades.modifyObject u o
                (f := fun ob => { ob with strong := ob.strong - 1 }) fun _ => rfl
              split_ifs <;> exact hwithdrawn.aside rfl rfl rfl (hreleased _).objects

end Locked

/-! ## Handles out on loan -/

/-- Apart from tallies, strong counts, holders and the log, `w'` is `w` but for handles that heap `g`
issued since: `handles` are out, and `n` more have been given back. -/
structure World.Lends (w : World) (g : HeapId) (handles : List Handle) (n : Nat) (w' : World) :
    Prop where
  fresh : ∀ a ∈ handles, a.heap = g ∧ (w.registryAt g).next ≤ a.root
  reroots : ∃ f, w.Reroots g f w' ∧ ∀ heap, w.heaps[g]? = some heap →
    heap.Lends (handles.length + n) n (f heap)

namespace World.Lends

variable {w v v' : World} {g : HeapId} {a : Handle} {handles handles' : List Handle} {n : Nat}
  {f : Heap → Heap}

theorem refl (h : ∀ e ∈ w.rootsAt g, e.1 < (w.registryAt g).next) : w.Lends g [] 0 w := by
  refine ⟨by simp, id, ?_, fun heap hheap => .refl ?_⟩
  · exact ⟨rfl, rfl, fun _ => rfl, fun _ => by simp⟩
  · rwa [rootsAt, registryAt, hheap] at h

theorem mirrors (h : w.Lends g handles n v) : w.Mirrors v := by
  obtain ⟨f, hreroots, -⟩ := h.reroots
  exact hreroots.mirrors

theorem perm (h : w.Lends g handles n v) (hperm : handles.Perm handles') : w.Lends g handles' n v :=
  ⟨fun a ha => h.fresh a (hperm.mem_iff.mpr ha), hperm.length_eq ▸ h.reroots⟩

/-- What changes beside roots and what is counted with them. -/
theorem reroots_of (h : w.Lends g handles n v) (hv : v.Reroots g f v') {n' : Nat}
    (hfresh : ∀ a ∈ handles', a.heap = g ∧ (w.registryAt g).next ≤ a.root)
    (hf : ∀ heap heap' : Heap, w.heaps[g]? = some heap → heap.Lends (handles.length + n) n heap' →
      heap.Lends (handles'.length + n') n' (f heap')) : w.Lends g handles' n' v' := by
  obtain ⟨f₀, hreroots, hlends⟩ := h.reroots
  exact ⟨hfresh, f ∘ f₀, hreroots.trans hv, fun heap hheap => hf heap _ hheap (hlends heap hheap)⟩

theorem rehold (h : w.Lends g handles n v) {k : Nat → Nat}
    (hv : v.Reroots g (fun heap => { heap with holders := k heap.holders }) v') :
    w.Lends g handles n v' :=
  h.reroots_of hv h.fresh fun _ _ _ hlends => hlends.rehold k

/-- One of the handles is given back. -/
theorem redeem (h : w.Lends g (a :: handles) n v) (hv : v.Reroots g (Heap.redeem a.root) v') :
    w.Lends g handles (n + 1) v' := by
  refine h.reroots_of hv (fun b hb => h.fresh b (List.mem_cons_of_mem _ hb)) ?_
  intro heap heap' hheap hlends
  have hnext := (h.fresh a List.mem_cons_self).2
  rw [registryAt, hheap] at hnext
  have hlength : (a :: handles).length + n = handles.length + (n + 1) := by
    rw [List.length_cons]
    omega
  exact hlength ▸ hlends.redeem hnext

/-- A new handle is issued. -/
theorem newHandle {s : Session} {t : ObjId} {heap : Heap} (h : w.Lends g handles n s.world)
    (hheap : w.heaps[g]? = some heap) :
    Ends (Locked.newHandle g t) s (fun a s' => s'.unrooted = s.unrooted ∧
      w.Lends g (a :: handles) n s'.world) fun _ _ => True := by
  obtain ⟨f, hreroots, hlends⟩ := h.reroots
  have hheap' : s.world.heaps[g]? = some (f heap) := by
    rw [hreroots.heaps, hheap]
    simp
  refine (Locked.newHandle_reroots hheap').mono ?_ fun _ _ _ => trivial
  rintro _ s' ⟨rfl, hidle, hissued⟩
  refine ⟨hidle, h.reroots_of hissued (List.forall_mem_cons.mpr ⟨⟨rfl, ?_⟩, h.fresh⟩) ?_⟩
  · rw [registryAt, hheap, (hlends heap hheap).next]
    exact Nat.le_add_right _ _
  · intro heap heap' _ hlends
    rw [List.length_cons, Nat.add_right_comm]
    exact hlends.lend t

/-- New handles are issued, one by one. -/
theorem newHandles {s : Session} {ts : List ObjId} {heap : Heap} (h : w.Lends g handles n s.world)
    (hheap : w.heaps[g]? = some heap) :
    Ends (ts.mapM (Locked.newHandle g)) s (fun issued s' => s'.unrooted = s.unrooted ∧
      w.Lends g (issued ++ handles) n s'.world) fun _ _ => True := by
  induction ts generalizing s handles with
  | nil => exact ⟨rfl, h⟩
  | cons t ts ih =>
      rw [List.mapM_cons]
      refine (h.newHandle hheap).bind fun a s' hs => (ih hs.2).bind fun issued s'' hs' => ?_
      exact ⟨hs'.1.trans hs.1, hs'.2.perm List.perm_middle⟩

end World.Lends

/-! ## Sessions that collect nothing -/

/-- With more at hand than in a steady world, nothing that it has is garbage. -/
theorem Session.Settled.lost_eq_nil {w : World} {g : HeapId} {todo : Multiset Task}
    {more held : Multiset Holding} {owed owed' : HeapId → ℤ} {s : Session}
    (h : s.Settled g todo (more + held) owed') (hw : w.Steady todo held owed)
    (hmirrors : w.Mirrors s.world) (hpos : 0 < w.holdersAt g) :
    (s.world.garbage s.unrooted).lost = [] := by
  refine List.eq_nil_iff_forall_not_mem.mpr fun x hx => ?_
  obtain ⟨hlive, hunrooted⟩ :=
    h.sound.candidateIn_iff.mp (candidate_of_garbage (mem_garbage_lost.mp hx).1)
  -- what no handle leads to now, none led to then, and so something else did
  have hcand : w.candidateIn w.tallies x = true := by
    refine (Sound.candidateIn_iff hw).mpr ⟨hmirrors.isLive ▸ hlive, fun a ha hreach => ?_⟩
    refine hunrooted a ?_ (hmirrors.out ▸ hreach)
    rw [hmirrors.ledger, ledger_add_held]
    exact Multiset.mem_add.mpr (.inr ha)
  have hown : w.owns g x = true := hmirrors.owns ▸ h.sound.owns_garbage h.owned hx
  have hexists : w.heapExists g = true := by simpa [heapExists_eq] using hpos
  obtain ⟨y, hy, hycand, hreach⟩ := hw.anchored g x hown hexists hcand
  -- all on the way back is lost, but what is held from outside is not
  have hlost : y ∈ (s.world.garbage s.unrooted).lost := by
    clear hy
    induction hreach using Relation.ReflTransGen.head_induction_on with
    | refl => exact hx
    | head hstep _ ih =>
        obtain ⟨hedge, hnext⟩ := mem_candidateEdges.mp hstep
        rw [← hmirrors.out] at hedge
        exact (h.sound.unheld (ih hnext)).2 _
          (hmirrors.isLive ▸ (World.candidateIn_iff.mp hycand).1) hedge
  apply (h.sound.unheld hlost).1
  rw [hmirrors.outer, outer_add_held]
  exact Multiset.mem_add.mpr (.inr (hy.resolve_left List.not_mem_nil))

section Loans

variable {w v : World} {g : HeapId} {todo : Multiset Task} {more held : Multiset Holding}
  {owed owed' : HeapId → ℤ} {a : Handle} {handles : List Handle} {n : Nat}

/-- Handles that come on top hold their heaps as well. -/
theorem World.Steady.holdersAt_le (hw : w.Steady todo held owed)
    (hv : v.Steady todo (more + held) owed') (hmirrors : w.Mirrors v) (howed : owed g ≤ owed' g) :
    w.holdersAt g ≤ v.holdersAt g := by
  have hroots : (w.rootsAt g).length ≤ (v.rootsAt g).length := by
    rw [← Multiset.coe_card, ← Multiset.coe_card, hw.accounted.roots_eq, hv.accounted.roots_eq,
      hmirrors.ledger, ledger_add_held, Multiset.add_bind, Multiset.card_add]
    exact Nat.le_add_left _ _
  have := hw.attended g
  have := hv.attended g
  omega

namespace World.Lends

/-- Giving a handle back collects nothing: what was not rooted without it was held by something
else. -/
theorem drop (h : w.Lends g (a :: handles) n v) (hw : w.Steady todo held owed)
    (hpos : 0 < w.holdersAt g)
    (hv : v.Steady todo (((a :: handles).map Holding.root : List Holding) + held) owed) :
    ∃ v', a.drop v = .ok () v' ∧
      v'.Steady todo ((handles.map Holding.root : List Holding) + held) owed ∧
      w.Lends g handles (n + 1) v' := by
  obtain rfl : a.heap = g := (h.fresh a List.mem_cons_self).1
  rw [List.map_cons, ← Multiset.cons_coe, Multiset.cons_add] at hv
  have hgiven : v.Steady (.dropHandle a ::ₘ todo) ((handles.map Holding.root : List Holding) + held)
      owed := Sound.give hv
  obtain ⟨_, -, hdrop⟩ := Locked.dropRoot_sheds (hgiven.settled a.heap)
  obtain ⟨_, s, hrun, hsheds, hreroots⟩ :=
    ((hdrop.and Locked.dropRoot_reroots).mono (fun _ _ hs => hs) fun _ _ hf => hf.1).exists_ok
  have hsettled := hsheds.sound.settled
  -- the object may lose its last tag with this root, but what held it before holds it still
  have hlost := hsettled.lost_eq_nil hw (h.redeem hreroots).mirrors hpos
  obtain ⟨log, hlocked, hsteady⟩ := hsettled.ended hrun hlost
  generalize hv₁ : { s.world with log := log } = v₁ at hlocked hsteady
  have hredeemed : w.Lends a.heap handles (n + 1) v₁ :=
    h.redeem (hv₁ ▸ hreroots.aside rfl rfl rfl fun _ => rfl)
  have hheld := hw.holdersAt_le (g := a.heap) hsteady hredeemed.mirrors (by simp)
  have hleft := hsteady.leave (Nat.lt_of_lt_of_le hpos hheld)
  have hreheld := hredeemed.rehold (k := (· - 1)) (Reroots.leave v₁ a.heap)
  refine ⟨v₁.leave a.heap, ?_, by simpa using hleft, hreheld⟩
  have hstep : (Task.dropHandle a).step v = .ok [.leave a.heap] v₁ := by
    simp only [Task.step, hlocked]
    rfl
  rw [Handle.drop, settle_of_step hstep, List.append_nil,
    settle_of_step (show (Task.leave a.heap).step v₁ = .ok [] _ from rfl)]
  exact congrFun settle_nil _

/-- All handles are given back. -/
theorem dropAll (h : w.Lends g handles n v) (hw : w.Steady todo held owed)
    (hpos : handles ≠ [] → 0 < w.holdersAt g)
    (hv : v.Steady todo ((handles.map Holding.root : List Holding) + held) owed) :
    ∃ v', handles.forM Handle.drop v = .ok () v' ∧ v'.Steady todo held owed ∧
      w.Lends g [] (handles.length + n) v' := by
  -- each drop is judged against `w`, where none of the handles was out
  induction handles generalizing v n with
  | nil => exact ⟨v, rfl, by simpa using hv, by simpa using h⟩
  | cons a handles ih =>
      have hpos := hpos (List.cons_ne_nil a handles)
      obtain ⟨v₁, hdrop, hsteady, hlends⟩ := h.drop hw hpos hv
      obtain ⟨v', hdrops, hended, hreturned⟩ := ih hlends (fun _ => hpos) hsteady
      refine ⟨v', ?_, hended, ?_⟩
      · exact (bind_of_ok hdrop).trans hdrops
      · rwa [List.length_cons, Nat.add_right_comm]

/-- Once all handles are back, the roots are as they were, in their order. -/
theorem rootsAt_eq (h : w.Lends g [] n v) (hw : w.Steady todo held owed)
    (hv : v.Steady todo held owed) (g' : HeapId) : v.rootsAt g' = w.rootsAt g' := by
  have hperm : (v.rootsAt g').Perm (w.rootsAt g') := Multiset.coe_eq_coe.mp <| by
    rw [hv.accounted.roots_eq, hw.accounted.roots_eq, h.mirrors.ledger]
  obtain ⟨f, hreroots, hlends⟩ := h.reroots
  have hheap' := hreroots.heaps g'
  by_cases hg : g' = g
  · subst hg
    cases hheap : w.heaps[g']? with
    | none => simp [rootsAt, registryAt, hheap', hheap]
    | some heap =>
        have hactive := (hlends heap hheap).active
        have hold : ∀ e ∈ v.rootsAt g', e.1 < heap.roots.next := by
          intro e he
          have hlt := hw.accounted.roots_lt g' e (hperm.mem_iff.mp he)
          rwa [registryAt, hheap] at hlt
        rw [hheap, Option.map_some, if_pos rfl] at hheap'
        simp only [rootsAt, registryAt, hheap, hheap'] at hold ⊢
        rwa [List.filter_eq_self.mpr fun e he => decide_eq_true (hold e he)] at hactive
  · have hsame : v.heaps[g']? = w.heaps[g']? := by
      rw [hheap']
      simp [hg]
    rw [rootsAt, rootsAt, registryAt, registryAt, hsame]

/-- Once all handles are back, the world is as it was. -/
theorem returned (h : w.Lends g [] n v) (hw : w.Steady todo held owed)
    (hv : v.Steady todo held owed) :
    v = { w.modifyHeap g (Heap.served n) with log := v.log } := by
  -- in a steady world holders, tallies and strong counts follow from roots and slots
  have hroots := h.rootsAt_eq hw hv
  have hholders (g' : HeapId) : v.holdersAt g' = w.holdersAt g' := by
    have := hw.attended g'
    have := hv.attended g'
    rw [hroots] at this
    omega
  obtain ⟨f, hreroots, hlends⟩ := h.reroots
  have hheaps : v.heaps = (w.modifyHeap g (Heap.served n)).heaps := by
    refine Array.ext_getElem? fun g' => ?_
    rw [hreroots.heaps, heaps_modifyHeap]
    refine Option.map_congr fun heap hheap => ?_
    split
    next hg =>
      subst hg
      have hheap' : v.heaps[g']? = some (f heap) := by
        rw [hreroots.heaps, hheap]
        simp
      have hactive := hroots g'
      have hheld := hholders g'
      simp only [rootsAt, registryAt, holdersAt, hheap, hheap'] at hactive hheld
      have hcounted := hlends heap hheap
      rw [List.length_nil, Nat.zero_add] at hcounted
      exact hcounted.eq_served hactive hheld
    next => rfl
  obtain ⟨htallies, hstrong⟩ := hw.counts_eq_of_roots hv h.mirrors (funext hroots)
  have hobjects : v.objects = w.objects := by
    refine Array.ext_getElem? fun o => ?_
    have hbody := hreroots.objects o
    have hcount := congrFun hstrong.symm o
    unfold strongAt at hcount
    cases hob : w.objects[o]? with
    | none => simpa [hob] using hbody
    | some ob =>
        rw [hob] at hbody
        obtain ⟨ob', hob', hsame⟩ := Option.map_eq_some_iff.mp hbody
        rw [hob, hob'] at hcount
        rw [hob', Object.ext_body hsame hcount]
  show World.mk v.heaps v.objects v.tallies v.slots v.log v.dropped = _
  rw [hheaps, hobjects, ← htallies, hreroots.slots, hreroots.dropped]
  rfl

/-- Handles that were issued come to hold their heap. -/
theorem deliver {issued : List Handle} (h : w.Lends g handles n v)
    (hissued : ∀ a ∈ issued, a.heap = g) (hpos : 0 < v.holdersAt g)
    (hv : v.Steady todo held fun g' => owed g' - (issued.map Handle.heap).count g') :
    ∃ v', Receipt.deliver { handles := issued } v = .ok () v' ∧ v'.Steady todo held owed ∧
      w.Lends g handles n v' := by
  unfold Receipt.deliver
  induction issued generalizing v with
  | nil => exact ⟨v, rfl, by simpa using hv, h⟩
  | cons a issued ih =>
      obtain ⟨rfl, hissued⟩ := List.forall_mem_cons.mp hissued
      have hentered := hv.enter hpos
      have howed : (fun g' => owed g' - ((a :: issued).map Handle.heap).count g' +
          if g' = a.heap then 1 else 0) =
            fun g' => owed g' - (issued.map Handle.heap).count g' := by
        funext g'
        rw [Handle.count_heaps_cons, sub_add_eq_sub_sub, sub_add_cancel]
      rw [howed] at hentered
      have hpos' : 0 < (v.enter a.heap).holdersAt a.heap := by
        show 0 < (v.rehold a.heap (· + 1)).holdersAt a.heap
        rw [holdersAt_rehold a.heap hpos, if_pos rfl]
        exact Nat.succ_pos _
      exact ih (h.rehold (k := (· + 1)) (.modifyHeap fun _ _ => rfl)) hissued hpos' hentered

end World.Lends

end Loans

/-! ## Calls that take handles -/

/-- The call takes handles, and leaves everything else as it is. -/
def Call.Takes : Call → Prop
  | clone _ | getField .. | getItem .. | items .. | upgrade _ => True
  | _ => False

/-- The handle that a holding is. -/
def Holding.handle? : Holding → Option Handle
  | .root a => some a
  | .slot _ | .weak _ => none

/-- The handles that a call returned. -/
def Receipt.roots (r : Receipt) : List Handle := r.handles ++ r.others.filterMap Holding.handle?

/-- A session that issues handles, and suspects nothing. -/
def Locked.Lends {α : Type} (g : HeapId) (give : α → List Handle) (op : Locked α) : Prop :=
  ∀ ⦃w : World⦄ ⦃handles : List Handle⦄ ⦃n : Nat⦄ ⦃heap : Heap⦄ (s : Session),
    w.heaps[g]? = some heap → w.Lends g handles n s.world →
      Ends op s (fun x s' => s'.unrooted = s.unrooted ∧ w.Lends g (give x ++ handles) n s'.world)
        fun _ _ => True

section Takes

variable {α : Type} {g : HeapId} {give : α → List Handle} {op : Locked α}

theorem Locked.newHandle_lends (g : HeapId) (t : ObjId) :
    Locked.Lends g (fun a => [a]) (newHandle g t) :=
  fun _ _ _ _ _ hheap hlends => hlends.newHandle hheap

theorem Locked.newHandles_lend (g : HeapId) (ts : List ObjId) :
    Locked.Lends g id (ts.mapM (newHandle g)) :=
  fun _ _ _ _ _ hheap hlends => hlends.newHandles hheap

/-- A handle to what is found, if anything is. -/
theorem Locked.found_lends (g : HeapId) (look : World → Option ObjId) :
    Locked.Lends g Option.toList (do
      match ← Locked.look look with
      | none => pure none
      | some o => some <$> newHandle g o) := by
  intro w handles n heap s hheap hlends
  rw [Ends.bind_iff, ends_look]
  cases look s.world with
  | none => exact ⟨rfl, hlends⟩
  | some o => exact Ends.map_iff.mpr (hlends.newHandle hheap)

theorem WeakRef.claim_lends (g : HeapId) (o : ObjId) :
    Locked.Lends g Option.toList (WeakRef.claim g o) := by
  intro w handles n heap s hheap hlends
  unfold WeakRef.claim
  rw [Ends.bind_iff, Locked.ends_look]
  split_ifs
  · exact Ends.map_iff.mpr (hlends.newHandle hheap)
  · exact ⟨rfl, hlends⟩

/-- Such a session leaves nothing to be done. -/
theorem Locked.Lends.locked (hop : op.Lends g give) {w v v' : World} {heap : Heap} {x : α}
    {dead : List ObjId} (hheap : w.heaps[g]? = some heap) (hlends : w.Lends g [] 0 v)
    (hlocked : locked g op v = .ok (x, dead) v') : dead = [] ∧ w.Lends g (give x) 0 v' := by
  have hends := hop ⟨v, []⟩ hheap hlends
  unfold RootedHeap.locked at hlocked
  split at hlocked
  next => cases hlocked
  next x' s hrun =>
    obtain ⟨hunrooted, hlent⟩ := hends.of_ok hrun
    rw [List.append_nil] at hlent
    rw [reclaim, if_pos (List.isEmpty_iff.mpr hunrooted)] at hlocked
    cases hlocked
    exact ⟨rfl, hlent⟩

end Takes

namespace Call

variable {c : Client}

/-- What a call comes to that takes handles: they are out, and the client holds them. -/
def Lends (call : Call) (c : Client) : Prop :=
  ∀ r w, call.run c.world = .ok r w → ∃ g, (r.roots ≠ [] → 0 < c.world.holdersAt g) ∧
    c.world.Lends g r.roots 0 w ∧
    w.Steady c.todo ((r.roots.map Holding.root : List Holding) + c.holds)
      (dues c.todo c.heaps c.incoming)

/-- A session that issues handles. -/
theorem lends_of_session {α : Type} {g : HeapId} {call : Call} {op : Locked α}
    {handles : α → List Handle} (h : c.Orderly) (hallowed : call.Allowed c)
    (hhome : call.home = some g) (hstart : call.start = session g op fun x => { handles := handles x })
    (hspends : call.spends = []) (hleaves : call.leaves = []) (hop : op.Lends g handles) :
    call.Lends c := by
  intro r w hrun
  have hknows := hallowed.knows hhome
  obtain ⟨heap, hheap⟩ := h.exists_heap hknows
  cases hlocked : locked g op c.world with
  | error f w₁ =>
      have hrefused : call.start c.world = .error f w₁ := by
        rw [hstart]
        exact bind_of_error hlocked
      rw [run_of_refusal hrefused] at hrun
      cases hrun
  | ok p w₁ =>
      obtain ⟨x, dead⟩ := p
      obtain ⟨rfl, hlent⟩ := hop.locked hheap (.refl (h.steady.accounted.roots_lt g)) hlocked
      have hsession : call.start c.world = .ok ({ handles := handles x }, []) w₁ := by
        rw [hstart]
        exact bind_of_ok hlocked
      have horderly := ((begins h hallowed).of_ok hsession).orderly
      rw [hspends, hleaves, Multiset.coe_nil, Multiset.coe_nil, tsub_zero, tsub_zero, zero_add,
        zero_add, List.nil_append] at horderly
      have hpos : 0 < w₁.holdersAt g :=
        Client.Orderly.holdersAt_pos (c := ⟨w₁, c.held, c.heaps, c.todo, handles x ++ c.incoming⟩)
          horderly (hknows.mono (le_refl _) (le_refl _) fun _ _ => congrFun hlent.mirrors.valueAt _)
      -- the handles are not delivered yet, and until then their heap is owed to them
      have hsteady : w₁.Steady c.todo (((handles x).map Holding.root : List Holding) + c.holds)
          (fun g' => dues c.todo c.heaps c.incoming g' - ((handles x).map Handle.heap).count g') := by
        have hdues := dues_yielded g [] c.todo c.heaps (handles x) c.incoming
        simp only [Task.finalizing, List.map_nil, List.append_nil, Multiset.coe_nil, zero_add] at hdues
        unfold World.Orderly at horderly
        rw [hdues, List.map_append, ← Multiset.coe_add, add_assoc] at horderly
        exact horderly
      obtain ⟨w', hdeliver, hdelivered, hlent'⟩ :=
        hlent.deliver (fun a ha => (hlent.fresh a ha).1) hpos hsteady
      have hfinish : call.run c.world = .ok { handles := handles x } w' := by
        refine run_of_start hsession (finish_of_settle ?_ hdeliver)
        exact congrFun settle_nil w₁
      obtain ⟨rfl, rfl⟩ := EStateM.Result.ok.inj (hrun.symm.trans hfinish)
      have hroots : Receipt.roots { handles := handles x } = handles x := List.append_nil _
      refine ⟨g, fun _ => h.holdersAt_pos hknows, ?_⟩
      rw [hroots]
      exact ⟨hlent', hdelivered⟩

/-- An upgrade holds the heap while it claims the target; the handle takes the hold over. -/
theorem upgrade_lends {x : WeakRef} (h : c.Orderly) : (upgrade x).Lends c := by
  intro r w hrun
  obtain ⟨-, hnone, -⟩ | ⟨o, ob, rfl, hob, hexists⟩ := upgrade_cases x c.world
  · obtain ⟨rfl, rfl⟩ := EStateM.Result.ok.inj (hrun.symm.trans (run_upgrade hnone))
    refine ⟨0, fun hne => absurd rfl hne, .refl (h.steady.accounted.roots_lt 0), ?_⟩
    simpa [Receipt.roots] using h.steady
  · have hpos : 0 < c.world.holdersAt ob.heap := by simpa [heapExists_eq] using hexists
    obtain ⟨heap, hheap⟩ := h.steady.guarded.heap_some ob.heap o (owns_iff.mpr ⟨ob, hob, rfl⟩)
    have hentered : c.world.Lends ob.heap [] 0 (c.world.enter ob.heap) :=
      (World.Lends.refl (h.steady.accounted.roots_lt ob.heap)).rehold (k := (· + 1))
        (.modifyHeap fun _ _ => rfl)
    obtain ⟨found, dead, w₁, -, hlocked, -, hsteady, -⟩ := Call.claim_ends h hob hexists
    obtain ⟨rfl, hlent⟩ := (WeakRef.claim_lends ob.heap o).locked hheap hentered hlocked
    obtain ⟨rfl, rfl⟩ := EStateM.Result.ok.inj
      (hrun.symm.trans (run_upgrade (Client.upgrade_of_claim hob hexists hlocked)))
    have hnone : (Task.finalizing ob.heap [] : Multiset Task) + c.todo = c.todo := zero_add _
    rw [hnone] at hsteady
    refine ⟨ob.heap, fun _ => hpos, ?_⟩
    cases found with
    | some a =>
        have howed : (fun g => dues c.todo c.heaps c.incoming g +
            (if g = ob.heap then 1 else 0) - (([a].map Handle.heap).count g : ℤ)) =
              dues c.todo c.heaps c.incoming := by
          have hheap : a.heap = ob.heap := (hlent.fresh a (List.mem_singleton_self a)).1
          funext g
          rw [Handle.count_heaps_cons, hheap]
          simp
        exact ⟨hlent, howed ▸ hsteady⟩
    | none =>
        have hreheld := hlent.rehold (k := (· - 1)) (.leave w₁ ob.heap)
        have hheld := h.steady.holdersAt_le (g := ob.heap) hsteady hlent.mirrors (by simp)
        have hleft := hsteady.leave (Nat.lt_of_lt_of_le hpos hheld)
        exact ⟨hreheld, by simpa [Receipt.roots] using hleft⟩

theorem lends {call : Call} (h : c.Orderly) (htakes : call.Takes) (hallowed : call.Allowed c) :
    call.Lends c := by
  cases call with
  | clone a =>
      exact lends_of_session h hallowed rfl rfl rfl rfl
        (Locked.newHandle_lends a.heap a.obj)
  | getField a s =>
      exact lends_of_session h hallowed rfl rfl rfl rfl
        (Locked.found_lends a.heap (·.fieldAt s))
  | getItem a s index =>
      exact lends_of_session h hallowed rfl rfl rfl rfl
        (Locked.found_lends a.heap fun w => (w.itemsAt s)[index]?)
  | items a s =>
      have hop : Locked.Lends a.heap id (a.readItems s) :=
        fun _ _ _ _ u => Locked.newHandles_lend a.heap (u.world.itemsAt s) u
      exact lends_of_session h hallowed rfl rfl rfl rfl hop
  | upgrade x => exact upgrade_lends h
  | _ => exact htakes.elim

end Call

namespace Client

variable {c : Client}

/-- Whatever a client has done, and whatever is under way: once the handles that a call took are
dropped again, in any order, the world is as it was, with all tallies, counts, slots, roots and states,
and nothing was collected; only the heap's next root number and three of its counters went on, and
the log. It does not matter whether roots led to the objects before. -/
theorem Reached.take_neutral {call : Call} {r : Receipt} {w : World} {handles : List Handle}
    (h : c.Reached) (htakes : call.Takes) (hallowed : call.Allowed c)
    (hrun : call.run c.world = .ok r w) (hperm : handles.Perm r.roots) :
    ∃ g log, (∀ a ∈ handles, a.heap = g) ∧ handles.forM Handle.drop w =
      .ok () { c.world.modifyHeap g (Heap.served handles.length) with log := log } := by
  have horderly := h.sound.orderly
  obtain ⟨g, hpos, hlends, hsteady⟩ := Call.lends horderly htakes hallowed r w hrun
  have hlent := hlends.perm hperm.symm
  have hheld : w.Steady c.todo ((handles.map Holding.root : List Holding) + c.holds)
      (dues c.todo c.heaps c.incoming) := by
    rwa [Multiset.coe_eq_coe.mpr (hperm.map Holding.root)]
  have hpos' : handles ≠ [] → 0 < c.world.holdersAt g := fun hne =>
    hpos fun hnil => hne (hnil ▸ hperm).eq_nil
  obtain ⟨v, hdrops, hended, hback⟩ := hlent.dropAll horderly.steady hpos' hheld
  have hsame := hback.returned horderly.steady hended
  rw [Nat.add_zero] at hsame
  exact ⟨g, v.log, fun a ha => (hlent.fresh a ha).1, hdrops.trans (congrArg _ hsame)⟩

/-- The handles that the client gets from a call. -/
def obtains (c : Client) (call : Call) : List Handle :=
  match call.run c.world with
  | .ok r _ => r.roots
  | .error .. => []

/-- An object that only a field outside any object holds is taken through a weak reference, and left
alone again. -/
theorem shelved_take_neutral : shelved.world.isLive 0 = true ∧
    shelved.world.tallies.isEmptyAt 0 = true ∧ ∃ r w log,
      (Call.upgrade ⟨some 0⟩).run shelved.world = .ok r w ∧ r.roots = [⟨0, 2, 0⟩] ∧
        r.roots.forM Handle.drop w =
          .ok () { shelved.world.modifyHeap 0 (Heap.served 1) with log := log } := by
  have hheld : shelved.held = {.slot 0, .weak 0} := by cbv
  have hallowed : (Call.upgrade ⟨some 0⟩).Allowed shelved := by
    rintro o ⟨⟩
    exact .held (by simp [hheld])
  have htakes : (Call.upgrade ⟨some 0⟩).Takes := trivial
  have hroots : shelved.obtains (.upgrade ⟨some 0⟩) = [⟨0, 2, 0⟩] := by cbv
  unfold obtains at hroots
  cases hrun : (Call.upgrade ⟨some 0⟩).run shelved.world with
  | error f w =>
      rw [hrun] at hroots
      cases hroots
  | ok r w =>
      have hissued : r.roots = [⟨0, 2, 0⟩] := by
        rw [hrun] at hroots
        exact hroots
      have hlength : r.roots.length = 1 := congrArg List.length hissued
      obtain ⟨g, log, hheap, hdrops⟩ :=
        shelved_reached.1.take_neutral htakes hallowed hrun (.refl r.roots)
      obtain rfl := hheap ⟨0, 2, 0⟩ (by simp [hissued])
      rw [hlength] at hdrops
      exact ⟨by cbv, by cbv, r, w, log, rfl, hissued, hdrops⟩

end Client

end RootedHeap
