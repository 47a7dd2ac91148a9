import RootedHeap.Proofs.Bookkeeping
import RootedHeap.Proofs.Confluence
import RootedHeap.Proofs.Shedding

/-! # Worlds in lockstep

Two clients that hold the same handles, but for the numbers of their roots, in worlds with the same
objects and slots (`Client.Mirrors`). What either gives up next makes the same garbage in both worlds,
in the same order, so that they carry out the same tasks and come to such worlds again
(`Client.Mirrors.settle`). What became of each object, and how much was collected, stays the same all
along (`World.Peers`). Nothing but roots, and what is counted about passes, tells them apart in the
end.
-/

namespace RootedHeap

open World

/-- What is held, without the numbers of roots. -/
def Holding.unnumbered : Holding → Holding
  | .slot s => .slot s
  | .weak target => .weak target
  | .root a => .root { a with root := 0 }

theorem Holding.targets_unnumbered (w : World) (x : Holding) :
    x.unnumbered.targets w = x.targets w := by
  cases x <;> rfl

theorem Holding.card_entries_unnumbered (g : HeapId) (x : Holding) :
    (x.unnumbered.entries g).card = (x.entries g).card := by
  cases x with
  | slot | weak => rfl
  | root a => by_cases hg : a.heap = g <;> simp [Holding.unnumbered, Holding.entries, hg]

theorem Holding.exists_root_map_unnumbered {m : Multiset Holding} {P : ObjId → HeapId → Prop} :
    (∃ a, .root a ∈ m.map Holding.unnumbered ∧ P a.obj a.heap) ↔
      ∃ a, .root a ∈ m ∧ P a.obj a.heap := by
  constructor
  · rintro ⟨a, ha, hP⟩
    obtain ⟨x, hx, hxa⟩ := Multiset.mem_map.mp ha
    cases x with
    | slot | weak => cases hxa
    | root b =>
        cases hxa
        exact ⟨b, hx, hP⟩
  · rintro ⟨a, ha, hP⟩
    exact ⟨{ a with root := 0 }, Multiset.mem_map.mpr ⟨_, ha, rfl⟩, hP⟩

namespace World

/-- Objects differ in their strong counts at most, and heaps in their roots and holders and in what is
counted about passes. -/
structure Peers (w w' : World) : Prop where
  objects : ∀ o : ObjId, w'.objects[o]?.map Object.body = w.objects[o]?.map Object.body
  heaps : ∀ g : HeapId, w'.heaps[g]?.map Heap.stock = w.heaps[g]?.map Heap.stock

namespace Peers

variable {w w' w'' : World}

theorem symm (h : w.Peers w') : w'.Peers w := ⟨fun o => (h.objects o).symm, fun g => (h.heaps g).symm⟩

theorem trans (h : w.Peers w') (h' : w'.Peers w'') : w.Peers w'' :=
  ⟨fun o => (h'.objects o).trans (h.objects o), fun g => (h'.heaps g).trans (h.heaps g)⟩

theorem of_trades (h : w.Trades w') : w.Peers w' := by
  refine ⟨h.objects, fun g => ?_⟩
  cases hheap : w.heaps[g]? with
  | none =>
      have hle := Array.getElem?_eq_none_iff.mp hheap
      rw [Array.getElem?_eq_none (h.size ▸ hle)]
  | some heap =>
      obtain ⟨heap', hheap', htrades⟩ := h.exists_heap hheap
      rw [hheap', Option.map_some, Option.map_some, htrades.stock]

/-- A session that reclaims nothing, when it is over. -/
theorem of_ended {s : Session} {log : Array Event} (h : w.Trades s.world)
    (hended : w' = { s.world with log := log }) : w.Peers w' := by
  subst hended
  exact ⟨(of_trades h).objects, (of_trades h).heaps⟩

theorem trades {v v' : World} (h : w.Peers w') (hv : w.Trades v) (hv' : w'.Trades v') :
    v.Peers v' :=
  ((of_trades hv).symm.trans h).trans (of_trades hv')

theorem object_eq (h : w.Peers w') {o : ObjId} {ob : Object} (hob : w.objects[o]? = some ob) :
    ∃ ob', w'.objects[o]? = some ob' ∧ ob'.body = ob.body := by
  have hobject := h.objects o
  rw [hob] at hobject
  exact Option.map_eq_some_iff.mp hobject

theorem modifyObject (h : w.Peers w') (o : ObjId) {f : Object → Object}
    (hf : ∀ ob, (f ob).body = (f ob.body).body) :
    (w.modifyObject o f).Peers (w'.modifyObject o f) := by
  refine ⟨fun p => ?_, h.heaps⟩
  have hbody (ob : Option Object) :
      (ob.map f).map Object.body = (ob.map Object.body).map fun ob => (f ob).body := by
    rw [Option.map_map, Option.map_map]
    exact congrFun (congrArg _ (funext hf)) ob
  simp only [World.modifyObject, Array.getElem?_modify]
  split
  · rw [hbody, hbody, h.objects]
  · exact h.objects p

/-- Heaps that condemn the same objects. -/
theorem condemns {v v' : World} {g : HeapId} {dead : List ObjId} (h : w.Peers w')
    (hcondemns : w.Condemns g dead v) (hcondemns' : w'.Condemns g dead v') : v.Peers v' := by
  have hbody (ob : Option Object) (o : ObjId) :
      (ob.map fun ob => if o ∈ dead then { ob with state := .collecting } else ob).map Object.body =
        (ob.map Object.body).map fun ob =>
          if o ∈ dead then { ob with state := .collecting } else ob := by
    cases ob with
    | none => rfl
    | some ob => by_cases ho : o ∈ dead <;> simp [ho, Object.body]
  have hstock {w v : World} (hcondemns : w.Condemns g dead v) (g' : HeapId) :
      v.heaps[g']?.map Heap.stock = (w.heaps[g']?.map Heap.stock).map fun f =>
        (f.1, f.2.1 - (if g' = g then dead.length else 0), f.2.2.1,
          f.2.2.2 + if g' = g then dead.length else 0) := by
    cases hheap : w.heaps[g']? with
    | none =>
        have hle := Array.getElem?_eq_none_iff.mp hheap
        rw [Array.getElem?_eq_none (hcondemns.size ▸ hle)]
        rfl
    | some heap =>
        have hlt := (Array.getElem?_eq_some_iff.mp hheap).1
        have hheap' := Array.getElem?_eq_getElem (hcondemns.size ▸ hlt : g' < v.heaps.size)
        have hloses := hcondemns.heaps g' _ _ hheap hheap'
        rw [hheap']
        simp [Heap.stock, hloses.config, hloses.live, hloses.collected, hloses.allocations]
  refine ⟨fun o => ?_, fun g' => ?_⟩
  · rw [hcondemns.object, hcondemns'.object, hbody, hbody, h.objects]
  · rw [hstock hcondemns, hstock hcondemns', h.heaps]

/-- A collected object is put away alike, if as much refers to it. -/
theorem retire (h : w.Peers w') (hstrong : w'.strongAt = w.strongAt) (g : HeapId) (o : ObjId) :
    (w.retire g o).Peers (w'.retire g o) := by
  have hheap := h.heaps g
  have hobject := h.objects o
  have hcount := congrFun hstrong o
  unfold strongAt at hcount
  unfold World.retire
  cases hg : w.heaps[g]? with
  | none =>
      rw [hg, Option.map_none, Option.map_eq_none_iff] at hheap
      rw [hheap]
      exact h
  | some heap =>
      rw [hg, Option.map_some, Option.map_eq_some_iff] at hheap
      obtain ⟨heap', hg', hstock⟩ := hheap
      cases ho : w.objects[o]? with
      | none =>
          rw [ho, Option.map_none, Option.map_eq_none_iff] at hobject
          rw [hg', hobject]
          exact h
      | some ob =>
          obtain ⟨ob', ho', -⟩ := h.object_eq ho
          rw [ho, ho'] at hcount
          have hconfig : heap'.config = heap.config := congrArg Prod.fst hstock
          simp only [hg', ho', hconfig, hcount]
          have hnoted (e e' : Event) : (w.note e).Peers (w'.note e') := ⟨h.objects, h.heaps⟩
          split_ifs
          · exact (hnoted _ _).modifyObject o fun _ => rfl
          · exact h.modifyObject o fun _ => rfl
          · exact h.modifyObject o fun _ => rfl

theorem collectedAt_eq (h : w.Peers w') : w.collectedAt = w'.collectedAt := by
  funext g
  have hcollected := congrArg (Option.map fun f => f.2.2.2) (h.heaps g)
  rw [Option.map_map, Option.map_map] at hcollected
  unfold collectedAt
  cases hheap : w.heaps[g]? <;> cases hheap' : w'.heaps[g]? <;>
    simp_all [Heap.stock]

end Peers

namespace Mirrors

variable {w w' : World} {g : HeapId} {t : ObjId} {todo : Multiset Task} {held held' : Multiset Holding}
  {dead dead' : List ObjId} (h : w.Mirrors w')
  (hheld : held'.map Holding.unnumbered = held.map Holding.unnumbered)

include h

theorem writeSlot (s : SlotId) (content : Slot) :
    (w.writeSlot s content).Mirrors (w'.writeSlot s content) :=
  ⟨congrArg (·.setIfInBounds s content) h.slots, h.size, h.objects⟩

include hheld

theorem ledger_unnumbered :
    (w'.ledger todo held').map Holding.unnumbered = (w.ledger todo held).map Holding.unnumbered := by
  have hsplit (w : World) (held : Multiset Holding) : w.ledger todo held = held + w.ledger todo 0 := by
    rw [← ledger_add_held, add_zero]
  rw [hsplit w', hsplit w, h.ledger, Multiset.map_add, Multiset.map_add, hheld]

theorem refs_eq : w'.refs todo held' = w.refs todo held := by
  have hbind (m : Multiset Holding) :
      m.bind (Holding.targets w) = (m.map Holding.unnumbered).bind (Holding.targets w) := by
    rw [Multiset.bind_map]
    exact Multiset.bind_congr fun x _ => (Holding.targets_unnumbered w x).symm
  rw [World.refs, World.refs, h.targets, hbind, h.ledger_unnumbered hheld, ← hbind]

theorem exists_root_iff {P : ObjId → HeapId → Prop} :
    (∃ a, .root a ∈ w'.ledger todo held' ∧ P a.obj a.heap) ↔
      ∃ a, .root a ∈ w.ledger todo held ∧ P a.obj a.heap := by
  rw [← Holding.exists_root_map_unnumbered, h.ledger_unnumbered hheld,
    Holding.exists_root_map_unnumbered]

theorem card_entries_eq (g : HeapId) :
    ((w'.ledger todo held').bind (Holding.entries g)).card =
      ((w.ledger todo held).bind (Holding.entries g)).card := by
  have hcard (m : Multiset Holding) : (m.bind (Holding.entries g)).card =
      ((m.map Holding.unnumbered).bind (Holding.entries g)).card := by
    rw [Multiset.bind_map, Multiset.card_bind, Multiset.card_bind]
    refine congrArg Multiset.sum (Multiset.map_congr rfl fun x _ => ?_)
    exact (Holding.card_entries_unnumbered g x).symm
  rw [hcard, h.ledger_unnumbered hheld, ← hcard]

/-- The same is garbage in both worlds. -/
theorem forfeits_eq (hdead : w.Forfeits todo held t dead) (hdead' : w'.Forfeits todo held' t dead') :
    dead' = dead := by
  obtain ⟨candidate, hcandidate, rfl⟩ := hdead
  obtain ⟨candidate', hcandidate', rfl⟩ := hdead'
  have hsame : candidate' = candidate := by
    funext o
    rw [Bool.eq_iff_iff, hcandidate, hcandidate', h.isLive, h.out]
    refine and_congr_right fun _ => ?_
    have hroots : (∃ a, .root a ∈ w'.ledger todo held' ∧ Reach w.out a.obj o) ↔
        ∃ a, .root a ∈ w.ledger todo held ∧ Reach w.out a.obj o :=
      h.exists_root_iff hheld (P := fun x _ => Reach w.out x o)
    simpa using not_congr hroots
  rw [hsame, h.size, h.out, h.refs_eq hheld]

end Mirrors

end World

/-- Sessions that give references to the same object up, in worlds with the same objects. -/
theorem Locked.locked_mirrors {g : HeapId} {w w' v v' : World} {op op' : Locked Unit} {t : ObjId}
    {todo : Multiset Task} {held held' : Multiset Holding} {owed owed' : HeapId → ℤ}
    {r r' : Option Fault} (hpeers : w.Peers w') (hscreens : Screens r op ⟨w, []⟩)
    (hscreens' : Screens r' op' ⟨w', []⟩)
    (hop : Ends op ⟨w, []⟩ (fun _ s => s.Sheds g v t [] todo held owed) fun _ _ => False)
    (hop' : Ends op' ⟨w', []⟩ (fun _ s => s.Sheds g v' t [] todo held' owed') fun _ _ => False)
    (ht : v.isLive t = true) (hmirrors : v.Mirrors v')
    (hheld : held'.map Holding.unnumbered = held.map Holding.unnumbered) :
    ∃ dead u u', locked g op w = .ok ((), dead) u ∧ locked g op' w' = .ok ((), dead) u' ∧
      u.Steady (Task.finalizing g dead + todo) held owed ∧
      u'.Steady (Task.finalizing g dead + todo) held' owed' ∧ u.Mirrors u' ∧ u.Peers u' ∧
      u.valueAt = v.valueAt := by
  obtain ⟨dead, u, hlocked, hsteady, halike, hforfeits⟩ := locked_sheds hop ht
  obtain ⟨dead', u', hlocked', hsteady', halike', hforfeits'⟩ :=
    locked_sheds hop' (hmirrors.isLive ▸ ht)
  obtain rfl := hmirrors.forfeits_eq hheld hforfeits hforfeits'
  obtain ⟨-, w₁, htrades, hcondemns⟩ := (locked_condemns hscreens).of_ok hlocked
  obtain ⟨-, w₁', htrades', hcondemns'⟩ := (locked_condemns hscreens').of_ok hlocked'
  refine ⟨dead', u, u', hlocked, hlocked', hsteady, hsteady', ?_, ?_, ?_⟩
  · exact (halike.mirrors.symm.trans (hmirrors.collect g dead')).trans halike'.mirrors
  · exact (hpeers.trades htrades htrades').condemns hcondemns hcondemns'
  · rw [halike.valueAt, valueAt_collect]

section Release

variable {w : World} {o : ObjId} {todo : Multiset Task} {held : Multiset Holding}
  {owed : HeapId → ℤ} (h : w.Steady (.release o ::ₘ todo) held owed)

include h

theorem World.Steady.exists_of_release : ∃ ob, w.objects[o]? = some ob ∧ ob.strong ≠ 0 := by
  have hpos : 0 < w.strongAt o := by
    rw [h.accounted.strong_eq, refs_cons_release, Multiset.count_cons_self]
    exact Nat.succ_pos _
  unfold strongAt at hpos
  cases hob : w.objects[o]? with
  | none => simp [hob] at hpos
  | some ob =>
      rw [hob] at hpos
      exact ⟨ob, rfl, Nat.ne_of_gt hpos⟩

/-- A dropped slot gives a reference up. -/
theorem Locked.release_sheds {g : HeapId} (hown : w.owns g o = true)
    (hexists : w.heapExists g = true) :
    Ends (releaseStrong o) ⟨w.enter g, []⟩ (fun _ s => s.Sheds g (w.enter g) o [] todo held
      fun g' => owed g' + if g' = g then 1 else 0) fun _ _ => False := by
  have hpos : 0 < w.holdersAt g := by simpa [heapExists_eq] using hexists
  have hentered := Steady.settled (h.enter hpos) g
  refine (releaseStrong_ends hentered hown).mono ?_ fun _ _ hf => hf
  exact fun _ _ hs => ⟨hs.1, hs.2 [] (by simp [Session.Below])⟩

end Release

/-! ## Clients in lockstep -/

/-- The clients hold the same, but for the numbers of roots, and are to carry out the same tasks, in
worlds with the same objects and slots. The second may own more of the heaps that the first knows. -/
structure Client.Mirrors (c c' : Client) : Prop where
  left : c.Sound
  right : c'.Sound
  worlds : c.world.Mirrors c'.world
  peers : c.world.Peers c'.world
  held : c'.held.map Holding.unnumbered = c.held.map Holding.unnumbered
  heaps : c.heaps ⊆ c'.heaps
  known : ∀ g ∈ c'.heaps, c.Knows g
  todo : c'.todo = c.todo
  incoming : c'.incoming = c.incoming

namespace Client.Mirrors

variable {c c' : Client}

theorem holds (h : c.Mirrors c') :
    c'.holds.map Holding.unnumbered = c.holds.map Holding.unnumbered := by
  rw [Client.holds, Client.holds, Multiset.map_add, Multiset.map_add, h.held, h.incoming]

/-- As much refers to each object. -/
theorem strongAt_eq (h : c.Mirrors c') : c'.world.strongAt = c.world.strongAt := by
  funext o
  rw [h.left.orderly.steady.accounted.strong_eq, h.right.orderly.steady.accounted.strong_eq, h.todo,
    h.worlds.refs_eq h.holds]

/-- The same heaps are still there. -/
theorem heapExists (h : c.Mirrors c') (g : HeapId) :
    c'.world.heapExists g = c.world.heapExists g := by
  have hlength : (c'.world.rootsAt g).length = (c.world.rootsAt g).length := by
    have hroots := congrArg Multiset.card (h.left.orderly.steady.accounted.roots_eq g)
    have hroots' := congrArg Multiset.card (h.right.orderly.steady.accounted.roots_eq g)
    rw [Multiset.coe_card] at hroots hroots'
    rw [hroots, hroots', h.todo, h.worlds.card_entries_eq h.holds]
  have hattended := h.left.orderly.steady.attended g
  have hattended' := h.right.orderly.steady.attended g
  rw [heapExists_eq, heapExists_eq, decide_eq_decide]
  unfold dues at hattended hattended'
  rw [hlength, h.todo, h.incoming] at hattended'
  by_cases hown : g ∈ c'.heaps
  · have hpos := h.left.orderly.holdersAt_pos (h.known g hown)
    have hpos' := h.right.orderly.holdersAt_pos (.inl hown)
    exact iff_of_true hpos' hpos
  · have hcount := Multiset.count_eq_zero.mpr hown
    have hcount' := Multiset.count_eq_zero.mpr fun hmem => hown (h.heaps hmem)
    rw [hcount] at hattended'
    rw [hcount'] at hattended
    omega

section Tasks

variable {t : Task} {rest : List Task}

/-- What is said of the worlds before a task, by a task that makes no session. -/
theorem orderly (h : c.Mirrors c') (htodo : c.todo = t :: rest) :
    c.world.Orderly (t ::ₘ rest) c.held c.heaps c.incoming ∧
      c'.world.Orderly (t ::ₘ rest) c'.held c'.heaps c'.incoming := by
  have hleft := h.left.orderly
  have hright := h.right.orderly
  unfold Client.Orderly at hleft hright
  rw [h.todo] at hright
  rw [htodo, ← Multiset.cons_coe] at hleft hright
  exact ⟨hleft, hright⟩

/-- A task leads to the same tasks in both worlds, which have the same objects and slots again. -/
theorem step_world (h : c.Mirrors c') (htodo : c.todo = t :: rest) :
    ∃ more w w', t.step c.world = .ok more w ∧ t.step c'.world = .ok more w' ∧ w.Mirrors w' ∧
      w.Peers w' := by
  obtain ⟨hleft, hright⟩ := h.orderly htodo
  have hworlds := h.worlds
  have hpeers := h.peers
  -- only `release` and `dropHandle` begin a session; the others do the same to both worlds
  cases t with
  | dropValue o =>
      have hdead := hleft.guarded.buried _ (Multiset.mem_cons_self _ _) o rfl
      obtain ⟨ob, hob⟩ : ∃ ob, c.world.objects[o]? = some ob := ⟨_, Array.getElem?_eq_getElem hdead.1⟩
      obtain ⟨ob', hob', hface⟩ := hworlds.object_eq hob
      simp only [Object.face, Prod.mk.injEq] at hface
      refine ⟨ob.value.holdings.map Task.ofHolding, { c.world with dropped := c.world.dropped.push o },
        { c'.world with dropped := c'.world.dropped.push o }, ?_, ?_,
        ⟨hworlds.slots, hworlds.size, hworlds.objects⟩, hpeers.objects, hpeers.heaps⟩
      · simp only [Task.step, hob]
      · simp only [Task.step, hob', hface.2.1]
  | dropSlot s =>
      refine ⟨(c.world.slotAt s).targets.map Task.release,
        c.world.writeSlot s (c.world.slotAt s).emptied,
        c'.world.writeSlot s (c.world.slotAt s).emptied, rfl, ?_, hworlds.writeSlot s _,
        hpeers.objects, hpeers.heaps⟩
      simp only [Task.step, hworlds.slotAt]
  | release o =>
      have hsteady := Task.steady_of_orderly hleft (by simp)
      have hsteady' := Task.steady_of_orderly hright (by simp)
      obtain ⟨ob, hob, hstrong⟩ := hsteady.exists_of_release
      obtain ⟨ob', hob', hstrong'⟩ := hsteady'.exists_of_release
      have hface : ob'.face = ob.face := by
        have hobjects := hworlds.objects o
        rwa [hob, hob', Option.map_some, Option.map_some, Option.some_inj] at hobjects
      simp only [Object.face, Prod.mk.injEq, decide_eq_decide] at hface
      have hown : c.world.owns ob.heap o = true := owns_iff.mpr ⟨ob, hob, rfl⟩
      have hown' : c'.world.owns ob.heap o = true := by rwa [hworlds.owns]
      simp only [Task.step, hob, hob', hface.1, hface.2.2, h.heapExists, if_neg hstrong,
        if_neg hstrong']
      -- both worlds decide alike whether there is a session: states and heaps are the same
      by_cases hlive : ob.state = .live ∧ c.world.heapExists ob.heap = true
      · have hexists' : c'.world.heapExists ob.heap = true := by rw [h.heapExists, hlive.2]
        have hentered := hpeers.trades (.enter _ ob.heap) (.enter _ ob.heap)
        obtain ⟨dead, u, u', hlocked, hlocked', -, -, hmirrors, hpeers, -⟩ := Locked.locked_mirrors
          hentered (Locked.releaseStrong_routine o _) (Locked.releaseStrong_routine o _)
          (Locked.release_sheds hsteady hown hlive.2) (Locked.release_sheds hsteady' hown' hexists')
          (isLive_iff.mpr ⟨ob, hob, hlive.1⟩)
          ⟨hworlds.slots, hworlds.size, hworlds.objects⟩ h.holds
        simp only [if_pos hlive, hlocked, hlocked']
        exact ⟨_, _, _, rfl, rfl, hmirrors, hpeers⟩
      · have halike (w : World) :
            w.Alike (w.modifyObject o fun ob => { ob with strong := ob.strong - 1 }) :=
          .modifyObject _ _ fun _ _ => rfl
        simp only [if_neg hlive]
        exact ⟨_, _, _, rfl, rfl,
          (halike _).mirrors.symm.trans (hworlds.trans (halike _).mirrors),
          hpeers.modifyObject o fun _ => rfl⟩
  | dropWeak o =>
      have halike (w : World) : w.Alike (w.releaseWeak o) := .modifyObject _ _ fun _ _ => rfl
      exact ⟨[], _, _, rfl, rfl, (halike _).mirrors.symm.trans (hworlds.trans (halike _).mirrors),
        hpeers.modifyObject o fun _ => rfl⟩
  | dropHandle a =>
      have hsteady := Task.steady_of_orderly hleft (by simp)
      have hsteady' := Task.steady_of_orderly hright (by simp)
      obtain ⟨heap, -, hop⟩ := Locked.dropRoot_sheds (hsteady.settled a.heap)
      obtain ⟨heap', -, hop'⟩ := Locked.dropRoot_sheds (hsteady'.settled a.heap)
      have ha : .root a ∈ c.world.ledger (.dropHandle a ::ₘ rest) c.holds := by
        rw [ledger_cons_task, Task.holdings, Multiset.singleton_add]
        exact Multiset.mem_cons_self _ _
      obtain ⟨dead, u, u', hlocked, hlocked', -, -, hmirrors, hpeers, -⟩ := Locked.locked_mirrors
        hpeers (Locked.dropRoot_routine a.heap a.root _) (Locked.dropRoot_routine a.heap a.root _)
        hop hop' (Sound.handle hsteady ha).1 ⟨hworlds.slots, hworlds.size, hworlds.objects⟩ h.holds
      simp only [Task.step, hlocked, hlocked']
      exact ⟨_, _, _, rfl, rfl, hmirrors, hpeers⟩
  | leave g =>
      exact ⟨[], _, _, rfl, rfl,
        (mirrors_leave c.world g).symm.trans (hworlds.trans (mirrors_leave c'.world g)),
        hpeers.trades (.leave _ g) (.leave _ g)⟩
  | retire g o =>
      have hdead := hleft.guarded.buried _ (Multiset.mem_cons_self _ _) o rfl
      have hdead' := hright.guarded.buried _ (Multiset.mem_cons_self _ _) o rfl
      have hretire := (alike_retire (g := g) hdead.2).1.mirrors
      have hretire' := (alike_retire (g := g) hdead'.2).1.mirrors
      exact ⟨[], _, _, rfl, rfl, hretire.symm.trans (hworlds.trans hretire'),
        hpeers.retire h.strongAt_eq g o⟩

theorem step (h : c.Mirrors c') (htodo : c.todo = t :: rest) {more : List Task} {w : World}
    (hstep : t.step c.world = .ok more w) :
    ∃ w', t.step c'.world = .ok more w' ∧
      Client.Mirrors { c with world := w, todo := more ++ rest }
        { c' with world := w', todo := more ++ rest } := by
  obtain ⟨more', w₁, w', hstep', hmirrored, hworlds, hpeers⟩ := h.step_world htodo
  cases hstep.symm.trans hstep'
  obtain ⟨-, -, hturns⟩ := h.left.advances htodo hstep
  refine ⟨w', hmirrored, h.left.step htodo hstep, h.right.step (h.todo.trans htodo) hmirrored,
    hworlds, hpeers, h.held, h.heaps, fun g hg => ?_, rfl, h.incoming⟩
  exact (h.known g hg).mono (le_refl _) (le_refl _) fun b hb => h.left.orderly.valueAt_eq hturns hb

end Tasks

/-- Both clients carry out all their tasks. -/
theorem settle (h : c.Mirrors c') :
    ∃ w w', RootedHeap.settle c.todo c.world = .ok () w ∧
      RootedHeap.settle c.todo c'.world = .ok () w' ∧
      Client.Mirrors { c with world := w, todo := [] } { c' with world := w', todo := [] } := by
  obtain ⟨w, held, heaps, todo, incoming⟩ := c
  obtain ⟨w', held', heaps', todo', incoming'⟩ := c'
  obtain rfl : todo' = todo := h.todo
  dsimp only
  -- the tasks are the same at each step, so the first run leads the second
  fun_induction RootedHeap.settle todo' w generalizing w' with
  | case1 w => exact ⟨w, w', rfl, congrFun settle_nil w', h⟩
  | case2 t rest w more v hstep ih =>
      obtain ⟨v', hstep', hnext⟩ := h.step rfl hstep
      obtain ⟨u, u', hsettle, hsettle', hmirrors⟩ := ih v' hnext
      exact ⟨u, u', hsettle, (settle_of_step hstep').trans hsettle', hmirrors⟩
  | case3 t rest w fault v hfault =>
      obtain ⟨more, u, u', hstep, -⟩ := h.step_world rfl
      cases hfault.symm.trans hstep

end Client.Mirrors

section Outcome

variable {w w' : World} {todo todo' : Multiset Task} {held held' : Multiset Holding}
  {owed owed' : HeapId → ℤ}

/-- A root is active exactly when there is a handle of it. -/
theorem World.Steady.target?_eq_some_iff (h : w.Steady todo held owed) {g : HeapId} {r : RootId}
    {t : ObjId} :
    (w.registryAt g).target? r = some t ↔ .root ⟨t, r, g⟩ ∈ w.ledger todo held := by
  rw [Registry.target?_eq_some_iff (h.accounted.roots_nodup g)]
  refine ⟨h.accounted.exists_handle, fun hmem => ?_⟩
  have hroot : (r, t) ∈ (w.rootsAt g : Multiset (RootId × ObjId)) := by
    rw [h.accounted.roots_eq]
    exact Multiset.mem_bind.mpr ⟨_, hmem, by simp [Holding.entries]⟩
  exact hroot

/-- An edge to an object of heap `g` is counted for a root as it is for a root of another number that
points where the first does. -/
theorem World.Steady.count_pos_of_target? (h : w.Steady todo held owed)
    (h' : w'.Steady todo' held' owed') (hmirrors : w.Mirrors w') {g : HeapId} {r r' : RootId}
    (ht : (w.registryAt g).target? r = (w'.registryAt g).target? r') {p o : ObjId}
    (ho : w.owns g o = true) (hpo : o ∈ w.out p) (hp : 0 < w.tallies.count p r) :
    0 < w'.tallies.count p r' := by
  have hlive := h.tallied.live_of_count h.guarded hp
  obtain ⟨g', hg'⟩ := exists_owns hlive
  have hown : w.owns g p = true := owns_unique (h.guarded.closed p hlive o hpo g' hg') ho ▸ hg'
  obtain ⟨t, htarget, hreach⟩ := (Sound.count_pos_iff h hown r).mp hp
  refine (Sound.count_pos_iff h' ?_ r').mpr ⟨t, ht ▸ htarget, ?_⟩
  · rwa [hmirrors.owns]
  · rwa [hmirrors.out]

theorem World.Steady.count_eq_of_target? (h : w.Steady todo held owed)
    (h' : w'.Steady todo' held' owed') (hmirrors : w.Mirrors w') {g : HeapId} {r r' : RootId}
    (ht : (w.registryAt g).target? r = (w'.registryAt g).target? r') {o : ObjId}
    (ho : w.owns g o = true) : w.tallies.count o r = w'.tallies.count o r' := by
  have ho' : w'.owns g o = true := by rwa [hmirrors.owns]
  rw [(h.tallied.balanced r).count_eq, (h'.tallied.balanced r').count_eq, Sound.support_eq h ho,
    Sound.support_eq h' ho', ht, hmirrors.out]
  refine congrArg _ ?_
  have hinflow (ts : Tallies) (r : RootId) : Tallies.inflow w.out ts r o =
      ∑ p ∈ (ts.tags r).filter fun p => (w.out p).count o ≠ 0, (w.out p).count o :=
    (Finset.sum_filter_ne_zero _).symm
  rw [hinflow, hinflow]
  refine Finset.sum_congr (Finset.ext fun p => ?_) fun _ _ => rfl
  rw [Finset.mem_filter, Finset.mem_filter, Tallies.mem_tags, Tallies.mem_tags]
  refine and_congr_left fun hcount => ?_
  have hpo : o ∈ w.out p := List.count_pos_iff.mp (Nat.pos_of_ne_zero hcount)
  refine ⟨h.count_pos_of_target? h' hmirrors ht ho hpo, ?_⟩
  rw [← hmirrors.out] at hpo
  exact h'.count_pos_of_target? h hmirrors.symm ht.symm ho' hpo

end Outcome

/-- A session that gives references to the object of a handle up comes to the same as dropping the
handle. -/
theorem World.run_mirrors_drop {w v w₁ : World} {op : Locked Unit} {n : Handle}
    {held held' : Multiset Holding} {heaps : Multiset HeapId} {r : Option Fault}
    (hpeers : w.Peers w₁) (hscreens : Locked.Screens r op ⟨w, []⟩)
    (hop : Ends op ⟨w, []⟩ (fun _ s => s.Sheds n.heap v n.obj [] 0 held (dues 0 heaps []))
      fun _ _ => False)
    (hsteady : w₁.Steady 0 (.root n ::ₘ held') (dues 0 heaps [])) (hmirrors : v.Mirrors w₁)
    (hheld : held'.map Holding.unnumbered = held.map Holding.unnumbered)
    (hknows : Client.Knows ⟨v, held, heaps, [], []⟩ n.heap) :
    ∃ u u', run n.heap op w = .ok () u ∧ n.drop w₁ = .ok () u' ∧
      u.Steady 0 held (dues 0 heaps []) ∧ u'.Steady 0 held' (dues 0 heaps []) ∧ u.Mirrors u' ∧
        u.Peers u' := by
  have hgiven : w₁.Steady (.dropHandle n ::ₘ 0) held' (dues 0 heaps []) := Sound.give hsteady
  have hlive : v.isLive n.obj = true := by
    rw [← hmirrors.isLive]
    exact (Sound.handle hsteady (mem_ledger_of_held (Multiset.mem_cons_self _ _))).1
  obtain ⟨heap, -, hdrop⟩ := Locked.dropRoot_sheds (hgiven.settled n.heap)
  obtain ⟨dead, u₀, u₀', hlocked, hlocked', hbegun, hbegun', hbetween, hpeers₀, hvalue⟩ :=
    Locked.locked_mirrors hpeers hscreens (Locked.dropRoot_routine n.heap n.root _) hop hdrop hlive
      ⟨hmirrors.slots, hmirrors.size, hmirrors.objects⟩ hheld
  rw [add_zero] at hbegun hbegun'
  have hdues (heaps : Multiset HeapId) :
      dues 0 heaps [] = dues (Task.finalizing n.heap dead) heaps [] := by
    rw [← dues_finalizing n.heap dead, add_zero]
  -- the hold on the heap that is still to be given up is as good as an owner
  rw [← Call.dues_cons_heap, hdues] at hbegun'
  rw [hdues] at hbegun
  have hlockstep : Client.Mirrors ⟨u₀, held, heaps, Task.finalizing n.heap dead, []⟩
      ⟨u₀', held', n.heap ::ₘ heaps, Task.finalizing n.heap dead, []⟩ := by
    refine ⟨Client.sound_of_steady hbegun, Client.sound_of_steady hbegun', hbetween, hpeers₀, hheld,
      Multiset.subset_cons _ _, fun g hg => ?_, rfl, rfl⟩
    rcases Multiset.mem_cons.mp hg with rfl | hg
    · exact hknows.mono (le_refl _) (le_refl _) fun _ _ => congrFun hvalue _
    · exact .inl hg
  obtain ⟨u, u', hsettle, hsettle', hleft, hright, hend, hpeers', -⟩ := hlockstep.settle
  have hended := hright.steady ⟨rfl, rfl⟩
  have hpos := hright.orderly.holdersAt_pos (.inl (Multiset.mem_cons_self n.heap heaps))
  refine ⟨u, u'.leave n.heap, Call.run_of_locked hlocked hsettle, ?_, hleft.steady ⟨rfl, rfl⟩, ?_,
    hend.trans (mirrors_leave u' n.heap), hpeers'.trans (.of_trades (.leave u' n.heap))⟩
  · have hstep : (Task.dropHandle n).step w₁ =
        .ok (Task.finalizing n.heap dead ++ [.leave n.heap]) u₀' := by
      simp only [Task.step, hlocked']
    rw [Handle.drop, settle_of_step hstep, List.append_nil, settle_append, bind_of_ok hsettle',
      settle_of_step (show (Task.leave n.heap).step u' = .ok [] _ from rfl)]
    exact congrFun settle_nil _
  · have hleave := hended.leave (g := n.heap) hpos
    rw [Call.dues_cons_heap] at hleave
    simpa using hleave

end RootedHeap
