import RootedHeap.Proofs.Lockstep
import RootedHeap.Proofs.Upgrades

/-! # Assigning a handle

A handle can be assigned, or another one can be copied before it is dropped. Either way references to
the old object are given up when the new one is rooted, and what goes with them is the same, in the
same order. In the end the root of the assigned handle stands where the root of the copy stands
(`Client.Reached.assign_eq_clone_drop`).
-/

namespace RootedHeap

open World

/-- The renaming of roots that tells keeping the root of `a` from issuing that of `n`: they are
exchanged, in the heap of `a`. -/
def Handle.exchanging (a n : Handle) (g : HeapId) : Equiv.Perm RootId :=
  if g = a.heap then Equiv.swap a.root n.root else 1

namespace World

theorem Peers.weakAt_eq {w w' : World} (h : w.Peers w') : w.weakAt = w'.weakAt := by
  have hcomp : Object.weak = Object.weak ∘ Object.body := rfl
  funext o
  rw [weakAt_eq_getD, weakAt_eq_getD, hcomp, ← Option.map_map, ← Option.map_map, h.objects]

section Renaming

variable {w w' : World} {a n : Handle} {rest : Multiset Holding} {owed owed' : HeapId → ℤ}
  (h : w.Steady 0 (.root { a with obj := n.obj } ::ₘ rest) owed)
  (h' : w'.Steady 0 (.root n ::ₘ rest) owed') (hheap : n.heap = a.heap) (hmirrors : w.Mirrors w')

include h h' hheap hmirrors

/-- Active roots are those of the handles there are, of which only one differs. -/
theorem Steady.target?_exchanging (g : HeapId) (r : RootId) :
    (w.registryAt g).target? r = (w'.registryAt g).target? (a.exchanging n g r) := by
  ext t
  rw [h.target?_eq_some_iff, h'.target?_eq_some_iff, ledger_cons_held, ledger_cons_held,
    hmirrors.ledger, Multiset.mem_cons, Multiset.mem_cons]
  have hne {b : Handle} (hb : .root b ∈ w.ledger 0 rest) (hg : b.heap = a.heap) :
      b.root ≠ a.root ∧ b.root ≠ n.root :=
    ⟨h.accounted.root_ne hb hg, h'.accounted.root_ne (hmirrors.ledger ▸ hb) (hg.trans hheap.symm)⟩
  obtain ⟨o, q, g'⟩ := n
  obtain ⟨p, r', g₀⟩ := a
  obtain rfl : g' = g₀ := hheap
  simp only [Holding.root.injEq, Handle.mk.injEq]
  unfold Handle.exchanging
  by_cases hg : g = g'
  · subst hg
    have hfree (r : RootId) (hr : r = r' ∨ r = q) : ¬ .root ⟨t, r, g⟩ ∈ w.ledger 0 rest := by
      intro hmem
      obtain ⟨hold, hnew⟩ := hne hmem rfl
      exact hr.elim hold hnew
    rw [if_pos rfl]
    by_cases hold : r = r'
    · -- the root that the assigned handle keeps
      subst hold
      rw [Equiv.swap_apply_left]
      simp [hfree r (.inl rfl), hfree q (.inr rfl)]
    · by_cases hnew : r = q
      · -- the root that the copy gets
        subst hnew
        rw [Equiv.swap_apply_right]
        simp [hfree r (.inr rfl), hfree r' (.inl rfl), hold, Ne.symm hold]
      · rw [Equiv.swap_apply_of_ne_of_ne hold hnew]
        simp [hold, hnew]
  · simp [hg]

theorem Steady.count_exchanging {g : HeapId} {o : ObjId} (ho : w.owns g o = true) (r : RootId) :
    w.tallies.count o r = w'.tallies.count o (a.exchanging n g r) :=
  h.count_eq_of_target? h' hmirrors (h.target?_exchanging h' hheap hmirrors g r) ho

theorem Steady.strongAt_exchanging : w.strongAt = w'.strongAt := by
  have hheld : (Holding.root n ::ₘ rest).map Holding.unnumbered =
      (Holding.root { a with obj := n.obj } ::ₘ rest).map Holding.unnumbered := by
    simp [Holding.unnumbered, hheap]
  funext o
  rw [h.accounted.strong_eq, h'.accounted.strong_eq, hmirrors.refs_eq hheld]

end Renaming

/-- A copy of a handle changes nothing but roots and what is counted. -/
theorem Steady.clone_handle {w : World} {todo : Multiset Task} {held : Multiset Holding}
    {owed : HeapId → ℤ} {b : Handle} (h : w.Steady todo held owed)
    (hb : .root b ∈ w.ledger todo held) (hpos : 0 < w.holdersAt b.heap) :
    ∃ n w', b.clone w = .ok n w' ∧ n.obj = b.obj ∧ n.heap = b.heap ∧
      w'.Steady todo (.root n ::ₘ held) owed ∧ w.Mirrors w' ∧ w.Peers w' := by
  obtain ⟨hlive, hown, -⟩ := Sound.handle h hb
  obtain ⟨heap, hheap⟩ := h.accounted.exists_heap hb
  have hissues : Ends (Locked.newHandle b.heap b.obj) ⟨w, []⟩ (fun n s =>
      n = w.issue b.heap b.obj ∧ s.Issues b.heap w b.obj [] todo held owed) fun _ _ => False := by
    refine (Locked.newHandle_issues (h.settled b.heap) hheap hlive).mono (fun _ _ hs => hs) ?_
    rintro f s ⟨hstray, -⟩
    cases hstray.symm.trans hown
  obtain ⟨w', hrun, hsteady, halike, s, log, hsession, hended⟩ := run_issues hissues hpos
  have hissued : w.Mirrors ((w.issued b.heap b.obj).enter b.heap) := ⟨rfl, rfl, fun _ => rfl⟩
  refine ⟨w.issue b.heap b.obj, w'.enter b.heap, ?_, rfl, rfl, hsteady, hissued.trans halike.mirrors,
    ?_⟩
  · rw [Handle.clone, bind_of_ok hrun]
    rfl
  · have hscreens := Locked.newHandle_routine b.heap b.obj ⟨w, []⟩
    exact (Peers.of_ended (hscreens.of_ok hsession).1 hended).trans (.of_trades (.enter w' b.heap))

/-- An assignment is a session, if anything, that ends with the handle rebound and the reference to
its old object given up. -/
theorem Steady.assign_handle {w : World} {rest : Multiset Holding} {owed : HeapId → ℤ} {a b : Handle}
    (h : w.Steady 0 (.root a ::ₘ rest) owed) (hb : .root b ∈ w.ledger 0 (.root a ::ₘ rest))
    (hheap : a.heap = b.heap) :
    ∃ op v, Ends op ⟨w, []⟩ (fun _ s => s.Sheds a.heap v a.obj [] 0
        (.root { a with obj := b.obj } ::ₘ rest) owed) (fun _ _ => False) ∧
      Locked.Screens none op ⟨w, []⟩ ∧ w.Mirrors v ∧
      ∀ u, run a.heap op w = .ok () u → a.assign b w = .ok { a with obj := b.obj } u := by
  obtain ⟨hlive, hown, -⟩ := Sound.handle h hb
  by_cases hobj : a.obj = b.obj
  · -- nothing is given up, and the handle still tags its object
    have ha : .root a ∈ w.ledger 0 (.root a ::ₘ rest) := mem_ledger_of_held (Multiset.mem_cons_self _ _)
    have hsettled := h.settled a.heap
    refine ⟨pure (), w, ?_, .pure (), ⟨rfl, rfl, fun _ => rfl⟩, fun u hrun => ?_⟩
    · rw [← hobj]
      refine ⟨hsettled, fun o ho => .inl ho, fun hempty => ?_⟩
      have hcandidate := World.candidateIn_iff.mpr ⟨hobj ▸ hlive, hempty⟩
      exact ((Sound.candidateIn_iff h).mp hcandidate).2 a ha .refl |>.elim
    · have hidle : run a.heap (pure () : Locked Unit) w = .ok () w := run_idle ⟨rfl, rfl⟩
      cases hidle.symm.trans hrun
      rw [← hobj]
      unfold Handle.assign
      rw [if_pos hobj]
      rfl
  · have hretained := Locked.retain_sound (h.settled a.heap) hlive
    obtain ⟨roots, hop⟩ := Locked.retarget_sheds hretained hlive (hheap ▸ hown)
    refine ⟨a.rebind b.obj, w.setRegistry a.heap roots, ?_, a.rebind_routine b.obj _,
      ⟨rfl, rfl, fun _ => rfl⟩, fun u hrun => ?_⟩
    · unfold Handle.rebind
      rw [Ends.bind_iff, Locked.ends_update]
      exact hop
    · unfold Handle.assign
      rw [if_neg hobj, if_pos hheap, bind_of_ok hrun]
      rfl

end World

namespace Client

variable {c : Client} {a b : Handle}

/-- Assigning the object of `b` to the handle `a` comes to the same as copying `b` and dropping `a`,
with the root of `a` in place of that of the copy. As much is collected, and as many weak references
to each object are counted. -/
theorem Reached.assign_eq_clone_drop (h : c.Reached) (hrest : c.AtRest) (ha : .root a ∈ c.held)
    (hb : c.Sees (.root b)) (hheap : a.heap = b.heap) :
    ∃ n w w₁ w', a.assign b c.world = .ok { a with obj := b.obj } w ∧
      b.clone c.world = .ok n w₁ ∧ a.drop w₁ = .ok () w' ∧ n.obj = b.obj ∧ n.heap = b.heap ∧
      (∀ g r, (w.registryAt g).target? r = (w'.registryAt g).target? (a.exchanging n g r)) ∧
      (∀ g o, w.owns g o = true →
        ∀ r, w.tallies.count o r = w'.tallies.count o (a.exchanging n g r)) ∧
      w.strongAt = w'.strongAt ∧ w.slots = w'.slots ∧ w.isLive = w'.isLive ∧
      w.collectedAt = w'.collectedAt ∧ w.weakAt = w'.weakAt := by
  have hsteady := h.sound.steady hrest
  have hmem := h.sound.mem_ledger hrest hb
  have hpos := h.sound.orderly.holdersAt_pos (.inr ⟨b, hb, rfl⟩)
  obtain ⟨rest, hheld⟩ := Multiset.exists_cons_of_mem ha
  rw [hheld] at hmem hsteady
  obtain ⟨op, v, hop, hscreens, hworlds, hassign⟩ := hsteady.assign_handle hmem hheap
  obtain ⟨n, w₁, hclone, hobj, hissued, hcloned, hcopied, hpeers⟩ := hsteady.clone_handle hmem hpos
  have hn : n.heap = a.heap := hissued.trans hheap.symm
  rw [Multiset.cons_swap] at hcloned
  obtain ⟨w, w', hrun, hdrop, hassigned, hdropped, hmirrors, hpeers'⟩ := run_mirrors_drop hpeers
    hscreens hop hcloned (hworlds.symm.trans hcopied) (by simp [Holding.unnumbered, hobj, hn])
    (.inr ⟨_, .held (Multiset.mem_cons_self _ _), rfl⟩)
  rw [← hobj] at hassigned
  refine ⟨n, w, w₁, w', hassign w hrun, hclone, hdrop, hobj, hissued, ?_, ?_, ?_,
    hmirrors.slots.symm, hmirrors.isLive.symm, hpeers'.collectedAt_eq, hpeers'.weakAt_eq⟩
  · exact fun g r => hassigned.target?_exchanging hdropped hn hmirrors g r
  · exact fun g o ho r => hassigned.count_exchanging hdropped hn hmirrors ho r
  · exact hassigned.strongAt_exchanging hdropped hn hmirrors

/-- A node is collected when its handle is assigned the leaf that it points at. -/
theorem chain_assign_eq_clone_drop : ∃ n w w₁ w',
    Handle.assign ⟨1, 2, 0⟩ ⟨0, 1, 0⟩ chain.world = .ok ⟨0, 2, 0⟩ w ∧
      Handle.clone ⟨0, 1, 0⟩ chain.world = .ok n w₁ ∧ Handle.drop ⟨1, 2, 0⟩ w₁ = .ok () w' ∧
      n.obj = 0 ∧ w.strongAt = w'.strongAt ∧ w.isLive = w'.isLive ∧ w.collectedAt = w'.collectedAt := by
  have hheld : chain.held = {.root ⟨1, 2, 0⟩, .root ⟨0, 1, 0⟩} := by cbv
  have hnode : .root ⟨1, 2, 0⟩ ∈ chain.held := hheld ▸ Multiset.mem_cons_self _ _
  have hleaf : chain.Sees (.root ⟨0, 1, 0⟩) :=
    .held (hheld ▸ Multiset.mem_cons_of_mem (Multiset.mem_singleton_self _))
  obtain ⟨n, w, w₁, w', hassign, hclone, hdrop, hobj, -, -, -, hstrong, -, hlive, hcollected, -⟩ :=
    chain_reached.1.assign_eq_clone_drop chain_reached.2 hnode hleaf rfl
  exact ⟨n, w, w₁, w', hassign, hclone, hdrop, hobj, hstrong, hlive, hcollected⟩

end Client

end RootedHeap
