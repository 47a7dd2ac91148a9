import RootedHeap.Proofs.Exactness

/-! # Two ways to release a root

When a handle goes, the tag of its root is stripped from all that the root leads to. Disconnecting
the root's target, by a cascade and an orphan scan, comes to the same: both take the only support of
the root away, and there is only one way to do that (`Reduced.tallies_unique`).
-/

namespace RootedHeap

open World

variable {w : World} {g : HeapId} {heap : Heap} {r : RootId} {t : ObjId} {todo : Multiset Task}
  {held : Multiset Holding} {owed : HeapId → ℤ}

/-- Stripping the tag of a withdrawn root and disconnecting its target both take the support of the
root away. -/
theorem World.Steady.reduced (h : w.Steady todo held owed) (hheap : w.heaps[g]? = some heap)
    (htarget : heap.roots.target? r = some t) :
    Reduced w.out r ((w.setRegistry g (heap.roots.without r)).support r) w.tallies
        (strip w.back r t w.tallies).tallies (strip w.back r t w.tallies).unrooted ∧
      (cascade w.back r t w.tallies).unreached = none ∧
      (scanAfter w.out w.back r t w.tallies).broken = false ∧
      Reduced w.out r ((w.setRegistry g (heap.roots.without r)).support r) w.tallies
        (scanAfter w.out w.back r t w.tallies).tallies
        (unrootedAfter w.out w.back r t w.tallies) := by
  obtain ⟨hown, hlive, -⟩ := World.Sound.target h (registryAt_eq hheap ▸ htarget)
  have hnodup := h.accounted.roots_nodup g
  rw [rootsAt_eq hheap] at hnodup
  have hmem := (Registry.target?_eq_some_iff hnodup).mp htarget
  have hsupport (o : ObjId) : w.support r o =
      (w.setRegistry g (heap.roots.without r)).support r o + if o = t then 1 else 0 := by
    simpa using support_withdraw hheap hnodup hmem hown r o
  have hbalanced := h.tallied.balanced r
  refine ⟨hbalanced.strip h.guarded.back_perm hsupport fun p o hp hpo => ?_,
    hbalanced.disconnect h.guarded.back_perm hsupport⟩
  exact World.Sound.apart h hheap hlive hown hp hpo

/-- Once the support of a withdrawn root is gone, it tags no object of its heap. -/
theorem World.Steady.count_of_reduced (h : w.Steady todo held owed)
    (hheap : w.heaps[g]? = some heap) {ts : Tallies} {unrooted : List ObjId}
    (hreduced : Reduced w.out r ((w.setRegistry g (heap.roots.without r)).support r) w.tallies ts
      unrooted) {o : ObjId} (ho : w.owns g o = true) : ts.count o r = 0 := by
  by_contra hne
  obtain ⟨p, hp, hreach⟩ := hreduced.balanced.rooted o (Nat.pos_of_ne_zero hne)
  rw [support_setRegistry hheap] at hp
  split at hp
  next =>
    have hmem := Multiset.count_pos.mp hp
    simp [Registry.without] at hmem
  next hnot =>
    -- the same number may be a root of another heap, but that leads elsewhere
    have hlive := h.tallied.supported r p hp
    obtain ⟨g', hg'⟩ := exists_owns hlive
    have hgg := owns_unique (h.guarded.owns_of_reach hlive hg' hreach) ho
    exact hnot (hgg ▸ hg')

/-- With the root withdrawn, stripping its tag and disconnecting its target both succeed, leave the
same tallies, and notice the same objects, each once; no object of the heap keeps an entry of the
root. -/
theorem Client.Reached.strip_eq_disconnect {c : Client} (h : c.Reached)
    (hheap : c.world.heaps[g]? = some heap) {roots : Registry}
    (hrelease : heap.roots.release r = .ok (t, roots)) :
    ∃ stripped disconnected : Session,
      Locked.stripRoot r t ⟨c.world.setRegistry g roots, []⟩ = .ok () stripped ∧
      Locked.disconnect g r t ⟨c.world.setRegistry g roots, []⟩ = .ok () disconnected ∧
      stripped.world.tallies = disconnected.world.tallies ∧
      stripped.unrooted.Perm disconnected.unrooted ∧
      stripped.unrooted.Nodup ∧ disconnected.unrooted.Nodup ∧
      ∀ o tally, c.world.owns g o = true → stripped.world.tallies[o]? = some tally →
        r ∉ tally.roots := by
  have hsteady : c.world.Steady c.todo _ _ := h.sound.orderly
  obtain ⟨htarget, rfl⟩ := Registry.release_eq_ok_iff.mp hrelease
  -- both passes reduce the support of `r` in the same way, which leaves one result only
  obtain ⟨hstrip, hno, hbroken, hdisconnect⟩ := hsteady.reduced hheap htarget
  obtain ⟨⟨⟩, stripped, hstripped, hpassed⟩ := (Locked.stripRoot_passed
    (s := ⟨c.world.setRegistry g (heap.roots.without r), []⟩) r t).exists_ok
  obtain ⟨⟨⟩, disconnected, hdisconnected, hpassed'⟩ := (Locked.disconnect_passed (g := g)
    (s := ⟨c.world.setRegistry g (heap.roots.without r), []⟩) r t hno hbroken).exists_ok
  have htallies : stripped.world.tallies = (strip c.world.back r t c.world.tallies).tallies :=
    hpassed.tallies
  have hunrooted : stripped.unrooted = (strip c.world.back r t c.world.tallies).unrooted :=
    hpassed.unrooted
  have hunrooted' : disconnected.unrooted =
      unrootedAfter c.world.out c.world.back r t c.world.tallies := hpassed'.unrooted
  refine ⟨stripped, disconnected, hstripped, hdisconnected, ?_, ?_, ?_, ?_, ?_⟩
  · rw [htallies, hpassed'.tallies]
    exact hstrip.tallies_unique hdisconnect
  · rw [hunrooted, hunrooted']
    exact hstrip.unrooted_perm hdisconnect
  · exact hunrooted ▸ hstrip.nodup
  · exact hunrooted' ▸ hdisconnect.nodup
  · intro o tally ho htally hmem
    have hzero := hsteady.count_of_reduced hheap hstrip ho
    have hroots : r ∈ (stripped.world.tallies[o]?.getD .empty).roots := by
      rw [htally]
      exact hmem
    have hpos := Tallies.mem_roots_iff.mp hroots
    rw [htallies, hzero] at hpos
    exact Nat.lt_irrefl 0 hpos

/-- The root of the chain's node can be released in both ways. -/
theorem Client.chain_strip_eq_disconnect :
    ∃ stripped disconnected : Session,
      Locked.stripRoot 2 1 ⟨chain.world.setRegistry 0 ⟨3, [(1, 0)]⟩, []⟩ = .ok () stripped ∧
      Locked.disconnect 0 2 1 ⟨chain.world.setRegistry 0 ⟨3, [(1, 0)]⟩, []⟩ = .ok () disconnected ∧
      stripped.world.tallies = disconnected.world.tallies := by
  have hroots : chain.world.heaps[0]?.map Heap.roots = some ⟨3, [(2, 1), (1, 0)]⟩ := by cbv
  obtain ⟨heap, hheap, hactive⟩ := Option.map_eq_some_iff.mp hroots
  have hrelease : heap.roots.release 2 = .ok (1, ⟨3, [(1, 0)]⟩) := by
    rw [hactive]
    rfl
  obtain ⟨stripped, disconnected, hstripped, hdisconnected, htallies, -⟩ :=
    chain_reached.1.strip_eq_disconnect hheap hrelease
  exact ⟨stripped, disconnected, hstripped, hdisconnected, htallies⟩

end RootedHeap
