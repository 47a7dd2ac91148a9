import RootedHeap.Proofs.Sessions

/-! # Disconnecting an edge

A session disconnects an object from a root whose counts balance. The object gives up one unit of
the support it has from outside; what the support that remains leads to keeps the tag, the rest of
what was tagged loses it, and the counts balance again. The state of the world is of no concern
otherwise: the support may come from a root handle or from edges that are still to be taken away.
-/

namespace RootedHeap

/-- Disconnecting a supported object never fails, if both halves of all values report the same edges.
It takes one unit of support away, restores the balance, leaves other roots alone, and suspects
exactly the objects that lost their last tag, each once. -/
theorem Locked.disconnect_exact (g : HeapId) {r : RootId} {t : ObjId} {s : Session}
    {support : ObjId → Nat} (hhalves : ∀ o, (s.world.back o).Perm (s.world.out o))
    (hbalanced : Balanced s.world.out r support s.world.tallies) (ht : 1 ≤ support t) :
    ∃ s' : Session, disconnect g r t s = .ok () s' ∧ s'.world.out = s.world.out ∧
      Balanced s'.world.out r (Function.update support t (support t - 1)) s'.world.tallies ∧
      (∀ o, 0 < s'.world.tallies.count o r ↔
        ∃ p, 0 < Function.update support t (support t - 1) p ∧ Reach s'.world.out p o) ∧
      (∀ o r', r' ≠ r → s'.world.tallies.count o r' = s.world.tallies.count o r') ∧
      ∃ emptied, s'.unrooted = s.unrooted ++ emptied ∧ emptied.Nodup ∧
        ∀ o, o ∈ emptied ↔
          s.world.tallies.isEmptyAt o = false ∧ s'.world.tallies.isEmptyAt o = true := by
  have hsupport (o : ObjId) :
      support o = Function.update support t (support t - 1) o + if o = t then 1 else 0 := by
    by_cases ho : o = t
    · subst ho
      simp only [Function.update_self, if_true]
      omega
    · simp [ho]
  obtain ⟨hno, hbroken, hreduced⟩ := hbalanced.disconnect hhalves hsupport
  obtain ⟨⟨⟩, s', hdisconnect, hpassed⟩ :=
    (disconnect_passed (g := g) r t hno hbroken).exists_ok
  have hout : s'.world.out = s.world.out := hpassed.alike.out
  rw [← hpassed.tallies] at hreduced
  refine ⟨s', hdisconnect, hout, hout ▸ hreduced.balanced, fun o => ?_, hreduced.others, _,
    hpassed.unrooted, hreduced.nodup, fun o => ?_⟩
  · rw [hout]
    exact hreduced.balanced.count_pos_iff
  · rw [hreduced.mem_unrooted]
    refine and_congr_left fun hempty => ?_
    have hzero := Tallies.isEmptyAt_iff.mp hempty
    rw [← Bool.not_eq_true, Tallies.isEmptyAt_iff]
    constructor
    · intro hpos hall
      rw [hall r] at hpos
      exact Nat.lt_irrefl 0 hpos
    · -- only the counts of `r` changed
      intro hnot
      by_contra hnone
      refine hnot fun r' => ?_
      by_cases hr : r' = r
      · rw [hr]
        exact Nat.eq_zero_of_not_pos hnone
      · rw [← hreduced.others o r' hr, hzero]

/-! ## A cycle behind a field -/

/-- An object whose field has just been cleared, and the cycle of two objects that the field led to.
Root `1` still counts the edge that is gone. -/
def clearedRing : Session where
  world :=
    { heaps := #[{ config := {} }]
      objects := #[{ heap := 0, typeName := "owner", value := .slot 0 },
        { heap := 0, typeName := "node", value := .slot 1 },
        { heap := 0, typeName := "node", value := .slot 2 }]
      tallies := #[Tally.empty.bump 1, (Tally.empty.bump 1).bump 1, Tally.empty.bump 1]
      slots := #[.one none, .one (some 2), .one (some 1)] }
  unrooted := []

/-- The handle supports the owner, and the edge that is still counted supports the cycle. -/
def clearedSupport (o : ObjId) : Nat := if o ≤ 1 then 1 else 0

theorem clearedRing_balanced :
    Balanced clearedRing.world.out 1 clearedSupport clearedRing.world.tallies := by
  have htags : clearedRing.world.tallies.tags 1 = {0, 1, 2} := by decide
  have hout : clearedRing.world.out 0 = [] ∧ clearedRing.world.out 1 = [2] ∧
      clearedRing.world.out 2 = [1] := by decide
  obtain ⟨hout₀, hout₁, hout₂⟩ := hout
  refine ⟨⟨fun o => ?_⟩, fun o ho => ?_⟩
  · have hinflow : clearedRing.world.tallies.inflow clearedRing.world.out 1 o =
        [2].count o + [1].count o := by
      rw [Tallies.inflow, htags, Finset.sum_insert (by decide), Finset.sum_pair (by decide), hout₀,
        hout₁, hout₂, List.count_nil, Nat.zero_add]
    have hsmall : ∀ o < 3, clearedRing.world.tallies.count o 1 =
        clearedSupport o + ([2].count o + [1].count o) := by decide
    rw [hinflow]
    by_cases ho : o < 3
    · exact hsmall o ho
    · obtain ⟨k, rfl⟩ := Nat.exists_eq_add_of_le' (Nat.le_of_not_lt ho)
      simp [clearedRing, clearedSupport, Tallies.count]
  · have hsource : ∀ o ∈ ({0, 1, 2} : Finset ObjId), 0 < clearedSupport (min o 1) ∧
        (min o 1 = o ∨ o ∈ clearedRing.world.out (min o 1)) := by decide
    have hmem := Tallies.mem_tags.mpr ho
    rw [htags] at hmem
    obtain ⟨hpos, hself | hedge⟩ := hsource o hmem
    · exact ⟨o, hself ▸ hpos, .refl⟩
    · exact ⟨min o 1, hpos, .single hedge⟩

theorem clearedRing_halves (o : ObjId) :
    (clearedRing.world.back o).Perm (clearedRing.world.out o) := by
  have hsmall : ∀ o < 3, (clearedRing.world.back o).Perm (clearedRing.world.out o) := by decide
  by_cases ho : o < 3
  · exact hsmall o ho
  · obtain ⟨k, rfl⟩ := Nat.exists_eq_add_of_le' (Nat.le_of_not_lt ho)
    exact .nil

/-- Taking the edge away that is still counted strands the cycle. -/
theorem clearedRing_disconnect : ∃ s' : Session, Locked.disconnect 0 1 1 clearedRing = .ok () s' ∧
    s'.world.out = clearedRing.world.out ∧
    (∀ o, 0 < s'.world.tallies.count o 1 ↔
      ∃ p, 0 < Function.update clearedSupport 1 0 p ∧ Reach s'.world.out p o) ∧
    ∀ o, o ∈ s'.unrooted ↔ clearedRing.world.tallies.isEmptyAt o = false ∧
      s'.world.tallies.isEmptyAt o = true := by
  obtain ⟨s', hrun, hout, -, htagged, -, emptied, hunrooted, -, hmem⟩ :=
    Locked.disconnect_exact 0 clearedRing_halves clearedRing_balanced (t := 1) (by decide)
  exact ⟨s', hrun, hout, htagged, fun o => hunrooted ▸ hmem o⟩

end RootedHeap
