import Mathlib.Data.Fintype.Card
import Mathlib.Data.Fintype.EquivFin
import Mathlib.Data.Fintype.Sets
import RootedHeap.Proofs.Release

/-! # Acyclic graphs have no orphans

The counting cascade of a disconnect pass may leave objects tagged that only count each other. Where
no tagged object lies below itself there are none of that kind: walking up the edges that count an
object ends at support. The scan that follows such a cascade finds nothing.
-/

namespace RootedHeap

/-- `o` lies below itself. -/
def OnCycle (edges : ObjId → List ObjId) (o : ObjId) : Prop :=
  Relation.TransGen (fun p q => q ∈ edges p) o o

section Acyclic

variable {edges back : ObjId → List ObjId} {r : RootId} {support support' : ObjId → Nat}
  {ts : Tallies} {t : ObjId}

/-- Among tagged objects of which none lies below itself, edges are well founded upwards. -/
theorem wellFounded_tagged (hacyclic : ∀ o, 0 < ts.count o r → ¬ OnCycle edges o) :
    WellFounded fun p q : ts.tags r => (q : ObjId) ∈ edges p := by
  have hbelow {p q : ts.tags r}
      (h : Relation.TransGen (fun p q : ts.tags r => (q : ObjId) ∈ edges p) p q) :
      Relation.TransGen (fun p q => q ∈ edges p) (p : ObjId) q :=
    h.lift Subtype.val fun _ _ hedge => hedge
  have hirrefl : Std.Irrefl
      (Relation.TransGen fun p q : ts.tags r => (q : ObjId) ∈ edges p) :=
    ⟨fun o ho => hacyclic o (Tallies.mem_tags.mp o.2) (hbelow ho)⟩
  have hwf : WellFounded (Relation.TransGen fun p q : ts.tags r => (q : ObjId) ∈ edges p) :=
    Finite.wellFounded_of_trans_of_irrefl _
  exact Subrelation.wf (fun h => .single h) hwf

/-- Counts that are made up of support and edges trace back to support. -/
theorem Counted.balanced_of_acyclic (h : Counted edges r support ts)
    (hacyclic : ∀ o, 0 < ts.count o r → ¬ OnCycle edges o) : Balanced edges r support ts := by
  refine ⟨h, fun o ho => ?_⟩
  have hall : ∀ o : ts.tags r, ∃ s, 0 < support s ∧ Reach edges s o := by
    intro o
    induction o using (wellFounded_tagged hacyclic).induction with | _ o ih
    by_cases hs : 0 < support o
    · exact ⟨o, hs, .refl⟩
    -- without support of its own, it is counted for an edge from a tagged object
    have hcount := h.count_eq o
    have hpos := Tallies.mem_tags.mp o.2
    have hsum : ∑ p ∈ ts.tags r, (edges p).count (o : ObjId) ≠ 0 := by
      have : ts.inflow edges r o = ∑ p ∈ ts.tags r, (edges p).count (o : ObjId) := rfl
      omega
    obtain ⟨p, hp, hedge⟩ := Finset.exists_ne_zero_of_sum_ne_zero hsum
    have hmem := List.count_pos_iff.mp (Nat.pos_of_ne_zero hedge)
    obtain ⟨s, hs, hreach⟩ := ih ⟨p, hp⟩ hmem
    exact ⟨s, hs, hreach.tail hmem⟩
  exact hall ⟨o, Tallies.mem_tags.mpr ho⟩

/-- The scan of balanced counts finds nothing, whatever it starts from. -/
theorem Balanced.scan_orphans (h : Balanced edges r support ts) (candidates : List ObjId) :
    (scanOrphans edges r candidates ts).orphans = [] := by
  have hlost : (orphanTrial edges r candidates ts).lost = [] := by
    refine List.eq_nil_iff_forall_not_mem.mpr fun o ho => ?_
    obtain ⟨hpos, hnot⟩ := (h.toCounted.mem_lost_iff fun o ho hnot => absurd (h.rooted o ho) hnot).mp ho
    exact hnot (h.rooted o hpos)
  rw [scanOrphans_eq, hlost]
  rfl

/-- Where no tagged object lies below itself, the cascade of a disconnect pass leaves nothing to the
scan. -/
theorem Balanced.disconnect_orphans (h : Balanced edges r support ts)
    (hback : ∀ p, (back p).Perm (edges p))
    (hsupport : ∀ o, support o = support' o + if o = t then 1 else 0)
    (hacyclic : ∀ o, 0 < ts.count o r → ¬ OnCycle edges o) :
    (scanAfter edges back r t ts).orphans = [] := by
  obtain ⟨-, hcounted⟩ := h.cascade_counted hback hsupport
  refine (hcounted.balanced_of_acyclic fun o ho => hacyclic o ?_).scan_orphans _
  exact Nat.lt_of_lt_of_le ho (disconnectAll_count_le o r)

end Acyclic

end RootedHeap
