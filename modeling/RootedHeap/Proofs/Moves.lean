import RootedHeap.Proofs.Roots
import RootedHeap.Proofs.Sound

/-! # What the moves of a session preserve

A session is made of few moves: taking a strong reference or giving one up, writing a slot,
registering, withdrawing or redirecting a root, and adding or taking away support of a root by a
pass. Each leads from one sound world to another. A strong reference on its way between a slot and a
handle is a `release` still to be done.
-/

namespace RootedHeap.World

variable {w : World} {ts : Tallies} {strong strong' : ObjId → Nat}
  {support support' : RootId → ObjId → Nat} {suspects : List ObjId} {todo : Multiset Task}
  {held : Multiset Holding} {owed : HeapId → ℤ}

/-! ## Passes -/

section Passes

variable {r : RootId} {t : ObjId} {ts' : Tallies}

/-- Anchors stay when tallies change, as long as objects that lose their last tag are noticed. -/
theorem Anchored.retally {suspects' : List ObjId} (h : w.Anchored ts suspects todo held)
    (htallied : w.Tallied ts' support')
    (hcand : ∀ o, w.candidateIn ts' o = true → w.candidateIn ts o = true ∨ o ∈ suspects')
    (hsub : ∀ o ∈ suspects, o ∈ suspects') : w.Anchored ts' suspects' todo held := by
  refine h.transfer ?_ ?_ ?_
  · intro g o hc hown hexists
    rcases hcand o hc with hc | hc
    · exact .inl ⟨hc, hown, hexists⟩
    · exact .inr (.inl hc)
  · intro p c hp hpc hc
    exact ⟨htallied.candidate_of_out (candidateIn_iff.mp hp).1 hpc hc, hpc⟩
  · intro y hy hsource
    exact ⟨y, hsource.imp (hsub y) id, hy, .refl⟩

/-- A connect pass within the heap does not give up, and adds its unit of support. -/
theorem Tallied.connect (h : w.Tallied ts support) (hg : w.Guarded todo held) {g : HeapId}
    (ht : w.isLive t = true) (hown : w.owns g t = true)
    (hsupport : ∀ r' o, support' r' o = support r' o + if r' = r ∧ o = t then 1 else 0) :
    (RootedHeap.connect w.out (w.owns g) r t ts).stranger = none ∧
      w.Tallied (RootedHeap.connect w.out (w.owns g) r t ts).tallies support' := by
  have hno : (RootedHeap.connect w.out (w.owns g) r t ts).stranger = none := by
    refine connectAll_stranger (P := fun o => w.isLive o = true ∧ w.owns g o = true) ?_ ?_ ?_
    · exact fun o ho => ⟨h.size_eq ▸ lt_size_of_isLive ho.1, ho.2⟩
    · exact fun o ho c hc => ⟨hg.live_of_out ho.1 hc, hg.closed o ho.1 c hc g ho.2⟩
    · intro o ho
      rw [List.mem_singleton.mp ho]
      exact ⟨ht, hown⟩
  refine ⟨hno, connectAll_size.trans h.size_eq, fun r' => ?_, fun r' o ho => ?_⟩
  · by_cases hr : r' = r
    · subst hr
      exact (h.balanced r').connect hno fun o => by simpa using hsupport r' o
    · refine ((h.balanced r').congr_support fun o => ?_).congr_tallies fun o =>
        connectAll_count_of_ne hr o
      simpa [hr] using hsupport r' o
  · rw [hsupport] at ho
    split at ho
    next heq => exact heq.2 ▸ ht
    next => exact h.supported r' o (by omega)

theorem Sound.connect (h : w.Sound ts strong support suspects todo held owed) {g : HeapId}
    (ht : w.isLive t = true) (hown : w.owns g t = true)
    (hsupport : ∀ r' o, support' r' o = support r' o + if r' = r ∧ o = t then 1 else 0) :
    (RootedHeap.connect w.out (w.owns g) r t ts).stranger = none ∧
      w.Sound (RootedHeap.connect w.out (w.owns g) r t ts).tallies strong support' suspects todo
        held owed := by
  obtain ⟨hno, htallied⟩ := h.tallied.connect h.guarded ht hown hsupport
  refine ⟨hno, h.accounted, h.guarded, htallied, h.anchored.retally htallied ?_ (fun _ ho => ho),
    h.attended⟩
  intro o ho
  obtain ⟨hlive, hempty⟩ := candidateIn_iff.mp ho
  refine .inl (candidateIn_iff.mpr ⟨hlive, Tallies.isEmptyAt_iff.mpr fun r' => ?_⟩)
  have hle : ts.count o r' ≤ (RootedHeap.connect w.out (w.owns g) r t ts).tallies.count o r' :=
    connectAll_count_le o r'
  have := Tallies.isEmptyAt_iff.mp hempty r'
  omega

/-- The objects that lose their last tag when support is taken away at `t` are those that `t` leads
to. -/
theorem reach_of_mem_unrooted {edges : ObjId → List ObjId} {s s' : ObjId → Nat}
    {unrooted : List ObjId} (h : Balanced edges r s ts)
    (hsupport : ∀ o, s o = s' o + if o = t then 1 else 0)
    (hreduced : Reduced edges r s' ts ts' unrooted) {o : ObjId} (ho : o ∈ unrooted) :
    Reach edges t o := by
  obtain ⟨hpos, hempty⟩ := (hreduced.mem_unrooted o).mp ho
  obtain ⟨p, hp, hreach⟩ := h.rooted o hpos
  by_cases hpt : p = t
  · exact hpt ▸ hreach
  · have hsup := hsupport p
    rw [if_neg hpt] at hsup
    have hlost := Tallies.isEmptyAt_iff.mp hempty r
    have := hreduced.balanced.count_pos_iff.mpr ⟨p, by omega, hreach⟩
    omega

/-- Taking a unit of support away keeps the world sound when the objects that lost their last tag
are noticed. -/
theorem Sound.reduce (h : w.Sound ts strong support suspects todo held owed)
    {unrooted : List ObjId} (hreduced : Reduced w.out r (support' r) ts ts' unrooted)
    (hsupport : ∀ r' o, support r' o = support' r' o + if r' = r ∧ o = t then 1 else 0) :
    w.Sound ts' strong support' (suspects ++ unrooted) todo held owed := by
  have htallied : w.Tallied ts' support' := by
    refine ⟨hreduced.size.trans h.tallied.size_eq, fun r' => ?_, fun r' o ho => ?_⟩
    · by_cases hr : r' = r
      · exact hr ▸ hreduced.balanced
      · refine ((h.tallied.balanced r').congr_support fun o => ?_).congr_tallies fun o =>
          hreduced.others o r' hr
        simpa [hr] using (hsupport r' o).symm
    · refine h.tallied.supported r' o ?_
      rw [hsupport]
      omega
  refine ⟨h.accounted, h.guarded, htallied, h.anchored.retally htallied ?_ ?_, h.attended⟩
  · intro o ho
    obtain ⟨hlive, hempty⟩ := candidateIn_iff.mp ho
    by_cases hpos : 0 < ts.count o r
    · exact .inr (List.mem_append_right _ ((hreduced.mem_unrooted o).mpr ⟨hpos, hempty⟩))
    · refine .inl (candidateIn_iff.mpr ⟨hlive, Tallies.isEmptyAt_iff.mpr fun r' => ?_⟩)
      by_cases hr : r' = r
      · rw [hr]
        omega
      · rw [← hreduced.others o r' hr]
        exact Tallies.isEmptyAt_iff.mp hempty r'
  · exact fun o ho => List.mem_append_left _ ho

end Passes

/-! ## Strong references -/

section References

variable {o : ObjId}

theorem Accounted.of_ledger {todo' : Multiset Task} {held' : Multiset Holding}
    (h : w.Accounted strong todo held) (hledger : w.ledger todo' held' = w.ledger todo held)
    (hstrong : ∀ o, strong' o = (w.refs todo' held').count o) :
    w.Accounted strong' todo' held' where
  strong_eq := hstrong
  slots_nodup := hledger ▸ h.slots_nodup
  slots_lt := hledger ▸ h.slots_lt
  slots_idle := hledger ▸ h.slots_idle
  roots_eq g := hledger ▸ h.roots_eq g
  roots_nodup := h.roots_nodup
  roots_lt := h.roots_lt
  live_eq := h.live_eq

theorem ledger_cons_release : w.ledger (.release o ::ₘ todo) held = w.ledger todo held := by
  rw [ledger_cons_task, Task.holdings, Multiset.zero_add]

theorem refs_cons_release : w.refs (.release o ::ₘ todo) held = o ::ₘ w.refs todo held := by
  rw [refs_cons_task, Task.holdings, Task.released, Multiset.zero_bind, Multiset.zero_add,
    Multiset.singleton_add]

theorem outer_cons_release : w.outer (.release o ::ₘ todo) held = o ::ₘ w.outer todo held := by
  rw [outer_cons_task, Task.holdings, Task.released, Multiset.zero_bind, Multiset.zero_add,
    Multiset.singleton_add]

/-- A strong reference is taken. -/
theorem Sound.retain (h : w.Sound ts strong support suspects todo held owed)
    (hstrong : ∀ x, strong' x = strong x + if x = o then 1 else 0) :
    w.Sound ts strong' support suspects (.release o ::ₘ todo) held owed := by
  refine ⟨h.accounted.of_ledger ledger_cons_release fun x => ?_, ?_, h.tallied, ?_, h.attended⟩
  · rw [hstrong, h.accounted.strong_eq, refs_cons_release, Multiset.count_cons]
  · rw [← Multiset.singleton_add]
    exact h.guarded.addTasks _ rfl fun t ht => by rw [Multiset.mem_singleton.mp ht]; rfl
  · refine h.anchored.congr fun y _ hy => ?_
    rw [outer_cons_release]
    exact hy.imp id (Multiset.mem_cons_of_mem ·)

/-- A strong reference is given up; an object that may be garbage is noticed, unless its heap is
gone. -/
theorem Sound.release (h : w.Sound ts strong support suspects (.release o ::ₘ todo) held owed)
    (hstrong : ∀ x, strong' x = strong x - if x = o then 1 else 0) {noticed : List ObjId}
    (hnoticed : ∀ g, w.owns g o = true → w.heapExists g = true → w.candidateIn ts o = true →
      o ∈ noticed) :
    0 < strong o ∧ w.Sound ts strong' support (suspects ++ noticed) todo held owed := by
  have hcount (x : ObjId) : strong x = (w.refs todo held).count x + if x = o then 1 else 0 := by
    rw [h.accounted.strong_eq, refs_cons_release, Multiset.count_cons]
  refine ⟨?_, h.accounted.of_ledger ledger_cons_release.symm fun x => ?_, h.guarded.dropTask,
    h.tallied, fun g x hown hexists hx => ?_, h.attended⟩
  · rw [hcount, if_pos rfl]
    omega
  · rw [hstrong, hcount]
    omega
  · obtain ⟨y, hy, hycand, hreach⟩ := h.anchored g x hown hexists hx
    refine ⟨y, ?_, hycand, hreach⟩
    rw [outer_cons_release, Multiset.mem_cons] at hy
    rcases hy with hy | rfl | hy
    · exact .inl (List.mem_append_left _ hy)
    · -- an anchor is of the heap of what it leads to
      obtain ⟨g', hg'⟩ := exists_owns (candidateIn_iff.mp hycand).1
      have hsub : Reach w.out y x :=
        Relation.ReflTransGen.mono (fun _ _ hstep => (mem_candidateEdges.mp hstep).1) _ _ hreach
      have hgx := h.guarded.owns_of_reach (candidateIn_iff.mp hycand).1 hg' hsub
      rw [owns_unique hgx hown] at hg'
      exact .inl (List.mem_append_right _ (hnoticed g hg' hexists hycand))
    · exact .inr hy

end References

/-! ## Slots -/

section Write

variable {s : SlotId} {content : Slot}

theorem size_slots_writeSlot : (w.writeSlot s content).slots.size = w.slots.size :=
  Array.size_setIfInBounds

/-- A write to a slot that has a holder exchanges the references of its targets. -/
theorem Accounted.count_refs_writeSlot (h : w.Accounted strong todo held)
    (hs : .slot s ∈ w.ledger todo held) (x : ObjId) :
    ((w.writeSlot s content).refs todo held).count x + (w.slotAt s).targets.count x =
      (w.refs todo held).count x + content.targets.count x := by
  have hlt : s < w.slots.size :=
    h.slots_lt s (Multiset.mem_bind.mpr ⟨.slot s, hs, Multiset.mem_singleton_self s⟩)
  obtain ⟨rest, hrest⟩ := Multiset.exists_cons_of_mem hs
  have hnot : .slot s ∉ rest := by
    intro hmem
    have hnodup := h.slots_nodup
    rw [hrest, Multiset.cons_bind] at hnodup
    exact Multiset.disjoint_left.mp (Multiset.nodup_add.mp hnodup).2.2
      (Multiset.mem_singleton_self s)
      (Multiset.mem_bind.mpr ⟨.slot s, hmem, Multiset.mem_singleton_self s⟩)
  have hslot : Holding.targets (w.writeSlot s content) (.slot s) =
      (content.targets : Multiset ObjId) := by
    rw [Holding.targets, slotAt_writeSlot_self hlt]
  rw [refs, refs, ledger_writeSlot, hrest, Multiset.cons_bind, Multiset.cons_bind, hslot,
    bind_targets_writeSlot hnot]
  simp only [Holding.targets, Multiset.count_add, Multiset.coe_count]
  omega

/-- Writing `content` to the slot `s` of the live object `p` puts the `added` references into the slot
and takes the `removed` ones out. -/
structure Exchange (w : World) (p : ObjId) (s : SlotId) (content : Slot)
    (added removed : Multiset ObjId) : Prop where
  live : w.isLive p = true
  reported : s ∈ (w.valueAt p).connectSlots
  targets_eq : (content.targets : Multiset ObjId) + removed =
    ((w.slotAt s).targets : Multiset ObjId) + added
  added_live : ∀ c ∈ added, w.isLive c = true
  added_owned : ∀ c ∈ added, ∀ g, w.owns g p = true → w.owns g c = true

namespace Exchange

variable {p : ObjId} {added removed : Multiset ObjId}

theorem count_targets (hx : w.Exchange p s content added removed) (x : ObjId) :
    content.targets.count x + removed.count x =
      (w.slotAt s).targets.count x + added.count x := by
  have := congrArg (Multiset.count x) hx.targets_eq
  simpa only [Multiset.count_add, Multiset.coe_count] using this

theorem mem_out (hx : w.Exchange p s content added removed) {c : ObjId}
    (hc : c ∈ (w.slotAt s).targets) : c ∈ w.out p :=
  World.mem_out.mpr ⟨s, hx.reported, hc⟩

theorem mem_targets (hx : w.Exchange p s content added removed) {c : ObjId}
    (hc : c ∈ content.targets) : c ∈ (w.slotAt s).targets ∨ c ∈ added := by
  have := hx.count_targets c
  have := List.count_pos_iff.mpr hc
  by_cases hadded : c ∈ added
  · exact .inr hadded
  · have := Multiset.count_eq_zero.mpr hadded
    exact .inl (List.count_pos_iff.mp (by omega))

theorem mem_ledger (hx : w.Exchange p s content added removed) : .slot s ∈ w.ledger todo held :=
  mem_ledger_of_live hx.live (Value.mem_holdings_of_reported hx.reported)

theorem guarded (hx : w.Exchange p s content added removed) (h : w.Guarded todo held)
    (hnodup : ((w.ledger todo held).bind Holding.slots).Nodup) :
    (w.writeSlot s content).Guarded todo held := by
  have hlive {c : ObjId} (hc : c ∈ content.targets) : w.isLive c = true :=
    (hx.mem_targets hc).elim (fun hc => h.live_of_out hx.live (hx.mem_out hc)) (hx.added_live c)
  have htargets (x : Holding) {c : ObjId} (hc : c ∈ x.targets (w.writeSlot s content)) :
      c ∈ content.targets ∨ c ∈ x.targets w := by
    cases x with
    | slot s' =>
        by_cases hss : s' = s
        · subst hss
          by_cases hlt : s' < w.slots.size
          · exact .inl (by simpa [Holding.targets, slotAt_writeSlot_self hlt] using hc)
          · refine .inr ?_
            simpa [Holding.targets, World.writeSlot, slotAt, hlt] using hc
        · exact .inr (by simpa [Holding.targets, slotAt_writeSlot_of_ne hss] using hc)
    | weak | root => exact .inr hc
  refine ⟨h.matched, h.heap_some, h.verify, fun q hq c hc g hown => ?_, fun q hq x hxq c hc => ?_,
    fun x hxq c hc => ?_, h.handle_owned, h.buried, h.dropped⟩
  · by_cases hqp : q = p
    · obtain ⟨s', hs', hc'⟩ := World.mem_out.mp hc
      subst hqp
      rcases htargets (.slot s') hc' with hc' | hc'
      · rcases hx.mem_targets hc' with hc' | hc'
        · exact h.closed q hq c (hx.mem_out hc') g hown
        · exact hx.added_owned c hc' g hown
      · exact h.closed q hq c (World.mem_out.mpr ⟨s', hs', hc'⟩) g hown
    · rw [out_writeSlot_of_ne h.matched hnodup hx.live hq hx.reported hqp] at hc
      exact h.closed q hq c hc g hown
  · exact (htargets x hc).elim hlive (h.value_live q hq x hxq c)
  · exact (htargets x hc).elim hlive (h.held_live x hxq c)

/-- A root that tags `p` keeps its counts and trades support for edges; one that does not keeps
everything. -/
theorem tallied (hx : w.Exchange p s content added removed) (h : w.Tallied ts support)
    (hg : w.Guarded todo held) (hnodup : ((w.ledger todo held).bind Holding.slots).Nodup)
    (hlt : s < w.slots.size)
    (htrade : ∀ r, 0 < ts.count p r →
      ∀ o, support r o + removed.count o = support' r o + added.count o)
    (huntagged : ∀ r, ts.count p r = 0 → ∀ o, support' r o = support r o)
    (hroot : ∀ r, 0 < ts.count p r → ∃ o, 0 < support' r o ∧ Reach w.out o p) :
    (w.writeSlot s content).Tallied ts support' := by
  have hothers {q : ObjId} {r : RootId} (hq : 0 < ts.count q r) (hqp : q ≠ p) :
      (w.writeSlot s content).out q = w.out q :=
    out_writeSlot_of_ne hg.matched hnodup hx.live (h.live_of_count hg hq) hx.reported hqp
  refine ⟨h.size_eq, fun r => ?_, fun r o ho => ?_⟩
  · by_cases hpr : 0 < ts.count p r
    · -- first only the edges of `p` change, then those of objects that `r` does not reach
      have hrewired : Balanced (Function.update w.out p ((w.writeSlot s content).out p)) r
          (support' r) ts := by
        refine (h.balanced r).rewire hpr (fun q hq => Function.update_of_ne hq _ _)
          (fun o => ?_) (hroot r hpr)
        have hedges : (w.out p).count o + content.targets.count o =
            ((w.writeSlot s content).out p).count o + (w.slotAt s).targets.count o :=
          count_out_writeSlot hx.reported (hg.matched p).nodup hlt o
        have := htrade r hpr o
        have := hx.count_targets o
        rw [Function.update_self]
        omega
      refine hrewired.congr_edges fun q hq => ?_
      by_cases hqp : q = p
      · rw [hqp, Function.update_self]
      · rw [Function.update_of_ne hqp, hothers hq hqp]
    · have hpr : ts.count p r = 0 := by omega
      refine ((h.balanced r).congr_support (huntagged r hpr)).congr_edges fun q hq => ?_
      rw [hothers hq]
      rintro rfl
      omega
  · by_cases hpr : 0 < ts.count p r
    · by_cases hold : 0 < support r o
      · exact h.supported r o hold
      · have := htrade r hpr o
        have := hx.count_targets o
        exact hg.live_of_out hx.live (hx.mem_out (List.count_pos_iff.mp (by omega)))
    · exact h.supported r o (huntagged r (by omega) o ▸ ho)

/-- Neither `p` nor what goes into its slot is an anchor, since roots reach them. -/
theorem anchored (hx : w.Exchange p s content added removed)
    (h : w.Anchored ts suspects (added.map .release + todo) held) (hg : w.Guarded todo held)
    (hnodup : ((w.ledger todo held).bind Holding.slots).Nodup) (hempty : ts.isEmptyAt p = false)
    (hadded : ∀ c ∈ added, ts.isEmptyAt c = false) :
    (w.writeSlot s content).Anchored ts suspects (removed.map .release + todo) held := by
  have hne {q : ObjId} (hq : w.candidateIn ts q = true) : q ≠ p := by
    rintro rfl
    rw [(candidateIn_iff.mp hq).2] at hempty
    cases hempty
  refine h.transfer (fun g o hc hown hexists => .inl ⟨hc, hown, hexists⟩)
    (fun q c hq hc _ => ⟨hq, ?_⟩) fun y hy hsource => ⟨y, ?_, hy, .refl⟩
  · rwa [out_writeSlot_of_ne hg.matched hnodup hx.live (candidateIn_iff.mp hq).1 hx.reported
      (hne hq)]
  · refine hsource.imp id fun hmem => ?_
    rw [outer_add_tasks, bind_holdings_releases, Multiset.zero_bind, bind_released_releases,
      Multiset.zero_add] at hmem ⊢
    rw [outer_writeSlot (notMem_offGraph hg.matched hnodup hx.live hx.reported)]
    rcases Multiset.mem_add.mp hmem with hmem | hmem
    · have := hadded y hmem
      rw [(candidateIn_iff.mp hy).2] at this
      cases this
    · exact Multiset.mem_add.mpr (.inr hmem)

end Exchange

theorem ledger_add_releases (os : Multiset ObjId) :
    w.ledger (os.map .release + todo) held = w.ledger todo held := by
  rw [ledger_add_tasks, bind_holdings_releases, Multiset.zero_add]

theorem refs_add_releases (os : Multiset ObjId) :
    w.refs (os.map .release + todo) held = os + w.refs todo held := by
  rw [refs_add_tasks, bind_holdings_releases, Multiset.zero_bind, bind_released_releases,
    Multiset.zero_add]

/-- Guarding does not depend on references that are on their way. -/
theorem Guarded.dropReleases {os : Multiset ObjId}
    (h : w.Guarded (os.map .release + todo) held) : w.Guarded todo held where
  matched := h.matched
  heap_some := h.heap_some
  verify := h.verify
  closed := h.closed
  value_live := h.value_live
  held_live := h.held_live
  handle_owned a ha := h.handle_owned a (by rwa [ledger_add_releases])
  buried u hu := h.buried u (Multiset.mem_add.mpr (.inr hu))
  dropped := h.dropped

theorem Guarded.addReleases (h : w.Guarded todo held) (os : Multiset ObjId) :
    w.Guarded (os.map .release + todo) held := by
  refine h.addTasks _ (bind_holdings_releases _) ?_
  intro t ht
  obtain ⟨o, _, rfl⟩ := Multiset.mem_map.mp ht
  rfl

/-- A slot of an object that roots reach is written. The `added` references were on their way before,
the `removed` ones are from now on. -/
theorem Sound.writeSlot {p : ObjId} {added removed : Multiset ObjId}
    (h : w.Sound ts strong support suspects (added.map .release + todo) held owed)
    (hx : w.Exchange p s content added removed)
    (hempty : ts.isEmptyAt p = false) (hadded : ∀ c ∈ added, ts.isEmptyAt c = false)
    (htrade : ∀ r, 0 < ts.count p r →
      ∀ o, support r o + removed.count o = support' r o + added.count o)
    (huntagged : ∀ r, ts.count p r = 0 → ∀ o, support' r o = support r o)
    (hroot : ∀ r, 0 < ts.count p r → ∃ o, 0 < support' r o ∧ Reach w.out o p) :
    (w.writeSlot s content).Sound ts strong support' suspects (removed.map .release + todo) held
      owed := by
  have hg := h.guarded.dropReleases
  -- releases are references on their way, but own no slots and no roots
  have hledger : w.ledger (added.map .release + todo) held = w.ledger todo held :=
    ledger_add_releases added
  have ha : w.Accounted (fun o => (w.refs todo held).count o) todo held :=
    h.accounted.of_ledger hledger.symm fun _ => rfl
  have hlt : s < w.slots.size :=
    ha.slots_lt s (Multiset.mem_bind.mpr ⟨.slot s, hx.mem_ledger, Multiset.mem_singleton_self s⟩)
  refine ⟨⟨fun x => ?_, ?_, ?_, fun s' hs' => ?_, fun g => ?_, ha.roots_nodup, ha.roots_lt,
    ha.live_eq⟩,
    (hx.guarded hg ha.slots_nodup).addReleases removed,
    hx.tallied h.tallied hg ha.slots_nodup hlt htrade huntagged hroot,
    hx.anchored h.anchored hg ha.slots_nodup hempty hadded, h.attended⟩
  · have hrefs : ((w.writeSlot s content).refs todo held).count x +
        (w.slotAt s).targets.count x =
          (w.refs todo held).count x + content.targets.count x :=
      ha.count_refs_writeSlot hx.mem_ledger x
    have := hx.count_targets x
    rw [h.accounted.strong_eq, refs_add_releases, refs_add_releases, Multiset.count_add,
      Multiset.count_add]
    omega
  · rw [ledger_add_releases]
    exact ha.slots_nodup
  · rw [ledger_add_releases, size_slots_writeSlot]
    exact ha.slots_lt
  · rw [ledger_add_releases] at hs'
    have hne : s' ≠ s := by
      rintro rfl
      exact hs' (Multiset.mem_bind.mpr ⟨.slot s', hx.mem_ledger, Multiset.mem_singleton_self s'⟩)
    rw [slotAt_writeSlot_of_ne hne]
    exact ha.slots_idle s' hs'
  · rw [ledger_add_releases]
    exact ha.roots_eq g

end Write

/-! ## Roots -/

/-- Replace the registry of heap `h`. -/
def setRegistry (w : World) (h : HeapId) (roots : Registry) : World :=
  w.modifyHeap h fun heap => { heap with roots := roots }

section Registry

variable {g : HeapId} {heap : Heap} {roots : Registry}

theorem heaps_setRegistry (g' : HeapId) :
    (w.setRegistry g roots).heaps[g']? =
      (w.heaps[g']?).map fun heap => if g' = g then { heap with roots := roots } else heap :=
  heaps_modifyHeap g'

theorem registryAt_setRegistry (hheap : w.heaps[g]? = some heap) (g' : HeapId) :
    (w.setRegistry g roots).registryAt g' = if g' = g then roots else w.registryAt g' := by
  unfold registryAt
  rw [heaps_setRegistry]
  by_cases hg : g' = g
  · subst hg
    simp [hheap]
  · cases w.heaps[g']? <;> simp [hg]

theorem rootsAt_setRegistry (hheap : w.heaps[g]? = some heap) (g' : HeapId) :
    (w.setRegistry g roots).rootsAt g' = if g' = g then roots.active else w.rootsAt g' := by
  rw [rootsAt, registryAt_setRegistry hheap]
  split <;> rfl

theorem holdersAt_setRegistry : (w.setRegistry g roots).holdersAt = w.holdersAt :=
  holdersAt_modifyHeap fun _ => rfl

theorem heapExists_setRegistry : (w.setRegistry g roots).heapExists = w.heapExists :=
  heapExists_modifyHeap fun _ => rfl

theorem registryAt_eq (hheap : w.heaps[g]? = some heap) : w.registryAt g = heap.roots := by
  simp [registryAt, hheap]

theorem rootsAt_eq (hheap : w.heaps[g]? = some heap) : w.rootsAt g = heap.roots.active := by
  rw [rootsAt, registryAt_eq hheap]

/-- Another registry for heap `g` suits a world when it has the roots of the handles there are to
be. -/
theorem Accounted.setRegistry {todo' : Multiset Task} {held' : Multiset Holding}
    (h : w.Accounted strong todo held) (hheap : w.heaps[g]? = some heap)
    (hrefs : w.refs todo' held' = w.refs todo held)
    (hslots : (w.ledger todo' held').bind Holding.slots =
      (w.ledger todo held).bind Holding.slots)
    (hentries : (roots.active : Multiset (RootId × ObjId)) =
      (w.ledger todo' held').bind (Holding.entries g))
    (hothers : ∀ g', g' ≠ g → (w.ledger todo' held').bind (Holding.entries g') =
      (w.ledger todo held).bind (Holding.entries g'))
    (hnodup : (roots.active.map Prod.fst).Nodup) (hlt : ∀ e ∈ roots.active, e.1 < roots.next) :
    (w.setRegistry g roots).Accounted strong todo' held' where
  strong_eq o := by
    rw [h.strong_eq]
    exact congrArg (Multiset.count o) hrefs.symm
  slots_nodup := by
    refine (?_ : ((w.ledger todo' held').bind Holding.slots).Nodup)
    exact hslots ▸ h.slots_nodup
  slots_lt := by
    refine (?_ : ∀ s ∈ (w.ledger todo' held').bind Holding.slots, s < w.slots.size)
    exact hslots ▸ h.slots_lt
  slots_idle := by
    refine (?_ : ∀ s ∉ (w.ledger todo' held').bind Holding.slots, (w.slotAt s).targets = [])
    exact hslots ▸ h.slots_idle
  roots_eq g' := by
    refine (?_ : ((w.setRegistry g roots).rootsAt g' : Multiset (RootId × ObjId)) =
      (w.ledger todo' held').bind (Holding.entries g'))
    rw [rootsAt_setRegistry hheap]
    split
    next hg => rw [hg, hentries]
    next hg => rw [h.roots_eq g', hothers g' hg]
  roots_nodup g' := by
    rw [rootsAt_setRegistry hheap]
    split
    next => exact hnodup
    next => exact h.roots_nodup g'
  roots_lt g' := by
    rw [rootsAt_setRegistry hheap, registryAt_setRegistry hheap]
    split
    next => exact hlt
    next => exact h.roots_lt g'
  live_eq g' heap' hheap' := by
    rw [heaps_setRegistry] at hheap'
    obtain ⟨heap₀, hheap₀, rfl⟩ := Option.map_eq_some_iff.mp hheap'
    have := h.live_eq g' heap₀ hheap₀
    split <;> exact this

theorem Guarded.setRegistry {todo' : Multiset Task} {held' : Multiset Holding}
    (h : w.Guarded todo held)
    (hheld : ∀ x ∈ held', ∀ c ∈ x.targets w, w.isLive c = true)
    (hhandle : ∀ a, .root a ∈ w.ledger todo' held' → w.owns a.heap a.obj = true)
    (hburied : ∀ t ∈ todo', ∀ o, t.buries = some o → w.Gone o) :
    (w.setRegistry g roots).Guarded todo' held' where
  matched := h.matched
  heap_some g' o ho := by
    obtain ⟨heap', hheap'⟩ := h.heap_some g' o ho
    rw [heaps_setRegistry, hheap']
    exact ⟨_, rfl⟩
  verify g' heap' hheap' := by
    rw [heaps_setRegistry] at hheap'
    obtain ⟨heap₀, hheap₀, rfl⟩ := Option.map_eq_some_iff.mp hheap'
    have := h.verify g' heap₀ hheap₀
    split <;> exact this
  closed := h.closed
  value_live := h.value_live
  held_live := hheld
  handle_owned := hhandle
  buried := hburied
  dropped := h.dropped

/-- A sound world stays sound with another registry for heap `g` if that suits the handles there are
to be, and no anchor goes. What is owed makes up for the roots that come or go. -/
theorem Sound.setRegistry {todo' : Multiset Task} {held' : Multiset Holding} {owed' : HeapId → ℤ}
    (h : w.Sound ts strong support suspects todo held owed) (hheap : w.heaps[g]? = some heap)
    (haccounted : (w.setRegistry g roots).Accounted strong todo' held')
    (hguarded : (w.setRegistry g roots).Guarded todo' held')
    (houter : ∀ o ∈ w.outer todo held, o ∈ w.outer todo' held')
    (howed : ∀ g', owed' g' =
      owed g' + if g' = g then (heap.roots.active.length : ℤ) - roots.active.length else 0) :
    (w.setRegistry g roots).Sound ts strong support suspects todo' held' owed' := by
  refine ⟨haccounted, hguarded, ⟨h.tallied.size_eq, h.tallied.balanced, h.tallied.supported⟩, ?_,
    fun g' => ?_⟩
  · refine h.anchored.transfer (fun g' o hc ho hexists => .inl ⟨hc, ho, ?_⟩)
      (fun p c hp hc _ => ⟨hp, hc⟩) fun y hy hsource => ⟨y, hsource.imp id (houter y), hy, .refl⟩
    rwa [heapExists_setRegistry] at hexists
  · rw [holdersAt_setRegistry, rootsAt_setRegistry hheap, h.attended g', howed]
    split
    next hg =>
      rw [hg, rootsAt_eq hheap]
      omega
    next => omega

/-- A reference on its way buries nothing. -/
theorem Guarded.buried_cons_release {t : ObjId}
    (hburied : ∀ u ∈ todo, ∀ o, u.buries = some o → w.Gone o) :
    ∀ u ∈ (.release t ::ₘ todo : Multiset Task), ∀ o, u.buries = some o → w.Gone o := by
  intro u hu o ho
  rcases Multiset.mem_cons.mp hu with rfl | hu
  · cases ho
  · exact hburied u hu o ho

/-- A new root is registered for an object that a reference on its way points at; the reference and
the root are the client's from now on. -/
theorem Sound.acquire {t : ObjId}
    (h : w.Sound ts strong support suspects (.release t ::ₘ todo) held owed)
    (hheap : w.heaps[g]? = some heap) (ht : w.isLive t = true) (hown : w.owns g t = true) :
    (w.setRegistry g (heap.roots.acquire t).2).Sound ts strong support suspects todo
      (.root ⟨t, heap.roots.next, g⟩ ::ₘ held) fun g' => owed g' - if g' = g then 1 else 0 := by
  have hlt := h.accounted.roots_lt g
  rw [rootsAt_eq hheap, registryAt_eq hheap] at hlt
  have hroots := h.accounted.roots_eq g
  rw [rootsAt_eq hheap, ledger_cons_release] at hroots
  refine h.setRegistry hheap (h.accounted.setRegistry hheap ?_ ?_ ?_ ?_ ?_ ?_)
    (h.guarded.setRegistry ?_ ?_ ?_) ?_ fun g' => ?_
  · rw [refs_cons_held, refs_cons_release]
    rfl
  · rw [ledger_cons_held, ledger_cons_release, Multiset.cons_bind, Holding.slots,
      Multiset.zero_add]
  · rw [ledger_cons_held, Multiset.cons_bind, ← hroots]
    simp [Registry.acquire, Holding.entries]
  · intro g' hg
    rw [ledger_cons_held, ledger_cons_release, Multiset.cons_bind]
    simp [Holding.entries, Ne.symm hg]
  · refine List.nodup_cons.mpr ⟨?_, ?_⟩
    · intro hmem
      obtain ⟨e, he, heq⟩ := List.mem_map.mp hmem
      exact Nat.lt_irrefl _ (heq ▸ hlt e he)
    · have := h.accounted.roots_nodup g
      rwa [rootsAt_eq hheap] at this
  · intro e he
    rcases List.mem_cons.mp he with rfl | he
    · exact Nat.lt_succ_self _
    · exact Nat.lt_succ_of_lt (hlt e he)
  · intro x hx c hc
    rcases Multiset.mem_cons.mp hx with rfl | hx
    · rw [Multiset.mem_singleton.mp hc]
      exact ht
    · exact h.guarded.held_live x hx c hc
  · intro a ha
    rw [ledger_cons_held] at ha
    rcases Multiset.mem_cons.mp ha with heq | ha
    · cases heq
      exact hown
    · exact h.guarded.handle_owned a (by rwa [ledger_cons_release])
  · exact fun u hu => h.guarded.buried u (Multiset.mem_cons_of_mem hu)
  · -- the new root holds what the reference held that was on its way
    rw [outer_cons_release, outer_cons_held]
    exact fun _ => id
  · simp only [Registry.acquire, List.length_cons, Nat.cast_add, Nat.cast_one]
    split <;> omega

/-- What handles there are is registered. -/
theorem Accounted.target?_of_mem (h : w.Accounted strong todo held)
    (hheap : w.heaps[g]? = some heap) {a : Handle} (ha : .root a ∈ w.ledger todo held)
    (hg : a.heap = g) : heap.roots.target? a.root = some a.obj := by
  have hnodup := h.roots_nodup g
  have hroots := h.roots_eq g
  rw [rootsAt_eq hheap] at hnodup hroots
  refine (Registry.target?_eq_some_iff hnodup).mpr ?_
  rw [← Multiset.mem_coe, hroots]
  exact Multiset.mem_bind.mpr ⟨.root a, ha, by simp [Holding.entries, hg]⟩

theorem Accounted.exists_heap (h : w.Accounted strong todo held) {a : Handle}
    (ha : .root a ∈ w.ledger todo held) : ∃ heap, w.heaps[a.heap]? = some heap := by
  have hmem : (a.root, a.obj) ∈ w.rootsAt a.heap := by
    rw [← Multiset.mem_coe, h.roots_eq]
    exact Multiset.mem_bind.mpr ⟨.root a, ha, by simp [Holding.entries]⟩
  unfold rootsAt registryAt at hmem
  cases hheap : w.heaps[a.heap]? with
  | none => simp [hheap, Registry.empty] at hmem
  | some heap => exact ⟨heap, rfl⟩

/-- Withdrawing the root of one of the handles there are leaves those of the others. -/
theorem Accounted.without_eq (h : w.Accounted strong todo held) (hheap : w.heaps[g]? = some heap)
    {a : Handle} (hg : a.heap = g) {rest : Multiset Holding}
    (hledger : w.ledger todo held = .root a ::ₘ rest) :
    ((heap.roots.without a.root).active : Multiset (RootId × ObjId)) =
      rest.bind (Holding.entries g) := by
  have hnodup := h.roots_nodup g
  have hroots := h.roots_eq g
  have hmem : (a.root, a.obj) ∈ heap.roots.active := by
    refine (Registry.target?_eq_some_iff ?_).mp (h.target?_of_mem hheap ?_ hg)
    · rwa [rootsAt_eq hheap] at hnodup
    · rw [hledger]
      exact Multiset.mem_cons_self _ _
  rw [rootsAt_eq hheap] at hnodup hroots
  rw [Registry.without_eq_erase hnodup hmem, hroots, hledger, Multiset.cons_bind]
  simp [Holding.entries, hg]

/-- The root of a handle that goes is withdrawn; its reference is on its way. -/
theorem Sound.withdraw {a : Handle}
    (h : w.Sound ts strong support suspects (.dropHandle a ::ₘ todo) held owed)
    (hheap : w.heaps[a.heap]? = some heap) :
    (w.setRegistry a.heap (heap.roots.without a.root)).Sound ts strong support suspects
      (.release a.obj ::ₘ todo) held fun g => owed g + if g = a.heap then 1 else 0 := by
  have hledger : w.ledger (.dropHandle a ::ₘ todo) held = .root a ::ₘ w.ledger todo held := by
    rw [ledger_cons_task, Task.holdings, Multiset.singleton_add]
  have hwithout := h.accounted.without_eq hheap rfl hledger
  refine h.setRegistry hheap (h.accounted.setRegistry hheap ?_ ?_ ?_ ?_ ?_ ?_)
    (h.guarded.setRegistry h.guarded.held_live ?_ ?_) ?_ fun g' => ?_
  · rw [refs_cons_release, refs_cons_task]
    simp [Task.holdings, Task.released, Holding.targets]
  · rw [ledger_cons_release, hledger, Multiset.cons_bind, Holding.slots, Multiset.zero_add]
  · rw [ledger_cons_release]
    exact hwithout
  · intro g' hg
    rw [ledger_cons_release, hledger, Multiset.cons_bind]
    simp [Holding.entries, Ne.symm hg]
  · have := h.accounted.roots_nodup a.heap
    rw [rootsAt_eq hheap] at this
    exact this.sublist (List.filter_sublist.map Prod.fst)
  · intro e he
    have := h.accounted.roots_lt a.heap e
    rw [rootsAt_eq hheap, registryAt_eq hheap] at this
    exact this (List.mem_of_mem_filter he)
  · intro b hb
    refine h.guarded.handle_owned b ?_
    rw [ledger_cons_release] at hb
    rw [hledger]
    exact Multiset.mem_cons_of_mem hb
  · exact Guarded.buried_cons_release fun u hu => h.guarded.buried u (Multiset.mem_cons_of_mem hu)
  · -- the object is still referred to, now from outside
    rw [outer_cons_task, outer_cons_release]
    simp [Task.holdings, Task.released, Holding.targets]
  · have hlength := congrArg Multiset.card hwithout
    have hbefore := congrArg Multiset.card (h.accounted.roots_eq a.heap)
    rw [hledger, Multiset.cons_bind, rootsAt_eq hheap] at hbefore
    simp only [Holding.entries, if_true, Multiset.card_add, Multiset.card_singleton,
      Multiset.coe_card] at hlength hbefore
    split <;> omega

/-- The root of a handle is redirected to the object that a reference on its way points at; the
reference to its former object is on its way instead. -/
theorem Sound.redirect {a : Handle} {t : ObjId}
    (h : w.Sound ts strong support suspects (.release t ::ₘ todo) (.root a ::ₘ held) owed)
    (hheap : w.heaps[a.heap]? = some heap) (ht : w.isLive t = true)
    (hown : w.owns a.heap t = true) :
    (w.setRegistry a.heap (heap.roots.redirect a.root t)).Sound ts strong support suspects
      (.release a.obj ::ₘ todo) (.root { a with obj := t } ::ₘ held) owed := by
  have hledger : w.ledger (.release t ::ₘ todo) (.root a ::ₘ held) =
      .root a ::ₘ w.ledger todo held := by
    rw [ledger_cons_release, ledger_cons_held]
  have hmem : .root a ∈ w.ledger (.release t ::ₘ todo) (.root a ::ₘ held) := by
    rw [hledger]
    exact Multiset.mem_cons_self _ _
  -- the root stands in the registry once, so redirecting it is taking it out and putting it back
  have hnodup := h.accounted.roots_nodup a.heap
  have hlt := h.accounted.roots_lt a.heap
  rw [rootsAt_eq hheap] at hnodup hlt
  rw [registryAt_eq hheap] at hlt
  have hregistered : (a.root, a.obj) ∈ heap.roots.active :=
    (Registry.target?_eq_some_iff hnodup).mp (h.accounted.target?_of_mem hheap hmem rfl)
  have hwithout := h.accounted.without_eq hheap rfl hledger
  refine h.setRegistry hheap (h.accounted.setRegistry hheap ?_ ?_ ?_ ?_ ?_ ?_)
    (h.guarded.setRegistry ?_ ?_ ?_) ?_ fun g' => ?_
  · rw [refs_cons_release, refs_cons_release, refs_cons_held, refs_cons_held]
    simp only [Holding.targets, Multiset.singleton_add]
    exact Multiset.cons_swap _ _ _
  · rw [hledger, ledger_cons_release, ledger_cons_held, Multiset.cons_bind, Multiset.cons_bind]
    rfl
  · rw [Registry.redirect_eq_cons hnodup hregistered, hwithout, ledger_cons_release,
      ledger_cons_held, Multiset.cons_bind]
    simp [Holding.entries]
  · intro g' hg
    rw [hledger, ledger_cons_release, ledger_cons_held, Multiset.cons_bind, Multiset.cons_bind]
    simp [Holding.entries, Ne.symm hg]
  · rwa [Registry.keys_redirect]
  · intro e he
    have hfst : e.1 ∈ heap.roots.active.map Prod.fst :=
      Registry.keys_redirect ▸ List.mem_map_of_mem he
    obtain ⟨e', he', heq⟩ := List.mem_map.mp hfst
    exact heq ▸ hlt e' he'
  · intro x hx c hc
    rcases Multiset.mem_cons.mp hx with rfl | hx
    · rw [Multiset.mem_singleton.mp hc]
      exact ht
    · exact h.guarded.held_live x (Multiset.mem_cons_of_mem hx) c hc
  · intro b hb
    rw [ledger_cons_release, ledger_cons_held] at hb
    rcases Multiset.mem_cons.mp hb with heq | hb
    · cases heq
      exact hown
    · refine h.guarded.handle_owned b ?_
      rw [hledger]
      exact Multiset.mem_cons_of_mem hb
  · exact Guarded.buried_cons_release fun u hu => h.guarded.buried u (Multiset.mem_cons_of_mem hu)
  · intro y hy
    rw [outer_cons_release, outer_cons_held] at hy ⊢
    simp only [Holding.targets, Multiset.mem_cons, Multiset.mem_add,
      Multiset.mem_singleton] at hy ⊢
    tauto
  · rw [Registry.redirect, List.length_map]
    simp

/-! ## The support that registered roots give -/

theorem support_setRegistry (hheap : w.heaps[g]? = some heap) (r : RootId) (o : ObjId) :
    (w.setRegistry g roots).support r o =
      if w.owns g o = true then (roots.active : Multiset (RootId × ObjId)).count (r, o)
      else w.support r o := by
  have hobjects : (w.setRegistry g roots).objects[o]? = w.objects[o]? := rfl
  unfold support owns
  rw [hobjects]
  cases w.objects[o]? with
  | none => simp
  | some ob =>
      simp only [rootsAt_setRegistry hheap, decide_eq_true_eq]
      split <;> rfl

theorem support_acquire (hheap : w.heaps[g]? = some heap) {t : ObjId} (hown : w.owns g t = true)
    (r : RootId) (o : ObjId) :
    (w.setRegistry g (heap.roots.acquire t).2).support r o =
      w.support r o + if r = heap.roots.next ∧ o = t then 1 else 0 := by
  rw [support_setRegistry hheap]
  by_cases ho : w.owns g o = true
  · rw [if_pos ho, support_of_owns ho, rootsAt_eq hheap, Registry.acquire, ← Multiset.cons_coe,
      Multiset.count_cons]
    simp only [Prod.mk.injEq]
  · have hot : o ≠ t := fun heq => ho (heq ▸ hown)
    rw [if_neg ho]
    simp [hot]

theorem support_withdraw (hheap : w.heaps[g]? = some heap)
    (hnodup : (heap.roots.active.map Prod.fst).Nodup) {q : RootId} {t : ObjId}
    (hmem : (q, t) ∈ heap.roots.active) (hown : w.owns g t = true) (r : RootId) (o : ObjId) :
    w.support r o =
      (w.setRegistry g (heap.roots.without q)).support r o + if r = q ∧ o = t then 1 else 0 := by
  rw [support_setRegistry hheap]
  by_cases ho : w.owns g o = true
  · have hpos : 0 < (heap.roots.active : Multiset (RootId × ObjId)).count (q, t) :=
      Multiset.count_pos.mpr hmem
    rw [if_pos ho, support_of_owns ho, rootsAt_eq hheap, Registry.without_eq_erase hnodup hmem]
    by_cases heq : r = q ∧ o = t
    · rw [heq.1, heq.2, Multiset.count_erase_self]
      simp only [and_self, if_true]
      omega
    · have hne : (r, o) ≠ (q, t) := fun h => heq (Prod.mk.inj h)
      rw [Multiset.count_erase_of_ne hne, if_neg heq, Nat.add_zero]
  · have hot : o ≠ t := fun heq => ho (heq ▸ hown)
    rw [if_neg ho]
    simp [hot]

theorem support_redirect (hheap : w.heaps[g]? = some heap)
    (hnodup : (heap.roots.active.map Prod.fst).Nodup) {q : RootId} {old t : ObjId}
    (hmem : (q, old) ∈ heap.roots.active) (hold : w.owns g old = true) (ht : w.owns g t = true)
    (r : RootId) (o : ObjId) :
    (w.setRegistry g (heap.roots.redirect q t)).support r o +
        (if r = q ∧ o = old then 1 else 0) =
      w.support r o + if r = q ∧ o = t then 1 else 0 := by
  have hwithdraw := support_withdraw hheap hnodup hmem hold r o
  rw [support_setRegistry hheap] at hwithdraw ⊢
  by_cases ho : w.owns g o = true
  · rw [if_pos ho] at hwithdraw
    rw [if_pos ho, Registry.redirect_eq_cons hnodup hmem, Multiset.count_cons]
    simp only [Prod.mk.injEq]
    omega
  · have hot : o ≠ t := fun heq => ho (heq ▸ ht)
    have hoo : o ≠ old := fun heq => ho (heq ▸ hold)
    rw [if_neg ho]
    simp [hot, hoo]

end Registry

end RootedHeap.World
