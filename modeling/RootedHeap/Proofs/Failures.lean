import RootedHeap.Proofs.Collection

/-! # What can fail

A client whose calls do not stray into other heaps is only ever refused by checks that come before
anything else (`Client.Abides.fails_up_front`). Whatever is under way comes to its end, no assertion
of the collector fails, and no handle is found to be stale.
-/

namespace RootedHeap

open World

/-- The states of a client whose calls do not stray. It goes on whatever comes of them. -/
inductive Client.Abides : Client → Prop
  | start : Abides {}
  | ran {c : Client} {call : Call} {r : Receipt} {w : World} (h : Abides c) (hrest : c.AtRest)
      (hallowed : call.Allowed c) (hstays : ¬ call.Strays c.world)
      (hrun : call.run c.world = .ok r w) : Abides (c.after call r w)
  | failed {c : Client} {call : Call} {f : Fault} {w : World} (h : Abides c) (hrest : c.AtRest)
      (hallowed : call.Allowed c) (hstays : ¬ call.Strays c.world)
      (hrun : call.run c.world = .error f w) : Abides { c with world := w }
  | opened {c : Client} {call : Call} {r : Receipt} {tasks : List Task} {w : World} (h : Abides c)
      (hrest : c.AtRest) (hallowed : call.Allowed c) (hstays : ¬ call.Strays c.world)
      (hstart : call.start c.world = .ok (r, tasks) w) : Abides (c.opened call r tasks w)
  | stepped {c : Client} {t : Task} {rest more : List Task} {w : World} (h : Abides c)
      (htodo : c.todo = t :: rest) (hstep : t.step c.world = .ok more w) :
      Abides { c with world := w, todo := more ++ rest }

/-! ## Trial deletions look up only what they examined -/

section Trial

variable {size : Nat} {succ : ObjId → List ObjId} {support : ObjId → Nat} {stack : List ObjId}

/-- A trial deletion keeps none but objects that it examined. -/
theorem kept_subset_order (hsucc : ∀ o, ∀ c ∈ succ o, c < size) {o : ObjId}
    (ho : o ∈ (trial size succ support stack).kept) : o ∈ (trial size succ support stack).order := by
  -- what is kept is led to by an examined object, and the examination is closed
  obtain ⟨s, hs, -, hreach⟩ := (mem_kept_iff hsucc).mp ho
  clear ho
  induction hreach with
  | refl => exact hs
  | tail _ hstep ih => exact explore_closed.2 _ ih _ hstep (Marks.free_clear.mpr (hsucc _ _ hstep))

end Trial

theorem mem_order_orphanTrial {edges : ObjId → List ObjId} {r : RootId} {candidates : List ObjId}
    {ts : Tallies} {o : ObjId} (ho : o ∈ (orphanTrial edges r candidates ts).kept) :
    o ∈ (orphanTrial edges r candidates ts).order :=
  kept_subset_order (fun _ _ hc => lt_size_of_mem_inside hc) ho

theorem World.mem_order_garbage {w : World} {unrooted : List ObjId} {o : ObjId}
    (ho : o ∈ (w.garbage unrooted).kept) : o ∈ (w.garbage unrooted).order := by
  apply kept_subset_order _ ho
  intro p c hc
  exact lt_size_of_isLive (candidateIn_iff.mp (List.mem_filter.mp hc).2).1

namespace Client

variable {c : Client}

/-- A handle that the client can get at, or is about to get, can be dereferenced. -/
theorem Sound.fresh (h : c.Sound) {a : Handle} (ha : c.Sees (.root a) ∨ a ∈ c.incoming) :
    a.deref c.world = .ok () c.world := by
  have hmem : .root a ∈ c.world.ledger c.todo c.holds := by
    rcases ha with ha | ha
    · exact h.orderly.mem_ledger_holds ha
    · exact mem_ledger_of_held (Multiset.mem_add.mpr (.inl (List.mem_map_of_mem ha)))
  exact Handle.deref_of_live (World.Sound.handle h.orderly.steady hmem).1

/-- A call that does not stray is refused up front at most. -/
theorem Reached.upFront (h : c.Reached) (hrest : c.AtRest) {call : Call} (hallowed : call.Allowed c)
    (hstays : ¬ call.Strays c.world) {f : Fault} {w : World} (hrun : call.run c.world = .error f w) :
    f.upFront = true := by
  by_contra hf
  rw [Bool.not_eq_true] at hf
  exact hstays (((Call.run_ends h.sound hrest hallowed).of_error hrun).strays hf)

/-- A client whose calls do not stray behaves well. -/
theorem Abides.reached (h : c.Abides) : c.Reached := by
  induction h with
  | start => exact .start
  | ran _ hrest hallowed _ hrun ih => exact ih.ran hrest hallowed hrun
  | failed _ hrest hallowed hstays hrun ih =>
      exact ih.refused hrest hallowed hrun (ih.upFront hrest hallowed hstays hrun)
  | opened _ hrest hallowed _ hstart ih => exact ih.opened hrest hallowed hstart
  | stepped _ htodo hstep ih => exact ih.stepped htodo hstep

/-- Whatever a client does whose calls do not stray: a call fails at most in a check that comes before
anything else, what is left to be done comes to its end, handles are fresh, and no trial deletion
asks for the edges of an object that it did not examine. -/
theorem Abides.fails_up_front (h : c.Abides) :
    (c.AtRest → ∀ (call : Call) (f : Fault) (w : World), call.Allowed c → ¬ call.Strays c.world →
      call.run c.world = .error f w → f.upFront = true) ∧
    (∃ w, settle c.todo c.world = .ok () w) ∧
    (∀ a, c.Sees (.root a) ∨ a ∈ c.incoming → a.deref c.world = .ok () c.world) ∧
    (∀ (w : World) (unrooted : List ObjId), ∀ o ∈ (w.garbage unrooted).kept,
      o ∈ (w.garbage unrooted).order) ∧
    ∀ (w : World) (r : RootId) (candidates : List ObjId) (ts : Tallies),
      ∀ o ∈ (orphanTrial w.out r candidates ts).kept,
        o ∈ (orphanTrial w.out r candidates ts).order := by
  have hreached := h.reached
  refine ⟨fun hrest call f w hallowed hstays hrun => hreached.upFront hrest hallowed hstays hrun,
    ?_, fun _ => hreached.sound.fresh, fun _ _ _ => mem_order_garbage,
    fun _ _ _ _ _ => mem_order_orphanTrial⟩
  obtain ⟨w, hsettle, -⟩ := hreached.sound.settle (motive := fun _ => True) trivial
    fun _ _ _ _ _ _ _ _ => trivial
  exact ⟨w, hsettle⟩

theorem Abides.call {call : Call} (h : c.Abides ∧ c.AtRest) (hallowed : call.Allowed c)
    (hstays : ¬ call.Strays c.world) : (c.call call).Abides ∧ (c.call call).AtRest := by
  unfold Client.call
  cases hrun : call.run c.world with
  | ok r w => exact ⟨.ran h.1 h.2 hallowed hstays hrun, rfl, rfl⟩
  | error f w => exact ⟨.failed h.1 h.2 hallowed hstays hrun, h.2⟩

theorem chain_abides : chain.Abides ∧ chain.AtRest := by
  have hlone : lone.Abides ∧ lone.AtRest := by
    refine Abides.call (Abides.call ⟨.start, rfl, rfl⟩ rfl not_false) leaf_allowed ?_
    rintro ⟨s, ⟨⟩, -⟩
  have htargets : (lone.call (.newField (some ⟨0, 1, 0⟩))).world.slotAt 0 = .one (some 0) := by cbv
  have howns : (lone.call (.newField (some ⟨0, 1, 0⟩))).world.owns 0 0 = true := by cbv
  apply Abides.call (Abides.call hlone field_allowed not_false) node_allowed
  rintro ⟨s, hs, o, ho, hnot⟩
  cases List.mem_singleton.mp hs
  rw [htargets] at ho
  cases List.mem_singleton.mp ho
  rw [howns] at hnot
  cases hnot

/-- The field of the node cannot be written through the leaf. -/
theorem chain_fails_up_front :
    ∃ f w, (Call.setField ⟨0, 1, 0⟩ 0 none).run chain.world = .error f w ∧ f.upFront = true := by
  have hheld : chain.held = {.root ⟨1, 2, 0⟩, .root ⟨0, 1, 0⟩} := by cbv
  have hvalue : chain.world.valueAt 1 = .slot 0 := by cbv
  have hleaf : chain.Sees (.root ⟨0, 1, 0⟩) :=
    .held (hheld ▸ Multiset.mem_cons_of_mem (Multiset.mem_singleton_self _))
  have hfield : chain.Sees (.slot 0) := by
    refine .within (a := ⟨1, 2, 0⟩) (.held (hheld ▸ Multiset.mem_cons_self _ _)) ?_
    rw [hvalue]
    exact List.mem_singleton_self _
  have hallowed : (Call.setField ⟨0, 1, 0⟩ 0 none).Allowed chain :=
    ⟨hleaf, ⟨hfield, some 0, by cbv⟩, by rintro b ⟨⟩⟩
  have hrefused : chain.accepts (.setField ⟨0, 1, 0⟩ 0 none) = false := by cbv
  obtain ⟨habides, hrest⟩ := chain_abides
  cases hrun : (Call.setField ⟨0, 1, 0⟩ 0 none).run chain.world with
  | ok r w =>
      rw [accepts, hrun] at hrefused
      cases hrefused
  | error f w =>
      exact ⟨f, w, rfl, habides.fails_up_front.1 hrest _ f w hallowed not_false hrun⟩

end Client

end RootedHeap
