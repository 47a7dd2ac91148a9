import RootedHeap.Proofs.Exactness
import RootedHeap.Proofs.Garbage

/-! # What a session leaves behind

A session that gives references to one object up suspects nothing but what the object leads to, and
the object itself last. What is reclaimed at its end is therefore a matter of that object and of what
there is, in the order of one depth-first walk, and not of how the session went
(`Locked.locked_sheds`). If all suspects are rooted, nothing is reclaimed (`run_quiet`).
-/

namespace RootedHeap

/-- What the stack leads to anyway may as well be left off its end. -/
theorem explore_append_of_mem {succ : ObjId → List ObjId} {marks : Marks} {top rest : List ObjId}
    (h : ∀ o ∈ rest, marks.free o = true → o ∈ explore succ marks top) :
    explore succ marks (top ++ rest) = explore succ marks top := by
  fun_induction explore succ marks top with
  | case1 marks =>
      -- nothing is free
      induction rest with
      | nil => simp [explore]
      | cons o rest ih =>
          have hnot : ¬ marks.free o = true := fun hfree => by
            have hmem := h o List.mem_cons_self hfree
            cases hmem
          rw [List.nil_append, explore, if_neg hnot]
          exact ih fun o' ho' => h o' (List.mem_cons_of_mem _ ho')
  | case2 marks x top hx ih =>
      rw [List.cons_append, explore, if_pos hx, ← List.append_assoc, ih]
      intro o ho hfree
      obtain ⟨hne, hfree⟩ := Marks.free_add.mp hfree
      exact (List.mem_cons.mp (h o ho hfree)).resolve_left hne
  | case3 marks x top hx ih =>
      rw [List.cons_append, explore, if_neg hx, ih h]

/-- A trial deletion goes by what it examines, in that order. -/
theorem trial_congr {size : Nat} {succ : ObjId → List ObjId} {stack stack' : List ObjId}
    (support : ObjId → Nat)
    (h : explore succ (.clear size) stack = explore succ (.clear size) stack') :
    trial size succ support stack = trial size succ support stack' := by
  rw [trial, trial, h]

namespace World

variable {w : World} {ts : Tallies} {strong : ObjId → Nat} {support : RootId → ObjId → Nat}
  {us : List ObjId} {todo : Multiset Task} {held : Multiset Holding} {owed : HeapId → ℤ}

theorem garbage_of_tagged (h : ∀ u ∈ us, ¬ w.candidate u = true) : w.garbage us = w.garbage [] := by
  rw [garbage, garbage, List.filter_eq_nil_iff.mpr h, List.filter_nil]

theorem lost_garbage_nil : (w.garbage []).lost = [] := by
  simp [garbage, trial, explore]

/-- An object that may be garbage is led to along such objects only. -/
theorem Tallied.reach_candidates (h : w.Tallied ts support) (hguarded : w.Guarded todo held)
    {t o : ObjId} (ht : w.isLive t = true) (hreach : Reach w.out t o)
    (ho : w.candidateIn ts o = true) :
    w.candidateIn ts t = true ∧ Reach (w.candidateEdges ts) t o := by
  induction hreach using Relation.ReflTransGen.head_induction_on with
  | refl => exact ⟨ho, .refl⟩
  | @head p q hstep _ ih =>
      obtain ⟨hq, hreach⟩ := ih (hguarded.live_of_out ht hstep)
      exact ⟨h.candidate_of_out ht hstep hq, .head (mem_candidateEdges.mpr ⟨hstep, hq⟩) hreach⟩

/-- What may be garbage is live, and no handle that there is leads to it. -/
theorem Sound.candidateIn_iff (h : w.Sound ts strong w.support us todo held owed) {o : ObjId} :
    w.candidateIn ts o = true ↔
      w.isLive o = true ∧ ∀ a, .root a ∈ w.ledger todo held → ¬ Reach w.out a.obj o := by
  rw [World.candidateIn_iff, Tallies.isEmptyAt_iff]
  refine and_congr_right fun hlive => ⟨fun hempty a ha hreach => ?_, fun hnone r => ?_⟩
  · have hsupport := (h.handle ha).2.2
    have hpos := (h.tallied.balanced a.root).count_pos_iff.mpr ⟨a.obj, hsupport, hreach⟩
    rw [hempty] at hpos
    cases hpos
  · obtain ⟨g, hown⟩ := exists_owns hlive
    by_contra hne
    obtain ⟨t, htarget, hreach⟩ := (h.count_pos_iff hown r).mp (Nat.pos_of_ne_zero hne)
    have hactive := (Registry.target?_eq_some_iff (h.accounted.roots_nodup g)).mp htarget
    exact hnone _ (h.accounted.exists_handle hactive) hreach

theorem face_collect {g : HeapId} {dead : List ObjId} (o : ObjId) :
    (w.collect g dead).objects[o]?.map Object.face =
      (w.objects[o]?.map Object.face).map fun f =>
        if o ∈ dead then (f.1, f.2.1, false) else f := by
  rw [object_collect]
  cases w.objects[o]? with
  | none => rfl
  | some ob => by_cases ho : o ∈ dead <;> simp [ho, Object.face]

theorem Mirrors.collect {w' : World} (h : w.Mirrors w') (g : HeapId) (dead : List ObjId) :
    (w.collect g dead).Mirrors (w'.collect g dead) := by
  refine ⟨h.slots, ?_, fun o => ?_⟩
  · rw [size_collect, size_collect, h.size]
  · rw [face_collect, face_collect, h.objects]

theorem Alike.collect {w' : World} (h : w.Alike w') (g : HeapId) (dead : List ObjId) :
    (w.collect g dead).Alike (w'.collect g dead) := by
  have hmirrors := h.mirrors.collect g dead
  refine ⟨h.slots, h.dropped, hmirrors.size, hmirrors.objects, fun g' => ?_⟩
  have hface (heap : Option Heap) :
      (heap.map fun heap => if g' = g then { heap with live := heap.live - dead.length } else
        heap).map Heap.face = (heap.map Heap.face).map fun f =>
          if g' = g then (f.1, f.2.1, f.2.2.1 - dead.length, f.2.2.2) else f := by
    cases heap with
    | none => rfl
    | some heap => by_cases hg : g' = g <;> simp [hg, Heap.face]
  rw [heaps_collect, heaps_collect, hface, hface, h.heaps]

theorem Alike.enter {w' : World} (h : w.Alike w') (g : HeapId) : (w.enter g).Alike (w'.enter g) := by
  refine ⟨h.slots, h.dropped, h.size, h.objects, fun g' => ?_⟩
  have hface (heap : Option Heap) :
      (heap.map fun heap => if g' = g then { heap with holders := heap.holders + 1 } else heap).map
        Heap.face = (heap.map Heap.face).map fun f =>
          if g' = g then (f.1, f.2.1, f.2.2.1, f.2.2.2 + 1) else f := by
    cases heap with
    | none => rfl
    | some heap => by_cases hg : g' = g <;> simp [hg, Heap.face]
  rw [World.enter, World.enter, heaps_modifyHeap, heaps_modifyHeap, hface, hface, h.heaps]

/-- With the same roots and edges, the same is counted. -/
theorem Steady.counts_eq_of_roots {w' : World} {owed' : HeapId → ℤ} (h : w.Steady todo held owed)
    (h' : w'.Steady todo held owed') (hmirrors : w.Mirrors w') (hroots : w'.rootsAt = w.rootsAt) :
    w.tallies = w'.tallies ∧ w.strongAt = w'.strongAt := by
  have hsupport : w'.support = w.support := by
    funext r o
    rw [support_face, support_face, hmirrors.objects, hroots]
  refine ⟨Tallies.ext_count ?_ fun o r => ?_, funext fun o => ?_⟩
  · rw [h.tallied.size_eq, h'.tallied.size_eq, hmirrors.size]
  · have hbalanced := h'.tallied.balanced r
    rw [hmirrors.out, hsupport] at hbalanced
    exact (h.tallied.balanced r).count_unique hbalanced o
  · rw [h.accounted.strong_eq, h'.accounted.strong_eq, hmirrors.refs]

/-- What is counted is determined by the rest. -/
theorem Steady.counts_eq {w' : World} {owed' : HeapId → ℤ} (h : w.Steady todo held owed)
    (h' : w'.Steady todo held owed') (halike : w.Alike w') :
    w.tallies = w'.tallies ∧ w.strongAt = w'.strongAt :=
  h.counts_eq_of_roots h' halike.mirrors halike.rootsAt

/-- `dead` is what is garbage below `t`, in the order in which a walk from `t` comes upon it. -/
def Forfeits (w : World) (todo : Multiset Task) (held : Multiset Holding) (t : ObjId)
    (dead : List ObjId) : Prop :=
  ∃ candidate : ObjId → Bool,
    (∀ o, candidate o = true ↔
      w.isLive o = true ∧ ∀ a, .root a ∈ w.ledger todo held → ¬ Reach w.out a.obj o) ∧
    dead = (trial w.objects.size (fun o => (w.out o).filter candidate)
      (fun o => (w.refs todo held).count o) ([t].filter candidate)).lost

end World

section Session

variable {g : HeapId} {w : World} {todo : Multiset Task} {held : Multiset Holding}
  {owed : HeapId → ℤ} {s : Session} {t : ObjId}

/-- What is reclaimed is found below the object that references were given up to. -/
theorem Session.Sheds.lost_eq (h : s.Sheds g w t [] todo held owed) (ht : w.isLive t = true) :
    (s.world.garbage s.unrooted).lost = (s.world.garbage [t]).lost := by
  obtain ⟨⟨halike, hsound, -⟩, hbelow, hlast⟩ := h
  have hbelow (u : ObjId) (hu : u ∈ s.unrooted) : Reach w.out t u :=
    (hbelow u hu).resolve_left List.not_mem_nil
  have hcandidate : s.world.candidate = w.candidateIn s.world.tallies := by
    rw [← halike.candidateIn]
    rfl
  by_cases htagged : w.candidateIn s.world.tallies t = true
  · obtain ⟨us, hus⟩ := hlast (World.candidateIn_iff.mp htagged).2
    have hedges : (fun o => (s.world.out o).filter s.world.candidate) =
        w.candidateEdges s.world.tallies := by
      rw [hcandidate, halike.out]
      rfl
    rw [World.garbage, World.garbage, hedges, hus, hcandidate, List.filter_append, List.reverse_append,
      List.filter_cons_of_pos htagged, List.filter_nil, List.reverse_singleton]
    refine congrArg _ (trial_congr _ (explore_append_of_mem fun u hu _ => ?_))
    obtain ⟨hmem, hu⟩ := List.mem_filter.mp (List.mem_reverse.mp hu)
    have hreach := hbelow u (hus ▸ List.mem_append_left _ hmem)
    refine (mem_explore_iff (fun o ho => ?_) fun o c hc => ?_).mpr ⟨t, List.mem_singleton_self t,
      (hsound.tallied.reach_candidates hsound.guarded ht hreach hu).2⟩
    · rw [List.mem_singleton.mp ho, halike.size]
      exact World.lt_size_of_isLive ht
    · rw [halike.size]
      exact World.lt_size_of_candidateEdges hc
  · -- whatever it leads to is tagged along with it
    have hnone (u : ObjId) (hu : Reach w.out t u) : ¬ s.world.candidate u = true := fun hcand =>
      htagged (hsound.tallied.reach_candidates hsound.guarded ht hu (hcandidate ▸ hcand)).1
    have hself : s.world.garbage [t] = s.world.garbage [] :=
      World.garbage_of_tagged fun u hu => hnone u (List.mem_singleton.mp hu ▸ .refl)
    rw [World.garbage_of_tagged fun u hu => hnone u (hbelow u hu), hself]

theorem Session.Sheds.forfeits (h : s.Sheds g w t [] todo held owed) (ht : w.isLive t = true) :
    w.Forfeits todo held t (s.world.garbage s.unrooted).lost := by
  obtain ⟨halike, hsound, -⟩ := h.sound
  have hcandidate : s.world.candidate = w.candidateIn s.world.tallies := by
    rw [← halike.candidateIn]
    rfl
  have hgarbage : s.world.garbage [t] = trial s.world.objects.size
      (fun o => (s.world.out o).filter s.world.candidate) s.world.strongAt
      ([t].filter s.world.candidate).reverse := rfl
  have hstrong : s.world.strongAt = fun o => (w.refs todo held).count o :=
    funext hsound.accounted.strong_eq
  refine ⟨s.world.candidate, fun o => hcandidate ▸ hsound.candidateIn_iff, ?_⟩
  have hstack : ([t].filter s.world.candidate).reverse = [t].filter s.world.candidate := by
    by_cases hcand : s.world.candidate t = true <;> simp [hcand]
  rw [h.lost_eq ht, hgarbage, hstrong, hstack, halike.out, halike.size]

/-- A session that gives references to one object up, with the reclaiming at its end. -/
theorem Locked.locked_sheds {w₀ : World} {op : Locked Unit}
    (hop : Ends op ⟨w₀, []⟩ (fun _ s => s.Sheds g w t [] todo held owed) fun _ _ => False)
    (ht : w.isLive t = true) :
    ∃ dead w', locked g op w₀ = .ok ((), dead) w' ∧
      w'.Steady (Task.finalizing g dead + todo) held owed ∧ (w.collect g dead).Alike w' ∧
      w.Forfeits todo held t dead := by
  have hends : Ends (locked g op) w₀ (fun r w' =>
      w'.Steady (Task.finalizing g r.2 + todo) held owed ∧ (w.collect g r.2).Alike w' ∧
        w.Forfeits todo held t r.2) fun _ _ => False := by
    refine Ends.locked hop fun _ s hs => ?_
    refine ((reclaim_lost g s).and (reclaim_ends hs.sound.settled)).mono ?_ fun _ _ hf => hf.2
    rintro dead s' ⟨rfl, hsteady, hreclaimed⟩
    exact ⟨hsteady, (hs.sound.alike.collect _ _).trans hreclaimed.alike, hs.forfeits ht⟩
  obtain ⟨⟨_, dead⟩, w', hlocked, hsteady, halike, hforfeits⟩ := hends.exists_ok
  exact ⟨dead, w', hlocked, hsteady, halike, hforfeits⟩

/-- A session that loses nothing is over when it ends. -/
theorem Session.Settled.ended {α : Type} {w₀ : World} {op : Locked α} {b : α}
    (h : s.Settled g todo held owed) (hrun : op ⟨w₀, []⟩ = .ok b s)
    (hlost : (s.world.garbage s.unrooted).lost = []) :
    ∃ log, locked g op w₀ = .ok (b, []) { s.world with log := log } ∧
      World.Steady { s.world with log := log } todo held owed := by
  have hreclaim : ∃ log us, reclaim g s = .ok [] ⟨{ s.world with log := log }, us⟩ := by
    unfold reclaim
    simp only [hlost, List.isEmpty_nil, if_true]
    split_ifs <;> exact ⟨_, _, rfl⟩
  obtain ⟨log, us, hreclaim⟩ := hreclaim
  have hsteady := ((reclaim_ends h).of_ok hreclaim).1
  have hnone : (Task.finalizing g [] : Multiset Task) + todo = todo := zero_add todo
  refine ⟨log, ?_, hnone ▸ hsteady⟩
  unfold locked
  rw [hrun]
  dsimp only
  rw [hreclaim]

/-- A session that suspects only what handles lead to collects nothing, so that it ends in what it came
to, but for the log. -/
theorem run_quiet {α : Type} {w₀ : World} {op : Locked α} {b : α}
    (hop : Ends op ⟨w₀, []⟩ (fun a s => a = b ∧ s.Sound g w w.support todo held owed ∧
      ∀ u ∈ s.unrooted, ∃ a, .root a ∈ w.ledger todo held ∧ Reach w.out a.obj u)
      fun _ _ => False) :
    ∃ w', run g op w₀ = .ok b w' ∧ w'.Steady todo held owed ∧ w.Alike w' ∧
      ∃ s log, op ⟨w₀, []⟩ = .ok b s ∧ w' = { s.world with log := log } := by
  obtain ⟨a, s, hrun, rfl, hsound, hrooted⟩ := hop.exists_ok
  have hlost : (s.world.garbage s.unrooted).lost = [] := by
    rw [World.garbage_of_tagged fun u hu hcand => ?_, World.lost_garbage_nil]
    obtain ⟨a, ha, hreach⟩ := hrooted u hu
    have hcand : s.world.candidateIn s.world.tallies u = true := hcand
    rw [hsound.alike.candidateIn] at hcand
    exact (hsound.sound.candidateIn_iff.mp hcand).2 a ha hreach
  obtain ⟨log, hlocked, hsteady⟩ := hsound.settled.ended hrun hlost
  refine ⟨_, Call.run_of_locked hlocked (congrFun settle_nil _), hsteady, ?_, s, log, hrun, rfl⟩
  exact hsound.alike.trans ⟨rfl, rfl, rfl, fun _ => rfl, fun _ => rfl⟩

/-- A session that changes nothing. -/
theorem run_idle {α : Type} {op : Locked α} {b : α}
    (hop : Ends op ⟨w, []⟩ (fun a s => a = b ∧ ⟨w, []⟩ = s) fun _ _ => False) :
    run g op w = .ok b w := by
  obtain ⟨a, s, hrun, ha, hs⟩ := hop.exists_ok
  rw [ha, ← hs] at hrun
  have hlocked : locked g op w = .ok (b, []) w := by
    unfold locked reclaim
    rw [hrun]
    rfl
  exact Call.run_of_locked hlocked (congrFun settle_nil w)

/-- A session that issues a handle, with what becomes of the handle afterwards. -/
theorem run_issues {α : Type} {w₀ : World} {op : Locked α} {b : α}
    (hop : Ends op ⟨w₀, []⟩ (fun a s => a = b ∧ s.Issues g w t [] todo held owed) fun _ _ => False)
    (hpos : 0 < w.holdersAt g) :
    ∃ w', run g op w₀ = .ok b w' ∧
      (w'.enter g).Steady todo (.root (w.issue g t) ::ₘ held) owed ∧
      ((w.issued g t).enter g).Alike (w'.enter g) ∧
      ∃ s log, op ⟨w₀, []⟩ = .ok b s ∧ w' = { s.world with log := log } := by
  have hquiet : Ends op ⟨w₀, []⟩ (fun a s => a = b ∧ s.Sound g (w.issued g t) (w.issued g t).support
      todo (.root (w.issue g t) ::ₘ held) (fun g' => owed g' - if g' = g then 1 else 0) ∧
        ∀ u ∈ s.unrooted, ∃ a, .root a ∈ (w.issued g t).ledger todo (.root (w.issue g t) ::ₘ held) ∧
          Reach (w.issued g t).out a.obj u) fun _ _ => False := by
    refine hop.mono ?_ fun _ _ hf => hf
    rintro a s ⟨rfl, hsound, hbelow⟩
    refine ⟨rfl, hsound, fun u hu => ⟨w.issue g t, ?_, ?_⟩⟩
    · exact World.mem_ledger_of_held (Multiset.mem_cons_self _ _)
    · exact (hbelow u hu).resolve_left List.not_mem_nil
  obtain ⟨w', hrun, hsteady, halike, hsession⟩ := run_quiet hquiet
  have hentered := hsteady.enter (g := g) <| by
    rw [halike.holdersAt, World.issued, World.holdersAt_setRegistry]
    exact hpos
  refine ⟨w', hrun, ?_, halike.enter g, hsession⟩
  simpa using hentered

end Session

end RootedHeap
