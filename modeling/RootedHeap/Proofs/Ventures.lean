import RootedHeap.Proofs.Bookkeeping
import RootedHeap.Proofs.Clients

/-! # Runs in which calls fail

A call that fails keeps what it already changed, and the client goes on with what it had not given
away. What a client may ask for is left open here: `Client.Ventures may` are the states of the runs
in which it asks for what `may` allows, whatever comes of it, those in the middle of a call included.
-/

namespace RootedHeap

/-! ## Upgrades leave nothing to finalize -/

namespace Locked

variable {α β : Type}

/-- The session, however it ends, remembers no more objects than before. -/
abbrev Unsuspecting (op : Locked α) : Prop :=
  Keeps (fun s s' : Session => s'.unrooted = s.unrooted) op

theorem Unsuspecting.bind {op : Locked α} {next : α → Locked β} (h : Unsuspecting op)
    (hnext : ∀ a, Unsuspecting (next a)) : Unsuspecting (op >>= next) :=
  Keeps.bind (fun h h' => h'.trans h) h hnext

theorem Unsuspecting.update (f : World → World) : Unsuspecting (Locked.update f) := fun _ => rfl

theorem connect_unsuspecting (h : HeapId) (r : RootId) (t : ObjId) :
    Unsuspecting (connect h r t) := by
  have hpass (make : World → Tallies → Connected) (left : Connected → Tallies) :
      Unsuspecting (pass make left) := fun _ => rfl
  refine .bind (.update _) fun _ => .bind (hpass _ _) fun pass => .bind (.update _) fun _ => ?_
  cases pass.stranger <;> exact fun _ => rfl

theorem acquireRoot_unsuspecting (h : HeapId) (t : ObjId) : Unsuspecting (acquireRoot h t) := by
  have hlook : Unsuspecting (look (·.heaps[h]?)) := fun _ => rfl
  refine .bind hlook fun found => ?_
  cases found with
  | none => exact fun _ => rfl
  | some heap =>
      exact .bind (.update _) fun _ => .bind (.update _) fun _ =>
        .bind (connect_unsuspecting h _ t) fun _ _ => rfl

theorem newHandle_unsuspecting (h : HeapId) (t : ObjId) : Unsuspecting (newHandle h t) :=
  .bind (.update _) fun _ => .bind (acquireRoot_unsuspecting h t) fun _ _ => rfl

end Locked

theorem WeakRef.claim_unsuspecting (h : HeapId) (o : ObjId) :
    Locked.Unsuspecting (WeakRef.claim h o) := by
  have hlook : Locked.Unsuspecting (Locked.look (·.isLive o)) := fun _ => rfl
  refine .bind hlook fun live => ?_
  split
  · rw [map_eq_pure_bind]
    exact .bind (Locked.newHandle_unsuspecting h o) fun _ _ => rfl
  · exact fun _ => rfl

theorem WeakRef.dead_of_claim {h : HeapId} {o : ObjId} {found : Option Handle} {dead : List ObjId}
    {w w' : World} (hlocked : locked h (WeakRef.claim h o) w = .ok (found, dead) w') : dead = [] := by
  unfold locked at hlocked
  split at hlocked
  next => cases hlocked
  next found' s hclaim =>
    have hunrooted : s.unrooted = [] := (WeakRef.claim_unsuspecting h o).of_ok hclaim
    rw [reclaim, if_pos (List.isEmpty_iff.mpr hunrooted)] at hlocked
    cases hlocked
    rfl

namespace Call

/-- All that an upgrade leaves to be done is to leave the heap. -/
theorem tasks_of_upgrade {x : WeakRef} {r : Receipt} {tasks : List Task} {w w' : World}
    (hstart : (upgrade x).start w = .ok (r, tasks) w') :
    r.handles = [] ∧ (tasks = [] ∨ ∃ g, tasks = [.leave g]) := by
  obtain ⟨-, -, hnothing⟩ | ⟨o, ob, rfl, hob, hexists⟩ := upgrade_cases x w
  · cases hstart.symm.trans hnothing
    exact ⟨rfl, .inl rfl⟩
  · simp only [start, hob, if_pos hexists] at hstart
    split at hstart
    next hlocked =>
      cases hstart
      cases WeakRef.dead_of_claim hlocked
      exact ⟨rfl, .inl rfl⟩
    next hlocked =>
      cases hstart
      cases WeakRef.dead_of_claim hlocked
      exact ⟨rfl, .inr ⟨_, rfl⟩⟩
    next => cases hstart

theorem finish_upgrade {x : WeakRef} {r : Receipt} {tasks : List Task} {w w' : World}
    (hstart : (upgrade x).start w = .ok (r, tasks) w') : ∃ w'', finish r tasks w' = .ok r w'' := by
  obtain ⟨hr, rfl | ⟨g, rfl⟩⟩ := tasks_of_upgrade hstart
  · exact ⟨w', by rw [finish_nil hr]; rfl⟩
  · have hleave : (Task.leave g).step w' = .ok [] (w'.leave g) := rfl
    have hsettle : settle [.leave g] w' = .ok () (w'.leave g) := by
      rw [settle_of_step hleave, List.append_nil, settle_nil]
      rfl
    refine ⟨w'.leave g, finish_of_settle hsettle ?_⟩
    rw [Receipt.deliver, hr]
    rfl

/-- Every call is a session, what is left of it, and the delivery, whatever becomes of it. -/
theorem run_eq_start (call : Call) : call.run = call.start >>= fun p => finish p.1 p.2 := by
  by_cases hcall : ∃ x, call = .upgrade x
  · obtain ⟨x, rfl⟩ := hcall
    funext w
    cases hstart : (upgrade x).start w with
    | error f w' => rw [bind_of_error hstart, run_of_refusal hstart]
    | ok p w' =>
        obtain ⟨w'', hfinish⟩ := finish_upgrade hstart
        rw [bind_of_ok hstart, hfinish, run_of_start hstart hfinish]
  · exact run_eq fun x hx => hcall ⟨x, hx⟩

/-- What becomes of an allocation is what becomes of rooting the object once it is there. -/
theorem ends_alloc {h : HeapId} {n : String} {value : Value} {w : World}
    {Q : Receipt × List Task → World → Prop} {E : Fault → World → Prop}
    (hlocked : Ends (locked h (Locked.introduce h w.objects.size n)) (w.enroll h n value)
      (fun p w' => Q ({ handles := [⟨w.objects.size, p.1, h⟩] }, Task.finalizing h p.2) w') E) :
    Ends (alloc h n value).start w Q E := by
  have hstart : (alloc h n value).start w =
      (locked h (Locked.introduce h w.objects.size n) >>= fun p =>
        pure ({ handles := [⟨w.objects.size, p.1, h⟩] }, Task.finalizing h p.2))
          (w.enroll h n value) := rfl
  unfold Ends
  rw [hstart]
  exact Ends.bind hlocked fun _ _ hq => hq

/-- What becomes of an upgrade is what becomes of its claim, if it comes to one. -/
theorem ends_upgrade {x : WeakRef} {w : World} {Q : Receipt × List Task → World → Prop}
    {E : Fault → World → Prop}
    (hnothing : (∀ o ∈ x.target, ∀ ob : Object, w.objects[o]? = some ob →
      w.heapExists ob.heap = false) → Q ({}, []) w)
    (hclaim : ∀ o ∈ x.target, ∀ ob : Object, w.objects[o]? = some ob →
      w.heapExists ob.heap = true →
        Ends (locked ob.heap (WeakRef.claim ob.heap o)) (w.enter ob.heap)
          (fun p w' =>
            match p.1 with
            | some a => Q ({ others := [.root a] }, []) w'
            | none => Q ({}, [.leave ob.heap]) w')
          fun f w' => E f (w'.leave ob.heap)) :
    Ends (upgrade x).start w Q E := by
  obtain ⟨hlost, -, hstart⟩ | ⟨o, ob, rfl, hob, hexists⟩ := upgrade_cases x w
  · unfold Ends
    rw [hstart]
    exact hnothing hlost
  · have hend := hclaim o rfl ob hob hexists
    unfold Ends at hend ⊢
    simp only [start, hob, if_pos hexists]
    cases hlocked : locked ob.heap (WeakRef.claim ob.heap o) (w.enter ob.heap) with
    | error f w' =>
        rw [hlocked] at hend
        exact hend
    | ok p w' =>
        obtain ⟨found, dead⟩ := p
        cases WeakRef.dead_of_claim hlocked
        rw [hlocked] at hend
        cases found <;> exact hend

end Call

namespace Task

variable {w : World} {Q : List Task → World → Prop} {E : Fault → World → Prop}

/-- What becomes of giving a strong reference up is what becomes of its session, if it comes to
one. -/
theorem ends_release {o : ObjId} (hnone : w.objects[o]? = none → Q [] w)
    (hlocked : ∀ ob : Object, w.objects[o]? = some ob → ob.state = .live →
      w.heapExists ob.heap = true →
        Ends (locked ob.heap (Locked.releaseStrong o)) (w.enter ob.heap)
          (fun p w' => Q (finalizing ob.heap p.2 ++ [.leave ob.heap]) w')
          fun f w' => E f (w'.leave ob.heap))
    (hdirect : ∀ ob : Object, w.objects[o]? = some ob →
      if ob.strong = 0 then E (.strongUnderflow ob.typeName) w
      else Q [] (w.modifyObject o fun ob => { ob with strong := ob.strong - 1 })) :
    Ends (step (.release o)) w Q E := by
  unfold Ends
  simp only [step]
  cases hob : w.objects[o]? with
  | none => exact hnone hob
  | some ob =>
      dsimp only
      by_cases hlive : ob.state = .live ∧ w.heapExists ob.heap = true
      · have hend := hlocked ob hob hlive.1 hlive.2
        rw [if_pos hlive]
        unfold Ends at hend
        cases hrun : locked ob.heap (Locked.releaseStrong o) (w.enter ob.heap) with
        | ok p w' =>
            rw [hrun] at hend
            exact hend
        | error f w' =>
            rw [hrun] at hend
            exact hend
      · rw [if_neg hlive]
        have hend := hdirect ob hob
        by_cases hstrong : ob.strong = 0
        · rw [if_pos hstrong] at hend ⊢
          exact hend
        · rw [if_neg hstrong] at hend ⊢
          exact hend

/-- What becomes of dropping a handle is what becomes of its session. -/
theorem ends_dropHandle {a : Handle}
    (hlocked : Ends (locked a.heap (Locked.dropRoot a.heap a.root)) w
      (fun p w' => Q (finalizing a.heap p.2 ++ [.leave a.heap]) w')
      fun f w' => E f (w'.leave a.heap)) :
    Ends (step (.dropHandle a)) w Q E := by
  unfold Ends at hlocked ⊢
  simp only [step]
  cases hrun : locked a.heap (Locked.dropRoot a.heap a.root) w with
  | ok p w' =>
      rw [hrun] at hlocked
      exact hlocked
  | error f w' =>
      rw [hrun] at hlocked
      exact hlocked

end Task

/-! ## From steps to calls -/

section Lift

variable {M : List Task → World → Prop} {E : Fault → World → Prop}

/-- What every task passes on to the tasks that are left holds in the end. -/
theorem settle_ends
    (hstep : ∀ (t : Task) (rest : List Task) (w : World), M (t :: rest) w →
      Ends t.step w (fun more => M (more ++ rest)) E)
    {tasks : List Task} {w : World} (h : M tasks w) :
    Ends (settle tasks) w (fun _ => M []) E := by
  unfold Ends
  fun_induction settle tasks w with
  | case1 w => exact h
  | case2 t rest w more w' hnext ih => exact ih ((hstep t rest w h).of_ok hnext)
  | case3 t rest w fault w' hfault => exact (hstep t rest w h).of_error hfault

theorem Receipt.deliver_ends (henter : ∀ (g : HeapId) (w : World), M [] w → M [] (w.enter g))
    (r : Receipt) {w : World} (h : M [] w) : Ends r.deliver w (fun _ => M []) E := by
  unfold deliver
  induction r.handles generalizing w with
  | nil => exact h
  | cons a rest ih => exact ih (henter a.heap w h)

theorem Call.finish_ends
    (hstep : ∀ (t : Task) (rest : List Task) (w : World), M (t :: rest) w →
      Ends t.step w (fun more => M (more ++ rest)) E)
    (henter : ∀ (g : HeapId) (w : World), M [] w → M [] (w.enter g)) (r : Receipt)
    {tasks : List Task} {w : World} (h : M tasks w) :
    Ends (finish r tasks) w (fun r' w' => r' = r ∧ M [] w') E := by
  refine (settle_ends hstep h).bind fun _ w₁ hsettled => ?_
  exact (r.deliver_ends henter hsettled).bind fun _ _ hdelivered => ⟨rfl, hdelivered⟩

/-- What a session establishes and every task passes on holds after the call. -/
theorem Call.run_ends_of {M : Receipt → List Task → World → Prop} {call : Call} {w : World}
    (hstart : Ends call.start w (fun p => M p.1 p.2) E)
    (hstep : ∀ (r : Receipt) (t : Task) (rest : List Task) (w : World), M r (t :: rest) w →
      Ends t.step w (fun more => M r (more ++ rest)) E)
    (henter : ∀ (r : Receipt) (g : HeapId) (w : World), M r [] w → M r [] (w.enter g)) :
    Ends call.run w (fun r => M r []) E := by
  rw [run_eq_start]
  refine hstart.bind fun p w' hbegun => ?_
  refine (finish_ends (hstep p.1) (henter p.1) p.1 hbegun).mono ?_ fun _ _ he => he
  rintro _ w'' ⟨rfl, hend⟩
  exact hend

end Lift

/-! ## Runs -/

/-- What is gone once a call failed: a handle that was to be moved stays where it is. -/
def Call.forfeits : Call → List Holding
  | assign .. => []
  | call => call.spends

/-- The client after a call that failed. -/
def Client.bereft (c : Client) (call : Call) (w : World) : Client where
  world := w
  held := c.held - call.forfeits
  heaps := c.heaps - call.leaves

/-- The states of a client that asks for what `may` allows and goes on whatever comes of it. It may
copy its handles without a call. -/
inductive Client.Ventures (may : Client → Call → Prop) : Client → Prop
  | start : Ventures may {}
  | ran {c : Client} {call : Call} {r : Receipt} {w : World} (h : Ventures may c)
      (hrest : c.AtRest) (hmay : may c call) (hrun : call.run c.world = .ok r w) :
      Ventures may (c.after call r w)
  | failed {c : Client} {call : Call} {f : Fault} {w : World} (h : Ventures may c)
      (hrest : c.AtRest) (hmay : may c call) (hrun : call.run c.world = .error f w) :
      Ventures may (c.bereft call w)
  /-- The session of a call is over, and tasks are left to be done. -/
  | opened {c : Client} {call : Call} {r : Receipt} {tasks : List Task} {w : World}
      (h : Ventures may c) (hrest : c.AtRest) (hmay : may c call)
      (hstart : call.start c.world = .ok (r, tasks) w) : Ventures may (c.opened call r tasks w)
  /-- One of the tasks is done. -/
  | stepped {c : Client} {t : Task} {rest more : List Task} {w : World} (h : Ventures may c)
      (htodo : c.todo = t :: rest) (hstep : t.step c.world = .ok more w) :
      Ventures may { c with world := w, todo := more ++ rest }
  /-- A handle is copied bit by bit: no root is acquired for the copy. -/
  | copied {c : Client} {a : Handle} (h : Ventures may c) (ha : c.Sees (.root a)) :
      Ventures may { c with held := .root a ::ₘ c.held }

namespace Client

variable {may : Client → Call → Prop} {c : Client}

/-- The client after `call`, if it comes to an end, and with what it kept otherwise. -/
def attempt (c : Client) (call : Call) : Client :=
  match call.run c.world with
  | .ok r w => c.after call r w
  | .error _ w => c.bereft call w

theorem Ventures.attempt {call : Call} (h : Ventures may c ∧ c.AtRest) (hmay : may c call) :
    Ventures may (c.attempt call) ∧ (c.attempt call).AtRest := by
  unfold Client.attempt
  cases hrun : call.run c.world with
  | ok r w => exact ⟨.ran h.1 h.2 hmay hrun, rfl, rfl⟩
  | error f w => exact ⟨.failed h.1 h.2 hmay hrun, rfl, rfl⟩

end Client

end RootedHeap
