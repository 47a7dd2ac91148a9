import RootedHeap.Proofs.Ventures

/-! # Refused calls

What a call is refused for before it changes anything: what it would store or point at is of another
heap, its slot may not be written through its handle, its index is out of range, looked at in this
order. `Call.refusal` says which it is, for whatever state and whatever values, and a call is refused
exactly when it does, with the world as it was but for the report (`Call.refused_iff`).
-/

namespace RootedHeap

open World

/-- What `a` is to come to own is of another heap. -/
def Handle.foreign (a : Handle) (w : World) (target : Option Handle) : Option Fault :=
  if target.any fun b => b.heap ≠ a.heap then some (a.breach w .foreignStore) else none

/-- Why a call is refused before it changes anything, if it is. -/
def Call.refusal (w : World) : Call → Option Fault
  | assign a b =>
    if a.obj ≠ b.obj ∧ a.heap ≠ b.heap then some (a.breach w .foreignAssign) else none
  | setField a s target => (a.foreign w target).or (a.unvisited w s)
  | takeField a s | popItem a s | clearItems a s => a.unvisited w s
  | pushItem a s item => (a.foreign w item).or (a.unvisited w s)
  | insertItem a s index item =>
    (a.foreign w item).or ((a.unvisited w s).or (w.noPlace s index))
  | setItem a s index item =>
    (a.foreign w item).or ((a.unvisited w s).or (w.noItem s index .replaceRange))
  | removeItem a s index => (a.unvisited w s).or (w.noItem s index .removeRange)
  | _ => none

/-- The heaps that a call names, be it by a handle. -/
def Call.heaps : Call → List HeapId
  | createHeap _ | cloneWeak _ | dropWeak _ | upgrade _ | dropSlot _ => []
  | shareHeap h | dropHeap h | alloc h _ _ => [h]
  | clone a | drop a | getField a _ | takeField a _ | getItem a _ _ | items a _ | removeItem a _ _
  | popItem a _ | clearItems a _ | downgrade a => [a.heap]
  | assign a b => [a.heap, b.heap]
  | setField a _ target => a.heap :: target.toList.map (·.heap)
  | pushItem a _ item | insertItem a _ _ item | setItem a _ _ item => [a.heap, item.heap]
  | newField target => target.toList.map (·.heap)
  | newList targets => targets.map (·.heap)

/-- What a call begins with. -/
inductive Call.Course (w : World) (call : Call) : Prop
  /-- A session of a heap that the call names. -/
  | session {α : Type} {g : HeapId} {op : Locked α} (give : α → Receipt) (hg : g ∈ call.heaps)
      (hop : Locked.Screens (call.refusal w) op ⟨w, []⟩)
      (hstart : call.start w = Call.session g op give w)
  /-- Something of another heap was to be stored or pointed at. -/
  | foreign {a : Handle} {b : Breach} (hup : (a.breach w b).upFront = true)
      (hrefusal : call.refusal w = some (a.breach w b)) (hstart : call.start w = Call.refuse a b w)
  /-- Nothing that needs a lock. -/
  | quiet {r : Receipt} {tasks : List Task} {w' : World} (heven : w.Even w')
      (hidle : ∀ u ∈ tasks, u.buries = none) (hrefusal : call.refusal w = none)
      (hstart : call.start w = .ok (r, tasks) w')
  | found {config : Config} (hcall : call = .createHeap config)
  | place {g : HeapId} {n : String} {value : Value} (hcall : call = .alloc g n value)
  | upgrade {x : WeakRef} (hcall : call = .upgrade x)

namespace Call

variable {w : World} {call : Call}

theorem Course.idle {r : Receipt} {w' : World} (heven : w.Even w') (hrefusal : call.refusal w = none)
    (hstart : call.start w = .ok (r, []) w') : call.Course w :=
  .quiet heven (by simp) hrefusal hstart

/-- What is to be stored is of the same heap, and then the session begins. -/
theorem Course.of_storing {g : HeapId} {op : Locked Unit} {a : Handle} {target : Option Handle}
    {r : Option Fault} (hg : g ∈ call.heaps) (hop : Locked.Screens r op ⟨w, []⟩)
    (hrefusal : call.refusal w = (a.foreign w target).or r)
    (hstart : call.start w = (if target.any fun b => b.heap ≠ a.heap then refuse a .foreignStore
      else Call.session g op fun _ => {}) w) : call.Course w := by
  unfold Handle.foreign at hrefusal
  -- the check of heaps comes before that of the session, in `refusal` as in `start`
  by_cases hforeign : target.any fun b => b.heap ≠ a.heap
  · rw [if_pos hforeign] at hrefusal hstart
    exact .foreign rfl hrefusal hstart
  · rw [if_neg hforeign] at hrefusal hstart
    exact .session _ hg (hrefusal ▸ hop) hstart

theorem Course.of_item {op : Locked Unit} {a item : Handle} {r : Option Fault}
    (hg : a.heap ∈ call.heaps) (hop : Locked.Screens r op ⟨w, []⟩)
    (hrefusal : call.refusal w = (a.foreign w item).or r)
    (hstart : call.start w = (if item.heap = a.heap then Call.session a.heap op fun _ => {}
      else refuse a .foreignStore) w) : call.Course w := by
  refine .of_storing hg hop hrefusal (hstart.trans ?_)
  by_cases hheap : item.heap = a.heap <;> simp [hheap]

/-- Every call begins in one of these ways. -/
theorem course (call : Call) (w : World) : call.Course w := by
  let s : Session := ⟨w, []⟩
  -- calls without a session, then those with one, which carry the check of that session
  cases call with
  | createHeap => exact .found rfl
  | alloc => exact .place rfl
  | upgrade => exact .upgrade rfl
  | shareHeap g => exact .idle (Trades.enter w g).even rfl rfl
  | dropHeap | drop | dropSlot =>
      refine .quiet (.refl w) ?_ rfl rfl
      simp [Task.buries]
  | downgrade a => exact .idle (.retainWeak w a.obj) rfl rfl
  | cloneWeak x =>
      obtain ⟨_ | o⟩ := x
      · exact .idle (.refl w) rfl rfl
      · exact .idle (.retainWeak w o) rfl rfl
  | dropWeak x =>
      refine .quiet (.refl w) (fun u hu => ?_) rfl rfl
      obtain ⟨y, -, rfl⟩ := List.mem_map.mp hu
      cases y <;> rfl
  | newField target =>
      cases target with
      | none => exact .idle (.addSlot w _) rfl rfl
      | some a => exact .idle ((Trades.retain w a.obj).even.trans (.addSlot _ _)) rfl rfl
  | newList targets => exact .idle ((Trades.retainAll w targets).even.trans (.addSlot _ _)) rfl rfl
  | clone a =>
      exact .session (fun b => { handles := [b] }) List.mem_cons_self
        (Locked.newHandle_routine a.heap a.obj s) rfl
  | assign a b =>
      by_cases hobj : a.obj = b.obj
      · refine .idle (r := { others := [.root a] }) (.refl w) ?_ ?_
        · simp [refusal, hobj]
        · exact congrFun (start_assign_same hobj) w
      · by_cases hheap : a.heap = b.heap
        · have hnone : (assign a b).refusal w = none := by simp [refusal, hheap]
          have hop : Locked.Screens ((assign a b).refusal w) (a.rebind b.obj) s :=
            hnone ▸ a.rebind_routine b.obj s
          exact .session (fun _ => { others := [.root { a with obj := b.obj }] })
            List.mem_cons_self hop (congrFun (start_assign hobj hheap) w)
        · refine .foreign (a := a) (b := .foreignAssign) rfl ?_ ?_
          · simp [refusal, hobj, hheap]
          · exact congrFun (start_assign_foreign hobj hheap) w
  | getField a s' =>
      exact .session (fun found => { handles := found.toList }) List.mem_cons_self
        (a.readField_routine s' s) rfl
  | setField a s' target =>
      refine .of_storing List.mem_cons_self (a.storeField_screens s' s (target.map (·.obj))) rfl ?_
      cases target with
      | none => rfl
      | some b => by_cases hheap : b.heap = a.heap <;> simp [start, Handle.accepts, hheap]
  | takeField a s' =>
      exact .session (fun found => { handles := found.toList }) List.mem_cons_self
        (a.unloadField_screens s' s) rfl
  | pushItem a s' item =>
      have hop := a.enlist_screens s' s none item.obj
      rw [Option.bind_none, Option.or_none] at hop
      exact .of_item List.mem_cons_self hop rfl rfl
  | insertItem a s' index item =>
      exact .of_item List.mem_cons_self (a.enlist_screens s' s (some index) item.obj) rfl rfl
  | setItem a s' index item =>
      exact .of_item List.mem_cons_self (a.replace_screens s' s index item.obj) rfl rfl
  | getItem a s' index =>
      exact .session (fun found => { handles := found.toList }) List.mem_cons_self
        (a.readItem_routine s' index s) rfl
  | items a s' =>
      exact .session (fun handles => { handles := handles }) List.mem_cons_self
        (a.readItems_routine s' s) rfl
  | removeItem a s' index =>
      exact .session (fun b => { handles := [b] }) List.mem_cons_self
        (a.removeAt_screens s' s index) rfl
  | popItem a s' =>
      exact .session (fun found => { handles := found.toList }) List.mem_cons_self
        (a.removeLast_screens s' s) rfl
  | clearItems a s' =>
      exact .session (fun _ => {}) List.mem_cons_self (a.removeAll_screens s' s) rfl

end Call

/-- From `w`, the operation is refused with `r`, if that is a fault, and with nothing changed; it is
not refused otherwise. -/
def Refuses {α : Type} (r : Option Fault) (op : Op α) (w : World) : Prop :=
  Ends op w (fun _ _ => r = none) fun f w' =>
    r = f.early ∧ (f.upFront = true → w' = f.reported w)

namespace Refuses

variable {α β : Type} {r : Option Fault} {w : World}

theorem of_late {op : Op α} (h : Ends op w (fun _ _ => True) fun f _ => f.upFront = false) :
    Refuses none op w := by
  refine h.mono (fun _ _ _ => rfl) fun f _ hf => ⟨(Fault.early_eq_none.mpr hf).symm, fun hup => ?_⟩
  exact absurd (hf ▸ hup) Bool.false_ne_true

/-- What comes after a check is not refused any more. -/
theorem bind {op : Op α} {next : α → Op β} (h : Refuses r op w)
    (hnext : ∀ a w', Ends (next a) w' (fun _ _ => True) fun f _ => f.upFront = false) :
    Refuses r (op >>= next) w := by
  refine Ends.bind h ?_
  rintro a w' rfl
  refine (hnext a w').mono (fun _ _ _ => rfl) fun f _ hf => ⟨(Fault.early_eq_none.mpr hf).symm, ?_⟩
  exact fun hup => absurd (hf ▸ hup) Bool.false_ne_true

end Refuses

/-! ## Sessions and tasks -/

variable {w : World} {r : Option Fault}

theorem Locked.Screens.locked {α : Type} {h : HeapId} {op : Locked α}
    (hop : Screens r op ⟨w, []⟩) : Refuses r (RootedHeap.locked h op) w :=
  (locked_condemns hop).mono (fun _ _ hok => hok.1) fun _ _ herror => ⟨herror.1, herror.2.1⟩

/-- Neither a task nor what follows from it is refused. -/
theorem Task.step_late (t : Task) (w : World) :
    Ends t.step w (fun _ _ => True) fun f _ => f.upFront = false := by
  have hlocked {h : HeapId} {op : Locked Unit} (hop : Locked.Routine op) (w : World) :
      Ends (RootedHeap.locked h op) w (fun _ _ => True) fun f _ => f.upFront = false :=
    (locked_condemns (hop ⟨w, []⟩)).mono (fun _ _ _ => trivial) fun _ _ herror =>
      Fault.early_eq_none.mp herror.1.symm
  cases t with
  | dropValue o =>
      unfold Ends
      simp only [step]
      cases w.objects[o]? <;> trivial
  | release o =>
      refine ends_release (fun _ => trivial) (fun ob _ _ _ => ?_) fun ob _ => ?_
      · exact hlocked (Locked.releaseStrong_routine o) _
      · split <;> trivial
  | dropHandle a => exact ends_dropHandle (hlocked (Locked.dropRoot_routine a.heap a.root) w)
  | dropSlot | dropWeak | leave | retire => trivial

theorem Call.finish_late (r : Receipt) (tasks : List Task) (w : World) :
    Ends (finish r tasks) w (fun _ _ => True) fun f _ => f.upFront = false := by
  refine (finish_ends (M := fun _ _ => True) ?_ (fun _ _ _ => trivial) r trivial).mono
    (fun _ _ _ => trivial) fun _ _ hf => hf
  exact fun t _ w _ => t.step_late w

/-! ## Calls -/

namespace Call

theorem start_refuses (call : Call) (w : World) : Refuses (call.refusal w) call.start w := by
  cases call.course w with
  | @session α g op give hg hop hstart =>
      have hsession : Refuses (call.refusal w) (session g op give) w :=
        hop.locked.bind fun _ _ => trivial
      unfold Refuses Ends at hsession ⊢
      rwa [hstart]
  | @foreign a b hup hrefusal hstart =>
      unfold Refuses Ends
      rw [hrefusal, hstart]
      exact ⟨(Fault.early_eq_some.mpr ⟨hup, rfl⟩).symm, fun _ => rfl⟩
  | quiet _ _ hrefusal hstart =>
      unfold Refuses Ends
      rw [hrefusal, hstart]
  | found hcall =>
      subst hcall
      rfl
  | @place g n value hcall =>
      subst hcall
      refine Refuses.of_late (ends_alloc ?_)
      have hlocked := (Locked.introduce_routine g w.objects.size n ⟨w.enroll g n value, []⟩).locked
        (h := g)
      exact hlocked.mono (fun _ _ _ => trivial) fun _ _ herror => Fault.early_eq_none.mp herror.1.symm
  | @upgrade x hcall =>
      subst hcall
      refine Refuses.of_late (ends_upgrade (fun _ => trivial) fun o _ ob _ _ => ?_)
      have hlocked := (WeakRef.claim_routine ob.heap o ⟨w.enter ob.heap, []⟩).locked (h := ob.heap)
      refine hlocked.mono (fun p _ _ => ?_) fun _ _ herror => Fault.early_eq_none.mp herror.1.symm
      obtain ⟨_ | a, dead⟩ := p <;> trivial

theorem run_refuses (call : Call) (w : World) : Refuses (call.refusal w) call.run w := by
  rw [run_eq_start]
  exact (start_refuses call w).bind fun p => finish_late p.1 p.2

/-- Whatever the state and the values, a call fails in a check that comes before anything changes
exactly when its refusal says so, and then nothing but the log differs. -/
theorem refused_iff (call : Call) (w w' : World) (f : Fault) :
    call.run w = .error f w' ∧ f.upFront = true ↔ call.refusal w = some f ∧ w' = f.reported w := by
  have hrefuses := run_refuses call w
  constructor
  · rintro ⟨hrun, hup⟩
    obtain ⟨hrefusal, hsame⟩ := hrefuses.of_error hrun
    exact ⟨hrefusal.trans (Fault.early_eq_some.mpr ⟨hup, rfl⟩), hsame hup⟩
  · rintro ⟨hrefusal, rfl⟩
    unfold Refuses Ends at hrefuses
    cases hrun : call.run w with
    | ok r w' =>
        rw [hrun] at hrefuses
        cases hrefusal.symm.trans hrefuses
    | error f' w' =>
        rw [hrun] at hrefuses
        obtain ⟨hearly, hsame⟩ := hrefuses
        obtain ⟨hup, rfl⟩ := Fault.early_eq_some.mp (hearly.symm.trans hrefusal)
        exact ⟨by rw [hsame hup], hup⟩

end Call

end RootedHeap
