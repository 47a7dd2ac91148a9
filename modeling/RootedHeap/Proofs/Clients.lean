import RootedHeap.Field
import RootedHeap.Items
import RootedHeap.Proofs.Births
import RootedHeap.Weak

/-! # Clients

A client holds handles, weak references and slots, owns heaps, and calls the operations of this
library on what it can get at. It never copies a handle without a call, and gives values to heaps
whose two halves match. A `Client` is such a client with the world it works on, at rest or in the
middle of a call, while values of collected objects are being dropped.
-/

namespace RootedHeap

/-- What a client can ask for. -/
inductive Call where
  | createHeap (config : Config)
  /-- Become an owner of a heap once more. -/
  | shareHeap (h : HeapId)
  /-- Cease to be an owner of a heap. -/
  | dropHeap (h : HeapId)
  | alloc (h : HeapId) (typeName : String) (value : Value)
  | clone (a : Handle)
  | drop (a : Handle)
  | assign (a b : Handle)
  | getField (a : Handle) (s : SlotId)
  | setField (a : Handle) (s : SlotId) (target : Option Handle)
  | takeField (a : Handle) (s : SlotId)
  | pushItem (a : Handle) (s : SlotId) (item : Handle)
  | insertItem (a : Handle) (s : SlotId) (index : Nat) (item : Handle)
  | setItem (a : Handle) (s : SlotId) (index : Nat) (item : Handle)
  | getItem (a : Handle) (s : SlotId) (index : Nat)
  | items (a : Handle) (s : SlotId)
  | removeItem (a : Handle) (s : SlotId) (index : Nat)
  | popItem (a : Handle) (s : SlotId)
  | clearItems (a : Handle) (s : SlotId)
  | downgrade (a : Handle)
  | cloneWeak (x : WeakRef)
  | dropWeak (x : WeakRef)
  | upgrade (x : WeakRef)
  /-- A field outside any object. -/
  | newField (target : Option Handle)
  /-- A list outside any object. -/
  | newList (targets : List Handle)
  | dropSlot (s : SlotId)

/-- What a client comes to hold by a call. -/
structure Receipt where
  /-- Handles that hold their heap once everything else is done. -/
  handles : List Handle := []
  /-- What else there is: slots, weak references, and handles that hold their heap already. -/
  others : List Holding := []
  /-- Heaps that the client comes to own. -/
  heaps : List HeapId := []

namespace Receipt

/-- The handles come to hold their heaps. -/
def deliver (r : Receipt) : Op Unit := r.handles.forM fun a => modify (·.enter a.heap)

end Receipt

def WeakRef.holdings (x : WeakRef) : List Holding := x.target.toList.map .weak

namespace Call

/-- A call of the library. -/
def run : Call → Op Receipt
  | createHeap config => return { heaps := [← RootedHeap.createHeap config] }
  | shareHeap h => do
    modify (·.enter h)
    return { heaps := [h] }
  | dropHeap h => do
    settle [.leave h]
    return {}
  | alloc h typeName value => return { handles := [← RootedHeap.alloc h typeName value] }
  | clone a => return { handles := [← a.clone] }
  | drop a => do
    a.drop
    return {}
  | assign a b => return { others := [.root (← a.assign b)] }
  | getField a s => return { handles := (← a.getField s).toList }
  | setField a s target => do
    a.setField s target
    return {}
  | takeField a s => return { handles := (← a.takeField s).toList }
  | pushItem a s item => do
    a.pushItem s item
    return {}
  | insertItem a s index item => do
    a.insertItem s index item
    return {}
  | setItem a s index item => do
    a.setItem s index item
    return {}
  | getItem a s index => return { handles := (← a.getItem s index).toList }
  | items a s => return { handles := ← a.items s }
  | removeItem a s index => return { handles := [← a.removeItem s index] }
  | popItem a s => return { handles := (← a.popItem s).toList }
  | clearItems a s => do
    a.clearItems s
    return {}
  | downgrade a => return { others := (← WeakRef.ofHandle a).holdings }
  | cloneWeak x => return { others := (← x.clone).holdings }
  | dropWeak x => do
    x.drop
    return {}
  | upgrade x => return { others := (← x.upgrade).toList.map .root }
  | newField target => return { others := [.slot (← RootedHeap.newField target)] }
  | newList targets => return { others := [.slot (← RootedHeap.newList targets)] }
  | dropSlot s => do
    settle [.dropSlot s]
    return {}

/-- What the client gives away with a call. -/
def spends : Call → List Holding
  | alloc _ _ value => value.holdings
  | drop a | assign a _ => [.root a]
  | dropWeak x => x.holdings
  | dropSlot s => [.slot s]
  | _ => []

/-- The heaps that the client ceases to own with a call. -/
def leaves : Call → List HeapId
  | dropHeap h => [h]
  | _ => []

/-- The heap of the handles that a call returns. -/
def home : Call → Option HeapId
  | alloc h _ _ => some h
  | clone a | getField a _ | takeField a _ | getItem a _ _ | items a _ | removeItem a _ _
  | popItem a _ => some a.heap
  | _ => none

/-- Whether a call would root or follow an object of another heap: a visited slot of a new value
holds one, or the slot that is read does. -/
def Strays (w : World) : Call → Prop
  | alloc h _ value => ∃ s ∈ value.connectSlots, ∃ o ∈ (w.slotAt s).targets, w.owns h o = false
  | getField a s | getItem a s _ | items a s =>
    ∃ o ∈ (w.slotAt s).targets, w.owns a.heap o = false
  | _ => False

/-- A session, with what comes of it and what it leaves to be done. -/
def session {α : Type} (h : HeapId) (op : Locked α) (give : α → Receipt) :
    Op (Receipt × List Task) := do
  let (a, dead) ← locked h op
  return (give a, Task.finalizing h dead)

/-- Refuse to store something of another heap through `a`. -/
def refuse (a : Handle) (breach : Breach) : Op (Receipt × List Task) := do
  violate (.protocol ((← get).typeName a.obj) breach)

/-- What a call does up to where its session ends, with the tasks that are left to be done. -/
def start : Call → Op (Receipt × List Task)
  | createHeap config => return (← run (.createHeap config), [])
  | shareHeap h => return (← run (.shareHeap h), [])
  | dropHeap h => return ({}, [.leave h])
  | alloc h typeName value => do
    let o ← place h typeName value
    session h (Locked.enroll h o typeName) fun r => { handles := [⟨o, r, h⟩] }
  | clone a => session a.heap (Locked.newHandle a.heap a.obj) fun b => { handles := [b] }
  | drop a => return ({}, [.dropHandle a])
  | assign a b =>
    if a.obj = b.obj then return ({ others := [.root a] }, [])
    else if a.heap = b.heap then
      session a.heap (a.rebind b.obj) fun _ => { others := [.root { a with obj := b.obj }] }
    else refuse a .foreignAssign
  | getField a s => session a.heap (a.readField s) fun found => { handles := found.toList }
  | setField a s target =>
    if a.accepts target then session a.heap (a.storeField s (target.map (·.obj))) fun _ => {}
    else refuse a .foreignStore
  | takeField a s => session a.heap (a.unloadField s) fun found => { handles := found.toList }
  | pushItem a s item =>
    if item.heap = a.heap then session a.heap (a.enlist s none item.obj) fun _ => {}
    else refuse a .foreignStore
  | insertItem a s index item =>
    if item.heap = a.heap then session a.heap (a.enlist s (some index) item.obj) fun _ => {}
    else refuse a .foreignStore
  | setItem a s index item =>
    if item.heap = a.heap then session a.heap (a.replace s index item.obj) fun _ => {}
    else refuse a .foreignStore
  | getItem a s index => session a.heap (a.readItem s index) fun found => { handles := found.toList }
  | items a s => session a.heap (a.readItems s) fun handles => { handles := handles }
  | removeItem a s index => session a.heap (a.removeAt s index) fun b => { handles := [b] }
  | popItem a s => session a.heap (a.removeLast s) fun found => { handles := found.toList }
  | clearItems a s => session a.heap (a.removeAll s) fun _ => {}
  | downgrade a => return (← run (.downgrade a), [])
  | cloneWeak x => return (← run (.cloneWeak x), [])
  | dropWeak x => return ({}, x.holdings.map .ofHolding)
  | upgrade x => fun w =>
    match x.target with
    | none => .ok ({}, []) w
    | some o =>
      match w.objects[o]? with
      | none => .ok ({}, []) w
      | some ob =>
        if w.heapExists ob.heap then
          match locked ob.heap (WeakRef.claim ob.heap o) (w.enter ob.heap) with
          | .ok (some a, dead) w =>
            .ok ({ others := [.root a] }, Task.finalizing ob.heap dead) w
          | .ok (none, dead) w => .ok ({}, Task.finalizing ob.heap dead ++ [.leave ob.heap]) w
          | .error fault w => .error fault (w.leave ob.heap)
        else .ok ({}, []) w
  | newField target => return (← run (.newField target), [])
  | newList targets => return (← run (.newList targets), [])
  | dropSlot s => return ({}, [.dropSlot s])

/-- The rest of a call. -/
def finish (r : Receipt) (tasks : List Task) : Op Receipt := do
  settle tasks
  r.deliver
  return r

end Call

/-- A client, with the world it works on. -/
structure Client where
  world : World := {}
  held : Multiset Holding := 0
  /-- The heaps it owns. -/
  heaps : Multiset HeapId := 0
  /-- What is left to be done of the call that is under way. -/
  todo : List Task := []
  /-- The handles that are returned once it is done. -/
  incoming : List Handle := []

namespace Client

/-- No call is under way. -/
def AtRest (c : Client) : Prop := c.todo = [] ∧ c.incoming = []

/-- What a client can get at: what it holds, and what values hold that its handles lead to. -/
inductive Sees (c : Client) : Holding → Prop
  | held {x : Holding} (h : x ∈ c.held) : c.Sees x
  | within {a : Handle} {x : Holding} (h : c.Sees (.root a))
      (hx : x ∈ (c.world.valueAt a.obj).holdings) : c.Sees x

/-- The client owns heap `g`, or can get at a handle of it. -/
def Knows (c : Client) (g : HeapId) : Prop := g ∈ c.heaps ∨ ∃ a, c.Sees (.root a) ∧ a.heap = g

/-- The client can get at the field `s`. -/
def SeesField (c : Client) (s : SlotId) : Prop :=
  c.Sees (.slot s) ∧ ∃ target, c.world.slotAt s = .one target

/-- The client can get at the list `s`. -/
def SeesList (c : Client) (s : SlotId) : Prop :=
  c.Sees (.slot s) ∧ ∃ items, c.world.slotAt s = .many items

/-- The client in the middle of a call. -/
def opened (c : Client) (call : Call) (r : Receipt) (tasks : List Task) (w : World) : Client where
  world := w
  held := r.others + (c.held - call.spends)
  heaps := r.heaps + (c.heaps - call.leaves)
  todo := tasks
  incoming := r.handles

/-- The client after a call. -/
def after (c : Client) (call : Call) (r : Receipt) (w : World) : Client where
  world := w
  held := (r.handles.map .root : List Holding) + (r.others + (c.held - call.spends))
  heaps := r.heaps + (c.heaps - call.leaves)

end Client

/-- What is asked of a client: it only uses what it can get at, gives away what it holds, checks all
slots, and has the two halves of its values match. -/
def Call.Allowed (c : Client) : Call → Prop
  | createHeap config => config.verify = true
  | shareHeap h => c.Knows h
  | dropHeap h => h ∈ c.heaps
  | alloc h _ value => h ∈ c.heaps ∧ value.Matched ∧ (value.holdings : Multiset Holding) ≤ c.held
  | clone a | downgrade a => c.Sees (.root a)
  | drop a => .root a ∈ c.held
  | assign a b => .root a ∈ c.held ∧ c.Sees (.root b)
  | getField a s | takeField a s => c.Sees (.root a) ∧ c.SeesField s
  | setField a s target => c.Sees (.root a) ∧ c.SeesField s ∧ ∀ b ∈ target, c.Sees (.root b)
  | pushItem a s item | insertItem a s _ item | setItem a s _ item =>
    c.Sees (.root a) ∧ c.SeesList s ∧ c.Sees (.root item)
  | getItem a s _ | items a s | removeItem a s _ | popItem a s | clearItems a s =>
    c.Sees (.root a) ∧ c.SeesList s
  | cloneWeak x | upgrade x => ∀ o ∈ x.target, c.Sees (.weak o)
  | dropWeak x => (x.holdings : Multiset Holding) ≤ c.held
  | newField target => ∀ b ∈ target, c.Sees (.root b)
  | newList targets => ∀ b ∈ targets, c.Sees (.root b)
  | dropSlot s => .slot s ∈ c.held

/-- The states of a client that behaves well. A call that fails does so in a check that comes before
anything else; then the client goes on with what it had. -/
inductive Client.Reached : Client → Prop
  | start : Reached {}
  | ran {c : Client} {call : Call} {r : Receipt} {w : World} (h : Reached c) (hrest : c.AtRest)
      (hallowed : call.Allowed c) (hrun : call.run c.world = .ok r w) : Reached (c.after call r w)
  | refused {c : Client} {call : Call} {f : Fault} {w : World} (h : Reached c) (hrest : c.AtRest)
      (hallowed : call.Allowed c) (hrun : call.run c.world = .error f w) (hf : f.upFront = true) :
      Reached { c with world := w }
  /-- The session of a call is over, and tasks are left to be done. -/
  | opened {c : Client} {call : Call} {r : Receipt} {tasks : List Task} {w : World} (h : Reached c)
      (hrest : c.AtRest) (hallowed : call.Allowed c)
      (hstart : call.start c.world = .ok (r, tasks) w) : Reached (c.opened call r tasks w)
  /-- One of the tasks is done. -/
  | stepped {c : Client} {t : Task} {rest more : List Task} {w : World} (h : Reached c)
      (htodo : c.todo = t :: rest) (hstep : t.step c.world = .ok more w) :
      Reached { c with world := w, todo := more ++ rest }

/-! ## A call is a session, what is left of it, and the delivery -/

theorem settle_nil : settle [] = pure () := by
  funext w
  rw [settle]
  rfl

theorem settle_append (first second : List Task) (w : World) :
    settle (first ++ second) w = (settle first >>= fun _ => settle second) w := by
  fun_induction settle first w with
  | case1 w =>
      rw [settle_nil]
      rfl
  | case2 t rest w more w' hstep ih =>
      have hfirst : (settle (t :: rest) >>= fun _ => settle second) w =
          (settle (more ++ rest) >>= fun _ => settle second) w' := by
        simp only [Bind.bind, EStateM.bind, settle_of_step hstep]
      rw [hfirst, ← ih, List.cons_append, settle_of_step hstep, List.append_assoc]
  | case3 t rest w fault w' hstep =>
      rw [bind_of_error (settle_of_fault hstep), List.cons_append, settle_of_fault hstep]

namespace Call

theorem session_finish {α : Type} (h : HeapId) (op : Locked α) (give : α → Receipt) :
    (session h op give >>= fun p => finish p.1 p.2) = do
      let a ← RootedHeap.run h op
      (give a).deliver
      return give a := by
  simp only [session, RootedHeap.run, finish, bind_assoc, pure_bind]

theorem finish_nil {r : Receipt} (hr : r.handles = []) : finish r [] = pure r := by
  simp [finish, Receipt.deliver, hr, settle_nil]

theorem finish_tasks (tasks : List Task) :
    finish {} tasks = do
      settle tasks
      return {} := by
  simp [finish, Receipt.deliver]

theorem finish_of_settle {r : Receipt} {tasks : List Task} {w w' w'' : World}
    (hsettle : settle tasks w = .ok () w') (hdeliver : r.deliver w' = .ok () w'') :
    finish r tasks w = .ok r w'' := by
  rw [finish, bind_of_ok hsettle, bind_of_ok hdeliver]
  rfl

theorem refuse_finish (a : Handle) (breach : Breach) :
    (refuse a breach >>= fun p => finish p.1 p.2) = (do
      violate (.protocol ((← get).typeName a.obj) breach)) := by
  funext w
  rfl

theorem mapM_hold (handles : List Handle) :
    handles.mapM Handle.hold = do
      Receipt.deliver { handles := handles }
      return handles := by
  unfold Receipt.deliver
  induction handles with
  | nil => simp
  | cons a handles ih =>
      rw [List.mapM_cons, ih]
      simp [Handle.hold]

theorem mapM_hold_option (found : Option Handle) :
    found.mapM Handle.hold = do
      Receipt.deliver { handles := found.toList }
      return found := by
  cases found <;> simp [Handle.hold, Receipt.deliver]

/-! ### Calls that depend on their handles -/

section Branches

variable {a b : Handle} {s : SlotId} {target : Option Handle}

theorem start_assign_same (hobj : a.obj = b.obj) :
    (assign a b).start = pure ({ others := [.root a] }, []) := if_pos hobj

theorem start_assign (hobj : a.obj ≠ b.obj) (hheap : a.heap = b.heap) :
    (assign a b).start =
      session a.heap (a.rebind b.obj) fun _ => { others := [.root { a with obj := b.obj }] } :=
  (if_neg hobj).trans (if_pos hheap)

theorem start_assign_foreign (hobj : a.obj ≠ b.obj) (hheap : a.heap ≠ b.heap) :
    (assign a b).start = refuse a .foreignAssign :=
  (if_neg hobj).trans (if_neg hheap)

theorem start_setField (haccepts : a.accepts target = true) :
    (setField a s target).start =
      session a.heap (a.storeField s (target.map (·.obj))) fun _ => {} := if_pos haccepts

theorem start_setField_foreign (haccepts : ¬ a.accepts target = true) :
    (setField a s target).start = refuse a .foreignStore := if_neg haccepts

end Branches

/-- Every call but an upgrade is made up this way, whatever becomes of it. -/
theorem run_eq {call : Call} (hcall : ∀ x, call ≠ .upgrade x) :
    call.run = call.start >>= fun p => finish p.1 p.2 := by
  -- the session comes first in either form, and what the client is handed after it, in `deliver`
  cases call with
  | createHeap | shareHeap | downgrade | cloneWeak | newField | newList =>
      simp [start, run, finish_nil]
  | dropHeap | drop | dropSlot => simp [start, run, finish_tasks, Handle.drop]
  | dropWeak x =>
      simp [start, run, finish_tasks, WeakRef.drop, WeakRef.holdings, Function.comp_def,
        Task.ofHolding]
  | alloc h typeName value =>
      simp only [start, run, bind_assoc, session_finish, RootedHeap.alloc]
      simp [Handle.hold, Receipt.deliver]
  | clone a =>
      simp only [start, run, session_finish, Handle.clone]
      simp [Handle.hold, Receipt.deliver]
  | assign a b =>
      simp only [start, run, Handle.assign]
      split_ifs
      · simp [finish_nil]
      · rw [session_finish]
        simp [Receipt.deliver]
      · rw [refuse_finish]
        rfl
  | getField a s =>
      simp only [start, run, session_finish, Handle.getField]
      simp [mapM_hold_option]
  | setField a s target =>
      simp only [start, run, Handle.setField]
      split_ifs
      · rw [session_finish]
        simp [Receipt.deliver]
      · rw [refuse_finish]
        rfl
  | takeField a s =>
      simp only [start, run, session_finish, Handle.takeField]
      simp [mapM_hold_option]
  | pushItem a s item | insertItem a s index item | setItem a s index item =>
      simp only [start, run, Handle.pushItem, Handle.insertItem, Handle.setItem, Handle.storing]
      split_ifs
      · rw [session_finish]
        simp [Receipt.deliver]
      · rw [refuse_finish]
        rfl
  | getItem a s index =>
      simp only [start, run, session_finish, Handle.getItem]
      simp [mapM_hold_option]
  | items a s =>
      simp only [start, run, session_finish, Handle.items]
      simp [mapM_hold]
  | removeItem a s index =>
      simp only [start, run, session_finish, Handle.removeItem]
      simp [Handle.hold, Receipt.deliver]
  | popItem a s =>
      simp only [start, run, session_finish, Handle.popItem]
      simp [mapM_hold_option]
  | clearItems a s =>
      simp only [start, run, session_finish, Handle.clearItems]
      simp [Receipt.deliver]
  | upgrade x => exact absurd rfl (hcall x)

section Upgrade

variable {α : Type} {h : HeapId} {op : Locked α} {w w' w'' : World}

theorem run_of_locked {a : α} {dead : List ObjId} (hlocked : locked h op w = .ok (a, dead) w')
    (hsettle : settle (Task.finalizing h dead) w' = .ok () w'') :
    RootedHeap.run h op w = .ok a w'' := by
  rw [RootedHeap.run, bind_of_ok hlocked]
  exact bind_of_ok hsettle

theorem run_of_fault {f : Fault} (hlocked : locked h op w = .error f w') :
    RootedHeap.run h op w = .error f w' :=
  bind_of_error hlocked

/-- An upgrade that finds its target collected leaves the heap last, as another task. -/
theorem run_of_leaving {a : α} {dead : List ObjId} (hlocked : locked h op w = .ok (a, dead) w')
    (hsettle : settle (Task.finalizing h dead ++ [.leave h]) w' = .ok () w'') :
    ∃ w₁, RootedHeap.run h op w = .ok a w₁ ∧ w'' = w₁.leave h := by
  rw [settle_append] at hsettle
  obtain ⟨_, w₁, hfinal, hleft⟩ := exists_of_bind_ok hsettle
  refine ⟨w₁, run_of_locked hlocked hfinal, ?_⟩
  have hleave : (Task.leave h).step w₁ = .ok [] (w₁.leave h) := rfl
  rw [settle_of_step hleave, List.append_nil, settle_nil] at hleft
  cases hleft
  rfl

theorem settle_of_finish {r : Receipt} {tasks : List Task} (hr : r.handles = [])
    (hfinish : finish r tasks w' = .ok r w'') : settle tasks w' = .ok () w'' := by
  obtain ⟨_, w₁, hsettle, hrest⟩ := exists_of_bind_ok hfinish
  rw [Receipt.deliver, hr] at hrest
  cases hrest
  exact hsettle

theorem run_upgrade {x : WeakRef} {found : Option Handle}
    (hupgrade : x.upgrade w = .ok found w') :
    (upgrade x).run w = .ok { others := found.toList.map .root } w' :=
  bind_of_ok hupgrade

/-- An upgrade claims the target under the lock of the target's heap. Without a target, or once its heap
is gone, it comes to nothing. -/
theorem upgrade_cases (x : WeakRef) (w : World) :
    ((∀ o ∈ x.target, ∀ ob : Object, w.objects[o]? = some ob → w.heapExists ob.heap = false) ∧
        x.upgrade w = .ok none w ∧ (upgrade x).start w = .ok ({}, []) w) ∨
      ∃ o ob, x = ⟨some o⟩ ∧ w.objects[o]? = some ob ∧ w.heapExists ob.heap = true := by
  obtain ⟨target⟩ := x
  cases target with
  | none => exact .inl ⟨by simp, rfl, rfl⟩
  | some o =>
      cases hob : w.objects[o]? with
      | none =>
          refine .inl ⟨by simp [hob], ?_, ?_⟩
          · simp only [WeakRef.upgrade, hob]
          · simp only [start, hob]
      | some ob =>
          by_cases hexists : w.heapExists ob.heap = true
          · exact .inr ⟨o, ob, rfl, hob, hexists⟩
          · refine .inl ⟨?_, ?_, ?_⟩
            · rintro _ ⟨⟩ ob' hob'
              cases hob.symm.trans hob'
              exact Bool.eq_false_iff.mpr hexists
            · simp only [WeakRef.upgrade, hob, if_neg hexists]
            · simp only [start, hob, if_neg hexists]

theorem upgrade_of_start {x : WeakRef} {r : Receipt} {tasks : List Task}
    (hstart : (upgrade x).start w = .ok (r, tasks) w') (hfinish : finish r tasks w' = .ok r w'') :
    (upgrade x).run w = .ok r w'' := by
  obtain ⟨-, hnone, hnothing⟩ | ⟨o, ob, rfl, hob, hexists⟩ := upgrade_cases x w
  · cases hstart.symm.trans hnothing
    rw [finish_nil rfl] at hfinish
    cases hfinish
    exact run_upgrade hnone
  · simp only [start, hob, if_pos hexists] at hstart
    split at hstart
    next a dead w₁ hlocked =>
      cases hstart
      have hrun := run_of_locked hlocked (settle_of_finish rfl hfinish)
      have hupgrade : WeakRef.upgrade ⟨some o⟩ w = .ok (some a) w'' := by
        simp only [WeakRef.upgrade, hob, if_pos hexists, hrun]
      exact run_upgrade hupgrade
    next dead w₁ hlocked =>
      cases hstart
      obtain ⟨w₂, hrun, rfl⟩ := run_of_leaving hlocked (settle_of_finish rfl hfinish)
      have hupgrade : WeakRef.upgrade ⟨some o⟩ w = .ok none (w₂.leave ob.heap) := by
        simp only [WeakRef.upgrade, hob, if_pos hexists, hrun]
      exact run_upgrade hupgrade
    next => cases hstart

theorem upgrade_of_refusal {x : WeakRef} {f : Fault} (hstart : (upgrade x).start w = .error f w') :
    (upgrade x).run w = .error f w' := by
  obtain ⟨-, -, hnothing⟩ | ⟨o, ob, rfl, hob, hexists⟩ := upgrade_cases x w
  · cases hstart.symm.trans hnothing
  · simp only [start, hob, if_pos hexists] at hstart
    split at hstart
    next => cases hstart
    next => cases hstart
    next f' w₁ hlocked =>
      obtain ⟨rfl, rfl⟩ := EStateM.Result.error.inj hstart
      have hupgrade : WeakRef.upgrade ⟨some o⟩ w = .error f' (w₁.leave ob.heap) := by
        simp only [WeakRef.upgrade, hob, if_pos hexists, run_of_fault hlocked]
      exact bind_of_error hupgrade

end Upgrade

/-- A call whose session ends well goes on with the tasks and the delivery. -/
theorem run_of_start {call : Call} {w w' w'' : World} {r : Receipt} {tasks : List Task}
    (hstart : call.start w = .ok (r, tasks) w') (hfinish : finish r tasks w' = .ok r w'') :
    call.run w = .ok r w'' := by
  by_cases hcall : ∃ x, call = .upgrade x
  · obtain ⟨x, rfl⟩ := hcall
    exact upgrade_of_start hstart hfinish
  · rw [run_eq fun x hx => hcall ⟨x, hx⟩, bind_of_ok hstart]
    exact hfinish

/-- A call whose session fails does nothing more. -/
theorem run_of_refusal {call : Call} {w w' : World} {f : Fault}
    (hstart : call.start w = .error f w') : call.run w = .error f w' := by
  by_cases hcall : ∃ x, call = .upgrade x
  · obtain ⟨x, rfl⟩ := hcall
    exact upgrade_of_refusal hstart
  · rw [run_eq fun x hx => hcall ⟨x, hx⟩, bind_of_error hstart]

end Call

end RootedHeap
