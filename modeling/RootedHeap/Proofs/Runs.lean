import Mathlib
import RootedHeap.Proofs.Calls

/-! # Runs of a client

Calls made one after another, either at once (`Client.call`) or step by step (`Client.begin`,
`Client.advance`), keep a client well behaved. Small clients, such as one with a chain of two objects,
are made this way. Mathlib is imported whole for the equations of the state monad by which `cbv`
evaluates them.
-/

namespace RootedHeap

namespace Client

variable {c : Client}

/-- The client after a call, also when it failed. -/
def call (c : Client) (call : Call) : Client :=
  match call.run c.world with
  | .ok r w => c.after call r w
  | .error _ w => { c with world := w }

/-- Whether a call does not fail. -/
def accepts (c : Client) (call : Call) : Bool :=
  match call.run c.world with
  | .ok .. => true
  | .error .. => false

theorem Reached.call {call : Call} (h : c.Reached ∧ c.AtRest) (hallowed : call.Allowed c)
    (haccepts : c.accepts call = true) : (c.call call).Reached ∧ (c.call call).AtRest := by
  unfold Client.accepts at haccepts
  unfold Client.call
  cases hrun : call.run c.world with
  | ok r w => exact ⟨.ran h.1 h.2 hallowed hrun, rfl, rfl⟩
  | error f w =>
      rw [hrun] at haccepts
      cases haccepts

/-- The client once the session of a call is over. -/
def begin (c : Client) (call : Call) : Client :=
  match call.start c.world with
  | .ok (r, tasks) w => c.opened call r tasks w
  | .error _ w => { c with world := w }

/-- Whether the session of a call does not fail. -/
def starts (c : Client) (call : Call) : Bool :=
  match call.start c.world with
  | .ok .. => true
  | .error .. => false

theorem begin_of_starts {call : Call} (hstarts : c.starts call = true) :
    ∃ r tasks w, call.start c.world = .ok (r, tasks) w ∧ c.begin call = c.opened call r tasks w := by
  unfold Client.starts at hstarts
  unfold Client.begin
  cases hstart : call.start c.world with
  | ok p w => exact ⟨p.1, p.2, w, rfl, rfl⟩
  | error f w =>
      rw [hstart] at hstarts
      cases hstarts

theorem Reached.begin {call : Call} (h : c.Reached) (hrest : c.AtRest) (hallowed : call.Allowed c)
    (hstarts : c.starts call = true) : (c.begin call).Reached := by
  obtain ⟨r, tasks, w, hstart, hbegin⟩ := begin_of_starts hstarts
  rw [hbegin]
  exact h.opened hrest hallowed hstart

/-- The client once the first task that is left is carried out. -/
def advance (c : Client) : Client :=
  match c.todo with
  | [] => c
  | t :: rest =>
    match t.step c.world with
    | .ok more w => { c with world := w, todo := more ++ rest }
    | .error _ w => { c with world := w }

theorem Reached.advance (h : c.Reached) : c.advance.Reached := by
  unfold Client.advance
  split
  next => exact h
  next t rest htodo =>
    split
    next more w hstep => exact h.stepped htodo hstep
    next f w hstep =>
      have horderly := h.sound.orderly
      unfold Orderly at horderly
      rw [htodo, ← Multiset.cons_coe] at horderly
      exact ((Task.step_ends horderly).of_error hstep).elim

/-- Once nothing is left to be done, all tasks are carried out. -/
theorem Sound.settle_of_advance (h : c.Sound) {n : Nat} (hdone : (advance^[n] c).todo = []) :
    RootedHeap.settle c.todo c.world = .ok () (advance^[n] c).world := by
  induction n generalizing c with
  | zero =>
      have hnone : c.todo = [] := hdone
      rw [hnone]
      exact congrFun settle_nil c.world
  | succ n ih =>
      rw [Function.iterate_succ_apply] at hdone ⊢
      cases htodo : c.todo with
      | nil =>
          have hrest : c.advance = c := by
            unfold Client.advance
            rw [htodo]
          rw [hrest] at hdone ⊢
          rw [← htodo]
          exact ih h hdone
      | cons t rest =>
          have horderly := h.orderly
          unfold Orderly at horderly
          rw [htodo, ← Multiset.cons_coe] at horderly
          obtain ⟨more, w, hstep, -⟩ := (Task.step_ends horderly).exists_ok
          have hnext : c.advance = { c with world := w, todo := more ++ rest } := by
            unfold Client.advance
            rw [htodo]
            dsimp only
            rw [hstep]
          rw [hnext] at hdone ⊢
          rw [settle_of_step hstep]
          exact ih (h.step htodo hstep) hdone

theorem advance_incoming (c : Client) : c.advance.incoming = c.incoming := by
  unfold Client.advance
  split
  · rfl
  · split <;> rfl

theorem iterate_advance_incoming (c : Client) (n : Nat) : (advance^[n] c).incoming = c.incoming := by
  induction n generalizing c with
  | zero => rfl
  | succ n ih => rw [Function.iterate_succ_apply, ih, advance_incoming]

/-- The client once the session of a call is over and `n` tasks are carried out. -/
def complete (c : Client) (call : Call) (n : Nat) : Client := advance^[n] (c.begin call)

/-- A call that does `op` and returns nothing is over once its tasks are carried out. -/
theorem Reached.complete (call : Call) (n : Nat) {op : Op Unit} (h : c.Reached ∧ c.AtRest)
    (hallowed : call.Allowed c) (hop : call.run = op >>= fun _ => pure {})
    (hcompletes : c.starts call = true ∧ (c.complete call n).AtRest) :
    ((c.complete call n).Reached ∧ (c.complete call n).AtRest) ∧
      op c.world = .ok () (c.complete call n).world := by
  obtain ⟨hstarts, hdone⟩ := hcompletes
  unfold Client.complete at hdone ⊢
  have hreached := h.1.begin h.2 hallowed hstarts
  refine ⟨⟨Function.Iterate.rec Reached hreached (fun _ => Reached.advance) n, hdone⟩, ?_⟩
  have hsettle := hreached.sound.settle_of_advance hdone.1
  have hnone := hdone.2
  rw [iterate_advance_incoming] at hnone
  obtain ⟨r, tasks, w, hstart, hbegin⟩ := begin_of_starts hstarts
  have htodo : (c.begin call).todo = tasks := by rw [hbegin, Client.opened]
  have hworld : (c.begin call).world = w := by rw [hbegin, Client.opened]
  have hhandles : r.handles = [] := by rwa [hbegin] at hnone
  rw [htodo, hworld] at hsettle
  have hdeliver (w' : World) : r.deliver w' = .ok () w' := by
    rw [Receipt.deliver, hhandles]
    rfl
  have hrun := Call.run_of_start hstart (Call.finish_of_settle hsettle (hdeliver _))
  rw [hop] at hrun
  obtain ⟨_, w', hresult, hreturn⟩ := exists_of_bind_ok hrun
  obtain ⟨-, rfl⟩ := EStateM.Result.ok.inj hreturn
  exact hresult

/-- A client with an object in a heap. -/
def lone : Client := (({ } : Client).call (.createHeap {})).call (.alloc 0 "leaf" .plain)

/-- The object is the leaf of a node as well. -/
def chain : Client := (lone.call (.newField (some ⟨0, 1, 0⟩))).call (.alloc 0 "node" (.slot 0))

theorem leaf_allowed : (Call.alloc 0 "leaf" .plain).Allowed (({ } : Client).call (.createHeap {})) := by
  have hheaps : (({ } : Client).call (.createHeap {})).heaps = {0} := by cbv
  refine ⟨?_, by decide, Multiset.zero_le _⟩
  rw [hheaps]
  exact Multiset.mem_singleton_self 0

theorem field_allowed : (Call.newField (some ⟨0, 1, 0⟩)).Allowed lone := by
  have hheld : lone.held = {.root ⟨0, 1, 0⟩} := by cbv
  rintro b ⟨⟩
  exact .held (hheld ▸ Multiset.mem_singleton_self _)

theorem node_allowed :
    (Call.alloc 0 "node" (.slot 0)).Allowed (lone.call (.newField (some ⟨0, 1, 0⟩))) := by
  have hheld : (lone.call (.newField (some ⟨0, 1, 0⟩))).held = {.slot 0, .root ⟨0, 1, 0⟩} := by cbv
  have hheaps : (lone.call (.newField (some ⟨0, 1, 0⟩))).heaps = {0} := by cbv
  refine ⟨?_, by decide, ?_⟩
  · rw [hheaps]
    exact Multiset.mem_singleton_self 0
  · rw [hheld]
    exact Multiset.singleton_le.mpr (Multiset.mem_cons_self _ _)

theorem lone_reached : lone.Reached ∧ lone.AtRest :=
  Reached.call (Reached.call ⟨.start, rfl, rfl⟩ rfl (by cbv)) leaf_allowed (by cbv)

theorem chain_reached : chain.Reached ∧ chain.AtRest :=
  Reached.call (Reached.call lone_reached field_allowed (by cbv)) node_allowed (by cbv)

end Client

end RootedHeap
