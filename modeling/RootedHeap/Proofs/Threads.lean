import Mathlib.Algebra.BigOperators.Group.Finset.Basic
import Mathlib.Data.Fintype.Basic
import RootedHeap.Proofs.Calls

/-! # Threads

Several clients at once, each with its own holdings, on one world. A step is the session of a call, or
a single task, or the arrival of a handle, of any one of them, so that what one thread collected is
still being finalized while others go on (`Crowd.Step`).
-/

namespace RootedHeap

open World

/-- One step of a client: it begins a call, or goes on with the one that is under way. -/
inductive Client.Step : Client → Client → Prop
  | opened {c : Client} {call : Call} {r : Receipt} {tasks : List Task} {w : World}
      (hrest : c.AtRest) (hallowed : call.Allowed c) (hstart : call.start c.world = .ok (r, tasks) w) :
      Step c (c.opened call r tasks w)
  | refused {c : Client} {call : Call} {f : Fault} {w : World} (hrest : c.AtRest)
      (hallowed : call.Allowed c) (hstart : call.start c.world = .error f w) (hf : f.upFront = true) :
      Step c { c with world := w }
  | stepped {c : Client} {t : Task} {rest more : List Task} {w : World} (htodo : c.todo = t :: rest)
      (hstep : t.step c.world = .ok more w) : Step c { c with world := w, todo := more ++ rest }
  /-- When all tasks are done, the handles that are returned come to hold their heaps. -/
  | arrived {c : Client} {a : Handle} {rest : List Handle} (htodo : c.todo = [])
      (hincoming : c.incoming = a :: rest) :
      Step c ⟨c.world.enter a.heap, .root a ::ₘ c.held, c.heaps, c.todo, rest⟩

/-- What a thread has of its own. -/
structure Thread where
  held : Multiset Holding := 0
  heaps : Multiset HeapId := 0
  todo : List Task := []
  incoming : List Handle := []

/-- Threads that share a world. -/
structure Crowd (ι : Type) where
  world : World := {}
  threads : ι → Thread := fun _ => {}

namespace Crowd

variable {ι : Type}

/-- A thread as a client of the world that all share. -/
def client (x : Crowd ι) (i : ι) : Client where
  world := x.world
  held := (x.threads i).held
  heaps := (x.threads i).heaps
  todo := (x.threads i).todo
  incoming := (x.threads i).incoming

section Steps

variable [DecidableEq ι]

/-- The crowd once thread `i` has become `c`. -/
def put (x : Crowd ι) (i : ι) (c : Client) : Crowd ι where
  world := c.world
  threads := Function.update x.threads i ⟨c.held, c.heaps, c.todo, c.incoming⟩

/-- The crowd once thread `i` has given `xs` and `hs` to thread `j`. -/
def handOver (x : Crowd ι) (i j : ι) (xs : Multiset Holding) (hs : Multiset HeapId) : Crowd ι where
  world := x.world
  threads := Function.update
    (Function.update x.threads i
      { x.threads i with held := (x.threads i).held - xs, heaps := (x.threads i).heaps - hs })
    j { x.threads j with held := xs + (x.threads j).held, heaps := hs + (x.threads j).heaps }

theorem put_self (x : Crowd ι) (i : ι) (c : Client) :
    (x.put i c).threads i = ⟨c.held, c.heaps, c.todo, c.incoming⟩ := Function.update_self ..

theorem put_of_ne (x : Crowd ι) {i j : ι} (c : Client) (hne : j ≠ i) :
    (x.put i c).threads j = x.threads j := Function.update_of_ne hne ..

@[simp] theorem client_put_self (x : Crowd ι) (i : ι) (c : Client) : (x.put i c).client i = c := by
  rw [client, put_self]
  rfl

section HandOver

variable {x : Crowd ι} {i j : ι} {xs : Multiset Holding} {hs : Multiset HeapId}

theorem handOver_left (hne : i ≠ j) : (x.handOver i j xs hs).threads i =
    { x.threads i with held := (x.threads i).held - xs, heaps := (x.threads i).heaps - hs } :=
  (Function.update_of_ne hne ..).trans (Function.update_self ..)

theorem handOver_right : (x.handOver i j xs hs).threads j =
    { x.threads j with held := xs + (x.threads j).held, heaps := hs + (x.threads j).heaps } :=
  Function.update_self ..

theorem handOver_of_ne {k : ι} (hi : k ≠ i) (hj : k ≠ j) :
    (x.handOver i j xs hs).threads k = x.threads k :=
  (Function.update_of_ne hj ..).trans (Function.update_of_ne hi ..)

/-- What depends on neither holdings nor heaps does not change. -/
theorem handOver_eq {α : Type} {f : Thread → α} (hne : i ≠ j)
    (hf : ∀ (t : Thread) held heaps, f { t with held, heaps } = f t) (k : ι) :
    f ((x.handOver i j xs hs).threads k) = f (x.threads k) := by
  by_cases hj : k = j
  · rw [hj, handOver_right, hf]
  · by_cases hi : k = i
    · rw [hi, handOver_left hne, hf]
    · rw [handOver_of_ne hi hj]

end HandOver

/-- One step of any one thread. -/
inductive Step (x : Crowd ι) : Crowd ι → Prop
  | thread (i : ι) {c : Client} (h : (x.client i).Step c) : Step x (x.put i c)
  /-- A thread between its calls gives something to another, which it may have just started. -/
  | handOver {i j : ι} (hne : i ≠ j) (hrest : (x.client i).AtRest) {xs : Multiset Holding}
      {hs : Multiset HeapId} (hxs : xs ≤ (x.threads i).held) (hhs : hs ≤ (x.threads i).heaps) :
      Step x (x.handOver i j xs hs)

/-- The states that threads come to, whatever the order of their steps. -/
inductive Interleaved : Crowd ι → Prop
  | start : Interleaved {}
  | step {x y : Crowd ι} (h : Interleaved x) (hstep : x.Step y) : Interleaved y

end Steps

section Sums

variable [Fintype ι] {α : Type} {x : Crowd ι} {i j : ι}

/-- What all threads have together. -/
def total {α : Type} (x : Crowd ι) (f : Thread → Multiset α) : Multiset α := ∑ i, f (x.threads i)

def todo (x : Crowd ι) : Multiset Task := x.total fun t => t.todo

def held (x : Crowd ι) : Multiset Holding := x.total Thread.held

def heaps (x : Crowd ι) : Multiset HeapId := x.total Thread.heaps

def incoming (x : Crowd ι) : Multiset Handle := x.total fun t => t.incoming

theorem mem_total {f : Thread → Multiset α} {a : α} : a ∈ x.total f ↔ ∃ i, a ∈ f (x.threads i) := by
  simp [total, Multiset.mem_sum]

theorem mem_todo {t : Task} : t ∈ x.todo ↔ ∃ i, t ∈ (x.threads i).todo := by
  simp only [todo, mem_total, Multiset.mem_coe]

variable [DecidableEq ι]

/-- What all threads but one have together. -/
def others {α : Type} (x : Crowd ι) (i : ι) (f : Thread → Multiset α) : Multiset α :=
  ∑ j ∈ Finset.univ.erase i, f (x.threads j)

/-- What all threads but one have to do. -/
def otherTodo (x : Crowd ι) (i : ι) : Multiset Task := x.others i fun t => t.todo

theorem total_eq (x : Crowd ι) (i : ι) (f : Thread → Multiset α) :
    x.total f = f (x.threads i) + x.others i f :=
  (Finset.add_sum_erase _ (fun j => f (x.threads j)) (Finset.mem_univ i)).symm

theorem total_put (x : Crowd ι) (i : ι) (c : Client) (f : Thread → Multiset α) :
    (x.put i c).total f = f ⟨c.held, c.heaps, c.todo, c.incoming⟩ + x.others i f := by
  rw [total_eq _ i, put_self]
  congr 1
  apply Finset.sum_congr rfl
  intro j hj
  rw [put_of_ne x c (Finset.ne_of_mem_erase hj)]

theorem mem_others {f : Thread → Multiset α} {a : α} :
    a ∈ x.others i f ↔ ∃ j, j ≠ i ∧ a ∈ f (x.threads j) := by
  simp [others, Multiset.mem_sum]

theorem le_total (x : Crowd ι) (i : ι) (f : Thread → Multiset α) : f (x.threads i) ≤ x.total f := by
  rw [total_eq x i]
  exact Multiset.le_add_right _ _

/-- Nothing is lost when it is handed over. -/
theorem total_handOver {f : Thread → Multiset α} {xs : Multiset Holding} {hs : Multiset HeapId}
    (hne : i ≠ j)
    (hgiven : f { x.threads i with
        held := (x.threads i).held - xs, heaps := (x.threads i).heaps - hs } +
      f { x.threads j with held := xs + (x.threads j).held, heaps := hs + (x.threads j).heaps } =
        f (x.threads i) + f (x.threads j)) :
    (x.handOver i j xs hs).total f = x.total f := by
  have hi : i ∈ Finset.univ.erase j := Finset.mem_erase.mpr ⟨hne, Finset.mem_univ i⟩
  have hrest : ∑ k ∈ (Finset.univ.erase j).erase i, f ((x.handOver i j xs hs).threads k) =
      ∑ k ∈ (Finset.univ.erase j).erase i, f (x.threads k) := by
    apply Finset.sum_congr rfl
    intro k hk
    have hki := Finset.ne_of_mem_erase hk
    have hkj := Finset.ne_of_mem_erase (Finset.mem_of_mem_erase hk)
    rw [handOver_of_ne hki hkj]
  rw [total_eq _ j, total_eq x j, others, others, ← Finset.add_sum_erase _ _ hi,
    ← Finset.add_sum_erase _ _ hi, hrest, ← add_assoc, ← add_assoc, add_comm (f (x.threads j)), ← hgiven,
    handOver_left hne, handOver_right, add_comm (f _)]

/-- All threads as one client, thread `i` first. -/
noncomputable def around (x : Crowd ι) (i : ι) : Client where
  world := x.world
  held := x.held
  heaps := x.heaps
  todo := (x.threads i).todo ++ (x.otherTodo i).toList
  incoming := (x.threads i).incoming ++ (x.others i fun t => t.incoming).toList

end Sums

end Crowd

end RootedHeap
