import RootedHeap.Fault
import RootedHeap.World

/-! # Threads

A thread is a sequence of heap operations, each of which is one step, together with the threads it
starts and waits for. `Thread.run` carries it out in the simplest of all orders: a started thread
runs to its end at once. A demonstration is written as an `Act`, a thread with a hole for what comes
after it.
-/

namespace RootedHeap.Demo

/-- Why a demonstration failed. -/
inductive Problem where
  | unknown (name : String)
  | missingField (name : String)
  | leaked (scenario : String) (live : Nat)
  | collectedEarly (scenario : String)
  | outlivedRoots (scenario : String)
  | faulted (fault : Fault)
  deriving DecidableEq, Repr

def Problem.message : Problem → String
  | unknown name => "unknown scenario `" ++ name ++ "`"
  | missingField name => "slot `" ++ name ++ "` was unexpectedly null"
  | leaked scenario live =>
    s!"{live} objects still live after `" ++ scenario ++ "` released every root"
  | collectedEarly scenario => "object collected while still reachable in `" ++ scenario ++ "`"
  | outlivedRoots scenario =>
    "object still reachable after its last root was released in `" ++ scenario ++ "`"
  | faulted fault => fault.message

/-- What is left of a thread. -/
inductive Thread : Type 1 where
  | done
  | fail (problem : Problem)
  /-- Do one operation, then go on. -/
  | op {β : Type} (action : Op β) (next : β → Thread)
  /-- Start another thread. -/
  | spawn (child rest : Thread)
  /-- Wait for all started threads. -/
  | join (rest : Thread)

namespace Thread

/-- Carry out a thread, and each thread it starts as soon as it is started. -/
def run : Thread → Op (Option Problem)
  | done => pure none
  | fail problem => pure (some problem)
  | op action next => do run (next (← action))
  | spawn child rest => do
    match ← run child with
    | some problem => pure (some problem)
    | none => run rest
  | join rest => run rest

end Thread

/-- A piece of a thread that gives an `α` to what comes after it. -/
def Act (α : Type) : Type 1 := (α → Thread) → Thread

namespace Act

instance : Monad Act where
  pure a := fun next => next a
  bind x f := fun next => x fun a => f a next

/-- The thread that consists of `x` alone. -/
def thread (x : Act Unit) : Thread := x fun _ => .done

/-- One operation. -/
def once {α : Type} (action : Op α) : Act α := fun next => .op action next

/-- Give up. -/
def fail {α : Type} (problem : Problem) : Act α := fun _ => .fail problem

/-- Start a thread. -/
def spawn (child : Act Unit) : Act Unit := fun next => .spawn child.thread (next ())

/-- Wait for all started threads. -/
def join : Act Unit := fun next => .join (next ())

end Act

end RootedHeap.Demo
