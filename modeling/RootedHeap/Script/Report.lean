import RootedHeap.Script.Exec

/-! # Running a script

A script creates its heaps, does its steps one after the other, and at the end drops what is left:
detached slots, then handles, then weak references, each in the order of names. After every step it
reports the heaps, the values dropped and the events logged since the last report. A fault after
which counts cannot be trusted halts it: nothing more is done, and nothing is dropped.
-/

namespace RootedHeap.Script

/-- A script. -/
structure Program where
  /-- The name under which cells appear in messages. -/
  typeName : String
  heaps : List Config
  /-- Whether to report the tallies of all named handles. -/
  tallies : Bool
  /-- The least severe level of the events to report, if any. -/
  log : Option Level
  steps : List Step

/-- An event as it is shown. -/
structure LogLine where
  level : Level
  message : String
  fields : List (String × String)

/-- How things stand after a step. -/
structure Status where
  /-- One for each heap, none for a heap that the script dropped. -/
  heaps : List (Option Stats)
  /-- The labels of the objects whose values were dropped, in order. -/
  dropped : List String
  /-- The events logged, if they are asked for. -/
  log : Option (List LogLine)
  /-- The tallies of the named handles, if they are asked for. -/
  tallies : Option (List (String × List (RootId × Nat)))

/-- A step's status and what it answered. -/
structure StepReport where
  status : Status
  outcome : Except Stop Reply

/-- All that a script reports. -/
structure Run where
  start : Status
  steps : List StepReport
  finish : Status
  halted : Bool

namespace State

def showDatum (s : State) : Datum → String
  | .text t => t
  | .object o => s.showObject o

def showEvent (s : State) (e : Event) : LogLine :=
  ⟨e.level, e.message, e.fields.map fun f => (f.1, s.showDatum f.2)⟩

/-- The events at least as severe as `level`, in order. -/
def showLog (s : State) (level : Level) : List LogLine :=
  (s.world.log.toList.filter (·.level.rank ≤ level.rank)).map s.showEvent

def labelOf (s : State) (o : ObjId) : String :=
  match s.cells[o]? with
  | some cell => cell.label
  | none => ""

/-- How things stand, with `tallies` or without. -/
def status (s : State) (p : Program) (tallies : Bool) : Status where
  heaps := s.owned.toList.mapIdx fun h owned => if owned then some (s.world.stats h) else none
  dropped := s.world.dropped.toList.map s.labelOf
  log := p.log.map s.showLog
  tallies := if tallies then some (s.handles.map fun e => (e.1, e.2.tally s.world)) else none

/-- Forget what has been reported. -/
def reported (s : State) : State :=
  { s with world := { s.world with log := #[], dropped := #[] } }

end State

/-- Whether an outcome halts the script. -/
def halting : Except Stop Reply → Bool
  | .error (.faulted fault) => fault.halts
  | _ => false

/-- Do a step, whatever comes of it. -/
def attempt (step : Step) (s : State) : Except Stop Reply × State :=
  match exec step s with
  | .ok reply s => (.ok reply, s)
  | .error stop s => (.error stop, s)

/-- Do the steps until the end, or until one halts the script. -/
def runSteps (p : Program) : List Step → State → List StepReport × Bool × State
  | [], s => ([], false, s)
  | step :: rest, s =>
    let (outcome, s) := attempt step s
    if halting outcome then ([⟨s.status p false, outcome⟩], true, s.reported)
    else
      let report := ⟨s.status p p.tallies, outcome⟩
      let (reports, halted, s) := runSteps p rest s.reported
      (report :: reports, halted, s)

/-- Do something to the world, and go on if it fails. -/
def tryAct (s : State) (op : Op Unit) : State :=
  match act op s with
  | .ok _ s => s
  | .error _ s => s

/-- Drop all that is left. -/
def dropAll (s : State) : State :=
  let s := s.detached.foldl (fun s e => tryAct s (settle [.dropSlot e.2])) s
  let s := s.handles.foldl (fun s e => tryAct s e.2.drop) s
  s.weaks.foldl (fun s e => tryAct s e.2.drop) s

/-- Create the heaps of a script. -/
def create (p : Program) : State :=
  p.heaps.foldl
    (fun s config => tryAct { s with owned := s.owned.push true } (do let _ ← createHeap config))
    { typeName := p.typeName }

/-- Run a script from its beginning to its end. -/
def Program.run (p : Program) : Run :=
  let s := create p
  let (reports, halted, after) := runSteps p p.steps s.reported
  let last := if halted then after else dropAll after
  { start := s.status p false
    steps := reports
    finish := last.status p false
    halted := halted }

end RootedHeap.Script
