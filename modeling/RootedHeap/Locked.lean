import RootedHeap.Pass.Disconnect
import RootedHeap.Pass.Strip
import RootedHeap.World

/-! # Work under a heap's lock

One operation of a heap runs as a session: it changes the world and remembers the objects that lost
their last root tag, or a strong reference while no root reached them. When the session ends,
`reclaim` decides which of those are garbage. A fault leaves the world as it is and reclaims
nothing.
-/

namespace RootedHeap

/-- The state of an operation that holds a heap's lock. -/
structure Session where
  world : World
  /-- Objects that may have become garbage, in the order they were noticed. -/
  unrooted : List ObjId

/-- Work under a heap's lock. -/
abbrev Locked := EStateM Fault Session

namespace Locked

/-- Change the world. -/
def update (f : World → World) : Locked Unit :=
  modify fun s => { s with world := f s.world }

/-- Look at the world. -/
def look {α : Type} (f : World → α) : Locked α := do
  return f (← get).world

/-- Remember objects that may have become garbage. -/
def suspect (os : List ObjId) : Locked Unit :=
  modify fun s => { s with unrooted := s.unrooted ++ os }

def note (e : Event) : Locked Unit := update (·.note e)

/-- Report a violation and stop. -/
def violate {α : Type} (cause : Violation) : Locked α := do
  note (.violated cause)
  throw (.violation cause)

/-- Make a pass over the tallies and store what it leaves of them. A pass reads nothing else that it
changes, so the tallies are handed over to it while it runs. -/
def pass {α : Type} (make : World → Tallies → α) (left : α → Tallies) : Locked α := fun s =>
  let tallies := s.world.tallies
  let world := { s.world with tallies := #[] }
  let made := make world tallies
  .ok made { s with world := { world with tallies := left made } }

/-- Count one new edge of `r` into `target`, and expand what becomes tagged. -/
def connect (h : HeapId) (r : RootId) (target : ObjId) : Locked Unit := do
  update (·.modifyCounters h fun c => { c with connectPasses := c.connectPasses + 1 })
  let pass ← pass (fun w => RootedHeap.connect w.out (w.owns h) r target) (·.tallies)
  update fun w =>
    { w with log := w.log ++ pass.touches.map fun t => Event.tallyBumped t.obj r t.count }
  match pass.stranger with
  | none => pure ()
  | some o => violate (.protocol (← look (·.typeName o)) .foreignTarget)

/-- Look for cycles below `candidates` that only their own edges still tag with `r`. -/
def scan (h : HeapId) (r : RootId) (candidates : List ObjId) : Locked Unit := do
  update (·.modifyCounters h fun c => { c with cycleScans := c.cycleScans + 1 })
  let found ← pass (fun w => scanOrphans w.out r candidates) (·.tallies)
  if found.orphans.isEmpty then pure ()
  else
    note (.orphansFound r found.scanned found.orphans.length)
    update (·.modifyCounters h fun c =>
      { c with orphansFound := c.orphansFound + found.orphans.length })
    suspect found.unrooted
    if found.broken then throw .survivorUncounted else pure ()

/-- Take one edge of `r` away from `target`. -/
def disconnect (h : HeapId) (r : RootId) (target : ObjId) : Locked Unit := do
  update (·.modifyCounters h fun c => { c with disconnectPasses := c.disconnectPasses + 1 })
  let pass ← pass (fun w => cascade w.back r target) (·.tallies)
  update fun w =>
    { w with
      log := w.log ++ pass.touches.map fun t =>
        if t.count = 0 then Event.tagRemoved t.obj r else Event.tallyDropped t.obj r t.count }
  suspect pass.unrooted
  match pass.unreached with
  | some o => violate (.protocol (← look (·.typeName o)) (.notConnected r))
  | none => if pass.candidates.isEmpty then pure () else scan h r pass.candidates

/-- Remove the tag of `r` from `target` and wherever it can be followed to. -/
def stripRoot (r : RootId) (target : ObjId) : Locked Unit := do
  let pass ← pass (fun w => strip w.back r target) (·.tallies)
  suspect pass.unrooted

/-- Give up one strong reference to `o`. -/
def releaseStrong (o : ObjId) : Locked Unit := do
  match ← look (·.objects[o]?) with
  | none => pure ()
  | some ob =>
    if ob.strong = 0 then throw (.strongUnderflow ob.typeName)
    else
      update (·.modifyObject o fun ob => { ob with strong := ob.strong - 1 })
      note (.strongReleased o (ob.strong - 1))
      if ← look (·.tallies.isEmptyAt o) then suspect [o] else pure ()

/-- Register a new root that points at `target`, and connect it. -/
def acquireRoot (h : HeapId) (target : ObjId) : Locked RootId := do
  match ← look (·.heaps[h]?) with
  | none => pure 0
  | some heap =>
    let (r, roots) := heap.roots.acquire target
    update (·.modifyHeap h fun heap =>
      { heap with
        roots := roots
        counters := { heap.counters with rootsAcquired := heap.counters.rootsAcquired + 1 } })
    note (.rootAcquired r target)
    connect h r target
    pure r

/-- Register a new root that points at `target`, with a strong reference of its own. -/
def newHandle (h : HeapId) (target : ObjId) : Locked Handle := do
  update (·.retain target)
  let r ← acquireRoot h target
  pure ⟨target, r, h⟩

/-- Withdraw root `r` along with the strong reference of its handle. -/
def dropRoot (h : HeapId) (r : RootId) : Locked Unit := do
  match ← look (·.heaps[h]?) with
  | none => pure ()
  | some heap =>
    match heap.roots.release r with
    | .error cause => violate cause
    | .ok (target, roots) =>
      update (·.modifyHeap h fun heap =>
        { heap with
          roots := roots
          counters := { heap.counters with rootsReleased := heap.counters.rootsReleased + 1 } })
      note (.rootReleased r target)
      stripRoot r target
      releaseStrong target

/-- Point root `r` at `target` instead; the strong reference to `target` is the caller's gift. -/
def retarget (h : HeapId) (r : RootId) (target : ObjId) : Locked Unit := do
  match ← look (·.heaps[h]?) with
  | none => pure ()
  | some heap =>
    match heap.roots.retarget r target with
    | .error cause => violate cause
    | .ok (old, roots) =>
      update (·.modifyHeap h fun heap => { heap with roots := roots })
      note (.rootRetargeted r old target)
      -- what both objects lead to keeps its tag, as the new target comes first
      connect h r target
      disconnect h r old
      releaseStrong old

/-- The roots that reach `o`, ascending. -/
def rootsOf (o : ObjId) : Locked (List RootId) :=
  look fun w => (w.tallies[o]?.getD .empty).roots

/-- Count a new edge into `target` for each of the roots that reach the edge's source. -/
def attach (h : HeapId) (roots : List RootId) (target : ObjId) : Locked Unit :=
  roots.forM fun r => connect h r target

/-- Take an edge into `target` away for each of the roots it was counted under. -/
def detach (h : HeapId) (roots : List RootId) (target : ObjId) : Locked Unit :=
  roots.forM fun r => disconnect h r target

/-- A slot reached by `roots` comes to own `o`. -/
def gain (h : HeapId) (roots : List RootId) (o : ObjId) : Locked Unit := do
  update (·.retain o)
  attach h roots o

/-- A slot reached by `roots` no longer owns `o`. -/
def lose (h : HeapId) (roots : List RootId) (o : ObjId) : Locked Unit := do
  detach h roots o
  releaseStrong o

/-- Whether a write to slot `s` through an object of heap `h` has to be checked: always when the
slot is not stored within the object, and on request otherwise. -/
def mustVerify (w : World) (h : HeapId) (owner : ObjId) (s : SlotId) : Bool :=
  let inline := match w.objects[owner]? with
    | some ob => ob.value.inlineSlots.contains s
    | none => false
  let verify := match w.heaps[h]? with
    | some heap => heap.config.verify
    | none => true
  !inline || verify

/-- Fail unless the value of `owner` reports slot `s`. -/
def verifySlot (h : HeapId) (owner : ObjId) (s : SlotId) : Locked Unit := do
  let refused ← look fun w =>
    mustVerify w h owner s && !((w.visits owner).map (·.slot)).contains s
  if refused then violate (.protocol (← look (·.typeName owner)) .unvisitedSlot) else pure ()

end Locked

namespace World

/-- Whether `o` may be garbage: live, and reached by no root. -/
def candidate (w : World) (o : ObjId) : Bool := w.isLive o && w.tallies.isEmptyAt o

/-- Trial deletion below `unrooted` among the candidates. What has more strong references than the
examined objects account for is held from outside, and with it all it leads to. -/
def garbage (w : World) (unrooted : List ObjId) : Trial :=
  trial w.objects.size (fun o => (w.out o).filter w.candidate)
    (fun o => match w.objects[o]? with
      | some ob => ob.strong
      | none => 0)
    (unrooted.filter w.candidate).reverse

/-- Choose all of `os` for collection. -/
def condemn (w : World) (os : List ObjId) : World :=
  { w with
    objects := os.foldl (fun objects o => objects.modify o ({ · with state := .collecting }))
      w.objects }

end World

/-- Decide which suspects of a session are garbage, and choose them for collection. -/
def reclaim (h : HeapId) : Locked (List ObjId) := fun s =>
  if s.unrooted.isEmpty then .ok [] s
  else
    let found := s.world.garbage s.unrooted
    let dead := found.lost
    if dead.isEmpty then
      if found.kept.isEmpty then .ok [] s
      else .ok [] { s with world := s.world.note (.stillHeld found.kept.length) }
    else
      let w := s.world.condemn dead
      match w.heaps[h]? with
      | none => .ok dead { s with world := w }
      | some heap =>
        if heap.live < dead.length then .error .liveUnderflow { s with world := w }
        else
          let live := heap.live - dead.length
          let w := w.modifyHeap h fun heap =>
            { heap with
              live := live
              counters :=
                { heap.counters with
                  collected := heap.counters.collected + dead.length
                  collections := heap.counters.collections + 1 } }
          .ok dead { s with
            world := w.note (.collected heap.config.name dead.length found.kept.length live) }

/-- Run `op` under the lock of heap `h` and reclaim what it left unreachable. The values of the
objects returned are still to be dropped. -/
def locked {α : Type} (h : HeapId) (op : Locked α) : Op (α × List ObjId) := fun w =>
  match op ⟨w, []⟩ with
  | .error fault s => .error fault s.world
  | .ok a s =>
    match reclaim h s with
    | .error fault s => .error fault s.world
    | .ok dead s => .ok (a, dead) s.world

end RootedHeap
