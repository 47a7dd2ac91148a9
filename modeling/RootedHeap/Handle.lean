import RootedHeap.Finalize

/-! # Root handles

Allocating objects, and copying, rebinding and dropping the handles that root them. Every handle
owns a root of its own and one strong reference to its object, and keeps its heap in existence.
-/

namespace RootedHeap

/-- A handle that leaves a session keeps its heap in existence. -/
def Handle.hold (a : Handle) : Op Handle := do
  modify (·.enter a.heap)
  pure a

/-- A new object of heap `h`, which is not counted in yet. -/
def place (h : HeapId) (typeName : String) (value : Value) : Op ObjId :=
  modifyGet fun w =>
    (w.objects.size,
      { w with
        objects := w.objects.push { heap := h, typeName := typeName, value := value }
        tallies := w.tallies.push .empty })

/-- Count a new object of heap `h` in, and root it. -/
def Locked.enroll (h : HeapId) (o : ObjId) (typeName : String) : Locked RootId := do
  update (·.modifyHeap h fun heap =>
    { heap with
      live := heap.live + 1
      counters := { heap.counters with allocations := heap.counters.allocations + 1 } })
  note (.allocated o typeName)
  acquireRoot h o

/-- Allocate `value` and return the first handle to it. When a slot of the value turns out to hold
an object of another heap, the object and its root stay behind without a handle. -/
def alloc (h : HeapId) (typeName : String) (value : Value) : Op Handle := do
  let o ← place h typeName value
  let r ← run h (Locked.enroll h o typeName)
  Handle.hold ⟨o, r, h⟩

namespace Handle

/-- A second handle to the same object, with a root of its own. -/
def clone (a : Handle) : Op Handle := do
  let b ← run a.heap (Locked.newHandle a.heap a.obj)
  b.hold

/-- Give the handle up. -/
def drop (a : Handle) : Op Unit := settle [.dropHandle a]

/-- Move the root of `a` to `target`, which is connected before the old object is disconnected, so
what both reach never loses its tag. -/
def rebind (a : Handle) (target : ObjId) : Locked Unit := do
  Locked.update (·.retain target)
  Locked.retarget a.heap a.root target

/-- Rebind `a` to the object of `b`, keeping its root. -/
def assign (a b : Handle) : Op Handle :=
  if a.obj = b.obj then pure a
  else if a.heap = b.heap then do
    run a.heap (a.rebind b.obj)
    pure { a with obj := b.obj }
  else do
    violate (.protocol ((← get).typeName a.obj) .foreignAssign)

/-- Whether the object of `a` was collected and `a`'s heap keeps track of that. -/
def stale (a : Handle) (w : World) : Bool :=
  match w.heaps[a.heap]?, w.objects[a.obj]? with
  | some heap, some ob => heap.config.poison && ob.state = .poisoned
  | _, _ => false

/-- Fail if the object of `a` is known to be collected. -/
def deref (a : Handle) : Op Unit := do
  let w ← get
  if a.stale w then violate (.useAfterCollection (w.typeName a.obj)) else pure ()

/-- The tally of the handle's object, ascending by root. -/
def tally (a : Handle) (w : World) : List (RootId × Nat) :=
  match w.tallies[a.obj]? with
  | some t => t.entries
  | none => []

/-- The handle as debug output; `name` shows objects. -/
def debug (name : ObjId → String) (w : World) (a : Handle) : String :=
  "Gc \x7b type_name: " ++ Text.debugQuoted (w.typeName a.obj) ++ ", root: " ++ rootDebug a.root ++
    ", ptr: " ++ name a.obj ++ " \x7d"

end Handle

end RootedHeap
