import RootedHeap.Handle

/-! # Fields

Reading and writing an owning field through a handle to the object that holds it. A write counts
the new edge, and takes the old one away, for each of the roots that reach the owner.
-/

namespace RootedHeap

/-- The target of a field. -/
def World.fieldAt (w : World) (s : SlotId) : Option ObjId :=
  match w.slotAt s with
  | .one target => target
  | .many _ => none

theorem World.fieldAt_eq {w : World} {s : SlotId} {target : Option ObjId}
    (h : w.slotAt s = .one target) : w.fieldAt s = target := by
  rw [fieldAt, h]

theorem World.mem_targets_of_fieldAt {w : World} {s : SlotId} {o : ObjId} (h : w.fieldAt s = some o) :
    o ∈ (w.slotAt s).targets := by
  cases hslot : w.slotAt s with
  | one target =>
      rw [← fieldAt_eq hslot, h]
      exact List.mem_singleton_self o
  | many items =>
      rw [fieldAt, hslot] at h
      cases h

/-- A field outside any object that points at `target`. -/
def newField (target : Option Handle) : Op SlotId :=
  modifyGet fun w =>
    match target with
    | some a => (w.retain a.obj).addSlot (.one (some a.obj))
    | none => w.addSlot (.one none)

namespace Handle

/-- Root the field's target. -/
def readField (a : Handle) (s : SlotId) : Locked (Option Handle) := do
  match ← Locked.look (·.fieldAt s) with
  | none => pure none
  | some o => some <$> Locked.newHandle a.heap o

/-- A new handle to the field's target. -/
def getField (a : Handle) (s : SlotId) : Op (Option Handle) := do
  let found ← run a.heap (a.readField s)
  found.mapM hold

/-- Store in the field, or clear it; the caller has checked the heap of `target`. -/
def storeField (a : Handle) (s : SlotId) (target : Option ObjId) : Locked Unit := do
  Locked.verifySlot a.heap a.obj s
  let roots ← Locked.rootsOf a.obj
  -- the new edge is counted before the old one goes, which may be into the same object
  target.forM (Locked.gain a.heap roots)
  let old ← Locked.look (·.fieldAt s)
  Locked.update (·.writeSlot s (.one target))
  old.forM (Locked.lose a.heap roots)

/-- Whether `b` may be stored through `a`. -/
def accepts (a : Handle) : Option Handle → Bool
  | none => true
  | some b => b.heap = a.heap

/-- Point the field at the object of `target`, or clear it. -/
def setField (a : Handle) (s : SlotId) (target : Option Handle) : Op Unit :=
  if a.accepts target then run a.heap (a.storeField s (target.map (·.obj)))
  else do violate (.protocol ((← get).typeName a.obj) .foreignStore)

/-- Clear the field; its strong reference moves to the new root that is returned. -/
def unloadField (a : Handle) (s : SlotId) : Locked (Option Handle) := do
  Locked.verifySlot a.heap a.obj s
  let roots ← Locked.rootsOf a.obj
  match ← Locked.look (·.fieldAt s) with
  | none => pure none
  | some o =>
    Locked.update (·.writeSlot s (.one none))
    -- `roots` was read before, so the new root is not among those that lose the edge
    let r ← Locked.acquireRoot a.heap o
    Locked.detach a.heap roots o
    pure (some ⟨o, r, a.heap⟩)

/-- Clear the field and hand its target back. -/
def takeField (a : Handle) (s : SlotId) : Op (Option Handle) := do
  let found ← run a.heap (a.unloadField s)
  found.mapM hold

end Handle

/-- A field as debug output; `name` shows objects. -/
def World.fieldDebug (name : ObjId → String) (w : World) (s : SlotId) : String :=
  match w.fieldAt s with
  | some o => "GcField(" ++ name o ++ ")"
  | none => "GcField(null)"

end RootedHeap
