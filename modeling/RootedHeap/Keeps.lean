import RootedHeap.Locked

/-! # What an operation keeps

`Keeps R op` says that `op`, whether it succeeds or fails, relates its first state to its last by
`R`. For a reflexive and transitive `R` it passes from the steps of an operation to the whole.
`World.SameShape` is such a relation: no slot changes, and no object changes its state or value.
-/

namespace RootedHeap

section Bind

variable {ε σ α β : Type} {op : EStateM ε σ α} {next : α → EStateM ε σ β} {s s' : σ}

/-- An operation goes on from where its first part came to. -/
theorem bind_of_ok {a : α} (h : op s = .ok a s') : (op >>= next) s = next a s' := by
  simp only [Bind.bind, EStateM.bind, h]

/-- An operation goes no further than a fault. -/
theorem bind_of_error {e : ε} (h : op s = .error e s') : (op >>= next) s = .error e s' := by
  simp only [Bind.bind, EStateM.bind, h]

theorem exists_of_bind_ok {b : β} (h : (op >>= next) s = .ok b s') :
    ∃ a s₁, op s = .ok a s₁ ∧ next a s₁ = .ok b s' := by
  cases hop : op s with
  | ok a s₁ =>
      rw [bind_of_ok hop] at h
      exact ⟨a, s₁, rfl, h⟩
  | error e s₁ =>
      rw [bind_of_error hop] at h
      cases h

end Bind

/-- Every outcome of `op` is related by `R` to the state it started in. -/
def Keeps {ε σ α : Type} (R : σ → σ → Prop) (op : EStateM ε σ α) : Prop :=
  ∀ s, match op s with
    | .ok _ s' => R s s'
    | .error _ s' => R s s'

namespace Keeps

variable {ε σ α β : Type} {R : σ → σ → Prop}

theorem of_ok {op : EStateM ε σ α} (h : Keeps R op) {s s' : σ} {a : α}
    (heq : op s = .ok a s') : R s s' := by
  have := h s
  rwa [heq] at this

theorem pure (hrefl : ∀ s, R s s) (a : α) : Keeps R (Pure.pure a : EStateM ε σ α) :=
  fun s => hrefl s

theorem throw (hrefl : ∀ s, R s s) (e : ε) : Keeps R (MonadExcept.throw e : EStateM ε σ α) :=
  fun s => hrefl s

theorem modify {f : σ → σ} (h : ∀ s, R s (f s)) : Keeps R (modify f : EStateM ε σ PUnit) :=
  fun s => h s

theorem bind (htrans : ∀ {a b c}, R a b → R b c → R a c) {op : EStateM ε σ α}
    {next : α → EStateM ε σ β} (h : Keeps R op) (hnext : ∀ a, Keeps R (next a)) :
    Keeps R (op >>= next) := by
  intro s
  have hop := h s
  cases heq : op s with
  | error e s' =>
      rw [bind_of_error heq]
      rwa [heq] at hop
  | ok a s' =>
      rw [bind_of_ok heq]
      rw [heq] at hop
      have hrest := hnext a s'
      cases hend : next a s' with
      | ok b s'' =>
          rw [hend] at hrest
          exact htrans hop hrest
      | error e s'' =>
          rw [hend] at hrest
          exact htrans hop hrest

theorem forM (hrefl : ∀ s, R s s) (htrans : ∀ {a b c}, R a b → R b c → R a c) {l : List α}
    {f : α → EStateM ε σ PUnit} (h : ∀ a, Keeps R (f a)) : Keeps R (l.forM f) := by
  induction l with
  | nil => exact pure hrefl _
  | cons a l ih => exact bind (R := R) htrans (h a) fun _ => ih

theorem mapM (hrefl : ∀ s, R s s) (htrans : ∀ {a b c}, R a b → R b c → R a c) {l : List α}
    {f : α → EStateM ε σ β} (h : ∀ a, Keeps R (f a)) : Keeps R (l.mapM f) := by
  induction l with
  | nil => exact pure hrefl _
  | cons a l ih =>
    rw [List.mapM_cons]
    exact bind (R := R) htrans (h a) fun _ =>
      bind (R := R) htrans ih fun _ => pure hrefl _

end Keeps

namespace World

/-- No slot differs, and no object differs in state or value. -/
structure SameShape (w w' : World) : Prop where
  slots : w'.slots = w.slots
  objects : w'.objects.toList.map (fun ob => (ob.state, ob.value)) =
    w.objects.toList.map (fun ob => (ob.state, ob.value))

namespace SameShape

theorem refl (w : World) : SameShape w w := ⟨rfl, rfl⟩

theorem trans {a b c : World} (h : SameShape a b) (h' : SameShape b c) : SameShape a c :=
  ⟨h'.slots.trans h.slots, h'.objects.trans h.objects⟩

theorem modifyObject (w : World) (o : ObjId) {f : Object → Object}
    (hstate : ∀ ob, (f ob).state = ob.state) (hvalue : ∀ ob, (f ob).value = ob.value) :
    SameShape w (w.modifyObject o f) := by
  refine ⟨rfl, List.ext_getElem? fun i => ?_⟩
  simp only [World.modifyObject, List.getElem?_map, Array.getElem?_toList, Array.getElem?_modify]
  split
  · cases w.objects[i]? <;> simp [hstate, hvalue]
  · rfl

theorem liveCount {w w' : World} (h : SameShape w w') : w'.liveCount = w.liveCount := by
  have hmap (u : World) : u.liveCount =
      (u.objects.toList.map fun ob => (ob.state, ob.value)).countP (·.1 = .live) := by
    rw [List.countP_map]; rfl
  rw [hmap, hmap, h.objects]

theorem getElem? {w w' : World} (h : SameShape w w') (o : ObjId) :
    w'.objects[o]?.map (·.value) = w.objects[o]?.map (·.value) := by
  have := congrArg (·[o]?) h.objects
  simp only [List.getElem?_map, Array.getElem?_toList] at this
  have := congrArg (Option.map Prod.snd) this
  simpa [Function.comp_def] using this

theorem slotAt {w w' : World} (h : SameShape w w') (s : SlotId) : w'.slotAt s = w.slotAt s := by
  simp [World.slotAt, h.slots]

end SameShape

end World

namespace Locked

/-- The session's world keeps its shape. -/
abbrev KeepsShape {α : Type} (op : Locked α) : Prop :=
  Keeps (fun s s' => World.SameShape s.world s'.world) op

namespace KeepsShape

variable {α β : Type}

theorem pure (a : α) : KeepsShape (Pure.pure a) := Keeps.pure (fun s => .refl s.world) a

theorem throw (e : Fault) : KeepsShape (throw e : Locked α) :=
  Keeps.throw (fun s => .refl s.world) e

theorem bind {op : Locked α} {next : α → Locked β} (h : KeepsShape op)
    (hnext : ∀ a, KeepsShape (next a)) : KeepsShape (op >>= next) :=
  Keeps.bind (fun h h' => h.trans h') h hnext

theorem update {f : World → World} (h : ∀ w, World.SameShape w (f w)) : KeepsShape (update f) :=
  Keeps.modify fun s => h s.world

theorem look (f : World → α) : KeepsShape (look f) := fun s => World.SameShape.refl s.world

theorem pass (make : World → Tallies → α) (left : α → Tallies) : KeepsShape (pass make left) :=
  fun _ => ⟨rfl, rfl⟩

theorem suspect (os : List ObjId) : KeepsShape (suspect os) :=
  Keeps.modify fun s => World.SameShape.refl s.world

theorem note (e : Event) : KeepsShape (note e) := update fun _ => ⟨rfl, rfl⟩

theorem violate (cause : Violation) : KeepsShape (violate cause : Locked α) :=
  bind (note _) fun _ => throw _

end KeepsShape

theorem stripRoot_keepsShape (r : RootId) (target : ObjId) : KeepsShape (stripRoot r target) :=
  .bind (.pass _ _) fun _ => .suspect _

theorem releaseStrong_keepsShape (o : ObjId) : KeepsShape (releaseStrong o) := by
  refine .bind (.look _) fun ob => ?_
  cases ob with
  | none => exact .pure _
  | some ob =>
    simp only
    split
    · exact .throw _
    · refine .bind (.update fun w => .modifyObject w o (fun _ => rfl) fun _ => rfl) fun _ =>
        .bind (.note _) fun _ => .bind (.look _) fun unreached => ?_
      split
      · exact .suspect _
      · exact .pure _

theorem dropRoot_keepsShape (h : HeapId) (r : RootId) : KeepsShape (dropRoot h r) := by
  refine .bind (.look _) fun heap => ?_
  cases heap with
  | none => exact .pure _
  | some heap =>
    cases hrel : heap.roots.release r with
    | error cause => simpa only [hrel] using KeepsShape.violate cause
    | ok found =>
      simp only [hrel]
      exact .bind (.update fun _ => ⟨rfl, rfl⟩) fun _ => .bind (.note _) fun _ =>
        .bind (stripRoot_keepsShape _ _) fun _ => releaseStrong_keepsShape _

end Locked

namespace World

theorem countP_modify_le {α : Type} {p : α → Bool} {f : α → α} (h : ∀ a, p (f a) = false)
    (l : List α) (i : Nat) : (l.modify i f).countP p ≤ l.countP p := by
  induction l generalizing i with
  | nil => simp
  | cons a l ih =>
    cases i with
    | zero => simp [List.countP_cons, h]
    | succ i => simpa [List.countP_cons] using ih i

theorem countP_modify_lt {α : Type} {p : α → Bool} {f : α → α} (h : ∀ a, p (f a) = false)
    {l : List α} {i : Nat} {a : α} (hi : l[i]? = some a) (ha : p a = true) :
    (l.modify i f).countP p < l.countP p := by
  induction l generalizing i with
  | nil => simp at hi
  | cons b l ih =>
    cases i with
    | zero => simp_all
    | succ i => simpa [List.countP_cons] using ih (by simpa using hi)

theorem liveCount_modify_le (w : World) (o : ObjId) :
    (w.modifyObject o ({ · with state := .collecting })).liveCount ≤ w.liveCount := by
  simp only [liveCount, modifyObject, Array.toList_modify]
  exact countP_modify_le (by simp) _ _

theorem liveCount_modify_lt (w : World) {o : ObjId} (h : w.isLive o = true) :
    (w.modifyObject o ({ · with state := .collecting })).liveCount < w.liveCount := by
  unfold isLive at h
  split at h
  next ob hob =>
    simp only [liveCount, modifyObject, Array.toList_modify]
    exact countP_modify_lt (by simp) (by simpa using hob) h
  next => simp at h

theorem condemn_cons (w : World) (o : ObjId) (os : List ObjId) :
    w.condemn (o :: os) = (w.modifyObject o ({ · with state := .collecting })).condemn os := rfl

theorem liveCount_condemn_le (w : World) (os : List ObjId) :
    (w.condemn os).liveCount ≤ w.liveCount := by
  induction os generalizing w with
  | nil => exact Nat.le_refl _
  | cons o os ih =>
    rw [condemn_cons]
    exact Nat.le_trans (ih _) (w.liveCount_modify_le o)

theorem liveCount_condemn_lt (w : World) {o : ObjId} (os : List ObjId) (h : w.isLive o = true) :
    (w.condemn (o :: os)).liveCount < w.liveCount := by
  rw [condemn_cons]
  exact Nat.lt_of_le_of_lt (liveCount_condemn_le _ _) (w.liveCount_modify_lt h)

theorem isLive_of_mem_lost {w : World} {unrooted : List ObjId} {o : ObjId}
    (h : o ∈ (w.garbage unrooted).lost) : w.isLive o = true := by
  have hcand : w.candidate o = true := by
    refine forall_mem_explore (P := fun o => w.candidate o = true) ?_ ?_ o (lost_subset_order h)
    · exact fun _ c hc => (List.mem_filter.1 hc).2
    · exact fun c hc => (List.mem_filter.1 (List.mem_reverse.1 hc)).2
  exact (Bool.and_eq_true_iff.1 hcand).1

end World

/-- Reclaiming either leaves the world's shape alone and finds nothing, or uses up live objects. -/
theorem reclaim_ok {h : HeapId} {s s' : Session} {dead : List ObjId}
    (heq : reclaim h s = .ok dead s') :
    (dead = [] ∧ World.SameShape s.world s'.world) ∨ s'.world.liveCount < s.world.liveCount := by
  unfold reclaim at heq
  split at heq
  · cases heq; exact .inl ⟨rfl, .refl _⟩
  · simp only at heq
    split at heq
    · split at heq
      · cases heq; exact .inl ⟨rfl, .refl _⟩
      · cases heq; exact .inl ⟨rfl, rfl, rfl⟩
    · next hne =>
      right
      cases hlost : (s.world.garbage s.unrooted).lost with
      | nil => simp [hlost] at hne
      | cons o os =>
        have hlive : s.world.isLive o = true :=
          World.isLive_of_mem_lost (hlost ▸ List.mem_cons_self ..)
        have hlt := s.world.liveCount_condemn_lt os hlive
        rw [hlost] at heq
        split at heq
        · cases heq; exact hlt
        · split at heq
          · cases heq
          · cases heq; exact hlt

/-- A session that keeps the world's shape either collects nothing and leaves the shape alone, or
uses up live objects. -/
theorem locked_ok {α : Type} {h : HeapId} {op : Locked α} (hop : Locked.KeepsShape op)
    {w w' : World} {a : α} {dead : List ObjId} (heq : locked h op w = .ok (a, dead) w') :
    (dead = [] ∧ World.SameShape w w') ∨ w'.liveCount < w.liveCount := by
  unfold locked at heq
  split at heq
  next => cases heq
  next b s hs =>
    have hshape : World.SameShape w s.world := hop.of_ok hs
    split at heq
    next => cases heq
    next dead' s' hs' =>
      cases heq
      rcases reclaim_ok hs' with ⟨hnil, hsame⟩ | hlt
      · exact .inl ⟨hnil, hshape.trans hsame⟩
      · exact .inr (hshape.liveCount ▸ hlt)

end RootedHeap
