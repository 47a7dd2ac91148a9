import RootedHeap.Proofs.Counters
import RootedHeap.Proofs.Interleaving

/-! # Weak counts

What keeps an allocation: each weak reference to its object, wherever it is, and the collector, until
it gives up its share. The last of them gives the allocation back. `World.Weighed` says that weak
counts are right; tasks and calls keep it so, and leave what was given back alone.
-/

namespace RootedHeap

/-- Objects that differ in their strong counts at most. -/
theorem Object.eq_of_body {ob ob' : Object} (h : ob.body = ob'.body) :
    ob.weak = ob'.weak ∧ ob.freed = ob'.freed := by
  have hweak := congrArg Object.weak h
  have hfreed := congrArg Object.freed h
  exact ⟨hweak, hfreed⟩

namespace World

/-- The weak count of `o`. -/
def weakAt (w : World) (o : ObjId) : Nat :=
  match w.objects[o]? with
  | some ob => ob.weak
  | none => 0

/-- The collector's share in the allocation of `o`: one until `o` is put away, and from then on if it
is kept. -/
def share (w : World) (todo : Multiset Task) (o : ObjId) : Nat :=
  (if w.stateAt o = some .live ∨ w.stateAt o = some .poisoned then 1 else 0) +
    (todo.filterMap Task.retires).count o

/-- Weak references and the collector's share make up each weak count, and what nothing keeps was given
back. -/
structure Weighed (w : World) (todo : Multiset Task) (held : Multiset Holding) : Prop where
  weak_eq : ∀ o, w.weakAt o = (w.ledger todo held).count (.weak o) + w.share todo o
  freed_iff : ∀ (o : ObjId) (ob : Object), w.objects[o]? = some ob →
    (ob.freed = true ↔ ob.weak = 0)
  retiring : ∀ g o, .retire g o ∈ todo → w.stateAt o = some .collecting ∧ g < w.heaps.size

/-- What was given back is left alone, apart from strong counts. -/
def Rests (w w' : World) : Prop :=
  ∀ (o : ObjId) (ob : Object), w.objects[o]? = some ob → ob.freed = true →
    w'.objects[o]?.map Object.body = some ob.body

section Weighed

variable {w w' w'' : World} {todo todo' : Multiset Task} {held held' : Multiset Holding} {o : ObjId}
  {ob : Object} {g : HeapId}

/-! ## Steps that have nothing to do with weak references -/

theorem Trades.rests (h : w.Trades w') : w.Rests w' := by
  intro o ob hob _
  rw [h.objects, hob]
  rfl

theorem Rests.of_objects (hobjects : w'.objects = w.objects) : w.Rests w' := by
  intro o ob hob _
  rw [hobjects, hob]
  rfl

theorem Rests.refl (w : World) : w.Rests w := .of_objects rfl

theorem Rests.trans (h : w.Rests w') (h' : w'.Rests w'') : w.Rests w'' := by
  intro o ob hob hfreed
  obtain ⟨ob', hob', hbody⟩ := Option.map_eq_some_iff.mp (h o ob hob hfreed)
  have hfreed' : ob'.freed = true := (Object.eq_of_body hbody).2.trans hfreed
  rw [h' o ob' hob' hfreed', hbody]

theorem ledger_of_objects (hobjects : w'.objects = w.objects) :
    w'.ledger todo held = w.ledger todo held := by
  obtain ⟨heaps, objects, tallies, slots, log, dropped⟩ := w
  obtain ⟨heaps', objects', tallies', slots', log', dropped'⟩ := w'
  cases hobjects
  rfl

theorem Trades.ledger (h : w.Trades w') : w'.ledger todo held = w.ledger todo held := by
  have halike : w.Alike { w with objects := w'.objects } :=
    ⟨rfl, rfl, h.objects_size, h.map_object fun _ => rfl, fun _ => rfl⟩
  rw [← halike.ledger]
  exact ledger_of_objects rfl

theorem share_congr (hstate : w'.stateAt = w.stateAt) : w'.share todo = w.share todo := by
  funext o
  rw [share, share, hstate]

theorem weakAt_eq_getD (w : World) (o : ObjId) :
    w.weakAt o = (w.objects[o]?.map Object.weak).getD 0 := by
  unfold weakAt
  cases w.objects[o]? <;> rfl

theorem weakAt_of_object (hob : w.objects[o]? = some ob) : w.weakAt o = ob.weak := by
  rw [weakAt_eq_getD, hob]
  rfl

theorem exists_object (ho : 0 < w.weakAt o) : ∃ ob, w.objects[o]? = some ob := by
  rw [weakAt_eq_getD] at ho
  cases hob : w.objects[o]? with
  | none => simp [hob] at ho
  | some ob => exact ⟨ob, rfl⟩

theorem object_modifyObject {f : Object → Object} (hob : w.objects[o]? = some ob) (p : ObjId) :
    (w.modifyObject o f).objects[p]? = if p = o then some (f ob) else w.objects[p]? := by
  simp only [World.modifyObject, Array.getElem?_modify]
  by_cases hp : p = o
  · rw [if_pos hp, if_pos hp.symm, hp, hob]
    rfl
  · rw [if_neg hp, if_neg (Ne.symm hp)]

namespace Weighed

theorem trades (h : w.Weighed todo held) (htrades : w.Trades w') : w'.Weighed todo held where
  weak_eq o := by
    have hweak := htrades.map_object (f := Object.weak) (fun _ => rfl) o
    rw [weakAt_eq_getD, hweak, ← weakAt_eq_getD, htrades.ledger, share_congr htrades.even.stateAt]
    exact h.weak_eq o
  freed_iff o ob' hob' := by
    have hbody := htrades.objects o
    rw [hob'] at hbody
    obtain ⟨ob, hob, hsame⟩ := Option.map_eq_some_iff.mp hbody.symm
    obtain ⟨hweak, hfreed⟩ := Object.eq_of_body hsame
    rw [← hfreed, ← hweak]
    exact h.freed_iff o ob hob
  retiring g o ho := by
    rw [htrades.even.stateAt, htrades.size]
    exact h.retiring g o ho

theorem of_objects (h : w.Weighed todo held) (hobjects : w'.objects = w.objects)
    (hheaps : w.heaps.size ≤ w'.heaps.size) : w'.Weighed todo held where
  weak_eq o := by
    have hstate : w'.stateAt = w.stateAt := by funext o; rw [stateAt, stateAt, hobjects]
    rw [weakAt, hobjects, ledger_of_objects hobjects, share_congr hstate]
    exact h.weak_eq o
  freed_iff := by
    rw [hobjects]
    exact h.freed_iff
  retiring g o ho := by
    obtain ⟨hstate, hg⟩ := h.retiring g o ho
    rw [stateAt, hobjects]
    exact ⟨hstate, Nat.lt_of_lt_of_le hg hheaps⟩

/-- Weak references may change hands. -/
theorem reassign (h : w.Weighed todo held)
    (hweak : ∀ o, (w.ledger todo' held').count (.weak o) = (w.ledger todo held).count (.weak o))
    (hretires : todo'.filterMap Task.retires = todo.filterMap Task.retires)
    (hretiring : ∀ g o, .retire g o ∈ todo' → .retire g o ∈ todo) : w.Weighed todo' held' where
  weak_eq o := by
    rw [hweak, share, hretires]
    exact h.weak_eq o
  freed_iff := h.freed_iff
  retiring g o ho := h.retiring g o (hretiring g o ho)

/-- What is to be put away is on its way out. -/
theorem collecting_of_retires (h : w.Weighed todo held) (ho : o ∈ todo.filterMap Task.retires) :
    w.stateAt o = some .collecting := by
  obtain ⟨t, ht, hto⟩ := (Multiset.mem_filterMap _ _).mp ho
  cases t <;> cases hto
  exact (h.retiring _ o ht).1

/-- What was given back is on its way out, and not to be put away any more. -/
theorem freed_idle (h : w.Weighed todo held) (hob : w.objects[o]? = some ob)
    (hfreed : ob.freed = true) : w.stateAt o = some .collecting ∧
      o ∉ todo.filterMap Task.retires ∧ .weak o ∉ w.ledger todo held := by
  have hstate : w.stateAt o = some ob.state := by rw [stateAt, hob]; rfl
  have hweak := h.weak_eq o
  rw [weakAt_of_object hob, (h.freed_iff o ob hob).mp hfreed, share, hstate] at hweak
  refine ⟨?_, Multiset.count_eq_zero.mp (by omega), Multiset.count_eq_zero.mp (by omega)⟩
  cases hs : ob.state with
  | collecting => rw [hstate, hs]
  | live | poisoned =>
      rw [if_pos (by simp [hs])] at hweak
      omega

/-- A heap condemns objects, which are to be put away. -/
theorem condemns (h : w.Weighed todo held) {dead : List ObjId} (hcondemns : w.Condemns g dead w')
    (hg : g < w.heaps.size) :
    w'.Weighed (Task.finalizing g dead + todo) held ∧ w.Rests w' := by
  have hobjects : w'.objects = (w.collect g dead).objects := hcondemns.objects
  have hretires : ((Task.finalizing g dead : Multiset Task) + todo).filterMap Task.retires =
      (dead : Multiset ObjId) + todo.filterMap Task.retires := by
    rw [Multiset.filterMap_add, Multiset.filterMap_coe, ← List.append_nil (Task.finalizing g dead),
      Task.filterMap_retires (by simp)]
  have hlive {o : ObjId} (ho : o ∈ dead) : w.stateAt o = some .live :=
    isLive_iff_stateAt.mp (hcondemns.live o ho)
  refine ⟨⟨fun o => ?_, fun o ob' hob' => ?_, fun g' o ho => ?_⟩, fun o ob hob hfreed => ?_⟩
  · have hweak : w'.weakAt o = w.weakAt o := by
      rw [weakAt_eq_getD, weakAt_eq_getD, hcondemns.object, Option.map_map]
      congr 2
      funext ob
      dsimp only [Function.comp_apply]
      split <;> rfl
    rw [hweak, ledger_of_objects hobjects, ledger_collect hcondemns.nodup hcondemns.live, h.weak_eq,
      share, share, hcondemns.stateAt, hretires, Multiset.count_add, Multiset.coe_count]
    by_cases ho : o ∈ dead
    · -- the share goes from the state to the task that is to give it up
      rw [List.count_eq_one_of_mem hcondemns.nodup ho, hlive ho]
      simp [ho]
    · rw [List.count_eq_zero.mpr ho]
      simp [ho]
  · rw [hcondemns.object] at hob'
    obtain ⟨ob, hob, rfl⟩ := Option.map_eq_some_iff.mp hob'
    have hiff := h.freed_iff o ob hob
    split <;> exact hiff
  · rw [hcondemns.stateAt, hcondemns.size]
    rcases Multiset.mem_add.mp ho with ho | ho
    · rcases List.mem_append.mp (Multiset.mem_coe.mp ho) with ho | ho
      · obtain ⟨p, -, hp⟩ := List.mem_map.mp ho
        cases hp
      · obtain ⟨p, hp, heq⟩ := List.mem_map.mp ho
        cases heq
        exact ⟨by rw [hlive hp]; simp [hp], hg⟩
    · obtain ⟨hstate, hg'⟩ := h.retiring g' o ho
      exact ⟨by rw [hstate]; simp, hg'⟩
  · have hnot : o ∉ dead := by
      intro ho
      cases (h.freed_idle hob hfreed).1.symm.trans (hlive ho)
    rw [hcondemns.object, hob]
    simp [hnot]

/-- What a session comes to, if it ends or is refused up front. -/
theorem locked {α : Type} {op : Locked α} {r : Option Fault} (h : w.Weighed todo held)
    (hop : Locked.Screens r op ⟨w, []⟩) (hg : g < w.heaps.size) :
    Ends (RootedHeap.locked g op) w
      (fun p w' => w'.Weighed (Task.finalizing g p.2 + todo) held ∧ w.Rests w')
      fun f w' => r = f.early ∧ (f.upFront = true → w'.Weighed todo held ∧ w.Rests w') := by
  apply (locked_condemns hop).mono
  · rintro p w' ⟨-, w₁, htrades, hcondemns⟩
    obtain ⟨hweighed, hrests⟩ := (h.trades htrades).condemns hcondemns (htrades.size ▸ hg)
    exact ⟨hweighed, htrades.rests.trans hrests⟩
  · rintro f w' ⟨hearly, hsame, -⟩
    refine ⟨hearly, fun hup => ?_⟩
    have htrades : w.Trades (f.reported w) := .of_eq rfl rfl rfl
    rw [hsame hup]
    exact ⟨h.trades htrades, htrades.rests⟩

/-! ## Weak references that come and go -/

/-- A change to an object that something keeps. -/
theorem modify {f : Object → Object} {n : Nat} (h : w.Weighed todo held)
    (hob : w.objects[o]? = some ob) (hkept : 0 < ob.weak) (hw' : w' = w.modifyObject o f)
    (hface : (f ob).face = ob.face) (hn : (f ob).weak = n) (hfreed : (f ob).freed = true ↔ n = 0)
    (hweak : ∀ p, (if p = o then n else w.weakAt p) =
      (w.ledger todo' held').count (.weak p) + w'.share todo' p)
    (hretiring : ∀ g p, .retire g p ∈ todo' → .retire g p ∈ todo ∧ w'.stateAt p = w.stateAt p) :
    w'.Weighed todo' held' ∧ w.Rests w' := by
  subst hw' hn
  have halike : w.Alike (w.modifyObject o f) := by
    apply Alike.modifyObject
    intro ob' hob'
    cases hob.symm.trans hob'
    exact hface
  refine ⟨⟨fun p => ?_, fun p ob' hob' => ?_, fun g p hp => ?_⟩, fun p ob' hob' hfreed' => ?_⟩
  · rw [halike.ledger, ← hweak, weakAt_eq_getD, object_modifyObject hob]
    split
    · rfl
    · exact (weakAt_eq_getD w p).symm
  · rw [object_modifyObject hob] at hob'
    split at hob'
    · cases hob'
      exact hfreed
    · exact h.freed_iff p ob' hob'
  · obtain ⟨hmem, hstate⟩ := hretiring g p hp
    rw [hstate]
    exact h.retiring g p hmem
  · have hne : p ≠ o := by
      rintro rfl
      cases hob.symm.trans hob'
      exact hkept.ne' ((h.freed_iff p ob hob).mp hfreed')
    rw [object_modifyObject hob, if_neg hne, hob']
    rfl

theorem kept_of_live (h : w.Weighed todo held) (ho : w.isLive o = true) : 0 < w.weakAt o := by
  rw [h.weak_eq, share, isLive_iff_stateAt.mp ho]
  simp

theorem kept_of_mem (h : w.Weighed todo held) (ho : .weak o ∈ w.ledger todo held) :
    0 < w.weakAt o := by
  have hcount := Multiset.count_pos.mpr ho
  rw [h.weak_eq]
  omega

/-- One more weak reference to what is kept already. -/
theorem retainWeak (h : w.Weighed todo held) (hkept : 0 < w.weakAt o) :
    (w.retainWeak o).Weighed todo (.weak o ::ₘ held) ∧ w.Rests (w.retainWeak o) := by
  obtain ⟨ob, hob⟩ := exists_object hkept
  have hstate := (Even.retainWeak w o).stateAt
  rw [weakAt_of_object hob] at hkept
  refine h.modify hob hkept rfl rfl rfl ?_ (fun p => ?_) fun g p hp => ?_
  · have hiff := h.freed_iff o ob hob
    have hfreed : ob.freed ≠ true := fun hfreed => hkept.ne' (hiff.mp hfreed)
    simp [hfreed]
  · rw [ledger_cons_held, Multiset.count_cons, share_congr hstate]
    have hweak := h.weak_eq p
    by_cases hp : p = o
    · subst hp
      rw [weakAt_of_object hob] at hweak
      simp only [if_true]
      omega
    · have hne : ¬ (Holding.weak p = .weak o) := fun heq => hp (Holding.weak.inj heq)
      rw [if_neg hp, if_neg hne, hweak]
      omega
  · exact ⟨hp, congrFun hstate p⟩

/-- One reason less to keep an allocation; the last one gives it back. -/
theorem releaseWeak (h : w.Weighed todo held)
    (hless : ∀ p, (w.ledger todo held).count (.weak p) + w.share todo p =
      (w.ledger todo' held').count (.weak p) + w.share todo' p + if p = o then 1 else 0)
    (hretiring : ∀ g p, .retire g p ∈ todo' → .retire g p ∈ todo) :
    (w.releaseWeak o).Weighed todo' held' ∧ w.Rests (w.releaseWeak o) := by
  have hkept : 0 < w.weakAt o := by
    rw [h.weak_eq, hless, if_pos rfl]
    exact Nat.succ_pos _
  obtain ⟨ob, hob⟩ := exists_object hkept
  have hstate := (Even.releaseWeak w o).stateAt
  rw [weakAt_of_object hob] at hkept
  refine h.modify hob hkept rfl rfl rfl ?_ (fun p => ?_) fun g p hp => ?_
  · have hiff := h.freed_iff o ob hob
    have hfreed : ob.freed = false := Bool.eq_false_iff.mpr fun hfreed => hkept.ne' (hiff.mp hfreed)
    simp only [hfreed, Bool.false_or, beq_iff_eq]
    omega
  · rw [share_congr hstate]
    have hweak := h.weak_eq p
    rw [hless] at hweak
    by_cases hp : p = o
    · subst hp
      rw [weakAt_of_object hob] at hweak
      simp only [if_true] at hweak ⊢
      omega
    · rw [if_neg hp] at hweak ⊢
      omega
  · exact ⟨hretiring g p hp, congrFun hstate p⟩

/-- A collected object is put away, and kept: the collector holds on to its share. -/
theorem poison (h : w.Weighed (.retire g o ::ₘ todo) held) (hnot : ∀ g, .retire g o ∉ todo) :
    (w.modifyObject o ({ · with state := .poisoned })).Weighed todo held ∧
      w.Rests (w.modifyObject o ({ · with state := .poisoned })) := by
  obtain ⟨hstate, -⟩ := h.retiring g o (Multiset.mem_cons_self _ _)
  obtain ⟨ob, hob, hcollecting⟩ := Option.map_eq_some_iff.mp hstate
  have hstates (p : ObjId) : (w.modifyObject o ({ · with state := .poisoned })).stateAt p =
      if p = o then some .poisoned else w.stateAt p := by
    rw [stateAt, object_modifyObject hob]
    split <;> rfl
  have hshare (p : ObjId) : w.share (.retire g o ::ₘ todo) p =
      (w.modifyObject o ({ · with state := .poisoned })).share todo p := by
    have hretires : (Task.retire g o ::ₘ todo).filterMap Task.retires =
        o ::ₘ todo.filterMap Task.retires := Multiset.filterMap_cons_some _ _ _ rfl
    rw [share, share, hstates, hretires, Multiset.count_cons]
    by_cases hp : p = o
    · simp [hp, hstate]
      omega
    · simp [hp]
  -- the share of the collector is what keeps the allocation, so it is not freed yet
  have hkept : 0 < w.weakAt o := by
    rw [h.weak_eq, hshare, share, hstates]
    simp
  rw [weakAt_of_object hob] at hkept
  apply h.modify hob hkept rfl _ rfl (h.freed_iff o ob hob)
  · intro p
    have hsame : (if p = o then ob.weak else w.weakAt p) = w.weakAt p := by
      split
      next hp => rw [hp, weakAt_of_object hob]
      next => rfl
    rw [hsame, h.weak_eq, ledger_cons_task, hshare]
    simp [Task.holdings]
  · intro g' p hp
    have hne : p ≠ o := fun heq => hnot g' (heq ▸ hp)
    exact ⟨Multiset.mem_cons_of_mem hp, by rw [hstates, if_neg hne]⟩
  · simp [Object.face, hcollecting]

/-- What is held may change, as long as the weak references stay. -/
theorem hold (h : w.Weighed todo held)
    (hweak : ∀ o, held'.count (.weak o) = held.count (.weak o)) : w.Weighed todo held' := by
  apply h.reassign _ rfl fun _ _ => id
  intro o
  rw [ledger, ledger, Multiset.count_add, hweak, ← Multiset.count_add]

/-- A new object takes over what its value holds. It is kept by the collector only. -/
theorem enroll {n : String} {v : Value} (h : w.Weighed todo held)
    (hburied : ∀ t ∈ todo, ∀ o, t.buries = some o → w.Gone o)
    (hle : (v.holdings : Multiset Holding) ≤ held) :
    (w.enroll g n v).Weighed todo (held - (v.holdings : Multiset Holding)) ∧
      w.Rests (w.enroll g n v) := by
  have hobject (p : ObjId) : (w.enroll g n v).objects[p]? =
      if p = w.objects.size then some { heap := g, typeName := n, value := v }
      else w.objects[p]? := object_birth p
  have hnone : w.objects[w.objects.size]? = none := Array.getElem?_eq_none (le_refl _)
  -- what the value holds only changes hands
  have hledger : (w.enroll g n v).ledger todo (held - (v.holdings : Multiset Holding)) =
      w.ledger todo held := by
    have hsame : (w.enroll g n v).ledger todo (held - (v.holdings : Multiset Holding)) =
        (w.birth g n v).ledger todo (held - (v.holdings : Multiset Holding)) := ledger_of_objects rfl
    rw [hsame, ledger_birth hburied, add_tsub_cancel_of_le hle]
  refine ⟨⟨fun p => ?_, fun p ob hob => ?_, fun g' p hp => ?_⟩, fun p ob hob hfreed => ?_⟩
  · have hweak := h.weak_eq p
    rw [hledger, share, weakAt_eq_getD, stateAt, hobject]
    rw [share, weakAt_eq_getD, stateAt] at hweak
    by_cases hp : p = w.objects.size
    · rw [hp, hnone] at hweak
      rw [if_pos hp, hp]
      simp only [Option.map_none, Option.getD_none] at hweak
      simp only [Option.map_some, Option.getD_some, true_or, if_true]
      omega
    · rw [if_neg hp]
      exact hweak
  · rw [hobject] at hob
    split at hob
    · cases hob
      simp
    · exact h.freed_iff p ob hob
  · obtain ⟨hstate, hg'⟩ := h.retiring g' p hp
    exact ⟨stateAt_enroll hstate, by simpa [World.enroll, World.modifyHeap] using hg'⟩
  · have hne : p ≠ w.objects.size := fun heq => by simp [heq] at hob
    rw [hobject, if_neg hne, hob]
    rfl

/-- A heap is to be left besides. -/
theorem leaving (h : w.Weighed todo held) : w.Weighed (.leave g ::ₘ todo) held := by
  apply h.reassign
  · intro o
    rw [ledger_cons_task]
    simp [Task.holdings]
  · exact Multiset.filterMap_cons_none _ _ rfl
  · intro g' o ho
    exact (Multiset.mem_cons.mp ho).resolve_left (by simp)

/-- A task that puts nothing away is done, and leads to others. -/
theorem spend {t : Task} {more : List Task} (h : w.Weighed (t ::ₘ todo) held)
    (ht : t.retires = none) (hidle : ∀ u ∈ more, u.buries = none)
    (hweak : ∀ o, ((more : Multiset Task).bind (Task.holdings w)).count (.weak o) =
      (t.holdings w).count (.weak o)) : w.Weighed (more + todo) held := by
  apply h.reassign
  · intro o
    rw [ledger_add_tasks, ledger_cons_task, Multiset.count_add, Multiset.count_add, hweak]
  · have hnone : more.filterMap Task.retires = [] :=
      List.filterMap_eq_nil_iff.mpr fun u hu => Task.retires_of_idle (hidle u hu)
    rw [Multiset.filterMap_add, Multiset.filterMap_coe, hnone, Multiset.filterMap_cons_none _ _ ht]
    exact zero_add _
  · intro g o ho
    rcases Multiset.mem_add.mp ho with ho | ho
    · cases hidle _ (Multiset.mem_coe.mp ho)
    · exact Multiset.mem_cons_of_mem ho

end Weighed

end Weighed

end World

/-! ## Tasks -/

open World

section Tasks

variable {w : World} {todo : Multiset Task} {held : Multiset Holding} {heaps : Multiset HeapId}
  {incoming : List Handle} {t : Task}

namespace World.Weighed

/-- A session of a task, after which the heap is to be left. -/
theorem locked_leaving {w₁ : World} {g : HeapId} {op : Locked Unit}
    (h : w.Weighed (t ::ₘ todo) held) (ht : t.retires = none)
    (hnone : ∀ o, .weak o ∉ t.holdings w) (hop : Locked.Routine op) (htrades : w.Trades w₁)
    (hg : g < w.heaps.size) :
    Ends (RootedHeap.locked g op) w₁
      (fun p w' => w'.Weighed ((Task.finalizing g p.2 ++ [.leave g] : List Task) + todo) held ∧
        w.Rests w') fun _ _ => True := by
  have hspent : w.Weighed ((([.leave g] : List Task) : Multiset Task) + todo) held := by
    apply h.spend ht (idle_leave g)
    intro o
    rw [Multiset.count_eq_zero.mpr (hnone o)]
    simp [Task.holdings]
  apply ((hspent.trades htrades).locked (hop ⟨w₁, []⟩) (htrades.size ▸ hg)).mono
  · rintro p w' ⟨hweighed, hrests⟩
    rw [← Multiset.coe_add, add_assoc]
    exact ⟨hweighed, htrades.rests.trans hrests⟩
  · exact fun _ _ _ => trivial

/-- A task that has nothing to do with weak references is done. -/
theorem idle (h : w.Weighed (t ::ₘ todo) held) (ht : t.retires = none)
    (hnone : ∀ o, .weak o ∉ t.holdings w) : w.Weighed (([] : List Task) + todo) held := by
  apply h.spend ht (by simp)
  intro o
  rw [Multiset.count_eq_zero.mpr (hnone o)]
  simp

/-- What a value holds is dropped, one thing at a time. -/
theorem dropValue {o : ObjId} (h : w.Weighed (.dropValue o ::ₘ todo) held) :
    w.Weighed (((w.valueAt o).holdings.map Task.ofHolding : List Task) + todo) held := by
  apply h.spend rfl
  · intro u hu
    obtain ⟨x, -, rfl⟩ := List.mem_map.mp hu
    cases x <;> rfl
  · intro p
    rw [← Multiset.map_coe, bind_holdings_ofHolding]
    rfl

theorem dropSlot {s : SlotId} (h : w.Weighed (.dropSlot s ::ₘ todo) held) :
    w.Weighed (((w.slotAt s).targets.map Task.release : List Task) + todo) held := by
  apply h.spend rfl
  · intro u hu
    obtain ⟨o, -, rfl⟩ := List.mem_map.mp hu
    rfl
  · intro p
    rw [← Multiset.map_coe, bind_holdings_releases]
    simp [Task.holdings]

theorem dropWeak {o : ObjId} (h : w.Weighed (.dropWeak o ::ₘ todo) held) :
    (w.releaseWeak o).Weighed todo held ∧ w.Rests (w.releaseWeak o) := by
  apply h.releaseWeak
  · intro p
    rw [ledger_cons_task, Multiset.count_add, share, share, Multiset.filterMap_cons_none _ _ rfl,
      Task.holdings, Multiset.count_singleton]
    simp only [Holding.weak.injEq]
    omega
  · exact fun g p hp => Multiset.mem_cons_of_mem hp

/-- An object is put away: it is kept as poisoned, or the collector gives up its share. -/
theorem retire {g : HeapId} {o : ObjId} (h : w.Weighed (.retire g o ::ₘ todo) held)
    (hnodup : ((Task.retire g o ::ₘ todo).filterMap Task.retires).Nodup) :
    (w.retire g o).Weighed todo held ∧ w.Rests (w.retire g o) := by
  have hretires : (Task.retire g o ::ₘ todo).filterMap Task.retires =
      o ::ₘ todo.filterMap Task.retires := Multiset.filterMap_cons_some _ _ _ rfl
  rw [hretires, Multiset.nodup_cons] at hnodup
  have hnot (g' : HeapId) : .retire g' o ∉ todo := fun hmem =>
    hnodup.1 ((Multiset.mem_filterMap _ _).mpr ⟨_, hmem, rfl⟩)
  obtain ⟨hstate, hg⟩ := h.retiring g o (Multiset.mem_cons_self _ _)
  obtain ⟨ob, hob, -⟩ := Option.map_eq_some_iff.mp hstate
  have hheap := Array.getElem?_eq_getElem hg
  unfold World.retire
  simp only [hheap, hob]
  split_ifs
  · have hnoted : w.Trades (w.note (.leaked w.heaps[g].config.name ob.typeName ob.strong)) := .note w _
    obtain ⟨hweighed, hrests⟩ := (h.trades hnoted).poison hnot
    exact ⟨hweighed, hnoted.rests.trans hrests⟩
  · exact h.poison hnot
  · apply h.releaseWeak
    · intro p
      rw [ledger_cons_task, share, share, hretires, Multiset.count_cons]
      simp only [Task.holdings, zero_add]
      omega
    · exact fun g' p hp => Multiset.mem_cons_of_mem hp

end World.Weighed

/-- Tasks keep weak counts right. -/
theorem Task.step_weighed (h : w.Weighed (t ::ₘ todo) held)
    (horderly : w.Orderly (t ::ₘ todo) held heaps incoming)
    (hnodup : ((t ::ₘ todo).filterMap Task.retires).Nodup) :
    Ends t.step w (fun more w' => w'.Weighed (more + todo) held ∧ w.Rests w') fun _ _ => True := by
  have hsize {g : HeapId} {o : ObjId} (hown : w.owns g o = true) : g < w.heaps.size := by
    obtain ⟨heap, hheap⟩ := horderly.guarded.heap_some g o hown
    exact (Array.getElem?_eq_some_iff.mp hheap).1
  cases t with
  | dropValue o =>
      obtain ⟨hlt, -⟩ := horderly.guarded.buried _ (Multiset.mem_cons_self _ _) o rfl
      have hob := Array.getElem?_eq_getElem hlt
      have hdropped := h.dropValue
      rw [valueAt, hob] at hdropped
      unfold Ends
      simp only [step, hob]
      exact ⟨hdropped.of_objects rfl (le_refl _), .of_objects rfl⟩
  | dropSlot s => exact ⟨h.dropSlot.of_objects rfl (le_refl _), .of_objects rfl⟩
  | release o =>
      have hnone (p : ObjId) : .weak p ∉ (release o).holdings w := by simp [holdings]
      apply ends_release
      · exact fun _ => ⟨h.idle rfl hnone, .refl w⟩
      · intro ob hob _ _
        have hown := owns_iff.mpr ⟨ob, hob, rfl⟩
        exact h.locked_leaving rfl hnone (Locked.releaseStrong_routine o) (.enter w ob.heap) (hsize hown)
      · intro ob _
        have htrades : w.Trades (w.modifyObject o fun ob => { ob with strong := ob.strong - 1 }) :=
          .modifyObject w o fun _ => rfl
        split
        next => trivial
        next => exact ⟨(h.idle rfl hnone).trades htrades, htrades.rests⟩
  | dropWeak o => simpa [Ends, step] using h.dropWeak
  | dropHandle a =>
      have hnone (p : ObjId) : .weak p ∉ (dropHandle a).holdings w := by simp [holdings]
      apply ends_dropHandle
      have hown := horderly.guarded.handle_owned a (by simp [holdings])
      exact h.locked_leaving rfl hnone (Locked.dropRoot_routine a.heap a.root) (.refl w) (hsize hown)
  | leave g =>
      have htrades : w.Trades (w.leave g) := .leave w g
      have hspent := h.idle rfl (by simp [holdings])
      exact ⟨hspent.trades htrades, htrades.rests⟩
  | retire g o => simpa [Ends, step] using h.retire hnodup

end Tasks

/-! ## Calls -/

section Calls

variable {c : Client} {call : Call}

/-- The session of a call, or what it does without one, keeps weak counts right, with the tasks that
follow and with what the client has then. -/
def Call.Weighs (call : Call) (c : Client) : Prop :=
  Ends call.start c.world
    (fun p w => w.Weighed ((p.2 : Multiset Task) + c.todo)
      (p.1.others + (c.held - (call.spends : Multiset Holding))) ∧ c.world.Rests w)
    fun f w => f.upFront = true → w.Weighed c.todo c.held ∧ c.world.Rests w

namespace Call

theorem weighs_of_quiet {r : Receipt} {tasks : List Task} {w : World}
    (hstart : call.start c.world = .ok (r, tasks) w)
    (hweighed : w.Weighed ((tasks : Multiset Task) + c.todo)
      (r.others + (c.held - (call.spends : Multiset Holding))))
    (hrests : c.world.Rests w) : call.Weighs c := by
  unfold Weighs Ends
  rw [hstart]
  exact ⟨hweighed, hrests⟩

variable (h : c.world.Weighed c.todo c.held)

include h

theorem weighs_of_session {α : Type} {g : HeapId} {op : Locked α} (give : α → Receipt)
    {refusal : Option Fault} (hg : g < c.world.heaps.size)
    (hweak : ∀ a o, .weak o ∉ (give a).others ∧ .weak o ∉ call.spends)
    (hop : Locked.Screens refusal op ⟨c.world, []⟩)
    (hstart : call.start c.world = session g op give c.world) : call.Weighs c := by
  unfold Weighs Ends
  rw [hstart]
  apply Ends.bind ((h.locked hop hg).mono (fun _ _ hok => hok) fun _ _ herror => herror.2)
  rintro ⟨a, dead⟩ w ⟨hweighed, hrests⟩
  refine ⟨hweighed.hold fun o => ?_, hrests⟩
  obtain ⟨hothers, hspends⟩ := hweak a o
  have hcount : (call.spends : Multiset Holding).count (.weak o) = 0 :=
    Multiset.count_eq_zero.mpr hspends
  rw [Multiset.count_add, Multiset.count_sub, Multiset.count_eq_zero.mpr hothers, hcount, zero_add,
    tsub_zero]

theorem weighs_of_refusal {a : Handle} {b : Breach}
    (hstart : call.start c.world = refuse a b c.world) : call.Weighs c := by
  have hnote : c.world.Trades
      (c.world.note (.violated (.protocol (c.world.typeName a.obj) b))) := .note _ _
  unfold Weighs Ends
  rw [hstart]
  exact fun _ => ⟨h.trades hnote, hnote.rests⟩

/-- A call that comes to something new to hold, that is no weak reference. -/
theorem weighs_of_gain {r : Receipt} {w : World} (hstart : call.start c.world = .ok (r, []) w)
    (hspends : call.spends = []) (hweak : ∀ o, .weak o ∉ r.others) (htrades : c.world.Trades w) :
    call.Weighs c := by
  apply weighs_of_quiet hstart _ htrades.rests
  rw [Multiset.coe_nil, zero_add]
  apply (h.trades htrades).hold
  intro o
  rw [hspends, Multiset.count_add, Multiset.count_eq_zero.mpr (hweak o)]
  simp

/-- A call that gives away what it spends, and leads to tasks that drop it. -/
theorem weighs_of_giving {tasks : List Task} (hspends : (call.spends : Multiset Holding) ≤ c.held)
    (hidle : ∀ u ∈ tasks, u.buries = none)
    (hholdings : (tasks : Multiset Task).bind (Task.holdings c.world) = call.spends)
    (hstart : call.start c.world = .ok ({}, tasks) c.world) : call.Weighs c := by
  apply weighs_of_quiet hstart _ (.refl _)
  apply h.reassign
  · intro o
    have hnone : ((({} : Receipt).others : List Holding) : Multiset Holding) = 0 := rfl
    rw [hnone, zero_add, ledger_add_tasks, hholdings, ← ledger_add_held, add_tsub_cancel_of_le hspends]
  · have hnone : tasks.filterMap Task.retires = [] :=
      List.filterMap_eq_nil_iff.mpr fun u hu => Task.retires_of_idle (hidle u hu)
    rw [Multiset.filterMap_add, Multiset.filterMap_coe, hnone, Multiset.coe_nil, zero_add]
  · intro g o ho
    rcases Multiset.mem_add.mp ho with ho | ho
    · cases hidle _ (Multiset.mem_coe.mp ho)
    · exact ho

theorem weighs_of_storing {α : Type} {a item : Handle} {op : Locked α} {give : α → Receipt}
    {refusal : Option Fault} (hg : a.heap < c.world.heaps.size)
    (hweak : ∀ a o, .weak o ∉ (give a).others ∧ .weak o ∉ call.spends)
    (hop : Locked.Screens refusal op ⟨c.world, []⟩)
    (hstart : call.start c.world = (if item.heap = a.heap then session a.heap op give
      else refuse a .foreignStore) c.world) : call.Weighs c := by
  by_cases hheap : item.heap = a.heap
  · rw [if_pos hheap] at hstart
    exact weighs_of_session h give hg hweak hop hstart
  · rw [if_neg hheap] at hstart
    exact weighs_of_refusal h hstart

theorem weighs_of_weak {o : ObjId} (ho : 0 < c.world.weakAt o) (hspends : call.spends = [])
    (hstart : call.start c.world = .ok ({ others := [.weak o] }, []) (c.world.retainWeak o)) :
    call.Weighs c := by
  obtain ⟨hweighed, hrests⟩ := h.retainWeak ho
  apply weighs_of_quiet hstart _ hrests
  rw [Multiset.coe_nil, zero_add, hspends, Multiset.coe_nil, tsub_zero]
  exact hweighed

theorem alloc_weighs {g : HeapId} {n : String} {v : Value} (horderly : c.Orderly) (hg : g ∈ c.heaps)
    (hle : (v.holdings : Multiset Holding) ≤ c.held) : (alloc g n v).Weighs c := by
  obtain ⟨hborn, hrests⟩ := h.enroll (g := g) (n := n) horderly.guarded.buried hle
  obtain ⟨heap, hheap⟩ := horderly.exists_heap (.inl hg)
  have hlt : g < (c.world.enroll g n v).heaps.size := by
    simpa [World.enroll, World.modifyHeap] using (Array.getElem?_eq_some_iff.mp hheap).1
  apply ends_alloc
  apply (hborn.locked (Locked.introduce_routine g c.world.objects.size n ⟨_, []⟩) hlt).mono
  · rintro ⟨r, dead⟩ w ⟨hweighed, hrests'⟩
    exact ⟨by simpa [spends] using hweighed, hrests.trans hrests'⟩
  · rintro f w ⟨hearly, -⟩ hup
    -- an allocation is not refused up front
    rw [Fault.early_eq_none.mp hearly.symm] at hup
    cases hup

theorem upgrade_weighs {x : WeakRef} (horderly : c.Orderly) : (upgrade x).Weighs c := by
  apply ends_upgrade
  · intro _
    exact ⟨by simpa [spends] using h, .refl _⟩
  · intro o _ ob hob hexists
    have hentered : c.world.Trades (c.world.enter ob.heap) := .enter _ _
    have hown : c.world.owns ob.heap o = true := owns_iff.mpr ⟨ob, hob, rfl⟩
    obtain ⟨heap, hheap⟩ := horderly.guarded.heap_some _ _ hown
    have hg : ob.heap < (c.world.enter ob.heap).heaps.size :=
      hentered.size ▸ (Array.getElem?_eq_some_iff.mp hheap).1
    obtain ⟨found, dead, w, w₁, hok, -⟩ := claim_ends horderly hob hexists
    cases WeakRef.dead_of_claim hok
    have hlocked := (h.trades hentered).locked (WeakRef.claim_routine ob.heap o ⟨_, []⟩) hg
    obtain ⟨hweighed, hrests⟩ := hlocked.of_ok hok
    simp only [Task.finalizing, List.map_nil, List.append_nil, Multiset.coe_nil, zero_add] at hweighed
    have hafter : c.world.Rests w := hentered.rests.trans hrests
    unfold Ends
    rw [hok]
    cases found with
    | some a =>
        have hroot (p : ObjId) : Multiset.count (.weak p) (.root a ::ₘ c.held) =
            c.held.count (.weak p) := Multiset.count_cons_of_ne (by simp) _
        exact ⟨by simpa [spends] using hweighed.hold hroot, hafter⟩
    | none => exact ⟨by simpa [spends] using hweighed.leaving, hafter⟩

theorem assign_weighs {a b : Handle} (ha : .root a ∈ c.held) (hg : a.heap < c.world.heaps.size) :
    (assign a b).Weighs c := by
  by_cases hobj : a.obj = b.obj
  · have hstart := congrFun (start_assign_same hobj) c.world
    have hheld : (([.root a] : List Holding) : Multiset Holding) +
        (c.held - (([.root a] : List Holding) : Multiset Holding)) = c.held := by
      rw [Multiset.coe_singleton, Multiset.sub_singleton, Multiset.singleton_add,
        Multiset.cons_erase ha]
    apply weighs_of_quiet hstart _ (.refl _)
    rw [Multiset.coe_nil, zero_add]
    apply h.hold
    intro o
    exact congrArg (Multiset.count (.weak o)) hheld
  · by_cases hheap : a.heap = b.heap
    · have hstart := congrFun (start_assign hobj hheap) c.world
      exact weighs_of_session h _ hg (by simp [spends]) (a.rebind_routine b.obj _) hstart
    · exact weighs_of_refusal h (congrFun (start_assign_foreign hobj hheap) c.world)

/-- Calls keep weak counts right. -/
theorem weighs (horderly : c.Orderly) (hallowed : call.Allowed c) : call.Weighs c := by
  have hsize {a : Handle} (ha : c.Sees (.root a)) : a.heap < c.world.heaps.size := by
    obtain ⟨heap, hheap⟩ := horderly.exists_heap (.inr ⟨a, ha, rfl⟩)
    exact (Array.getElem?_eq_some_iff.mp hheap).1
  -- `downgrade` and `cloneWeak` make weak references, `dropWeak` gives them, the rest keeps them
  cases call with
  | createHeap config =>
      let w : World :=
        { c.world with
          heaps := c.world.heaps.push { config := config }
          log := c.world.log.push (.creatingHeap config) }
      have hstart : (createHeap config).start c.world = .ok ({ heaps := [c.world.heaps.size] }, []) w :=
        rfl
      have hsize : c.world.heaps.size ≤ w.heaps.size := by simp [w]
      have hobjects : w.objects = c.world.objects := rfl
      apply weighs_of_quiet hstart _ (.of_objects hobjects)
      simpa [spends] using h.of_objects hobjects hsize
  | shareHeap g =>
      have hstart : (shareHeap g).start c.world = .ok ({ heaps := [g] }, []) (c.world.enter g) := rfl
      exact weighs_of_gain h hstart rfl (by simp) (.enter c.world g)
  | dropHeap g =>
      exact weighs_of_giving h (Multiset.zero_le _) (idle_leave g) (by simp [Task.holdings, spends]) rfl
  | alloc g n v => exact alloc_weighs h horderly hallowed.1 hallowed.2.2
  | clone a =>
      exact weighs_of_session h (fun b => { handles := [b] }) (hsize hallowed) (by simp [spends])
        (Locked.newHandle_routine _ _ _) rfl
  | drop a =>
      exact weighs_of_giving h (Multiset.singleton_le.mpr hallowed) (by simp [Task.buries])
        (by simp [Task.holdings, spends]) rfl
  | assign a b => exact assign_weighs h hallowed.1 (hsize (.held hallowed.1))
  | getField a s =>
      exact weighs_of_session h (fun found => { handles := found.toList }) (hsize hallowed.1)
        (by simp [spends]) (a.readField_routine s _) rfl
  | setField a s target =>
      by_cases haccepts : a.accepts target = true
      · have hstart := congrFun (start_setField (s := s) haccepts) c.world
        exact weighs_of_session h _ (hsize hallowed.1) (by simp [spends])
          (a.storeField_screens s _ (target.map (·.obj))) hstart
      · exact weighs_of_refusal h (congrFun (start_setField_foreign haccepts) c.world)
  | takeField a s =>
      exact weighs_of_session h (fun found => { handles := found.toList }) (hsize hallowed.1)
        (by simp [spends]) (a.unloadField_screens s _) rfl
  | pushItem a s item =>
      exact weighs_of_storing h (hsize hallowed.1) (by simp [spends])
        (a.enlist_screens s _ none item.obj) rfl
  | insertItem a s index item =>
      exact weighs_of_storing h (hsize hallowed.1) (by simp [spends])
        (a.enlist_screens s _ (some index) item.obj) rfl
  | setItem a s index item =>
      exact weighs_of_storing h (hsize hallowed.1) (by simp [spends])
        (a.replace_screens s _ index item.obj) rfl
  | getItem a s index =>
      exact weighs_of_session h (fun found => { handles := found.toList }) (hsize hallowed.1)
        (by simp [spends]) (a.readItem_routine s index _) rfl
  | items a s =>
      exact weighs_of_session h (fun handles => { handles := handles }) (hsize hallowed.1)
        (by simp [spends]) (a.readItems_routine s _) rfl
  | removeItem a s index =>
      exact weighs_of_session h (fun b => { handles := [b] }) (hsize hallowed.1) (by simp [spends])
        (a.removeAt_screens s _ index) rfl
  | popItem a s =>
      exact weighs_of_session h (fun found => { handles := found.toList }) (hsize hallowed.1)
        (by simp [spends]) (a.removeLast_screens s _) rfl
  | clearItems a s =>
      exact weighs_of_session h (fun _ => {}) (hsize hallowed.1) (by simp [spends])
        (a.removeAll_screens s _) rfl
  | downgrade a =>
      exact weighs_of_weak h (h.kept_of_live (horderly.handle hallowed).1) rfl rfl
  | cloneWeak x =>
      obtain ⟨_ | o⟩ := x
      · have hstart : (cloneWeak ⟨none⟩).start c.world = .ok ({ others := [] }, []) c.world := rfl
        exact weighs_of_gain h hstart rfl (by simp) (.refl _)
      · exact weighs_of_weak h (h.kept_of_mem (horderly.mem_ledger (hallowed o rfl))) rfl rfl
  | dropWeak x =>
      have hspends : ((dropWeak x).spends : Multiset Holding) ≤ c.held := hallowed
      apply weighs_of_giving h hspends _ _ rfl
      · intro u hu
        obtain ⟨y, -, rfl⟩ := List.mem_map.mp hu
        cases y <;> rfl
      · rw [← Multiset.map_coe]
        exact bind_holdings_ofHolding _
  | upgrade x => exact upgrade_weighs h horderly
  | newField target =>
      cases target with
      | none =>
          have hstart : (newField none).start c.world =
              .ok ({ others := [.slot c.world.slots.size] }, []) (c.world.addSlot (.one none)).2 := rfl
          exact weighs_of_gain h hstart rfl (by simp) (.of_eq rfl rfl rfl)
      | some b =>
          have hretained : c.world.Trades (c.world.retain b.obj) := .modifyObject _ _ fun _ => rfl
          have hstart : (newField (some b)).start c.world =
              .ok ({ others := [.slot (c.world.retain b.obj).slots.size] }, [])
                ((c.world.retain b.obj).addSlot (.one (some b.obj))).2 := rfl
          exact weighs_of_gain h hstart rfl (by simp) (hretained.trans (.of_eq rfl rfl rfl))
  | newList targets =>
      let w₁ := targets.foldl (fun w a => w.retain a.obj) c.world
      have hretained : c.world.Trades w₁ := .retainAll c.world targets
      have hstart : (newList targets).start c.world =
          .ok ({ others := [.slot w₁.slots.size] }, []) (w₁.addSlot (.many (targets.map (·.obj)))).2 :=
        rfl
      exact weighs_of_gain h hstart rfl (by simp) (hretained.trans (.of_eq rfl rfl rfl))
  | dropSlot s =>
      exact weighs_of_giving h (Multiset.singleton_le.mpr hallowed) (by simp [Task.buries])
        (by simp [Task.holdings, spends]) rfl

end Call

end Calls

end RootedHeap
