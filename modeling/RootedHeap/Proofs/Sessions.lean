import RootedHeap.Proofs.Alike

/-! # Sessions

What the operations under a heap's lock come to, for a sound world. A session starts from some world
and changes its tallies and strong counts as it goes along; `Session.Sound` states it against a
world whose slots and registries are up to date, so that log, counters, tallies and strong counts of
that world do not matter.
-/

namespace RootedHeap

/-- Where an operation ends: `Q` holds of a result, `E` of a fault. -/
def Ends {ε σ α : Type} (op : EStateM ε σ α) (s : σ) (Q : α → σ → Prop) (E : ε → σ → Prop) :
    Prop :=
  match op s with
  | .ok a s' => Q a s'
  | .error e s' => E e s'

namespace Ends

variable {ε σ α β : Type} {s : σ} {Q Q' : α → σ → Prop} {R : β → σ → Prop} {E E' : ε → σ → Prop}

theorem mono {op : EStateM ε σ α} (h : Ends op s Q E) (hok : ∀ a s', Q a s' → Q' a s')
    (herror : ∀ e s', E e s' → E' e s') : Ends op s Q' E' := by
  unfold Ends at h ⊢
  cases hop : op s with
  | ok a s' =>
      rw [hop] at h
      exact hok a s' h
  | error e s' =>
      rw [hop] at h
      exact herror e s' h

theorem and {op : EStateM ε σ α} {Q' : α → σ → Prop} {E' : ε → σ → Prop} (h : Ends op s Q E)
    (h' : Ends op s Q' E') : Ends op s (fun a s' => Q a s' ∧ Q' a s') fun e s' => E e s' ∧ E' e s' := by
  unfold Ends at *
  cases heq : op s with
  | ok a s' =>
      rw [heq] at h h'
      exact ⟨h, h'⟩
  | error e s' =>
      rw [heq] at h h'
      exact ⟨h, h'⟩

/-- An operation that has no fault ends in a result. -/
theorem exists_ok {op : EStateM ε σ α} (h : Ends op s Q fun _ _ => False) :
    ∃ a s', op s = .ok a s' ∧ Q a s' := by
  unfold Ends at h
  cases hop : op s with
  | ok a s' =>
      rw [hop] at h
      exact ⟨a, s', rfl, h⟩
  | error e s' =>
      rw [hop] at h
      exact h.elim

theorem of_ok {op : EStateM ε σ α} (h : Ends op s Q E) {a : α} {s' : σ}
    (heq : op s = .ok a s') : Q a s' := by
  unfold Ends at h
  rwa [heq] at h

theorem of_eq {op : EStateM ε σ α} {a : α} {s' : σ} (heq : op s = .ok a s') (h : Q a s') :
    Ends op s Q E := by
  unfold Ends
  rwa [heq]

theorem of_error {op : EStateM ε σ α} (h : Ends op s Q E) {e : ε} {s' : σ}
    (heq : op s = .error e s') : E e s' := by
  unfold Ends at h
  rwa [heq] at h

theorem bind_iff {op : EStateM ε σ α} {next : α → EStateM ε σ β} :
    Ends (op >>= next) s R E ↔ Ends op s (fun a s' => Ends (next a) s' R E) E := by
  show Ends (EStateM.bind op next) s R E ↔ _
  unfold Ends EStateM.bind
  cases op s <;> rfl

theorem bind {op : EStateM ε σ α} {next : α → EStateM ε σ β} (h : Ends op s Q E)
    (hnext : ∀ a s', Q a s' → Ends (next a) s' R E) : Ends (op >>= next) s R E :=
  bind_iff.mpr (h.mono hnext fun _ _ he => he)

theorem bind_of_eq {op : EStateM ε σ α} {next : α → EStateM ε σ β} {a : α} {s' : σ}
    (heq : op s = .ok a s') (h : Ends (next a) s' R E) : Ends (op >>= next) s R E :=
  bind_iff.mpr (of_eq heq h)

theorem map_iff {op : EStateM ε σ α} {f : α → β} :
    Ends (f <$> op) s R E ↔ Ends op s (fun a s' => R (f a) s') E := by
  show Ends (EStateM.map f op) s R E ↔ _
  unfold Ends EStateM.map
  cases op s <;> rfl

theorem pure_iff {a : α} : Ends (pure a : EStateM ε σ α) s Q E ↔ Q a s := Iff.rfl

end Ends

theorem Keeps.ends {ε σ α : Type} {R : σ → σ → Prop} {op : EStateM ε σ α} (h : Keeps R op) (s : σ) :
    Ends op s (fun _ s' => R s s') fun _ s' => R s s' := h s

/-- The faults of checks that are made before anything changes. -/
def Fault.upFront : Fault → Bool
  | .violation (.protocol _ breach) =>
    match breach with
    | .foreignStore | .foreignAssign | .unvisitedSlot => true
    | .foreignTarget | .notConnected _ | .other _ => false
  | .insertRange .. | .replaceRange .. | .removeRange .. => true
  | .violation (.doubleRootRelease _) | .violation (.unknownRoot _)
  | .violation (.useAfterCollection _) | .survivorUncounted | .strongUnderflow _
  | .liveUnderflow => false

namespace Locked

variable {α β : Type} {s : Session} {Q : α → Session → Prop} {E : Fault → Session → Prop}

theorem ends_update {f : World → World} {Q : Unit → Session → Prop} :
    Ends (update f) s Q E ↔ Q () { s with world := f s.world } := Iff.rfl

theorem ends_note {e : Event} {Q : Unit → Session → Prop} :
    Ends (note e) s Q E ↔ Q () { s with world := s.world.note e } := Iff.rfl

theorem ends_look {f : World → α} : Ends (look f) s Q E ↔ Q (f s.world) s := Iff.rfl

theorem ends_pass {make : World → Tallies → α} {left : α → Tallies} :
    Ends (pass make left) s Q E ↔
      Q (make { s.world with tallies := #[] } s.world.tallies)
        { s with world := { s.world with
            tallies := left (make { s.world with tallies := #[] } s.world.tallies) } } := Iff.rfl

theorem ends_suspect {os : List ObjId} {Q : Unit → Session → Prop} :
    Ends (suspect os) s Q E ↔ Q () { s with unrooted := s.unrooted ++ os } := Iff.rfl

theorem ends_violate {cause : Violation} :
    Ends (violate cause : Locked α) s Q E ↔
      E (.violation cause) { s with world := s.world.note (.violated cause) } := Iff.rfl

end Locked

/-- A session is over once it was reclaimed what it left unreachable. -/
theorem Ends.locked {α : Type} {h : HeapId} {op : Locked α} {w : World} {P : α → Session → Prop}
    {Q : α × List ObjId → World → Prop} {E : Fault → World → Prop}
    (hop : Ends op ⟨w, []⟩ P fun f s => E f s.world)
    (hreclaim : ∀ a s, P a s →
      Ends (reclaim h) s (fun dead s' => Q (a, dead) s'.world) fun f s' => E f s'.world) :
    Ends (RootedHeap.locked h op) w Q E := by
  unfold Ends RootedHeap.locked
  cases hrun : op ⟨w, []⟩ with
  | error f s => exact hop.of_error hrun
  | ok a s =>
      have hends := hreclaim a s (hop.of_ok hrun)
      dsimp only
      cases hend : reclaim h s with
      | error f s' => exact hends.of_error hend
      | ok dead s' => exact hends.of_ok hend

/-! ## The state of a session -/

/-- A session of heap `g` that has come to a sound state of the world `w`. -/
structure Session.Sound (g : HeapId) (w : World) (support : RootId → ObjId → Nat)
    (todo : Multiset Task) (held : Multiset Holding) (owed : HeapId → ℤ) (s : Session) : Prop where
  alike : w.Alike s.world
  sound : w.Sound s.world.tallies s.world.strongAt support s.unrooted todo held owed
  owned : ∀ o ∈ s.unrooted, w.owns g o = true
  barren : w.Barren s.world

/-- The session went on to other tallies and suspects. -/
structure Session.Passed (s : Session) (tallies : Tallies) (suspects : List ObjId)
    (s' : Session) : Prop where
  alike : s.world.Alike s'.world
  strong : s'.world.strongAt = s.world.strongAt
  tallies : s'.world.tallies = tallies
  unrooted : s'.unrooted = suspects

/-- What a session suspects beyond `us`, `t` leads to. -/
def Session.Below (w : World) (t : ObjId) (us : List ObjId) (s : Session) : Prop :=
  ∀ o ∈ s.unrooted, o ∈ us ∨ Reach w.out t o

/-- A session that has given references to `t` up. What it suspects beyond `us`, `t` leads to, and if
`t` may be garbage, it was suspected last. -/
structure Session.LetsGo (w : World) (t : ObjId) (us : List ObjId) (s : Session) : Prop where
  below : s.Below w t us
  last : s.world.tallies.isEmptyAt t = true → ∃ us', s.unrooted = us' ++ [t]

theorem Session.Passed.refl (s : Session) : s.Passed s.world.tallies s.unrooted s :=
  ⟨.refl _, rfl, rfl, rfl⟩

section Session

variable {g : HeapId} {w : World} {support support' : RootId → ObjId → Nat}
  {todo : Multiset Task} {held : Multiset Holding} {owed : HeapId → ℤ} {s s' : Session}

/-- A session's state is sound again when the state it went on to is. -/
theorem Session.Passed.sound {ts : Tallies} {us : List ObjId} (hpassed : s.Passed ts us s')
    (halike : w.Alike s.world)
    (h : w.Sound ts s.world.strongAt support us todo held owed)
    (howned : ∀ o ∈ us, w.owns g o = true) (hbarren : w.Barren s'.world) :
    s'.Sound g w support todo held owed := by
  refine ⟨halike.trans hpassed.alike, ?_, ?_, hbarren⟩
  · rw [hpassed.tallies, hpassed.strong, hpassed.unrooted]
    exact h
  · rw [hpassed.unrooted]
    exact howned

/-- A session goes on with another registry. -/
theorem Session.Sound.register {todo' : Multiset Task} {held' : Multiset Holding}
    {owed' : HeapId → ℤ} {roots : Registry} {f : Heap → Heap} {e : Event}
    (h : s.Sound g w support todo held owed)
    (hf : ∀ heap, (f heap).face = ({ heap with roots := roots } : Heap).face)
    (horphans : ∀ heap, (f heap).counters.orphansFound = heap.counters.orphansFound)
    (hsound : (w.setRegistry g roots).Sound s.world.tallies s.world.strongAt support s.unrooted
      todo' held' owed') :
    Session.Sound g (w.setRegistry g roots) support todo' held' owed'
      { s with world := (s.world.modifyHeap g f).note e } :=
  ⟨h.alike.register g hf e, hsound, h.owned, h.barren.register g roots horphans e⟩

namespace Locked

/-! ### Passes -/

theorem alike_modifyCounters (w : World) (h : HeapId) (f : Counters → Counters) :
    w.Alike (w.modifyCounters h f) :=
  .modifyHeap w h fun _ => rfl

theorem connect_passed (r : RootId) (t : ObjId) :
    Ends (connect g r t) s
      (fun _ s' =>
        (RootedHeap.connect s.world.out (s.world.owns g) r t s.world.tallies).stranger = none ∧
          s.Passed (RootedHeap.connect s.world.out (s.world.owns g) r t s.world.tallies).tallies
            s.unrooted s')
      fun f _ =>
        (RootedHeap.connect s.world.out (s.world.owns g) r t s.world.tallies).stranger ≠ none ∧
          f.upFront = false := by
  unfold connect
  simp only [Ends.bind_iff, ends_update, ends_pass]
  have hmade : RootedHeap.connect (World.out { s.world.modifyCounters g fun c =>
        { c with connectPasses := c.connectPasses + 1 } with tallies := #[] })
      (World.owns { s.world.modifyCounters g fun c =>
        { c with connectPasses := c.connectPasses + 1 } with tallies := #[] } g) r t
      (s.world.modifyCounters g fun c =>
        { c with connectPasses := c.connectPasses + 1 }).tallies =
      RootedHeap.connect s.world.out (s.world.owns g) r t s.world.tallies := rfl
  rw [hmade]
  have halike := alike_modifyCounters s.world g fun c =>
    { c with connectPasses := c.connectPasses + 1 }
  cases hno : (RootedHeap.connect s.world.out (s.world.owns g) r t s.world.tallies).stranger with
  | none =>
      refine ⟨rfl, ⟨halike.slots, halike.dropped, halike.size, halike.objects, halike.heaps⟩,
        rfl, rfl, rfl⟩
  | some o =>
      simp only [Ends.bind_iff, ends_look, ends_violate]
      exact ⟨by simp, rfl⟩

theorem stripRoot_passed (r : RootId) (t : ObjId) :
    Ends (stripRoot r t) s
      (fun _ s' => s.Passed (strip s.world.back r t s.world.tallies).tallies
        (s.unrooted ++ (strip s.world.back r t s.world.tallies).unrooted) s')
      fun _ _ => False :=
  ⟨⟨rfl, rfl, rfl, fun _ => rfl, fun _ => rfl⟩, rfl, rfl, rfl⟩

/-- Counting a scan has no bearing on it. -/
theorem scanOrphans_counted (w : World) (g : HeapId) (f : Counters → Counters) (r : RootId)
    (candidates : List ObjId) :
    scanOrphans (World.out { w.modifyCounters g f with tallies := #[] }) r candidates
      (w.modifyCounters g f).tallies = scanOrphans w.out r candidates w.tallies := rfl

/-- Nor has counting a disconnect. -/
theorem cascade_counted (w : World) (g : HeapId) (f : Counters → Counters) (r : RootId) (t : ObjId) :
    cascade (World.back { w.modifyCounters g f with tallies := #[] }) r t
      (w.modifyCounters g f).tallies = cascade w.back r t w.tallies := rfl

theorem scan_passed (r : RootId) (candidates : List ObjId)
    (hbroken : (scanOrphans s.world.out r candidates s.world.tallies).broken = false) :
    Ends (scan g r candidates) s
      (fun _ s' => s.Passed (scanOrphans s.world.out r candidates s.world.tallies).tallies
        (s.unrooted ++ (scanOrphans s.world.out r candidates s.world.tallies).unrooted) s')
      fun _ _ => False := by
  unfold scan
  simp only [Ends.bind_iff, ends_update, ends_pass]
  rw [scanOrphans_counted]
  have halike := alike_modifyCounters s.world g fun c => { c with cycleScans := c.cycleScans + 1 }
  cases horphans : (scanOrphans s.world.out r candidates s.world.tallies).orphans with
  | nil =>
      have hunrooted : (scanOrphans s.world.out r candidates s.world.tallies).unrooted = [] := by
        rw [OrphanScan.unrooted, horphans, List.filter_nil]
      rw [hunrooted, List.append_nil]
      exact ⟨⟨halike.slots, halike.dropped, halike.size, halike.objects, halike.heaps⟩,
        rfl, rfl, rfl⟩
  | cons o os =>
      simp only [List.isEmpty_cons, Bool.false_eq_true, if_false, hbroken, Ends.bind_iff, ends_note,
        ends_update, ends_suspect, Ends.pure_iff]
      refine ⟨?_, rfl, rfl, rfl⟩
      dsimp only
      refine World.Alike.trans ?_ (alike_modifyCounters _ g _)
      exact ⟨halike.slots, halike.dropped, halike.size, halike.objects, halike.heaps⟩

theorem scanOrphans_nil (edges : ObjId → List ObjId) (r : RootId) (ts : Tallies) :
    (scanOrphans edges r [] ts).tallies = ts ∧ (scanOrphans edges r [] ts).unrooted = [] := by
  have hlost : (orphanTrial edges r [] ts).lost = [] := by
    simp [orphanTrial, trial, explore]
  rw [scanOrphans_eq, hlost]
  exact ⟨rfl, rfl⟩

theorem disconnect_passed (r : RootId) (t : ObjId)
    (hno : (cascade s.world.back r t s.world.tallies).unreached = none)
    (hbroken : (scanAfter s.world.out s.world.back r t s.world.tallies).broken = false) :
    Ends (disconnect g r t) s
      (fun _ s' => s.Passed (scanAfter s.world.out s.world.back r t s.world.tallies).tallies
        (s.unrooted ++ unrootedAfter s.world.out s.world.back r t s.world.tallies) s')
      fun _ _ => False := by
  unfold disconnect
  simp only [Ends.bind_iff, ends_update, ends_pass, ends_suspect]
  rw [cascade_counted, hno]
  have halike := alike_modifyCounters s.world g fun c =>
    { c with disconnectPasses := c.disconnectPasses + 1 }
  cases hcand : (cascade s.world.back r t s.world.tallies).candidates with
  | nil =>
      obtain ⟨htallies, hunrooted⟩ := scanOrphans_nil s.world.out r
        (cascade s.world.back r t s.world.tallies).tallies
      rw [unrootedAfter, scanAfter, hcand, htallies, hunrooted, List.append_nil]
      exact ⟨⟨halike.slots, halike.dropped, halike.size, halike.objects, halike.heaps⟩,
        rfl, rfl, rfl⟩
  | cons c cs =>
      simp only [List.isEmpty_cons, Bool.false_eq_true, if_false]
      rw [← hcand]
      rw [scanAfter] at hbroken
      refine (scan_passed r _ ?_).mono (fun _ s' hs' => ?_) fun _ _ hf => hf
      · exact hbroken
      refine ⟨?_, hs'.strong, hs'.tallies, ?_⟩
      · refine World.Alike.trans ?_ hs'.alike
        exact ⟨halike.slots, halike.dropped, halike.size, halike.objects, halike.heaps⟩
      · rw [hs'.unrooted, List.append_assoc]
        rfl

/-- A scan that finds nothing counts nothing as found. -/
theorem scan_barren (r : RootId) (candidates : List ObjId)
    (hnone : (scanOrphans s.world.out r candidates s.world.tallies).orphans = []) :
    Ends (scan g r candidates) s (fun _ s' => s.world.Ticks Counters.SameOrphans s'.world)
      fun _ _ => True := by
  unfold scan
  simp only [Ends.bind_iff, ends_update, ends_pass]
  rw [scanOrphans_counted, hnone]
  exact World.Ticks.modifyHeap Counters.waxing_sameOrphans.toWaning s.world g fun _ => rfl

theorem disconnect_barren (r : RootId) (t : ObjId)
    (hnone : (scanAfter s.world.out s.world.back r t s.world.tallies).orphans = []) :
    Ends (disconnect g r t) s (fun _ s' => s.world.Ticks Counters.SameOrphans s'.world)
      fun _ _ => True := by
  have hwaning := Counters.waxing_sameOrphans.toWaning
  have hcounted : s.world.Ticks Counters.SameOrphans (s.world.modifyCounters g fun c =>
      { c with disconnectPasses := c.disconnectPasses + 1 }) :=
    .modifyHeap hwaning s.world g fun _ => rfl
  unfold disconnect
  simp only [Ends.bind_iff, ends_update, ends_pass, ends_suspect]
  rw [cascade_counted]
  cases (cascade s.world.back r t s.world.tallies).unreached with
  | some o => trivial
  | none =>
      dsimp only
      by_cases hcand : (cascade s.world.back r t s.world.tallies).candidates.isEmpty = true
      · rw [if_pos hcand]
        exact hcounted
      · rw [if_neg hcand]
        rw [scanAfter] at hnone
        refine (scan_barren r _ ?_).mono (fun _ _ hs => ?_) fun _ _ hf => hf
        · exact hnone
        · exact hcounted.trans hwaning hs

/-! ### Moves -/

/-- Connecting an object of the session's heap adds a unit of support. -/
theorem connect_ends (h : s.Sound g w support todo held owed) {r : RootId} {t : ObjId}
    (ht : w.isLive t = true) (hown : w.owns g t = true)
    (hsupport : ∀ r' o, support' r' o = support r' o + if r' = r ∧ o = t then 1 else 0) :
    Ends (connect g r t) s
      (fun _ s' => s'.Sound g w support' todo held owed ∧ s'.unrooted = s.unrooted)
      fun _ _ => False := by
  obtain ⟨hno, hsound⟩ := h.sound.connect ht hown hsupport
  rw [← h.alike.out, ← h.alike.owns] at hno hsound
  have hticks := (Ticks.connect Counters.waxing_sameOrphans.toLinking g r t).ends s
  refine ((connect_passed r t).and hticks).mono ?_ ?_
  · rintro _ s' ⟨⟨-, hpassed⟩, hticks⟩
    exact ⟨hpassed.sound h.alike hsound h.owned (h.barren.ticks hticks), hpassed.unrooted⟩
  · rintro _ _ ⟨⟨hstranger, -⟩, -⟩
    exact hstranger hno

/-- Disconnecting takes a unit of support away. -/
theorem disconnect_ends (h : s.Sound g w support todo held owed) {r : RootId} {t : ObjId}
    (ht : w.isLive t = true) (hown : w.owns g t = true)
    (hsupport : ∀ r' o, support r' o = support' r' o + if r' = r ∧ o = t then 1 else 0) :
    Ends (disconnect g r t) s
      (fun _ s' => s'.Sound g w support' todo held owed ∧ s'.Below w t s.unrooted)
      fun _ _ => False := by
  obtain ⟨hno, hbroken, hreduced⟩ := (h.sound.tallied.balanced r).disconnect
    h.sound.guarded.back_perm fun o => by simpa using hsupport r o
  have hsound := h.sound.reduce hreduced hsupport
  have hunrooted {o : ObjId} (ho : o ∈ unrootedAfter w.out w.back r t s.world.tallies) :
      Reach w.out t o :=
    World.reach_of_mem_unrooted (h.sound.tallied.balanced r) (fun o => by simpa using hsupport r o)
      hreduced ho
  rw [← h.alike.back] at hno
  rw [← h.alike.out, ← h.alike.back] at hbroken
  have hbarren : Ends (disconnect g r t) s (fun _ s' => w.Barren s'.world) fun _ _ => True := by
    by_cases hacyclic : w.Acyclic
    · have hnone := (h.sound.tallied.balanced r).disconnect_orphans h.sound.guarded.back_perm
        (fun o => by simpa using hsupport r o) fun o ho =>
          hacyclic o (h.sound.tallied.live_of_count h.sound.guarded ho)
      rw [← h.alike.out, ← h.alike.back] at hnone
      exact (disconnect_barren r t hnone).mono (fun _ _ hs => h.barren.ticks hs) fun _ _ hf => hf
    · unfold Ends
      cases disconnect g r t s with
      | ok => exact fun hcyclic => absurd hcyclic hacyclic
      | error => trivial
  refine ((disconnect_passed r t hno hbroken).and hbarren).mono ?_ fun _ _ hf => hf.1
  rintro _ s' ⟨hpassed, hbarren⟩
  rw [h.alike.out, h.alike.back] at hpassed
  refine ⟨hpassed.sound h.alike hsound (fun o ho => ?_) hbarren, fun o ho => ?_⟩
  · rcases List.mem_append.mp ho with ho | ho
    · exact h.owned o ho
    · exact h.sound.guarded.owns_of_reach ht hown (hunrooted ho)
  · rw [hpassed.unrooted] at ho
    exact (List.mem_append.mp ho).imp_right hunrooted

/-- Stripping takes the support at its target away, when no other support leads where the target
leads. -/
theorem stripRoot_ends (h : s.Sound g w support todo held owed) {r : RootId} {t : ObjId}
    (ht : w.isLive t = true) (hown : w.owns g t = true)
    (hsupport : ∀ r' o, support r' o = support' r' o + if r' = r ∧ o = t then 1 else 0)
    (hapart : ∀ p o, 0 < support' r p → Reach w.out p o → ¬ Reach w.out t o) :
    Ends (stripRoot r t) s
      (fun _ s' => s'.Sound g w support' todo held owed ∧ s'.Below w t s.unrooted)
      fun _ _ => False := by
  have hsupport' (o : ObjId) : support r o = support' r o + if o = t then 1 else 0 := by
    simpa using hsupport r o
  have hreduced := (h.sound.tallied.balanced r).strip h.sound.guarded.back_perm hsupport' hapart
  have hunrooted {o : ObjId} (ho : o ∈ (strip w.back r t s.world.tallies).unrooted) :
      Reach w.out t o :=
    World.reach_of_mem_unrooted (h.sound.tallied.balanced r) hsupport' hreduced ho
  have hticks := (Ticks.stripRoot Counters.waxing_sameOrphans.toWaning r t).ends s
  refine ((stripRoot_passed r t).and hticks).mono ?_ fun _ _ hf => hf.1
  rintro _ s' ⟨hpassed, hticks⟩
  rw [h.alike.back] at hpassed
  refine ⟨hpassed.sound h.alike (h.sound.reduce hreduced hsupport) (fun o ho => ?_)
    (h.barren.ticks hticks), fun o ho => ?_⟩
  · rcases List.mem_append.mp ho with ho | ho
    · exact h.owned o ho
    · exact h.sound.guarded.owns_of_reach ht hown (hunrooted ho)
  · rw [hpassed.unrooted] at ho
    exact (List.mem_append.mp ho).imp_right hunrooted

theorem strongAt_retain {w : World} {o : ObjId} (ho : o < w.objects.size) (x : ObjId) :
    (w.retain o).strongAt x = w.strongAt x + if x = o then 1 else 0 := by
  unfold World.strongAt World.retain World.modifyObject
  rw [Array.getElem?_modify]
  by_cases hx : o = x
  · subst hx
    simp [ho]
  · simp [hx, Ne.symm hx]

theorem strongAt_release (w : World) (o x : ObjId) :
    (w.modifyObject o fun ob => { ob with strong := ob.strong - 1 }).strongAt x =
      w.strongAt x - if x = o then 1 else 0 := by
  unfold World.strongAt World.modifyObject
  rw [Array.getElem?_modify]
  by_cases hx : o = x
  · subst hx
    cases w.objects[o]? <;> simp
  · simp [hx, Ne.symm hx]

theorem retain_sound (h : s.Sound g w support todo held owed) {o : ObjId}
    (ho : w.isLive o = true) :
    Session.Sound g w support (.release o ::ₘ todo) held owed
      { s with world := s.world.retain o } := by
  refine ⟨h.alike.trans (.modifyObject _ o fun _ _ => rfl), h.sound.retain fun x => ?_, h.owned,
    h.barren⟩
  refine strongAt_retain ?_ x
  rw [h.alike.size]
  exact World.lt_size_of_isLive ho

/-- Giving up a strong reference that is on its way does not fail. -/
theorem releaseStrong_ends {o : ObjId}
    (h : s.Sound g w support (.release o ::ₘ todo) held owed) (hown : w.owns g o = true) :
    Ends (releaseStrong o) s
      (fun _ s' => s'.Sound g w support todo held owed ∧
        ∀ us, s.Below w o us → s'.LetsGo w o us) fun _ _ => False := by
  obtain ⟨ob₀, hob₀, _⟩ := World.owns_iff.mp hown
  obtain ⟨ob, hob, _⟩ := h.alike.object_eq hob₀
  have hstrong : s.world.strongAt o = ob.strong := by simp [World.strongAt, hob]
  have hpos : ob.strong ≠ 0 := by
    have hlowered (x : ObjId) := strongAt_release s.world o x
    have hnoticed : o ∈ [o] := List.mem_cons_self
    have := (h.sound.release hlowered fun _ _ _ _ => hnoticed).1
    omega
  have halike : w.Alike (s.world.modifyObject o fun ob => { ob with strong := ob.strong - 1 }) :=
    h.alike.trans (.modifyObject _ o fun _ _ => rfl)
  unfold releaseStrong
  simp only [Ends.bind_iff, ends_look, hob, if_neg hpos, ends_update, ends_note]
  split
  next hempty =>
    refine ⟨⟨halike.trans (.note _ _), ?_, fun o' ho' => ?_, h.barren⟩, fun us hbelow =>
      ⟨fun o' ho' => ?_, fun _ => ⟨_, rfl⟩⟩⟩
    · exact (h.sound.release (strongAt_release s.world o) fun _ _ _ _ => List.mem_cons_self).2
    · rcases List.mem_append.mp ho' with ho' | ho'
      · exact h.owned o' ho'
      · rwa [List.mem_singleton.mp ho']
    · rcases List.mem_append.mp ho' with ho' | ho'
      · exact hbelow o' ho'
      · rw [List.mem_singleton.mp ho']
        exact .inr .refl
  next hempty =>
    refine ⟨⟨halike.trans (.note _ _), ?_, h.owned, h.barren⟩, fun us hbelow =>
      ⟨hbelow, fun hnow => absurd hnow hempty⟩⟩
    have hnoticed : w.candidateIn s.world.tallies o = true → o ∈ ([] : List ObjId) :=
      fun hcand => absurd (World.candidateIn_iff.mp hcand).2 hempty
    have hsound := (h.sound.release (strongAt_release s.world o) fun _ _ _ => hnoticed).2
    rwa [List.append_nil] at hsound

/-- Registering a root for an object that a reference on its way points at fails only when the
object is of another heap. -/
theorem acquireRoot_ends {t : ObjId} {heap : Heap}
    (h : s.Sound g w support (.release t ::ₘ todo) held owed)
    (hheap : w.heaps[g]? = some heap) (ht : w.isLive t = true)
    (hsupport : w.owns g t = true → ∀ r o, support' r o =
      support r o + if r = heap.roots.next ∧ o = t then 1 else 0) :
    Ends (acquireRoot g t) s
      (fun r s' => r = heap.roots.next ∧ w.owns g t = true ∧
        s'.Sound g (w.setRegistry g (heap.roots.acquire t).2) support' todo
          (.root ⟨t, r, g⟩ ::ₘ held) (fun g' => owed g' - if g' = g then 1 else 0) ∧
        s'.unrooted = s.unrooted)
      fun f _ => w.owns g t = false ∧ f.upFront = false := by
  obtain ⟨heap', hheap', hface⟩ := h.alike.heap_eq hheap
  simp only [Heap.face, Prod.mk.injEq] at hface
  unfold acquireRoot
  simp only [Ends.bind_iff, ends_look, hheap', hface.2.1, ends_update, ends_note, Ends.pure_iff]
  by_cases hown : w.owns g t = true
  · have hacquired := h.sound.acquire hheap ht hown
    refine Ends.mono (connect_ends (h.register ?_ ?_ hacquired) ht hown (hsupport hown)) ?_
      fun _ _ hf => hf.elim
    · exact fun _ => rfl
    · exact fun _ => rfl
    · exact fun _ s' hs => ⟨rfl, hown, hs⟩
  · refine (connect_passed _ t).mono ?_ fun f _ hf => ⟨by simpa using hown, hf.2⟩
    rintro _ s' ⟨hno, -⟩
    have howns := owns_of_connectAll hno t List.mem_cons_self
    have hsame : s.world.owns g t = w.owns g t := by rw [h.alike.owns]
    exact absurd (hsame ▸ howns) hown

/-- A new handle to a live object. -/
theorem newHandle_ends {t : ObjId} {heap : Heap} (h : s.Sound g w support todo held owed)
    (hheap : w.heaps[g]? = some heap) (ht : w.isLive t = true)
    (hsupport : w.owns g t = true → ∀ r o, support' r o =
      support r o + if r = heap.roots.next ∧ o = t then 1 else 0) :
    Ends (newHandle g t) s
      (fun a s' => w.owns g t = true ∧ a = ⟨t, heap.roots.next, g⟩ ∧
        s'.Sound g (w.setRegistry g (heap.roots.acquire t).2) support' todo (.root a ::ₘ held)
          (fun g' => owed g' - if g' = g then 1 else 0) ∧ s'.unrooted = s.unrooted)
      fun f _ => w.owns g t = false ∧ f.upFront = false := by
  unfold newHandle
  rw [Ends.bind_iff, ends_update]
  refine Ends.bind (acquireRoot_ends (retain_sound h ht) hheap ht hsupport) ?_
  rintro r s' ⟨rfl, hown, hs⟩
  exact ⟨hown, rfl, hs⟩

/-- Taking an edge away for each of `roots`. -/
theorem detach_ends (h : s.Sound g w support todo held owed) {roots : List RootId} {t : ObjId}
    (ht : w.isLive t = true) (hown : w.owns g t = true)
    (hsupport : ∀ r o, support r o = support' r o + if o = t then roots.count r else 0) :
    Ends (detach g roots t) s
      (fun _ s' => s'.Sound g w support' todo held owed ∧ s'.Below w t s.unrooted)
      fun _ _ => False := by
  unfold detach
  induction roots generalizing s support with
  | nil =>
      have hsame : support = support' := by
        funext r o
        simp [hsupport]
      rw [← hsame]
      exact ⟨h, fun o ho => .inl ho⟩
  | cons r roots ih =>
      -- what is left of the support once the edge for `r` is gone
      have hfirst (r' : RootId) (o : ObjId) : support r' o =
          (support' r' o + if o = t then roots.count r' else 0) +
            if r' = r ∧ o = t then 1 else 0 := by
        rw [hsupport, List.count_cons]
        by_cases ho : o = t
        · by_cases hr : r = r'
          · simp [ho, hr]
            omega
          · simp [ho, hr, Ne.symm hr]
        · simp [ho]
      refine Ends.bind (disconnect_ends h ht hown hfirst) ?_
      rintro _ s' ⟨hsound, hbelow⟩
      refine (ih hsound fun _ _ => rfl).mono (fun _ s'' hs => ⟨hs.1, fun o ho => ?_⟩) fun _ _ hf => hf
      exact (hs.2 o ho).elim (hbelow o) .inr

/-- A reference that was on its way is given up, along with the edges counted for it. -/
theorem lose_ends {roots : List RootId} {t : ObjId}
    (h : s.Sound g w support (.release t ::ₘ todo) held owed)
    (ht : w.isLive t = true) (hown : w.owns g t = true)
    (hsupport : ∀ r o, support r o = support' r o + if o = t then roots.count r else 0) :
    Ends (lose g roots t) s
      (fun _ s' => s'.Sound g w support' todo held owed ∧ s'.LetsGo w t s.unrooted)
      fun _ _ => False := by
  unfold lose
  refine Ends.bind (detach_ends h ht hown hsupport) ?_
  rintro _ s' ⟨hsound, hbelow⟩
  exact (releaseStrong_ends hsound hown).mono (fun _ s'' hs => ⟨hs.1, hs.2 _ hbelow⟩)
    fun _ _ hf => hf

end Locked

end Session

end RootedHeap
