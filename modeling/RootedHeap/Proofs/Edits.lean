import RootedHeap.Field
import RootedHeap.Items
import RootedHeap.Proofs.Rooting

/-! # Sessions that write slots

A write puts some references into a slot of an object and takes others out. For each of the roots
that reach the object, edges are counted for the former and taken away for the latter; in between
the roots are owed support for edges that are gone already (`owing`). Lists are written before their
new edges are counted (`Session.Ahead`), which makes no difference since a connect pass never asks
for the edges of an object that is tagged already.
-/

namespace RootedHeap

/-- The support of roots that count edges to `os` once more than there are. -/
def owing (support : RootId → ObjId → Nat) (roots : List RootId) (os : Multiset ObjId)
    (r : RootId) (o : ObjId) : Nat :=
  support r o + roots.count r * os.count o

theorem owing_zero (support : RootId → ObjId → Nat) (roots : List RootId) :
    owing support roots 0 = support := by
  funext r o
  simp [owing]

theorem owing_cons (support : RootId → ObjId → Nat) (roots : List RootId) (t : ObjId)
    (os : Multiset ObjId) (r : RootId) (o : ObjId) :
    owing support roots (t ::ₘ os) r o =
      owing support roots os r o + if o = t then roots.count r else 0 := by
  unfold owing
  rw [Multiset.count_cons, Nat.mul_add, ← Nat.add_assoc]
  split <;> simp

theorem owing_singleton (support : RootId → ObjId → Nat) (roots : List RootId) (t : ObjId)
    (r : RootId) (o : ObjId) :
    owing support roots {t} r o = support r o + if o = t then roots.count r else 0 := by
  rw [← Multiset.cons_zero, owing_cons, owing_zero]

/-- A session in which slot `sl` was written ahead of the tallies, which still are those of `w`. -/
structure Session.Ahead (g : HeapId) (w : World) (sl : SlotId) (content : Slot)
    (support : RootId → ObjId → Nat) (todo : Multiset Task) (held : Multiset Holding)
    (owed : HeapId → ℤ) (s : Session) : Prop where
  alike : (w.writeSlot sl content).Alike s.world
  sound : w.Sound s.world.tallies s.world.strongAt support s.unrooted todo held owed
  owned : ∀ o ∈ s.unrooted, w.owns g o = true
  level : w.Ticks Counters.SameOrphans s.world

section Ahead

variable {g : HeapId} {w : World} {sl : SlotId} {content : Slot} {roots : List RootId}
  {support support' : RootId → ObjId → Nat} {todo : Multiset Task} {held : Multiset Holding}
  {owed : HeapId → ℤ} {s : Session} {p t : ObjId}

theorem World.writeSlot_self (w : World) (sl : SlotId) : w.writeSlot sl (w.slotAt sl) = w := by
  have hslots : w.slots.setIfInBounds sl (w.slotAt sl) = w.slots := by
    refine Array.ext (by simp) fun i hi hi' => ?_
    rw [Array.getElem_setIfInBounds]
    split
    next heq =>
      subst heq
      simp [World.slotAt, hi']
    next => rfl
  rw [World.writeSlot, hslots]

/-- Before a write, the slot has its own content. -/
theorem Session.Settled.ahead (h : s.Settled g todo held owed) (sl : SlotId) :
    s.Ahead g s.world sl (s.world.slotAt sl) s.world.support todo held owed :=
  ⟨by rw [World.writeSlot_self]; exact h.alike, h.sound, h.owned, fun _ => rfl⟩

/-- The slot may be written again. -/
theorem Session.Ahead.rewrite (h : s.Ahead g w sl content support todo held owed)
    (content' : Slot) :
    Session.Ahead g w sl content' support todo held owed
      { s with world := s.world.writeSlot sl content' } := by
  refine ⟨?_, h.sound, h.owned, h.level⟩
  have hagain := h.alike.writeSlot sl content'
  have hsame : (w.writeSlot sl content).writeSlot sl content' = w.writeSlot sl content' := by
    simp [World.writeSlot, Array.setIfInBounds_setIfInBounds]
  rwa [hsame] at hagain

theorem Session.Ahead.retain (h : s.Ahead g w sl content support todo held owed)
    (ht : w.isLive t = true) :
    Session.Ahead g w sl content support (.release t ::ₘ todo) held owed
      { s with world := s.world.retain t } := by
  refine ⟨h.alike.trans (.modifyObject _ t fun _ _ => rfl), h.sound.retain fun x => ?_, h.owned,
    h.level⟩
  refine Locked.strongAt_retain ?_ x
  rw [h.alike.size]
  exact World.lt_size_of_isLive ht

/-- A pass of a root that reaches the owner does not notice that the slot was written. -/
theorem Locked.connect_ahead_ends (h : s.Ahead g w sl content support todo held owed)
    (hp : w.isLive p = true) (hsl : sl ∈ (w.valueAt p).connectSlots) {r : RootId}
    (hpr : 0 < s.world.tallies.count p r) (ht : w.isLive t = true) (hown : w.owns g t = true)
    (hsupport : ∀ r' o, support' r' o = support r' o + if r' = r ∧ o = t then 1 else 0) :
    Ends (connect g r t) s
      (fun _ s' => s'.Ahead g w sl content support' todo held owed ∧
        s'.unrooted = s.unrooted ∧ ∀ o r', s.world.tallies.count o r' ≤ s'.world.tallies.count o r')
      fun _ _ => False := by
  obtain ⟨hno, hsound⟩ := h.sound.connect ht hown hsupport
  -- the pass never looks at the edges of `p`, which has a tag of `r` already
  have hsame : RootedHeap.connect s.world.out (s.world.owns g) r t s.world.tallies =
      RootedHeap.connect w.out (w.owns g) r t s.world.tallies := by
    rw [h.alike.out, h.alike.owns]
    refine connectAll_congr (P := fun o => w.isLive o = true) ?_ ?_ ?_
    · exact fun o ho c hc => h.sound.guarded.live_of_out ho hc
    · intro o ho h0
      refine World.out_writeSlot_of_ne h.sound.guarded.matched h.sound.accounted.slots_nodup hp ho
        hsl ?_
      rintro rfl
      omega
    · exact fun o ho => List.mem_singleton.mp ho ▸ ht
  have hticks := (Ticks.connect Counters.waxing_sameOrphans.toLinking g r t).ends s
  refine ((connect_passed r t).and hticks).mono ?_ ?_
  · rintro _ s' ⟨⟨-, hpassed⟩, hticks⟩
    rw [hsame] at hpassed
    refine ⟨⟨h.alike.trans hpassed.alike, ?_, ?_,
      h.level.trans Counters.waxing_sameOrphans.toWaning hticks⟩, hpassed.unrooted, fun o r' => ?_⟩
    · rw [hpassed.tallies, hpassed.strong, hpassed.unrooted]
      exact hsound
    · rw [hpassed.unrooted]
      exact h.owned
    · rw [hpassed.tallies]
      exact connectAll_count_le o r'
  · rintro _ _ ⟨⟨hstranger, -⟩, -⟩
    rw [hsame] at hstranger
    exact hstranger hno

/-- Counting a new edge for each of the roots that reach the owner of the slot. -/
theorem Locked.attach_ends (h : s.Ahead g w sl content support todo held owed)
    (hp : w.isLive p = true) (hsl : sl ∈ (w.valueAt p).connectSlots)
    (hroots : ∀ r ∈ roots, 0 < s.world.tallies.count p r) (ht : w.isLive t = true)
    (hown : w.owns g t = true)
    (hsupport : ∀ r o, support' r o = support r o + if o = t then roots.count r else 0) :
    Ends (attach g roots t) s
      (fun _ s' => s'.Ahead g w sl content support' todo held owed ∧ s'.unrooted = s.unrooted)
      fun _ _ => False := by
  unfold attach
  -- one pass for each root, after which the tags of the others are still there
  induction roots generalizing s support with
  | nil =>
      have hsame : support' = support := by
        funext r o
        simp [hsupport]
      rw [hsame]
      exact ⟨h, rfl⟩
  | cons r roots ih =>
      refine Ends.bind (connect_ahead_ends h hp hsl (hroots r List.mem_cons_self) ht hown
        fun _ _ => rfl) ?_
      rintro _ s' ⟨hahead, hidle, hle⟩
      rw [← hidle]
      refine ih hahead ?_ fun r' o => ?_
      · intro r' hr'
        exact Nat.lt_of_lt_of_le (hroots r' (List.mem_cons_of_mem _ hr')) (hle p r')
      · rw [hsupport, List.count_cons]
        by_cases ho : o = t
        · by_cases hr : r = r'
          · simp [ho, hr]
            omega
          · simp [ho, hr, Ne.symm hr]
        · simp [ho]

/-- Once the new edges are counted, the write is sound; the edges that are gone are still owed. -/
theorem Session.Ahead.written (added : Multiset ObjId) {removed : Multiset ObjId}
    (h : s.Ahead g w sl content (owing w.support roots added) (added.map .release + todo) held
      owed)
    (hx : w.Exchange p sl content added removed)
    (hroots : ∀ r, r ∈ roots ↔ ∃ o, 0 < w.support r o ∧ Reach w.out o p) (hnodup : roots.Nodup)
    (hne : roots ≠ []) :
    s.Sound g (w.writeSlot sl content) (owing (w.writeSlot sl content).support roots removed)
      (removed.map .release + todo) held owed := by
  have hone {r : RootId} (hr : r ∈ roots) : roots.count r = 1 :=
    List.count_eq_one_of_mem hnodup hr
  have hnone {r : RootId} (hr : r ∉ roots) : roots.count r = 0 := List.count_eq_zero.mpr hr
  -- `roots` is what the owner was tagged with, and the new edges add no root to it
  have htagged (r : RootId) : 0 < s.world.tallies.count p r ↔ r ∈ roots := by
    rw [(h.sound.tallied.balanced r).count_pos_iff]
    by_cases hr : r ∈ roots
    · obtain ⟨o, ho, hreach⟩ := (hroots r).mp hr
      exact ⟨fun _ => hr, fun _ => ⟨o, Nat.lt_of_lt_of_le ho (Nat.le_add_right _ _), hreach⟩⟩
    · rw [hroots]
      simp only [owing, hnone hr, Nat.zero_mul, Nat.add_zero]
  obtain ⟨q, hq⟩ := List.exists_mem_of_ne_nil roots hne
  refine ⟨h.alike, h.sound.writeSlot hx ?_ ?_ ?_ ?_ ?_, h.owned, .of_ticks h.level⟩
  · rw [Bool.eq_false_iff]
    intro hempty
    have := Tallies.isEmptyAt_iff.mp hempty q
    have := (htagged q).mpr hq
    omega
  · intro c hc
    rw [Bool.eq_false_iff]
    intro hempty
    -- a new target counts as supported for each root of the owner
    have hsupport : 0 < owing w.support roots added q c := by
      have := Multiset.count_pos.mpr hc
      rw [owing, hone hq]
      omega
    have := Tallies.isEmptyAt_iff.mp hempty q
    have := (h.sound.tallied.balanced q).count_pos_iff.mpr ⟨c, hsupport, .refl⟩
    omega
  · intro r hr o
    have hr := (htagged r).mp hr
    show owing w.support roots added r o + removed.count o =
      owing w.support roots removed r o + added.count o
    rw [owing, owing, hone hr]
    omega
  · intro r hr o
    have hr : r ∉ roots := fun hmem => by
      have := (htagged r).mpr hmem
      omega
    show owing w.support roots removed r o = owing w.support roots added r o
    rw [owing, owing, hnone hr, Nat.zero_mul, Nat.zero_mul]
  · intro r hr
    obtain ⟨o, ho, hreach⟩ := (hroots r).mp ((htagged r).mp hr)
    exact ⟨o, Nat.lt_of_lt_of_le ho (Nat.le_add_right _ _), hreach⟩

/-- Giving up references that were on their way, one after the other. -/
theorem Locked.loseAll_ends {os : List ObjId}
    (h : s.Sound g w (owing w.support roots os) ((os : Multiset ObjId).map .release + todo) held
      owed)
    (hos : ∀ o ∈ os, w.isLive o = true ∧ w.owns g o = true) :
    Ends (os.forM (lose g roots)) s
      (fun _ s' => s'.Sound g w w.support todo held owed ∧
        ∀ x ∈ s'.unrooted, x ∈ s.unrooted ∨ ∃ o ∈ os, Reach w.out o x)
      fun _ _ => False := by
  -- each reference gives its share of `owing` back
  induction os generalizing s with
  | nil =>
      rw [Multiset.coe_nil, owing_zero, Multiset.map_zero, Multiset.zero_add] at h
      exact ⟨h, fun x hx => .inl hx⟩
  | cons o os ih =>
      rw [← Multiset.cons_coe, Multiset.map_cons, Multiset.cons_add] at h
      obtain ⟨hlive, hown⟩ := hos o List.mem_cons_self
      refine Ends.bind (lose_ends h hlive hown (owing_cons _ _ _ _)) ?_
      rintro _ s' ⟨hsound, hletsGo⟩
      refine (ih hsound fun o ho => hos o (List.mem_cons_of_mem _ ho)).mono ?_ fun _ _ hf => hf
      refine fun _ s'' hs => ⟨hs.1, fun x hx => ?_⟩
      rcases hs.2 x hx with hx | ⟨o', ho', hreach⟩
      · exact (hletsGo.below x hx).imp_right fun hreach => ⟨o, List.mem_cons_self, hreach⟩
      · exact .inr ⟨o', List.mem_cons_of_mem _ ho', hreach⟩

end Ahead

/-! ## Writing through a handle -/

theorem Tallies.mem_roots_iff {ts : Tallies} {o : ObjId} {r : RootId} :
    r ∈ (ts[o]?.getD .empty).roots ↔ 0 < ts.count o r := by
  rw [← Tally.count_pos_iff]
  unfold count
  cases ts[o]? <;> simp

theorem Tally.nodup_roots (t : Tally) : t.roots.Nodup := by
  have hascending : t.roots.Pairwise (· < ·) := List.pairwise_map.mpr t.valid.ascending
  exact hascending.imp fun h => Nat.ne_of_lt h

section Write

variable {todo : Multiset Task} {held : Multiset Holding} {owed : HeapId → ℤ} {s : Session}
  {a : Handle} {sl : SlotId}

/-- The roots that reach the object of a handle, its own among them. -/
theorem Session.Settled.roots (h : s.Settled a.heap todo held owed)
    (ha : .root a ∈ s.world.ledger todo held) :
    (∀ r, r ∈ (s.world.tallies[a.obj]?.getD .empty).roots ↔
      ∃ o, 0 < s.world.support r o ∧ Reach s.world.out o a.obj) ∧
      (s.world.tallies[a.obj]?.getD .empty).roots ≠ [] := by
  have hmem (r : RootId) : r ∈ (s.world.tallies[a.obj]?.getD .empty).roots ↔
      ∃ o, 0 < s.world.support r o ∧ Reach s.world.out o a.obj :=
    Tallies.mem_roots_iff.trans (h.sound.tallied.balanced r).count_pos_iff
  refine ⟨hmem, fun hnil => ?_⟩
  have hself := (hmem a.root).mpr ⟨a.obj, (h.sound.handle ha).2.2, .refl⟩
  rw [hnil] at hself
  cases hself

namespace Locked

/-- With verification on, only slots that the owner reports are accepted. -/
theorem verifySlot_ends (h : s.Settled a.heap todo held owed) :
    Ends (verifySlot a.heap a.obj sl) s
      (fun _ s' => s = s' ∧ sl ∈ (s.world.valueAt a.obj).connectSlots) (s.Refused False) := by
  have hmust : mustVerify s.world a.heap a.obj sl = true := by
    unfold mustVerify
    cases hheap : s.world.heaps[a.heap]? with
    | none => simp
    | some heap => simp [h.sound.guarded.verify a.heap heap hheap]
  unfold verifySlot
  simp only [Ends.bind_iff, ends_look, hmust, Bool.true_and]
  split
  next => exact .of_upFront rfl ⟨.note _ _, rfl, rfl, rfl⟩
  next hno =>
    refine ⟨rfl, World.contains_visits.mp ?_⟩
    simpa using hno

theorem verifySlot_visited (hsl : sl ∈ (s.world.valueAt a.obj).connectSlots) :
    Ends (verifySlot a.heap a.obj sl) s (fun _ s' => s = s') fun _ _ => False := by
  have hvisited := World.contains_visits.mpr hsl
  unfold verifySlot
  simp only [Ends.bind_iff, ends_look, hvisited, Bool.not_true, Bool.and_false]
  rfl

/-- An operation that has to verify the slot first is refused if the owner does not report it. -/
theorem verifySlot_refused {α : Type} {next : Unit → Locked α} {Q : α → Session → Prop}
    (h : s.Settled a.heap todo held owed)
    (hsl : sl ∉ (s.world.valueAt a.obj).connectSlots) :
    Ends (verifySlot a.heap a.obj sl >>= next) s Q (s.Refused False) :=
  Ends.bind (verifySlot_ends h) fun _ _ hs => absurd hs.2 hsl

section Edit

variable {α β : Type} {read : World → β} {next : List RootId → β → Locked α}
  {Q : α → Session → Prop} {E : Fault → Session → Prop}

/-- An edit begins with the roots that reach the owner and with what the slot has. -/
theorem edit_visited (hsl : sl ∈ (s.world.valueAt a.obj).connectSlots)
    (hnext : Ends (next (s.world.tallies[a.obj]?.getD .empty).roots (read s.world)) s Q E) :
    Ends (do
      verifySlot a.heap a.obj sl
      let roots ← rootsOf a.obj
      let content ← look read
      next roots content) s Q E := by
  refine Ends.bind ((verifySlot_visited hsl).mono (fun _ _ hs => hs) fun _ _ hf => hf.elim) ?_
  rintro _ _ rfl
  rwa [Ends.bind_iff, rootsOf, ends_look, Ends.bind_iff, ends_look]

/-- An edit whose slot may not be reported is refused, at least when it would be otherwise. -/
theorem edit_refused (h : s.Settled a.heap todo held owed)
    (hnext : Ends (next (s.world.tallies[a.obj]?.getD .empty).roots (read s.world)) s Q
      (s.Refused False)) :
    Ends (do
      verifySlot a.heap a.obj sl
      let roots ← rootsOf a.obj
      let content ← look read
      next roots content) s Q (s.Refused False) := by
  by_cases hsl : sl ∈ (s.world.valueAt a.obj).connectSlots
  · exact edit_visited hsl hnext
  · exact verifySlot_refused h hsl

end Edit

theorem gain_ends {w : World} {g : HeapId} {content : Slot} {roots : List RootId} {p t : ObjId}
    {support support' : RootId → ObjId → Nat}
    (h : s.Ahead g w sl content support todo held owed) (hp : w.isLive p = true)
    (hsl : sl ∈ (w.valueAt p).connectSlots)
    (hroots : ∀ r ∈ roots, 0 < s.world.tallies.count p r) (ht : w.isLive t = true)
    (hown : w.owns g t = true)
    (hsupport : ∀ r o, support' r o = support r o + if o = t then roots.count r else 0) :
    Ends (gain g roots t) s
      (fun _ s' => s'.Ahead g w sl content support' (.release t ::ₘ todo) held owed ∧
        s'.unrooted = s.unrooted) fun _ _ => False := by
  unfold gain
  rw [Ends.bind_iff, ends_update]
  exact attach_ends (h.retain ht) hp hsl hroots ht hown hsupport

end Locked

/-- Putting `added` into a slot that the handle's object reports, and taking `removed` out. -/
theorem Session.Settled.exchange (h : s.Settled a.heap todo held owed)
    (ha : .root a ∈ s.world.ledger todo held)
    (hsl : sl ∈ (s.world.valueAt a.obj).connectSlots) {content : Slot}
    {added removed : Multiset ObjId}
    (htargets : (content.targets : Multiset ObjId) + removed =
      ((s.world.slotAt sl).targets : Multiset ObjId) + added)
    (hadded : ∀ c ∈ added, s.world.isLive c = true ∧ s.world.owns a.heap c = true) :
    s.world.Exchange a.obj sl content added removed := by
  obtain ⟨hlive, hown, -⟩ := h.sound.handle ha
  refine ⟨hlive, hsl, htargets, fun c hc => (hadded c hc).1, fun c hc g hg => ?_⟩
  rw [World.owns_unique hg hown]
  exact (hadded c hc).2

/-- What such a slot owns is live and of the handle's heap. -/
theorem Session.Settled.of_mem_slot (h : s.Settled a.heap todo held owed)
    (ha : .root a ∈ s.world.ledger todo held)
    (hsl : sl ∈ (s.world.valueAt a.obj).connectSlots) {o : ObjId}
    (ho : o ∈ (s.world.slotAt sl).targets) :
    s.world.isLive o = true ∧ s.world.owns a.heap o = true := by
  obtain ⟨hlive, hown, -⟩ := h.sound.handle ha
  have hout := World.mem_out.mpr ⟨sl, hsl, ho⟩
  exact ⟨h.sound.guarded.live_of_out hlive hout, h.sound.guarded.closed _ hlive _ hout _ hown⟩

namespace Handle

open Locked

/-- A reference moves into a slot: the slot is written ahead of counting the new edge. -/
theorem moveIn_returns (h : s.Settled a.heap todo held owed)
    (ha : .root a ∈ s.world.ledger todo held)
    (hsl : sl ∈ (s.world.valueAt a.obj).connectSlots) {content : Slot} {o : ObjId}
    {removed : Multiset ObjId}
    (htargets : (content.targets : Multiset ObjId) + removed =
      ((s.world.slotAt sl).targets : Multiset ObjId) + {o})
    (ho : s.world.isLive o = true) (hown : s.world.owns a.heap o = true) :
    Ends (attach a.heap (s.world.tallies[a.obj]?.getD .empty).roots o)
      { s with world := (s.world.retain o).writeSlot sl content }
      (fun _ s' => s'.Sound a.heap (s.world.writeSlot sl content)
          (owing (s.world.writeSlot sl content).support
            (s.world.tallies[a.obj]?.getD .empty).roots removed)
          (removed.map .release + todo) held owed ∧ s'.unrooted = s.unrooted)
      fun _ _ => False := by
  obtain ⟨hlive, -, -⟩ := h.sound.handle ha
  obtain ⟨hroots, hne⟩ := h.roots ha
  have hx : s.world.Exchange a.obj sl content {o} removed := by
    refine h.exchange ha hsl htargets fun c hc => ?_
    rw [Multiset.mem_singleton.mp hc]
    exact ⟨ho, hown⟩
  have hahead := ((h.ahead sl).retain ho).rewrite content
  refine (attach_ends hahead hlive hsl (fun r hr => ?_) ho hown (owing_singleton _ _ _)).mono ?_
    fun _ _ hf => hf
  · exact Tallies.mem_roots_iff.mp hr
  · rintro _ s' ⟨hattached, hidle⟩
    exact ⟨hattached.written {o} hx hroots (Tally.nodup_roots _) hne, hidle⟩

/-- Storing in a field that the owner reports, or clearing it. -/
theorem storeField_returns (h : s.Settled a.heap todo held owed)
    (ha : .root a ∈ s.world.ledger todo held)
    (hsl : sl ∈ (s.world.valueAt a.obj).connectSlots) {old target : Option ObjId}
    (hslot : s.world.slotAt sl = .one old)
    (htarget : ∀ t ∈ target, s.world.isLive t = true ∧ s.world.owns a.heap t = true) :
    Ends (a.storeField sl target) s
      (fun _ s' =>
        s'.Sound a.heap (s.world.writeSlot sl (.one target))
          (s.world.writeSlot sl (.one target)).support todo held owed ∧
        ∀ x ∈ s'.unrooted, x ∈ s.unrooted ∨
          ∃ o ∈ old, Reach (s.world.writeSlot sl (.one target)).out o x)
      fun _ _ => False := by
  obtain ⟨hlive, -, -⟩ := h.sound.handle ha
  obtain ⟨hroots, hne⟩ := h.roots ha
  unfold storeField
  refine Ends.bind (verifySlot_visited hsl) ?_
  rintro _ _ rfl
  rw [Ends.bind_iff, rootsOf, ends_look, Ends.bind_iff]
  generalize hrs : (s.world.tallies[a.obj]?.getD .empty).roots = roots at *
  have hnodup : roots.Nodup := hrs ▸ Tally.nodup_roots _
  -- the new edges are counted before the slot is written
  have hgained : Ends (target.forM (gain a.heap roots)) s
      (fun _ s' => s'.Ahead a.heap s.world sl (.one old)
        (owing s.world.support roots (target.toList : Multiset ObjId))
        ((target.toList : Multiset ObjId).map .release + todo) held owed ∧
          s'.unrooted = s.unrooted) fun _ _ => False := by
    have hahead := h.ahead sl
    rw [hslot] at hahead
    cases target with
    | none =>
        rw [Option.toList_none, Multiset.coe_nil, owing_zero, Multiset.map_zero,
          Multiset.zero_add]
        exact ⟨hahead, rfl⟩
    | some t =>
        obtain ⟨ht, hown⟩ := htarget t rfl
        rw [Option.toList_some, Multiset.coe_singleton, Multiset.map_singleton,
          Multiset.singleton_add]
        refine gain_ends hahead hlive hsl (fun r hr => ?_) ht hown (owing_singleton _ _ _)
        exact Tallies.mem_roots_iff.mp (hrs ▸ hr)
  refine (hgained.mono ?_ fun _ _ hf => hf.elim)
  rintro _ s₁ ⟨hahead, hidle⟩
  have hfield : s₁.world.fieldAt sl = old := by
    apply World.fieldAt_eq
    rw [hahead.alike.slotAt, ← hslot, World.writeSlot_self, hslot]
  rw [Ends.bind_iff, ends_look, hfield, Ends.bind_iff, ends_update]
  have hx : s.world.Exchange a.obj sl (.one target) target.toList old.toList :=
    h.exchange ha hsl (by rw [hslot]; exact add_comm _ _) fun c hc =>
      htarget c (Option.mem_toList.mp hc)
  have hwritten := (hahead.rewrite (.one target)).written _ hx hroots hnodup hne
  have hlost := loseAll_ends hwritten fun o ho =>
    h.of_mem_slot ha hsl (by rw [hslot]; exact ho)
  rw [← hidle]
  cases old with
  | none => exact hlost.mono (fun _ _ hs => ⟨hs.1, by simpa using hs.2⟩) fun _ _ hf => hf
  | some o =>
      refine (Ends.bind_iff.mp hlost).mono (fun _ _ hs => ⟨hs.1, ?_⟩) fun _ _ hf => hf
      simpa using hs.2

theorem storeField_ends (h : s.Settled a.heap todo held owed)
    (ha : .root a ∈ s.world.ledger todo held) {old target : Option ObjId}
    (hslot : s.world.slotAt sl = .one old)
    (htarget : ∀ t ∈ target, s.world.isLive t = true ∧ s.world.owns a.heap t = true) :
    Ends (a.storeField sl target) s (fun _ s' => s'.Settled a.heap todo held owed) (s.Refused False) := by
  by_cases hsl : sl ∈ (s.world.valueAt a.obj).connectSlots
  · exact (storeField_returns h ha hsl hslot htarget).mono (fun _ _ hs => hs.1.settled)
      fun _ _ hf => hf.elim
  · exact verifySlot_refused h hsl

/-- A reference moves from a slot to a new root. -/
theorem moveOut_returns {β : Type} {f : RootId → β} (h : s.Settled a.heap todo held owed)
    (ha : .root a ∈ s.world.ledger todo held)
    (hsl : sl ∈ (s.world.valueAt a.obj).connectSlots) {content : Slot} {o : ObjId}
    (htargets : o ::ₘ (content.targets : Multiset ObjId) = ((s.world.slotAt sl).targets)) :
    Ends (do
        update (·.writeSlot sl content)
        let r ← acquireRoot a.heap o
        detach a.heap (s.world.tallies[a.obj]?.getD .empty).roots o
        pure (f r)) s
      (fun b s' => b = f ((s.world.writeSlot sl content).issue a.heap o).root ∧
        s'.Issues a.heap (s.world.writeSlot sl content) o s.unrooted todo held owed)
      fun _ _ => False := by
  obtain ⟨hroots, hne⟩ := h.roots ha
  obtain ⟨heap, hheap⟩ := h.sound.guarded.heap_some a.heap a.obj (h.sound.handle ha).2.1
  have hregistry : (s.world.writeSlot sl content).registryAt a.heap = heap.roots := by
    show s.world.registryAt a.heap = heap.roots
    rw [World.registryAt, hheap]
  generalize hrs : (s.world.tallies[a.obj]?.getD .empty).roots = roots at *
  have hnodup : roots.Nodup := hrs ▸ Tally.nodup_roots _
  have ho : o ∈ (s.world.slotAt sl).targets := by
    rw [← Multiset.mem_coe, ← htargets]
    exact Multiset.mem_cons_self _ _
  obtain ⟨hlive, hown⟩ := h.of_mem_slot ha hsl ho
  -- the slot gives `o` up and takes nothing
  have hx : s.world.Exchange a.obj sl content 0 {o} :=
    h.exchange ha hsl (by rw [add_zero, ← htargets, add_comm, Multiset.singleton_add]) (by simp)
  have hahead := (h.ahead sl).rewrite content
  have hwritten : Session.Sound a.heap (s.world.writeSlot sl content)
      (owing (s.world.writeSlot sl content).support roots {o}) (.release o ::ₘ todo) held owed
      { s with world := s.world.writeSlot sl content } := by
    refine Session.Ahead.written 0 ?_ hx hroots hnodup hne
    rw [owing_zero, Multiset.map_zero, Multiset.zero_add]
    exact hahead
  rw [Ends.bind_iff, ends_update]
  -- the new root supports `o` besides, while the roots of the owner still owe the edge
  have hsupport (hown : (s.world.writeSlot sl content).owns a.heap o = true) (r : RootId)
      (x : ObjId) :
      owing ((s.world.writeSlot sl content).setRegistry a.heap (heap.roots.acquire o).2).support
        roots {o} r x =
      owing (s.world.writeSlot sl content).support roots {o} r x +
        if r = heap.roots.next ∧ x = o then 1 else 0 := by
    rw [owing, owing, World.support_acquire (w := s.world.writeSlot sl content) hheap hown]
    omega
  have hacquired := acquireRoot_ends hwritten hheap hlive hsupport
  refine Ends.bind (hacquired.mono (fun _ _ hs => hs) fun f _ hf => ?_) ?_
  · have hnot : s.world.owns a.heap o = false := hf.1
    rw [hown] at hnot
    cases hnot
  rintro r s' ⟨rfl, -, hsound, hidle⟩
  have hdetached := detach_ends hsound hlive hown (owing_singleton _ _ _)
  refine Ends.bind (hdetached.mono (fun _ _ hs => hs) fun _ _ hf => hf.elim) ?_
  rintro _ s'' ⟨hsound', hbelow⟩
  rw [hidle] at hbelow
  rw [World.issue, hregistry]
  refine ⟨rfl, ?_, ?_⟩
  · rw [World.issued, World.issue, hregistry]
    exact hsound'
  · rw [World.issued, hregistry]
    exact hbelow

/-- Taking the reference of a field that the owner reports out. -/
theorem unloadField_returns (h : s.Settled a.heap todo held owed)
    (ha : .root a ∈ s.world.ledger todo held)
    (hsl : sl ∈ (s.world.valueAt a.obj).connectSlots) {o : ObjId}
    (hslot : s.world.slotAt sl = .one (some o)) :
    Ends (a.unloadField sl) s
      (fun found s' => found = some ((s.world.writeSlot sl (.one none)).issue a.heap o) ∧
        s'.Issues a.heap (s.world.writeSlot sl (.one none)) o s.unrooted todo held owed)
      fun _ _ => False := by
  refine edit_visited hsl ?_
  rw [World.fieldAt_eq hslot]
  refine moveOut_returns (f := fun r => some (⟨o, r, a.heap⟩ : Handle)) h ha hsl ?_
  rw [hslot]
  rfl

theorem unloadField_null (hsl : sl ∈ (s.world.valueAt a.obj).connectSlots)
    (hslot : s.world.slotAt sl = .one none) :
    Ends (a.unloadField sl) s (fun found s' => found = none ∧ s = s') fun _ _ => False := by
  refine edit_visited hsl ?_
  rw [World.fieldAt_eq hslot]
  exact ⟨rfl, rfl⟩

theorem unloadField_ends (h : s.Settled a.heap todo held owed)
    (ha : .root a ∈ s.world.ledger todo held) {old : Option ObjId}
    (hslot : s.world.slotAt sl = .one old) :
    Ends (a.unloadField sl) s
      (fun found s' => s'.Yields a.heap todo held owed found.toList) (s.Refused False) := by
  by_cases hsl : sl ∈ (s.world.valueAt a.obj).connectSlots
  · cases old with
    | none =>
        refine (unloadField_null hsl hslot).mono ?_ fun _ _ hf => hf.elim
        rintro _ _ ⟨rfl, rfl⟩
        exact Session.yields_nil_iff.mpr h
    | some o =>
        refine (unloadField_returns h ha hsl hslot).mono ?_ fun _ _ hf => hf.elim
        rintro _ _ ⟨rfl, hissues⟩
        exact hissues.yields
  · exact verifySlot_refused h hsl

/-- Putting an element into a list that the owner reports. -/
theorem enlist_returns (h : s.Settled a.heap todo held owed)
    (ha : .root a ∈ s.world.ledger todo held)
    (hsl : sl ∈ (s.world.valueAt a.obj).connectSlots) {items : List ObjId}
    (hslot : s.world.slotAt sl = .many items) {index : Option Nat} {o : ObjId}
    (hindex : index.getD items.length ≤ items.length)
    (ho : s.world.isLive o = true) (hown : s.world.owns a.heap o = true) :
    Ends (a.enlist sl index o) s
      (fun _ s' => s'.Sound a.heap
          (s.world.writeSlot sl (.many (items.insertIdx (index.getD items.length) o)))
          (s.world.writeSlot sl (.many (items.insertIdx (index.getD items.length) o))).support
          todo held owed ∧ s'.unrooted = s.unrooted)
      fun _ _ => False := by
  have htargets : ((Slot.many (items.insertIdx (index.getD items.length) o)).targets :
      Multiset ObjId) + 0 = ((s.world.slotAt sl).targets : Multiset ObjId) + {o} := by
    rw [hslot, add_zero, add_comm, Multiset.singleton_add, Multiset.cons_coe, Multiset.coe_eq_coe]
    exact List.perm_insertIdx o items hindex
  have hmoved := moveIn_returns h ha hsl htargets ho hown
  rw [owing_zero, Multiset.map_zero, Multiset.zero_add] at hmoved
  refine edit_visited hsl ?_
  rw [World.itemsAt_eq hslot]
  dsimp only
  rw [if_neg (Nat.not_lt.mpr hindex)]
  simpa only [Ends.bind_iff, ends_update] using hmoved

theorem enlist_ends (h : s.Settled a.heap todo held owed)
    (ha : .root a ∈ s.world.ledger todo held) {items : List ObjId}
    (hslot : s.world.slotAt sl = .many items) {index : Option Nat} {o : ObjId}
    (ho : s.world.isLive o = true) (hown : s.world.owns a.heap o = true) :
    Ends (a.enlist sl index o) s (fun _ s' => s'.Settled a.heap todo held owed) (s.Refused False) := by
  by_cases hsl : sl ∈ (s.world.valueAt a.obj).connectSlots
  · by_cases hindex : index.getD items.length ≤ items.length
    · exact (enlist_returns h ha hsl hslot hindex ho hown).mono (fun _ _ hs => hs.1.settled)
        fun _ _ hf => hf.elim
    · refine edit_visited hsl ?_
      rw [World.itemsAt_eq hslot]
      dsimp only
      rw [if_pos (Nat.lt_of_not_le hindex)]
      exact .of_upFront rfl (.refl s)
  · exact verifySlot_refused h hsl

/-- Replacing an element of a list that the owner reports. -/
theorem replace_returns (h : s.Settled a.heap todo held owed)
    (ha : .root a ∈ s.world.ledger todo held)
    (hsl : sl ∈ (s.world.valueAt a.obj).connectSlots) {items : List ObjId}
    (hslot : s.world.slotAt sl = .many items) {index : Nat} {old o : ObjId}
    (hitem : items[index]? = some old)
    (ho : s.world.isLive o = true) (hown : s.world.owns a.heap o = true) :
    Ends (a.replace sl index o) s
      (fun _ s' => s'.Sheds a.heap (s.world.writeSlot sl (.many (items.set index o))) old
        s.unrooted todo held owed) fun _ _ => False := by
  obtain ⟨hindex, rfl⟩ := List.getElem?_eq_some_iff.mp hitem
  obtain ⟨hlive, hown'⟩ := h.of_mem_slot ha hsl (o := items[index])
    (by rw [hslot]; exact List.getElem_mem hindex)
  have htargets : ((Slot.many (items.set index o)).targets : Multiset ObjId) + {items[index]} =
      ((s.world.slotAt sl).targets : Multiset ObjId) + {o} := by
    have hset := List.set_perm_cons_eraseIdx hindex o
    have hget := List.getElem_cons_eraseIdx_perm hindex
    rw [hslot, add_comm, Multiset.singleton_add, add_comm, Multiset.singleton_add,
      Multiset.cons_coe, Multiset.cons_coe, Multiset.coe_eq_coe]
    exact (hset.cons _).trans ((List.Perm.swap _ _ _).trans (hget.cons _))
  refine edit_visited hsl ?_
  rw [World.itemsAt_eq hslot, hitem]
  simp only [Ends.bind_iff, ends_update]
  refine (moveIn_returns h ha hsl htargets ho hown).mono ?_ fun _ _ hf => hf
  rintro _ s' ⟨hwritten, hidle⟩
  refine (lose_ends hwritten hlive hown' (owing_singleton _ _ _)).mono ?_ fun _ _ hf => hf
  exact fun _ _ hs => ⟨hs.1, hidle ▸ hs.2⟩

/-- Nothing is replaced beyond the end of a list. -/
theorem replace_refused (h : s.Settled a.heap todo held owed) {items : List ObjId}
    (hslot : s.world.slotAt sl = .many items) {index : Nat} (hitem : items[index]? = none)
    {o : ObjId} {Q : Unit → Session → Prop} :
    Ends (a.replace sl index o) s Q (s.Refused False) := by
  refine edit_refused h ?_
  rw [World.itemsAt_eq hslot, hitem]
  exact .of_upFront rfl (.refl s)

theorem replace_ends (h : s.Settled a.heap todo held owed)
    (ha : .root a ∈ s.world.ledger todo held) {items : List ObjId}
    (hslot : s.world.slotAt sl = .many items) {index : Nat} {o : ObjId}
    (ho : s.world.isLive o = true) (hown : s.world.owns a.heap o = true) :
    Ends (a.replace sl index o) s (fun _ s' => s'.Settled a.heap todo held owed) (s.Refused False) := by
  by_cases hsl : sl ∈ (s.world.valueAt a.obj).connectSlots
  · cases hitem : items[index]? with
    | none => exact replace_refused h hslot hitem
    | some old =>
        exact (replace_returns h ha hsl hslot hitem ho hown).mono (fun _ _ hs => hs.sound.settled)
          fun _ _ hf => hf.elim
  · exact verifySlot_refused h hsl

/-- Taking an element out of a list. -/
theorem extract_returns (h : s.Settled a.heap todo held owed)
    (ha : .root a ∈ s.world.ledger todo held)
    (hsl : sl ∈ (s.world.valueAt a.obj).connectSlots) {items : List ObjId}
    (hslot : s.world.slotAt sl = .many items) {index : Nat} {o : ObjId}
    (hitem : items[index]? = some o) :
    Ends (a.extract sl (s.world.tallies[a.obj]?.getD .empty).roots items index o) s
      (fun b s' => b = (s.world.writeSlot sl (.many (items.eraseIdx index))).issue a.heap o ∧
        s'.Issues a.heap (s.world.writeSlot sl (.many (items.eraseIdx index))) o s.unrooted todo
          held owed) fun _ _ => False := by
  obtain ⟨hindex, rfl⟩ := List.getElem?_eq_some_iff.mp hitem
  unfold extract
  refine moveOut_returns (f := fun r => (⟨items[index], r, a.heap⟩ : Handle)) h ha hsl ?_
  rw [hslot, Slot.targets, Slot.targets, Multiset.cons_coe, Multiset.coe_eq_coe]
  exact List.getElem_cons_eraseIdx_perm hindex

theorem removeAt_returns (h : s.Settled a.heap todo held owed)
    (ha : .root a ∈ s.world.ledger todo held)
    (hsl : sl ∈ (s.world.valueAt a.obj).connectSlots) {items : List ObjId}
    (hslot : s.world.slotAt sl = .many items) {index : Nat} {o : ObjId}
    (hitem : items[index]? = some o) :
    Ends (a.removeAt sl index) s
      (fun b s' => b = (s.world.writeSlot sl (.many (items.eraseIdx index))).issue a.heap o ∧
        s'.Issues a.heap (s.world.writeSlot sl (.many (items.eraseIdx index))) o s.unrooted todo
          held owed) fun _ _ => False := by
  refine edit_visited hsl ?_
  rw [World.itemsAt_eq hslot, hitem]
  exact extract_returns h ha hsl hslot hitem

/-- Nothing is removed beyond the end of a list. -/
theorem removeAt_refused (h : s.Settled a.heap todo held owed) {items : List ObjId}
    (hslot : s.world.slotAt sl = .many items) {index : Nat} (hitem : items[index]? = none)
    {Q : Handle → Session → Prop} : Ends (a.removeAt sl index) s Q (s.Refused False) := by
  refine edit_refused h ?_
  rw [World.itemsAt_eq hslot, hitem]
  exact .of_upFront rfl (.refl s)

theorem removeAt_ends (h : s.Settled a.heap todo held owed)
    (ha : .root a ∈ s.world.ledger todo held) {items : List ObjId}
    (hslot : s.world.slotAt sl = .many items) {index : Nat} :
    Ends (a.removeAt sl index) s (fun b s' => s'.Yields a.heap todo held owed [b]) (s.Refused False) := by
  by_cases hsl : sl ∈ (s.world.valueAt a.obj).connectSlots
  · cases hitem : items[index]? with
    | none => exact removeAt_refused h hslot hitem
    | some o =>
        refine (removeAt_returns h ha hsl hslot hitem).mono ?_ fun _ _ hf => hf.elim
        rintro _ _ ⟨rfl, hissues⟩
        exact hissues.yields
  · exact verifySlot_refused h hsl

/-- Taking the last element out of a list that the owner reports. -/
theorem removeLast_returns (h : s.Settled a.heap todo held owed)
    (ha : .root a ∈ s.world.ledger todo held)
    (hsl : sl ∈ (s.world.valueAt a.obj).connectSlots) {items : List ObjId} {o : ObjId}
    (hslot : s.world.slotAt sl = .many (items ++ [o])) :
    Ends (a.removeLast sl) s
      (fun found s' => found = some ((s.world.writeSlot sl (.many items)).issue a.heap o) ∧
        s'.Issues a.heap (s.world.writeSlot sl (.many items)) o s.unrooted todo held owed)
      fun _ _ => False := by
  have hlast : (items ++ [o])[(items ++ [o]).length - 1]? = some o := by simp
  have hrest : (items ++ [o]).eraseIdx ((items ++ [o]).length - 1) = items := by
    simp [List.eraseIdx_append_of_length_le]
  have hextracts := extract_returns h ha hsl hslot hlast
  rw [hrest] at hextracts
  refine edit_visited hsl ?_
  rw [World.itemsAt_eq hslot, List.getLast?_concat]
  exact Ends.map_iff.mpr (hextracts.mono (fun _ _ hs => ⟨congrArg some hs.1, hs.2⟩) fun _ _ hf => hf)

theorem removeLast_empty (hsl : sl ∈ (s.world.valueAt a.obj).connectSlots)
    (hslot : s.world.slotAt sl = .many []) :
    Ends (a.removeLast sl) s (fun found s' => found = none ∧ s = s') fun _ _ => False := by
  refine edit_visited hsl ?_
  rw [World.itemsAt_eq hslot]
  exact ⟨rfl, rfl⟩

theorem removeLast_ends (h : s.Settled a.heap todo held owed)
    (ha : .root a ∈ s.world.ledger todo held) {items : List ObjId}
    (hslot : s.world.slotAt sl = .many items) :
    Ends (a.removeLast sl) s
      (fun found s' => s'.Yields a.heap todo held owed found.toList) (s.Refused False) := by
  by_cases hsl : sl ∈ (s.world.valueAt a.obj).connectSlots
  · rcases List.eq_nil_or_concat items with rfl | ⟨rest, o, rfl⟩
    · refine (removeLast_empty hsl hslot).mono ?_ fun _ _ hf => hf.elim
      rintro _ _ ⟨rfl, rfl⟩
      exact Session.yields_nil_iff.mpr h
    · rw [List.concat_eq_append] at hslot
      refine (removeLast_returns h ha hsl hslot).mono ?_ fun _ _ hf => hf.elim
      rintro _ _ ⟨rfl, hissues⟩
      exact hissues.yields
  · exact verifySlot_refused h hsl

/-- Emptying a list that the owner reports. -/
theorem removeAll_returns (h : s.Settled a.heap todo held owed)
    (ha : .root a ∈ s.world.ledger todo held)
    (hsl : sl ∈ (s.world.valueAt a.obj).connectSlots) {items : List ObjId}
    (hslot : s.world.slotAt sl = .many items) :
    Ends (a.removeAll sl) s
      (fun _ s' => s'.Sound a.heap (s.world.writeSlot sl (.many []))
        (s.world.writeSlot sl (.many [])).support todo held owed) fun _ _ => False := by
  obtain ⟨hroots, hne⟩ := h.roots ha
  refine edit_visited hsl ?_
  rw [World.itemsAt_eq hslot, Ends.bind_iff, ends_update]
  generalize hrs : (s.world.tallies[a.obj]?.getD .empty).roots = roots at *
  have hnodup : roots.Nodup := hrs ▸ Tally.nodup_roots _
  have hx : s.world.Exchange a.obj sl (.many []) 0 items :=
    h.exchange ha hsl (by rw [hslot, add_zero]; exact zero_add _) (by simp)
  have hwritten : Session.Sound a.heap (s.world.writeSlot sl (.many []))
      (owing (s.world.writeSlot sl (.many [])).support roots items)
      ((items : Multiset ObjId).map .release + todo) held owed
      { s with world := s.world.writeSlot sl (.many []) } := by
    refine Session.Ahead.written 0 ?_ hx hroots hnodup hne
    rw [owing_zero, Multiset.map_zero, Multiset.zero_add]
    exact (h.ahead sl).rewrite (.many [])
  refine (loseAll_ends hwritten fun o ho => ?_).mono (fun _ _ hs => hs.1) fun _ _ hf => hf
  exact h.of_mem_slot ha hsl (by rw [hslot]; exact ho)

theorem removeAll_ends (h : s.Settled a.heap todo held owed)
    (ha : .root a ∈ s.world.ledger todo held) {items : List ObjId}
    (hslot : s.world.slotAt sl = .many items) :
    Ends (a.removeAll sl) s (fun _ s' => s'.Settled a.heap todo held owed) (s.Refused False) := by
  by_cases hsl : sl ∈ (s.world.valueAt a.obj).connectSlots
  · exact (removeAll_returns h ha hsl hslot).mono (fun _ _ hs => hs.settled)
      fun _ _ hf => hf.elim
  · exact verifySlot_refused h hsl

/-! ### Reading -/

/-- A new handle to what a field points at. -/
theorem readField_issues {heap : Heap} (h : s.Settled a.heap todo held owed)
    (hheap : s.world.heaps[a.heap]? = some heap) {o : ObjId}
    (hslot : s.world.slotAt sl = .one (some o)) (ho : s.world.isLive o = true)
    (hown : s.world.owns a.heap o = true) :
    Ends (a.readField sl) s
      (fun found s' => found = some (s.world.issue a.heap o) ∧
        s'.Issues a.heap s.world o s.unrooted todo held owed) fun _ _ => False := by
  unfold readField
  rw [Ends.bind_iff, ends_look, World.fieldAt_eq hslot]
  refine Ends.map_iff.mpr ((newHandle_issues h hheap ho).mono ?_ fun _ _ hf => ?_)
  · exact fun _ _ hs => ⟨congrArg some hs.1, hs.2⟩
  · rw [hown] at hf
    cases hf.1

theorem readField_yields {heap : Heap} (h : s.Settled a.heap todo held owed)
    (hheap : s.world.heaps[a.heap]? = some heap)
    (hlive : ∀ o ∈ (s.world.slotAt sl).targets, s.world.isLive o = true) :
    Ends (a.readField sl) s (fun found s' => s'.Yields a.heap todo held owed found.toList)
      (s.Refused (∃ o ∈ (s.world.slotAt sl).targets, s.world.owns a.heap o = false)) := by
  unfold readField
  rw [Ends.bind_iff, ends_look]
  cases hfound : s.world.fieldAt sl with
  | none => exact Session.yields_nil_iff.mpr h
  | some o =>
      have ho := World.mem_targets_of_fieldAt hfound
      exact Ends.map_iff.mpr ((newHandle_yields h hheap (hlive o ho)).mono (fun _ _ hs => hs.1)
        fun _ _ hf => .of_stray hf.2 ⟨o, ho, hf.1⟩)

theorem readItem_yields {heap : Heap} (h : s.Settled a.heap todo held owed)
    (hheap : s.world.heaps[a.heap]? = some heap)
    (hlive : ∀ o ∈ (s.world.slotAt sl).targets, s.world.isLive o = true) (index : Nat) :
    Ends (a.readItem sl index) s (fun found s' => s'.Yields a.heap todo held owed found.toList)
      (s.Refused (∃ o ∈ (s.world.slotAt sl).targets, s.world.owns a.heap o = false)) := by
  unfold readItem
  rw [Ends.bind_iff, ends_look]
  cases hfound : (s.world.itemsAt sl)[index]? with
  | none => exact Session.yields_nil_iff.mpr h
  | some o =>
      have ho := World.mem_targets_of_itemsAt (List.mem_of_getElem? hfound)
      exact Ends.map_iff.mpr ((newHandle_yields h hheap (hlive o ho)).mono (fun _ _ hs => hs.1)
        fun _ _ hf => .of_stray hf.2 ⟨o, ho, hf.1⟩)

theorem readItems_yield {heap : Heap} (h : s.Settled a.heap todo held owed)
    (hheap : s.world.heaps[a.heap]? = some heap)
    (hlive : ∀ o ∈ (s.world.slotAt sl).targets, s.world.isLive o = true) :
    Ends (a.readItems sl) s (fun handles s' => s'.Yields a.heap todo held owed handles)
      (s.Refused (∃ o ∈ (s.world.slotAt sl).targets, s.world.owns a.heap o = false)) := by
  unfold readItems
  rw [Ends.bind_iff, ends_look]
  refine (newHandles_yield h hheap fun o ho => ?_).mono (fun _ _ hs => hs) ?_
  · exact hlive o (World.mem_targets_of_itemsAt ho)
  · rintro f _ ⟨⟨o, ho, hstray⟩, hf⟩
    exact .of_stray hf ⟨o, World.mem_targets_of_itemsAt ho, hstray⟩

end Handle

end Write

end RootedHeap
