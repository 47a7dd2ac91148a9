import RootedHeap.Proofs.Acts

/-! # A ring of nodes

The longest of the demonstrations strings nodes together, link by link, and closes the chain to a ring
before it gives up its handles. While it does, the head and the tail of the chain are rooted, and both
roots tag the tail; so every link is counted twice. Giving up the tail collects nothing, and giving up
the head collects all nodes at once (`Demo.longCycle_run`).
-/

namespace RootedHeap

open World

namespace Demo

variable {w w' : World} {held : Multiset Holding} {n o : Nat} {next next' : ObjId → Option ObjId}

/-! ## Strings of nodes -/

/-- A new node, and nothing else. -/
structure AddsNode (w w' : World) : Prop extends Adds w w' where
  size_eq : w'.objects.size = w.objects.size + 1
  slots_eq : w'.slots.size = w.slots.size + 2
  isLive_new : w'.isLive w.objects.size = true
  valueAt_new : w'.valueAt w.objects.size = valueNode w.slots.size (w.slots.size + 1)
  next_new : w'.slotAt w.slots.size = .one none
  children_new : w'.slotAt (w.slots.size + 1) = .many []

/-- There are `n` nodes, all of them live, and the field of each one points where `next` says. -/
structure Strung (w : World) (n : Nat) (next : ObjId → Option ObjId) : Prop where
  objects : w.objects.size = n
  slots : w.slots.size = 2 * n
  live : ∀ o < n, w.isLive o = true
  value : ∀ o < n, w.valueAt o = valueNode (2 * o) (2 * o + 1)
  next : ∀ o < n, w.slotAt (2 * o) = .one (next o)
  children : ∀ o < n, w.slotAt (2 * o + 1) = .many []

/-- Each node but the last of `n` points at the next one. -/
def chain (n o : Nat) : Option ObjId := if o + 1 < n then some (o + 1) else none

/-- The last one points at the first one as well. -/
def ring (n o : Nat) : Option ObjId := if o + 1 < n then some (o + 1) else some 0

theorem allocNode_ends (h : Client.Sole held w) :
    Ends (allocNode 0) w (fun a w' => a.obj = w.objects.size ∧ Client.Sole (.root a ::ₘ held) w' ∧
      AddsNode w w' ∧ w'.countersAt 0 = (w.countersAt 0).allocated) fun _ _ => False := by
  unfold allocNode
  refine (h.newField none (by simp)).bind ?_
  rintro _ w₁ ⟨rfl, h₁, hfield⟩
  refine h₁.newList.bind ?_
  rintro _ w₂ ⟨rfl, h₂, hlist⟩
  have hfields := fields_valueNode w.slots.size w₁.slots.size
  have hheld : (.slot w₁.slots.size ::ₘ .slot w.slots.size ::ₘ held : Multiset Holding) =
      ((valueNode w.slots.size w₁.slots.size).holdings : Multiset Holding) + held := by
    rw [hfields.holdings, Multiset.cons_swap]
    simp only [List.map_cons, List.map_nil, ← Multiset.cons_coe, Multiset.coe_nil, Multiset.cons_add,
      zero_add]
  rw [hheld] at h₂
  have hne : w.slots.size ≠ w₁.slots.size := by
    rw [hfield.slots_eq]
    exact (Nat.succ_ne_self _).symm
  -- the value takes both slots over
  refine (h₂.alloc (n := "Node") (hfields.matched (by simpa using hne))).mono ?_ fun _ _ => id
  rintro a w₃ ⟨hobj, h₃, hbears, hcounters⟩
  have hsize : w₂.objects.size = w.objects.size := hlist.size_eq.trans hfield.size_eq
  have hadds := (hfield.toAdds.trans hlist.toAdds).trans hbears.toAdds
  have hlt : w.slots.size < w₁.slots.size := hfield.slots_eq ▸ Nat.lt_succ_self _
  have hlt' : w₁.slots.size < w₂.slots.size := hlist.slots_eq ▸ Nat.lt_succ_self _
  refine ⟨hobj.trans hsize, h₃, ⟨hadds, ?_, ?_, ?_, ?_, ?_, ?_⟩, ?_⟩
  · rw [hbears.size_eq, hsize]
  · rw [hbears.slots_eq, hlist.slots_eq, hfield.slots_eq]
  · exact hsize ▸ hbears.isLive_new
  · rw [← hsize, hbears.valueAt_new, hfield.slots_eq]
  · rw [hbears.slotAt _ (hlt.trans hlt'), hlist.slotAt _ hlt, hfield.slotAt_new]
    rfl
  · rw [← hfield.slots_eq, hbears.slotAt _ hlt', hlist.slotAt_new]
  · rw [hcounters, countersAt_congr hlist.heaps, countersAt_congr hfield.heaps]

namespace Strung

theorem congr (h : Strung w n next) (heq : ∀ o < n, next o = next' o) : Strung w n next' :=
  { h with next := fun o ho => heq o ho ▸ h.next o ho }

/-- What has no nodes is a string of none. -/
theorem empty (hobjects : w.objects.size = 0) (hslots : w.slots.size = 0) : Strung w 0 next :=
  ⟨hobjects, hslots, by simp, by simp, by simp, by simp⟩

theorem grow (h : Strung w n next) (hadds : AddsNode w w') (hnext : next n = none) :
    Strung w' (n + 1) next := by
  have hlt {o : Nat} (ho : o < n) : 2 * o + 1 < w.slots.size := by
    rw [h.slots]
    omega
  have hnew := hadds.valueAt_new
  have hfield := hadds.next_new
  have hlist := hadds.children_new
  rw [h.slots] at hnew hfield hlist
  rw [h.objects] at hnew
  refine ⟨?_, ?_, fun o ho => ?_, fun o ho => ?_, fun o ho => ?_, fun o ho => ?_⟩
  · rw [hadds.size_eq, h.objects]
  · rw [hadds.slots_eq, h.slots]
    omega
  all_goals rcases Nat.lt_succ_iff_lt_or_eq.mp ho with ho | rfl
  · rw [hadds.isLive o (h.objects ▸ ho), h.live o ho]
  · exact h.objects ▸ hadds.isLive_new
  · rw [hadds.valueAt o (h.objects ▸ ho), h.value o ho]
  · exact hnew
  · rw [hadds.slotAt _ (Nat.lt_of_succ_lt (hlt ho)), h.next o ho]
  · rw [hfield, hnext]
  · rw [hadds.slotAt _ (hlt ho), h.children o ho]
  · exact hlist

/-- The field of a node is written. -/
theorem link (h : Strung w n next) (ho : o < n) {t : Option ObjId}
    (hmirrors : (w.writeSlot (2 * o) (.one t)).Mirrors w') :
    Strung w' n (Function.update next o t) := by
  have hlt : 2 * o < w.slots.size := by
    rw [h.slots]
    omega
  have hlive : w'.isLive = w.isLive := hmirrors.isLive
  have hvalue : w'.valueAt = w.valueAt := hmirrors.valueAt
  refine ⟨hmirrors.size.trans h.objects, ?_, fun p hp => hlive ▸ h.live p hp,
    fun p hp => hvalue ▸ h.value p hp, fun p hp => ?_, fun p hp => ?_⟩
  · rw [hmirrors.slots, size_slots_writeSlot, h.slots]
  · rw [hmirrors.slotAt]
    by_cases heq : p = o
    · rw [heq, slotAt_writeSlot_self hlt, Function.update_self]
    · have hne : 2 * p ≠ 2 * o := by omega
      rw [slotAt_writeSlot_of_ne hne, Function.update_of_ne heq, h.next p hp]
  · have hne : 2 * p + 1 ≠ 2 * o := by omega
    rw [hmirrors.slotAt, slotAt_writeSlot_of_ne hne, h.children p hp]

theorem mirrors (h : Strung w n next) (hmirrors : w.Mirrors w') : Strung w' n next := by
  refine ⟨hmirrors.size.trans h.objects, ?_, fun o ho => ?_, fun o ho => ?_, fun o ho => ?_,
    fun o ho => ?_⟩
  · rw [hmirrors.slots, h.slots]
  · rw [hmirrors.isLive, h.live o ho]
  · rw [hmirrors.valueAt, h.value o ho]
  · rw [hmirrors.slotAt, h.next o ho]
  · rw [hmirrors.slotAt, h.children o ho]

/-- Handles are given up, and all nodes are left. -/
theorem wanes (h : Strung w n next) (hwanes : w.Wanes held w') (hreduces : w.Reduces w')
    (hlive : ∀ o < n, w'.isLive o = true) : Strung w' n next := by
  have hmem {o : Nat} (ho : o < n) (s : SlotId) (hs : s ∈ [2 * o, 2 * o + 1]) :
      w'.slotAt s = w.slotAt s := by
    refine hwanes.slots s (mem_ledger_of_live (hlive o ho) ?_)
    rw [hwanes.value, h.value o ho, (fields_valueNode _ _).holdings]
    exact List.mem_map_of_mem hs
  have hslots : w'.slots.size = w.slots.size := by
    simpa [kinds] using congrArg Array.size hreduces.kinds
  exact ⟨hwanes.size.trans h.objects, hslots.trans h.slots, hlive,
    fun o ho => hwanes.value ▸ h.value o ho, fun o ho => hmem ho (2 * o) (by simp) ▸ h.next o ho,
    fun o ho => hmem ho (2 * o + 1) (by simp) ▸ h.children o ho⟩

theorem plain (h : Strung w n next) : w.Plain :=
  plain_of_fields fun o ho => ⟨_, h.value o (h.objects ▸ ho) ▸ fields_valueNode _ _⟩

theorem card_lives (h : Strung w n next) : w.lives.card = n := by
  rw [lives, h.objects, Multiset.filter_eq_self.mpr fun o ho => h.live o (Multiset.mem_range.mp ho),
    Multiset.card_range]

theorem out_eq (h : Strung w n next) (ho : o < n) : w.out o = (next o).toList := by
  rw [World.out_eq, h.value o ho, (fields_valueNode _ _).connects]
  simp only [List.flatMap_cons, List.flatMap_nil, h.next o ho, h.children o ho, List.append_nil]
  simp [Slot.targets]

/-- From the first node, those can be reached that come after it one by one. -/
theorem reach (h : Strung w n next) (ho : o < n) (hnext : ∀ p : Nat, p < o → next p = some (p + 1)) :
    Reach w.out 0 o := by
  induction o with
  | zero => exact .refl
  | succ o ih =>
      have hlt : o < n := Nat.lt_of_succ_lt ho
      refine (ih hlt fun p hp => hnext p (Nat.lt_succ_of_lt hp)).tail ?_
      rw [h.out_eq hlt, hnext o (Nat.lt_succ_self o)]
      exact List.mem_singleton_self _

end Strung

/-! ## The ring is made -/

/-- The nodes come to be strung together to a chain, of which the head and the tail are rooted; `n` links
were made so far. -/
structure Spun (head tail : Handle) (n : Nat) (w : World) : Prop where
  sole : Client.Sole {.root tail, .root head} w
  strung : Strung w (n + 1) (chain (n + 1))
  head : head.obj = 0
  tail : tail.obj = n
  counters : w.countersAt 0 =
    { allocations := n + 1, rootsAcquired := n + 2, rootsReleased := n, connectPasses := 3 * n + 2 }

theorem chain_of_lt (h : o + 1 < n) : chain n o = some (o + 1) := if_pos h

theorem chain_of_le (h : n ≤ o + 1) : chain n o = none := if_neg (Nat.not_lt.mpr h)

section Links

variable {head tail b : Handle} {last : Nat}

/-- Head and tail lead to the tail, and nothing else does. -/
theorem length_tail_roots (rest : Multiset Holding)
    (h : Client.Sole (.root tail ::ₘ .root head ::ₘ rest) w) (hplain : w.Plain)
    (hreach : Reach w.out head.obj tail.obj)
    (hrest : ∀ e ∈ rest.bind (Holding.entries 0), ¬ Reach w.out e.2 tail.obj) :
    (w.tallies[tail.obj]?.getD .empty).roots.length = 2 := by
  have htail : .root tail ∈ (.root tail ::ₘ .root head ::ₘ rest : Multiset Holding) := by simp
  have hhead : .root head ∈ (.root tail ::ₘ .root head ::ₘ rest : Multiset Holding) := by simp
  classical
  rw [h.length_roots hplain (h.handle htail).1, Multiset.cons_bind, Multiset.cons_bind,
    h.entries_eq htail, h.entries_eq hhead, Multiset.singleton_add, Multiset.singleton_add,
    Multiset.filter_cons_of_pos _ .refl,
    Multiset.filter_cons_of_pos (p := fun e => Reach w.out e.2 tail.obj) (a := (head.root, head.obj))
      _ hreach, Multiset.filter_eq_nil.mpr hrest]
  rfl

/-- All nodes that the head leads to are sustained by it. -/
theorem Strung.sustained (h : Strung w n next) (hhead : .root head ∈ held) (hobj : head.obj = 0)
    (hnext : ∀ p : Nat, p + 1 < n → next p = some (p + 1)) : w.Sustained held {o | o < n} := by
  intro o ho
  refine ⟨h.live o ho, .root head, .inl hhead, 0, ?_, h.reach ho fun p hp => hnext p ?_⟩
  · rw [Holding.targets, hobj]
    exact Multiset.mem_singleton_self 0
  · exact Nat.lt_of_le_of_lt hp ho

/-- The tail is linked to a node and given up. Both roots of the tail count the new link, and nothing is
collected. -/
theorem gives_link (h : Client.Sole (.root tail ::ₘ held) w) (hstrung : Strung w n next)
    (htail : tail.obj = last) (hlast : last < n) (hnone : next last = none) (hb : .root b ∈ held)
    (hroots : (w.tallies[tail.obj]?.getD .empty).roots.length = 2) (hhead : .root head ∈ held)
    (hobj : head.obj = 0)
    (hchain : ∀ p : Nat, p + 1 < n → Function.update next last (some b.obj) p = some (p + 1)) :
    (do setAt tail 0 b; drop tail : Act Unit).Gives w fun _ w' => Client.Sole held w' ∧
      Strung w' n (Function.update next last (some b.obj)) ∧
      w'.countersAt 0 = { (w.countersAt 0).linked 2 with
        rootsReleased := (w'.countersAt 0).rootsReleased } := by
  have hvalue := hstrung.value last hlast
  have hslot := hstrung.next last hlast
  rw [hnone] at hslot
  have hfields : (w.valueAt tail.obj).Fields [2 * last, 2 * last + 1] := by
    rw [htail, hvalue]
    exact fields_valueNode _ _
  have hmem : 2 * last ∈ (w.valueAt tail.obj).connectSlots := hfields.connects ▸ List.mem_cons_self
  refine (gives_setAt h (Multiset.mem_cons_self _ _) hfields rfl
    (h.fill (Multiset.mem_cons_self _ _) hmem hslot (Multiset.mem_cons_of_mem hb))).bind ?_
  rintro _ w₁ ⟨h₁, hmirrors, hcounters⟩
  have hstrung₁ := hstrung.link hlast hmirrors
  refine (Act.gives_once h₁.drop).mono ?_
  rintro _ w₂ ⟨h₂, hwanes, hreduces, hspent⟩
  have hlive := hwanes.outlast _ (hstrung₁.sustained hhead hobj hchain)
  have hstrung₂ := hstrung₁.wanes hwanes hreduces hlive
  -- as many objects are live as before, so nothing was collected
  have hcollected : (w₂.countersAt 0).collected = (w₁.countersAt 0).collected := by
    have hbefore := h₁.balance.1
    have hafter := h₂.balance.1
    rw [hspent.same] at hafter
    rw [hstrung₁.card_lives] at hbefore
    rw [hstrung₂.card_lives] at hafter
    dsimp only at hafter
    omega
  rw [hroots] at hcounters
  refine ⟨h₂, hstrung₂, ?_⟩
  rw [← hcounters]
  exact hspent.of_collected hcollected

end Links

section Spun

variable {head tail : Handle}

/-- A node is strung to the tail, and is the tail from then on. -/
theorem Spun.extend (h : Spun head tail n w) :
    (do
      let node ← Act.once (allocNode 0)
      setAt tail 0 node
      drop tail
      pure node : Act Handle).Gives w fun node w' => Spun head node (n + 1) w' := by
  refine (Act.gives_once (allocNode_ends h.sole)).bind ?_
  rintro node w₁ ⟨hnode, h₁, hadds, hcounters₁⟩
  rw [h.strung.objects] at hnode
  have hstrung₁ := h.strung.grow hadds (chain_of_le (Nat.le_succ _))
  have hheld : (.root node ::ₘ .root tail ::ₘ {.root head} : Multiset Holding) =
      .root tail ::ₘ .root head ::ₘ {.root node} := by
    rw [Multiset.cons_swap]
    exact congrArg _ (Multiset.pair_comm _ _)
  have h₁ : Client.Sole (.root tail ::ₘ .root head ::ₘ {.root node}) w₁ := hheld ▸ h₁
  -- the new node leads nowhere yet
  have hreach : Reach w₁.out head.obj tail.obj := by
    rw [h.head, h.tail]
    exact hstrung₁.reach (by omega) fun p hp => chain_of_lt (by omega)
  have hleaf : ¬ Reach w₁.out node.obj tail.obj := by
    rw [hnode, h.tail]
    intro hreach
    rcases hreach.cases_head with heq | ⟨p, hp, -⟩
    · exact Nat.succ_ne_self n heq
    · have hout : w₁.out (n + 1) = [] := by
        rw [hstrung₁.out_eq (Nat.lt_succ_self _), chain_of_le (Nat.le_succ _)]
        rfl
      exact absurd (hout ▸ hp) List.not_mem_nil
  have hroots := length_tail_roots _ h₁ hstrung₁.plain hreach fun e he => by
    rw [Multiset.singleton_bind, h₁.entries_eq (by simp), Multiset.mem_singleton] at he
    exact he ▸ hleaf
  have hchain (p : Nat) (hp : p < n + 2) :
      Function.update (chain (n + 1)) n (some node.obj) p = chain (n + 2) p := by
    by_cases heq : p = n
    · rw [heq, Function.update_self, hnode, chain_of_lt (by omega)]
    · rw [Function.update_of_ne heq]
      unfold chain
      split_ifs <;> first | rfl | omega
  have hlink := gives_link (b := node) h₁ hstrung₁ h.tail (by omega) (chain_of_le (Nat.le_refl _))
    (by simp) hroots (by simp) h.head fun p hp => (hchain p (by omega)).trans (chain_of_lt hp)
  refine Act.Gives.bind (x := do setAt tail 0 node; drop tail) hlink fun _ w₂ hw₂ => Act.gives_pure ?_
  obtain ⟨h₂, hstrung₂, hcounters₂⟩ := hw₂
  -- the roots that are active are those of the two handles, which says how many were released
  have hcard := h₂.card_held hstrung₂.plain (by simp)
  have hacquired : (w₂.countersAt 0).rootsAcquired = n + 3 := by
    rw [hcounters₂, hcounters₁, h.counters]
    rfl
  have hreleased : (w₂.countersAt 0).rootsReleased = n + 1 := by
    rw [hacquired, Multiset.card_cons, Multiset.card_singleton] at hcard
    omega
  refine ⟨Multiset.pair_comm _ _ ▸ h₂, hstrung₂.congr hchain, h.head, hnode, ?_⟩
  rw [hcounters₂, hreleased, hcounters₁, h.counters]
  simp only [Counters.linked, Counters.allocated, Counters.rooted, Counters.mk.injEq, true_and, and_true]
  omega

/-- The chain is extended node by node. -/
theorem Spun.extendChain (h : Spun head tail n w) (k : Nat) :
    (Demo.extendChain 0 k tail).Gives w fun tail' w' => Spun head tail' (n + k) w' := by
  induction k generalizing tail n w with
  | zero => exact Act.gives_pure h
  | succ k ih =>
      have hrest (node : Handle) (w' : World) (h' : Spun head node (n + 1) w') :
          (Demo.extendChain 0 k node).Gives w' fun tail' w'' => Spun head tail' (n + (k + 1)) w'' :=
        Nat.add_right_comm n 1 k ▸ ih h'
      exact h.extend.bind hrest

/-- The chain is closed to a ring, of which the first node is rooted. -/
structure Closed (head : Handle) (n : Nat) (w : World) : Prop where
  sole : Client.Sole {.root head} w
  strung : Strung w (n + 1) (ring (n + 1))
  counters : w.countersAt 0 =
    { allocations := n + 1, rootsAcquired := n + 2, rootsReleased := n + 1, connectPasses := 3 * n + 4 }

theorem Spun.close (h : Spun head tail n w) :
    (do setAt tail 0 head; drop tail : Act Unit).Gives w fun _ w' => Closed head n w' := by
  have hreach : Reach w.out head.obj tail.obj := by
    rw [h.head, h.tail]
    exact h.strung.reach (Nat.lt_succ_self n) fun p hp => chain_of_lt (Nat.succ_lt_succ hp)
  have hroots := length_tail_roots 0 h.sole h.strung.plain hreach (by simp)
  have hchain (p : Nat) (hp : p < n + 1) :
      Function.update (chain (n + 1)) n (some head.obj) p = ring (n + 1) p := by
    by_cases heq : p = n
    · rw [heq, Function.update_self, h.head, ring, if_neg (Nat.lt_irrefl _)]
    · rw [Function.update_of_ne heq]
      unfold chain ring
      split_ifs
      · rfl
      · omega
  refine (gives_link (b := head) h.sole h.strung h.tail (Nat.lt_succ_self n)
    (chain_of_le (Nat.le_refl _)) (by simp) hroots (by simp) h.head fun p hp => ?_).mono ?_
  · rw [hchain p (Nat.lt_of_succ_lt hp), ring, if_pos hp]
  · rintro _ w' ⟨h', hstrung, hcounters⟩
    have hcard := h'.card_held hstrung.plain (by simp)
    have hacquired : (w'.countersAt 0).rootsAcquired = n + 2 := by
      rw [hcounters, h.counters]
      rfl
    have hreleased : (w'.countersAt 0).rootsReleased = n + 1 := by
      rw [hacquired, Multiset.card_singleton] at hcard
      omega
    refine ⟨h', hstrung.congr hchain, ?_⟩
    rw [hcounters, hreleased, h.counters]
    rfl

end Spun

/-! ## The ring goes -/

/-- As long as one node of a ring is left, all are. -/
theorem Strung.live_of_live (h : Strung w (n + 1) (ring (n + 1))) (hwanes : w.Wanes held w')
    (ho : w'.isLive o = true) : ∀ p < n + 1, w'.isLive p = true := by
  have hstep {p t : Nat} (hp : w'.isLive p = true) (hlt : p < n + 1)
      (ht : ring (n + 1) p = some t) : w'.isLive t = true := by
    refine hwanes.guarded.live_of_out hp ?_
    rw [hwanes.out_eq hp, h.out_eq hlt, ht]
    exact List.mem_singleton_self t
  have hlt : o < n + 1 := by
    rw [← h.objects, ← hwanes.size]
    exact lt_size_of_isLive ho
  -- go round the ring: from `o` up to the last node, and on to the first
  have hfirst : w'.isLive 0 = true := by
    obtain ⟨k, hk⟩ := Nat.exists_eq_add_of_le (Nat.le_of_lt_succ hlt)
    clear hlt
    induction k generalizing o with
    | zero => exact hstep ho (by omega) (if_neg (by omega))
    | succ k ih => exact ih (hstep ho (by omega) (if_pos (by omega))) (by omega)
  intro p hp
  induction p with
  | zero => exact hfirst
  | succ p ih => exact hstep (ih (Nat.lt_of_succ_lt hp)) (Nat.lt_of_succ_lt hp) (if_pos hp)

/-- Giving up the last handle collects all nodes in one session. -/
theorem Closed.drop {head : Handle} (h : Closed head n w) :
    Ends head.drop w (fun _ w' => w'.stats 0 =
      { allocations := n + 1, collected := n + 1, collections := 1, rootsAcquired := n + 2,
        rootsReleased := n + 2, connectPasses := 3 * n + 4 }) fun _ _ => False := by
  have hsole : Client.Sole (.root head ::ₘ 0) w := h.sole
  obtain ⟨_, w', hdrop, h', hwanes, -, hspent⟩ := hsole.drop.exists_ok
  obtain ⟨dead, w₁, hwanes₁, htidy, hreads, hsettle⟩ := hsole.drop_opens hdrop
  have hplain : w'.Plain := plain_of_fields fun o ho => by
    rw [hwanes.size, h.strung.objects] at ho
    exact ⟨_, hwanes.value ▸ h.strung.value o ho ▸ fields_valueNode _ _⟩
  have hgone := h'.not_live hplain
  -- if a node was left by the first session, it would be left in the end
  have hnone (o : ObjId) : w₁.isLive o = false := by
    by_contra hlive
    have hall := h.strung.live_of_live hwanes₁ (Bool.eq_true_of_not_eq_false hlive)
    cases dead with
    | nil =>
        have hleave : (Task.leave 0).step w₁ = .ok [] (w₁.leave 0) := rfl
        rw [Task.finalizing, List.map_nil, List.map_nil, List.nil_append, List.nil_append,
          settle_of_step hleave, List.append_nil, settle_nil] at hsettle
        cases hsettle
        rw [(mirrors_leave w₁ 0).isLive] at hgone
        exact hlive (hgone o)
    | cons p rest =>
        obtain ⟨hlt, hdead⟩ := (htidy.drops_fresh p (by simp [Task.finalizing, Task.drops])).1
        rw [hwanes₁.size, h.strung.objects] at hlt
        exact absurd (hall p hlt) (Bool.eq_false_iff.mp hdead)
  have hlives {w : World} (h : ∀ o, w.isLive o = false) : w.lives = 0 :=
    Multiset.filter_eq_nil.mpr fun o _ => by simp [h o]
  have hfirst := (htidy.balance hreads).1
  have hlast := h'.balance.1
  have hspent₁ := ((settle_ticks Counters.waning_spent _).ends w₁).of_ok hsettle 0
  rw [hreads.countersAt] at hspent₁
  rw [hlives hnone, Multiset.card_zero, zero_add, h.counters] at hfirst
  rw [hlives hgone, Multiset.card_zero, zero_add, hspent.same, h.counters] at hlast
  have hdead : dead.length = n + 1 := by
    by_cases hempty : dead.length = 0
    · rw [Counters.emptied, if_pos hempty] at hfirst
      exact absurd hfirst (Nat.succ_ne_zero n).symm
    · rw [Counters.emptied, if_neg hempty] at hfirst
      simpa [Counters.released] using hfirst
  have hcollections : (w'.countersAt 0).collections = 1 := by
    have hgrows := hspent₁.grows
    have hbound := hspent₁.bound
    rw [h.counters, hdead] at hgrows hbound
    simp only [Counters.emptied, Counters.released, Nat.succ_ne_zero, if_false] at hgrows hbound
    dsimp only at hlast
    omega
  refine .of_eq hdrop ?_
  rw [h'.vacated hplain, hspent.same, hcollections, h.counters]
  rfl

/-- The first node is its own head and tail. -/
theorem gives_spun (h : Client.Sole 0 w) (hcounters : w.countersAt 0 = {})
    (hobjects : w.objects.size = 0) (hslots : w.slots.size = 0) :
    (do
      let head ← Act.once (allocNode 0)
      let tail ← clone head
      pure (head, tail) : Act (Handle × Handle)).Gives w fun p w' => Spun p.1 p.2 0 w' := by
  refine (Act.gives_once (allocNode_ends h)).bind ?_
  rintro head w₁ ⟨hhead, h₁, hadds, hcounters₁⟩
  have hempty : Strung w 0 (chain 1) := .empty hobjects hslots
  have hstrung := hempty.grow hadds rfl
  refine (Act.gives_once (h₁.clone (Multiset.mem_cons_self _ _))).bind ?_
  rintro tail w₂ ⟨htail, h₂, hmirrors, hcounters₂⟩
  have hobj : head.obj = 0 := hhead.trans hobjects
  refine Act.gives_pure ⟨h₂, hstrung.mirrors hmirrors, hobj, htail.trans hobj, ?_⟩
  rw [hcounters₂, hcounters₁, hcounters]
  rfl

/-- However long it is, the ring is made, found to be live and collected at once. -/
theorem longCycle_run (options : Options) :
    Scenario.runNamed options "long-cycle" = .ok ⟨"long-cycle",
      { allocations := max options.chainLen 1
        collected := max options.chainLen 1
        collections := 1
        rootsAcquired := max options.chainLen 1 + 1
        rootsReleased := max options.chainLen 1 + 1
        connectPasses := 3 * max options.chainLen 1 + 1 }⟩ := by
  -- there is one node at least, to which `n` more are strung
  obtain ⟨n, hn⟩ : ∃ n, max options.chainLen 1 = n + 1 :=
    Nat.exists_eq_add_one.mpr (Nat.lt_of_lt_of_le Nat.zero_lt_one (Nat.le_max_right _ _))
  obtain ⟨_, w₀, hcreate, rfl, h₀, hcounters, hobjects, hslots⟩ :=
    (Client.Sole.found { name := Scenario.longCycle.name } rfl rfl).exists_ok
  have hend (head : Handle) (w : World) (h : Closed head n w) :
      (do expectLive 0 (n + 1) "long-cycle"; drop head : Act Unit).Gives w fun _ w' => w'.stats 0 =
        { allocations := n + 1, collected := n + 1, collections := 1, rootsAcquired := n + 2,
          rootsReleased := n + 2, connectPasses := 3 * n + 4 } := by
    refine (gives_expectLive (h.sole.liveObjects.trans h.strung.card_lives)).bind ?_
    rintro _ _ rfl
    exact Act.gives_once h.drop
  have hact : (longCycle 0 options).Gives w₀ fun _ w' => w'.stats 0 =
      { allocations := n + 1, collected := n + 1, collections := 1, rootsAcquired := n + 2,
        rootsReleased := n + 2, connectPasses := 3 * n + 4 } := by
    unfold longCycle
    rw [hn]
    refine (gives_spun h₀ hcounters hobjects hslots).bind
      (f := fun p => do
        let tail ← extendChain 0 n p.2
        setAt tail 0 p.1
        drop tail
        expectLive 0 (n + 1) "long-cycle"
        drop p.1) fun p w₁ h₁ => ?_
    refine (h₁.extendChain n).bind fun tail w₂ h₂ => ?_
    exact h₂.close.bind (f := fun _ => do
        expectLive 0 (n + 1) "long-cycle"
        drop p.1) fun _ w₃ h₃ => hend p.1 w₃ ((Nat.zero_add n) ▸ h₃)
  rw [hn]
  exact Scenario.run_of_gives .longCycle hcreate hact rfl

end Demo

end RootedHeap
