import RootedHeap.Proofs.Acts
import RootedHeap.Proofs.Schedules

/-! # Threads that rewrite a shared graph

Every thread of the cross-thread demonstration replaces one field of a shared cycle by fresh graphs, and
copies and drops roots of that cycle in between. Which graph goes when, and under how many roots, is up
to the schedule. What each thread allocates and roots is not, and in the end everything has gone
(`Demo.crossThread_scheduled`).
-/

namespace RootedHeap

open World

namespace Demo

variable {w w' : World} {held mine : Multiset Holding} {a b c : Handle} {o : ObjId} {s : SlotId}

/-! ## Objects whose fields are typed -/

/-- The types of the objects that the threads allocate. -/
inductive Letter where
  | a
  | b
  | c

/-- An object's type, with the fields it has. -/
inductive Kind where
  | a (b : SlotId)
  | b (c : SlotId)
  | c (a0 a1 : SlotId)

namespace Kind

variable {k k' : Kind}

def letter : Kind → Letter
  | .a _ => .a
  | .b _ => .b
  | .c _ _ => .c

def value : Kind → Value
  | .a s => valueA s
  | .b s => valueB s
  | .c s t => valueC s t .empty

def slots : Kind → List SlotId
  | .a s | .b s => [s]
  | .c s t => [s, t]

theorem fields (k : Kind) : k.value.Fields k.slots := by
  cases k with
  | a s => exact fields_valueA s
  | b s => exact fields_valueB s
  | c s t => exact fields_valueC s t

theorem value_injective : Function.Injective value := by
  intro k k' h
  cases k <;> cases k' <;> cases h <;> rfl

theorem value_ne_plain (k : Kind) : k.value ≠ .plain := by
  cases k <;> intro h <;> cases h

/-- An object does not change its kind. -/
theorem value_extends (h : w.valueAt o = k.value) (hext : w.Extends w') :
    w'.valueAt o = k.value := by
  have hlt : o < w.objects.size := by
    by_contra hge
    refine k.value_ne_plain (h.symm.trans ?_)
    rw [World.valueAt, Array.getElem?_eq_none (Nat.le_of_not_lt hge)]
  exact (hext.valueAt o hlt).trans h

end Kind

/-- An object is of a type. -/
def Is (l : Letter) (o : ObjId) (w : World) : Prop := ∃ k : Kind, k.letter = l ∧ w.valueAt o = k.value

theorem Is.extends {l : Letter} (h : Is l o w) (hext : w.Extends w') : Is l o w' := by
  obtain ⟨k, hl, hk⟩ := h
  exact ⟨k, hl, Kind.value_extends hk hext⟩

/-- The field of an `A` has a `B`, that of a `B` has a `C`, and those of a `C` may be empty. -/
def Kind.Filled (w : World) : Kind → Prop
  | .a s => ∃ o, w.slotAt s = .one (some o) ∧ Is .b o w
  | .b s => ∃ o, w.slotAt s = .one (some o) ∧ Is .c o w
  | .c s t => (∃ target, w.slotAt s = .one target) ∧ ∃ target, w.slotAt t = .one target

theorem Kind.Filled.extends {k : Kind} (h : k.Filled w) (hext : w.Extends w')
    (hslots : ∀ s ∈ k.slots, w'.slotAt s = w.slotAt s) : k.Filled w' := by
  cases k with
  | a s | b s =>
      obtain ⟨o, hslot, his⟩ := h
      exact ⟨o, (hslots s List.mem_cons_self).trans hslot, his.extends hext⟩
  | c s t =>
      obtain ⟨⟨x, hx⟩, y, hy⟩ := h
      exact ⟨⟨x, (hslots s (by simp [slots])).trans hx⟩, y, (hslots t (by simp [slots])).trans hy⟩

/-- Every object is of a kind, and as long as it is live its fields are filled. -/
def Typed (w : World) : Prop :=
  ∀ o < w.objects.size, ∃ k : Kind, w.valueAt o = k.value ∧ (w.isLive o = true → k.Filled w)

namespace Typed

theorem plain (h : Typed w) : w.Plain := by
  refine plain_of_fields fun o ho => ?_
  obtain ⟨k, hk, -⟩ := h o ho
  exact ⟨k.slots, hk ▸ k.fields⟩

/-- The fields of a live object are filled as its kind says. -/
theorem filled (h : Typed w) {k : Kind} (hk : w.valueAt o = k.value) (ho : w.isLive o = true) :
    k.Filled w := by
  obtain ⟨k', hk', hfilled⟩ := h o (lt_size_of_isLive ho)
  rw [Kind.value_injective (hk.symm.trans hk')]
  exact hfilled ho

/-- What there was has its fields as they were, as long as it is live, and what is new has its fields
filled. -/
theorem grow (h : Typed w) (hext : w.Extends w')
    (hold : ∀ o < w.objects.size, w'.isLive o = true → w.isLive o = true ∧
      ∀ s, .slot s ∈ (w.valueAt o).holdings → w'.slotAt s = w.slotAt s)
    (hnew : ∀ o < w'.objects.size, w.objects.size ≤ o →
      ∃ k : Kind, w'.valueAt o = k.value ∧ k.Filled w') : Typed w' := by
  intro o ho
  -- an object that is dead by now keeps its kind, though its fields may be empty
  by_cases hlt : o < w.objects.size
  · obtain ⟨k, hk, hfilled⟩ := h o hlt
    refine ⟨k, Kind.value_extends hk hext, fun hlive => ?_⟩
    obtain ⟨hbefore, hslots⟩ := hold o hlt hlive
    refine (hfilled hbefore).extends hext fun s hs => hslots s ?_
    rw [hk, k.fields.holdings]
    exact List.mem_map_of_mem hs
  · obtain ⟨k, hk, hfilled⟩ := hnew o ho (Nat.le_of_not_lt hlt)
    exact ⟨k, hk, fun _ => hfilled⟩

theorem adds (h : Typed w) (hsole : Client.Sole held w) (hadds : w.Adds w')
    (hnew : ∀ o < w'.objects.size, w.objects.size ≤ o →
      ∃ k : Kind, w'.valueAt o = k.value ∧ k.Filled w') : Typed w' := by
  refine h.grow hadds.toExtends (fun o ho hlive => ?_) hnew
  have hbefore : w.isLive o = true := hadds.isLive o ho ▸ hlive
  exact ⟨hbefore, fun s hs => hadds.slotAt s (hsole.lt_slots (mem_ledger_of_live hbefore hs))⟩

theorem adds_same (h : Typed w) (hsole : Client.Sole held w) (hadds : w.Adds w')
    (hsize : w'.objects.size = w.objects.size) : Typed w' :=
  h.adds hsole hadds fun _ ho hge => absurd ho (Nat.not_lt.mpr (hsize ▸ hge))

theorem wanes (h : Typed w) (hwanes : w.Wanes held w') : Typed w' := by
  refine h.grow hwanes.leaves.toExtends (fun o _ hlive => ⟨hwanes.live o hlive, fun s hs => ?_⟩)
    fun o ho hge => absurd ho (Nat.not_lt.mpr (hwanes.size ▸ hge))
  refine hwanes.slots s (mem_ledger_of_live hlive ?_)
  rwa [hwanes.value]

end Typed

/-- A client with the only heap, in which every object is of a kind. -/
structure Regular (held : Multiset Holding) (w : World) : Prop where
  sole : Client.Sole held w
  typed : Typed w

/-- How many objects were allocated, and how many roots acquired. -/
def intake (w : World) : Nat × Nat := ((w.countersAt 0).allocations, (w.countersAt 0).rootsAcquired)

namespace Regular

theorem newField (h : Regular held w) (target : Option Handle)
    (htarget : ∀ b ∈ target, .root b ∈ held) :
    Ends (RootedHeap.newField target) w (fun s w' => w.Leaves held w' ∧ intake w' = intake w + 0 ∧
      Regular (.slot s ::ₘ held) w' ∧ w'.slotAt s = .one (target.map Handle.obj))
      fun _ _ => False := by
  refine (h.sole.newField target htarget).mono ?_ fun _ _ => id
  rintro _ w' ⟨rfl, h', hopens⟩
  refine ⟨h.sole.leaves hopens.toAdds, ?_, ⟨h', h.typed.adds_same h.sole hopens.toAdds hopens.size_eq⟩,
    hopens.slotAt_new⟩
  rw [intake, intake, countersAt_congr hopens.heaps]
  rfl

/-- A new object of a kind whose fields are filled. -/
theorem alloc {k : Kind} {n : String} (h : Regular (k.value.holdings + held) w)
    (hfilled : k.Filled w) :
    Ends (RootedHeap.alloc 0 n k.value) w (fun a w' => w.Leaves held w' ∧
      intake w' = intake w + (1, 1) ∧ Regular (.root a ::ₘ held) w' ∧ Is k.letter a.obj w')
      fun _ _ => False := by
  have hslots := h.sole
  rw [k.fields.holdings] at hslots
  refine (h.sole.alloc (k.fields.matched hslots.nodup_slots)).mono ?_ fun _ _ => id
  rintro a w' ⟨hobj, h', hbears, hcounters⟩
  refine ⟨(h.sole.leaves hbears.toAdds).right, ?_,
    ⟨h', h.typed.adds h.sole hbears.toAdds fun o ho hge => ⟨k, ?_, ?_⟩⟩, k, rfl, ?_⟩
  · rw [intake, intake, hcounters]
    rfl
  · obtain rfl : o = w.objects.size := by
      rw [hbears.size_eq] at ho
      exact Nat.le_antisymm (Nat.le_of_lt_succ ho) hge
    exact hbears.valueAt_new
  · refine hfilled.extends hbears.toExtends fun s _ => ?_
    rw [slotAt, slotAt, hbears.slots_eq]
  · rw [hobj]
    exact hbears.valueAt_new

theorem allocC (h : Regular held w) :
    Ends (Demo.allocC 0 .empty) w (fun c w' => w.Leaves held w' ∧ intake w' = intake w + (1, 1) ∧
      Regular (.root c ::ₘ held) w' ∧ Is .c c.obj w') fun _ _ => False := by
  refine (h.newField none (by simp)).bind ?_
  rintro s w₁ ⟨hleaves₁, hintake₁, h₁, hs⟩
  refine (h₁.newField none (by simp)).bind ?_
  rintro t w₂ ⟨hleaves₂, hintake₂, h₂, ht⟩
  have hheld : (.slot t ::ₘ .slot s ::ₘ held : Multiset Holding) =
      ((Kind.c s t).value.holdings : Multiset Holding) + held := by
    rw [(Kind.c s t).fields.holdings, Multiset.cons_swap]
    simp only [Kind.slots, List.map_cons, List.map_nil, ← Multiset.cons_coe, Multiset.coe_nil,
      Multiset.cons_add, zero_add]
  have hfilled : (Kind.c s t).Filled w₂ :=
    ⟨⟨none, (hleaves₂.slotAt s (Multiset.mem_cons_self _ _)).trans hs⟩, none, ht⟩
  refine ((hheld ▸ h₂).alloc hfilled).mono ?_ fun _ _ => id
  rintro c w' ⟨hleaves, hintake, h', his⟩
  have hbefore := hleaves₁.trans (hleaves₂.mono (Multiset.le_cons_self _ _))
  exact ⟨hbefore.trans hleaves, by rw [hintake, hintake₂, hintake₁, add_zero, add_zero], h', his⟩

theorem clone (h : Regular held w) (ha : .root a ∈ held) :
    Ends a.clone w (fun b w' => w.Leaves held w' ∧ intake w' = intake w + (0, 1) ∧
      Regular (.root b ::ₘ held) w' ∧ b.obj = a.obj) fun _ _ => False := by
  refine (h.sole.clone ha).mono ?_ fun _ _ => id
  rintro b w' ⟨hobj, h', hmirrors, hcounters⟩
  refine ⟨h.sole.leaves hmirrors.adds, ?_,
    ⟨h', h.typed.adds_same h.sole hmirrors.adds hmirrors.size⟩, hobj⟩
  rw [intake, intake, hcounters]
  rfl

theorem get (h : Regular held w) (ha : .root a ∈ held) (hs : s ∈ (w.valueAt a.obj).connectSlots)
    (hslot : w.slotAt s = .one (some o)) :
    Ends (a.getField s) w (fun found w' => w.Leaves held w' ∧ intake w' = intake w + (0, 1) ∧
      ∃ b, found = some b ∧ b.obj = o ∧ Regular (.root b ::ₘ held) w') fun _ _ => False := by
  refine (h.sole.get ha hs hslot).mono ?_ fun _ _ => id
  rintro _ w' ⟨b, rfl, hobj, h', hmirrors, hcounters⟩
  refine ⟨h.sole.leaves hmirrors.adds, ?_, b, rfl, hobj, h',
    h.typed.adds_same h.sole hmirrors.adds hmirrors.size⟩
  rw [intake, intake, hcounters]
  rfl

theorem drop (h : Regular (.root a ::ₘ held) w) :
    Ends a.drop w (fun _ w' => w.Leaves held w' ∧ intake w' = intake w + 0 ∧ Regular held w')
      fun _ _ => False := by
  refine h.sole.drop.mono ?_ fun _ _ => id
  rintro _ w' ⟨h', hwanes, -, hspent⟩
  refine ⟨hwanes.leaves, ?_, h', h.typed.wanes hwanes⟩
  rw [intake, intake, hspent.same]
  rfl

/-- A field of a `C` is written, which no other object has. -/
theorem set {t t' : SlotId} (h : Regular held w) (hc : .root c ∈ held) (hb : .root b ∈ held)
    (hvalue : w.valueAt c.obj = (Kind.c t t').value) (hs : s ∈ [t, t']) :
    Ends (c.setField s (some b)) w (fun _ w' => w.Leaves held w' ∧ intake w' = intake w + 0 ∧
      Regular held w') fun _ _ => False := by
  have hlive := (h.sole.handle hc).1
  have hmem : s ∈ (w.valueAt c.obj).connectSlots := by
    rw [hvalue, (Kind.c t t').fields.connects]
    exact hs
  obtain ⟨old, hold⟩ : ∃ old, w.slotAt s = .one old := by
    obtain ⟨hfirst, hsecond⟩ := h.typed.filled hvalue hlive
    rcases List.mem_cons.mp hs with rfl | hs
    · exact hfirst
    · exact List.mem_singleton.mp hs ▸ hsecond
  have hlt : s < w.slots.size :=
    h.sole.lt_slots (mem_ledger_of_live hlive (Value.mem_holdings_of_reported hmem))
  -- slots have one owner each, so the write concerns the fields of `c` alone
  have hwritten : Typed (w.writeSlot s (.one (some b.obj))) := by
    intro o ho
    obtain ⟨k, hk, hfilled⟩ := h.typed o ho
    refine ⟨k, hk, fun ho => ?_⟩
    by_cases heq : o = c.obj
    · have hfield (x : SlotId) (hx : ∃ target, w.slotAt x = .one target) :
          ∃ target, (w.writeSlot s (.one (some b.obj))).slotAt x = .one target := by
        by_cases hxs : x = s
        · rw [hxs]
          exact ⟨_, slotAt_writeSlot_self hlt⟩
        · rwa [slotAt_writeSlot_of_ne hxs]
      rw [Kind.value_injective (hk.symm.trans (heq ▸ hvalue))] at hfilled ⊢
      exact (hfilled ho).imp (hfield t) (hfield t')
    · refine (hfilled ho).extends ⟨Nat.le_refl _, fun _ _ => rfl⟩ fun x hx => ?_
      refine slotAt_writeSlot_of_ne fun hxs => heq ?_
      refine eq_of_mem_connectSlots h.sole.steady.guarded.matched h.sole.steady.accounted.slots_nodup ho
        hlive ?_ hmem
      rw [hk, k.fields.connects]
      exact hxs ▸ hx
  refine (h.sole.set hc hmem hold hb).mono ?_ fun _ _ => id
  rintro _ w' ⟨h', hwanes, hsame⟩
  refine ⟨(h.sole.leaves_writeSlot hlive hmem _).trans hwanes.leaves, ?_, h', hwritten.wanes hwanes⟩
  rw [intake, intake, hsame.1, hsame.2]
  rfl

end Regular

/-! ## What the threads do -/

section Acts

variable {rest : Multiset Holding} {cost : Nat × Nat} {l : Letter}

/-- An operation that gives something to its thread. -/
theorem spends_gain {α : Type} {op : Op α} (gain : α → Holding) {Q : α → World → Prop}
    (h : ∀ w' others, w.Leaves mine w' → Regular (mine + others) w' →
      Ends op w' (fun a w'' => w'.Leaves (mine + others) w'' ∧ intake w'' = intake w' + cost ∧
        Regular (gain a ::ₘ (mine + others)) w'' ∧ Q a w'') fun _ _ => False) :
    (Act.once op).Spends Regular intake w mine cost fun a w' mine' =>
      mine' = gain a ::ₘ mine ∧ Q a w' := by
  refine Act.spends_once fun w' others hleaves hw' => (h w' others hleaves hw').mono ?_ fun _ _ => id
  rintro a w'' ⟨hleaves', hintake, h', hQ⟩
  exact ⟨hleaves'.right, hintake, _, Multiset.cons_add _ _ _ ▸ h', rfl, hQ⟩

/-- An object of one field, which is filled from the start. -/
theorem spends_allocField {n : String} (mk : SlotId → Kind) (hb : .root b ∈ mine)
    (hslots : ∀ s, (mk s).slots = [s]) (hletter : ∀ s, (mk s).letter = l)
    (hfilled : ∀ s w', w.Extends w' → w'.slotAt s = .one (some b.obj) → (mk s).Filled w') :
    Act.Spends Regular intake (do
      let field ← Act.once (newField (some b))
      Act.once (alloc 0 n (mk field).value)) w mine (1, 1) fun a w' mine' =>
        mine' = .root a ::ₘ mine ∧ Is l a.obj w' := by
  rw [← zero_add ((1, 1) : Nat × Nat)]
  have htarget (others : Multiset Holding) : ∀ a ∈ some b, .root a ∈ mine + others := by
    rintro _ ⟨⟩
    exact Multiset.mem_add.mpr (.inl hb)
  refine (spends_gain .slot fun _ others _ h => h.newField (some b) (htarget others)).bind ?_
  rintro s w₁ _ hext ⟨rfl, hslot⟩
  refine Act.spends_once fun w' others hleaves h => ?_
  have hheld : (.slot s ::ₘ mine + others : Multiset Holding) =
      (mk s).value.holdings + (mine + others) := by
    rw [(mk s).fields.holdings, hslots, Multiset.cons_add]
    rfl
  -- no other thread touches the field before an object has it
  have hsame := hleaves.slotAt s (Multiset.mem_cons_self _ _)
  have hnew : (mk s).Filled w' := hfilled s w' (hext.trans hleaves.toExtends) (hsame.trans hslot)
  refine ((hheld ▸ h).alloc hnew).mono ?_ fun _ _ => id
  rintro a w'' ⟨hleaves', hintake, h', his⟩
  exact ⟨hleaves'.right, hintake, _, Multiset.cons_add _ _ _ ▸ h', rfl, hletter s ▸ his⟩

theorem spends_allocA (hb : .root b ∈ mine) (his : Is .b b.obj w) :
    (allocA 0 (some b)).Spends Regular intake w mine (1, 1) fun a w' mine' =>
      mine' = .root a ::ₘ mine ∧ Is .a a.obj w' :=
  spends_allocField Kind.a hb (fun _ => rfl) (fun _ => rfl) fun _ _ hext hslot =>
    ⟨b.obj, hslot, his.extends hext⟩

theorem spends_allocB (hc : .root c ∈ mine) (his : Is .c c.obj w) :
    (allocB 0 (some c)).Spends Regular intake w mine (1, 1) fun b w' mine' =>
      mine' = .root b ::ₘ mine ∧ Is .b b.obj w' :=
  spends_allocField Kind.b hc (fun _ => rfl) (fun _ => rfl) fun _ _ hext hslot =>
    ⟨c.obj, hslot, his.extends hext⟩

theorem spends_drop :
    (drop a).Spends Regular intake w (.root a ::ₘ rest) 0 fun _ _ mine' => mine' = rest := by
  refine Act.spends_once fun w' others _ h => ?_
  rw [Multiset.cons_add] at h
  refine h.drop.mono ?_ fun _ _ => id
  rintro _ w'' ⟨hleaves, hintake, h'⟩
  exact ⟨hleaves.right, hintake, _, h', rfl⟩

theorem spends_dropEach (handles : List Handle) :
    (dropEach handles).Spends Regular intake w ((handles.map Holding.root : Multiset Holding) + rest) 0
      fun _ _ mine' => mine' = rest := by
  induction handles generalizing w with
  | nil => exact Act.spends_pure (zero_add _)
  | cons a handles ih =>
      rw [List.map_cons, ← Multiset.cons_coe, Multiset.cons_add]
      rw [← add_zero (0 : Nat × Nat)]
      refine spends_drop.bind ?_
      rintro _ w' _ - rfl
      exact ih

theorem spends_clone (ha : .root a ∈ mine) :
    (clone a).Spends Regular intake w mine (0, 1) fun b _ mine' =>
      mine' = .root b ::ₘ mine ∧ b.obj = a.obj :=
  spends_gain .root fun _ _ _ h => h.clone (Multiset.mem_add.mpr (.inl ha))

/-- A field that is filled is read. -/
theorem spends_getAt {k : Kind} {index : Nat} {name : String} (ha : .root a ∈ mine)
    (hk : w.valueAt a.obj = k.value) (hs : k.slots[index]? = some s)
    (hfilled : ∀ w', k.Filled w' → ∃ o, w'.slotAt s = .one (some o) ∧ Is l o w') :
    (getAt a index name).Spends Regular intake w mine (0, 1) fun b w' mine' =>
      mine' = .root b ::ₘ mine ∧ Is l b.obj w' := by
  change Act.Spends _ _ _ _ _ ((0, 1) + 0) _
  refine Act.Spends.bind (Q := fun found w' mine' => ∃ b, found = some b ∧
    mine' = .root b ::ₘ mine ∧ Is l b.obj w') (Act.spends_once fun w' others hleaves h => ?_) ?_
  · have ha' : .root a ∈ mine + others := Multiset.mem_add.mpr (.inl ha)
    have hk' := Kind.value_extends hk hleaves.toExtends
    have hfields : (w'.valueAt a.obj).Fields k.slots := hk' ▸ k.fields
    -- others may have written the field meanwhile, but not with anything of another kind
    obtain ⟨o, hslot, his⟩ := hfilled w' (h.typed.filled hk' (h.sole.handle ha').1)
    have hmem : s ∈ (w'.valueAt a.obj).connectSlots := hfields.connects ▸ List.mem_of_getElem? hs
    refine Ends.bind_of_eq (h.sole.deref ha') ?_
    have hindex : slotOf a index w' = s := by rw [slotOf_eq hfields, hs, Option.getD_some]
    change Ends (a.getField (slotOf a index w')) w' _ _
    rw [hindex]
    refine (h.get ha' hmem hslot).mono ?_ fun _ _ => id
    rintro _ w'' ⟨hleaves', hintake, b, rfl, hobj, h'⟩
    exact ⟨hleaves'.right, hintake, _, Multiset.cons_add _ _ _ ▸ h', b, rfl, rfl,
      hobj ▸ his.extends hleaves'.toExtends⟩
  · rintro _ w' mine' - ⟨b, rfl, hmine, his⟩
    exact Act.spends_pure ⟨hmine, his⟩

/-- A field of a `C` is written. -/
theorem spends_setAt {index : Nat} (hc : .root c ∈ mine) (hb : .root b ∈ mine) (his : Is .c c.obj w)
    (hindex : index < 2) :
    (setAt c index b).Spends Regular intake w mine 0 fun _ _ mine' => mine' = mine := by
  refine Act.spends_once fun w' others hleaves h => ?_
  have hc' : .root c ∈ mine + others := Multiset.mem_add.mpr (.inl hc)
  obtain ⟨k, hletter, hk⟩ := his.extends hleaves.toExtends
  obtain ⟨t, t', rfl⟩ : ∃ t t', k = .c t t' := by
    cases k <;> cases hletter
    exact ⟨_, _, rfl⟩
  have hfields : (w'.valueAt c.obj).Fields [t, t'] := hk ▸ (Kind.c t t').fields
  have hslot : slotOf c index w' = [t, t'][index] := by
    rw [slotOf_eq hfields, List.getElem?_eq_getElem hindex, Option.getD_some]
  refine Ends.bind_of_eq (h.sole.deref hc') ?_
  change Ends (c.setField (slotOf c index w') (some b)) w' _ _
  rw [hslot]
  refine (h.set hc' (Multiset.mem_add.mpr (.inl hb)) hk (List.getElem_mem hindex)).mono ?_ fun _ _ => id
  rintro _ w'' ⟨hleaves', hintake, h'⟩
  exact ⟨hleaves'.right, hintake, _, h', rfl⟩

/-- The `C` that an `A` leads to. -/
theorem spends_cOf (ha : .root a ∈ mine) (his : Is .a a.obj w) :
    (cOf a).Spends Regular intake w mine (0, 2) fun c w' mine' =>
      mine' = .root c ::ₘ mine ∧ Is .c c.obj w' := by
  obtain ⟨k, hletter, hk⟩ := his
  obtain ⟨s, rfl⟩ : ∃ s, k = .a s := by
    cases k <;> cases hletter
    exact ⟨_, rfl⟩
  have hfirst : (Kind.a s).slots[0]? = some s := rfl
  change Act.Spends _ _ _ _ _ ((0, 1) + ((0, 1) + (0 + 0))) _
  refine (spends_getAt ha hk hfirst fun _ => id).bind ?_
  rintro b w₁ _ - ⟨rfl, k, hletter, hk⟩
  obtain ⟨s, rfl⟩ : ∃ s, k = .b s := by
    cases k <;> cases hletter
    exact ⟨_, rfl⟩
  have hfirst : (Kind.b s).slots[0]? = some s := rfl
  refine (spends_getAt (Multiset.mem_cons_self _ _) hk hfirst fun _ => id).bind ?_
  rintro c w₂ _ - ⟨rfl, his⟩
  rw [Multiset.cons_swap]
  refine spends_drop.bind ?_
  rintro _ w₃ _ hext rfl
  exact Act.spends_pure ⟨rfl, his.extends hext⟩

theorem spends_newA :
    (newA 0).Spends Regular intake w mine (3, 3) fun a w' mine' =>
      mine' = .root a ::ₘ mine ∧ Is .a a.obj w' := by
  change Act.Spends _ _ _ _ _ ((1, 1) + ((1, 1) + ((1, 1) + (0 + 0)))) _
  refine (spends_gain .root fun _ _ _ h => h.allocC).bind ?_
  rintro c w₁ _ - ⟨rfl, hc⟩
  refine (spends_allocB (by simp) hc).bind ?_
  rintro b w₂ _ - ⟨rfl, hb⟩
  refine (spends_allocA (by simp) hb).bind ?_
  rintro a w₃ _ - ⟨rfl, ha⟩
  have hmine : (.root a ::ₘ .root b ::ₘ .root c ::ₘ mine : Multiset Holding) =
      (([b, c].map Holding.root : List Holding) : Multiset Holding) + .root a ::ₘ mine := by
    rw [Multiset.cons_swap, Multiset.cons_swap (Holding.root a) (Holding.root c)]
    simp only [List.map_cons, List.map_nil, ← Multiset.cons_coe, Multiset.coe_nil, Multiset.cons_add,
      zero_add]
  rw [hmine]
  refine (spends_dropEach [b, c]).bind ?_
  rintro _ w₄ _ hext rfl
  exact Act.spends_pure ⟨rfl, ha.extends hext⟩

/-- A worker's round gives up whatever it has rooted. -/
theorem spends_workerRound (ha : .root a ∈ mine) (hc : .root c ∈ mine) (his : Is .c c.obj w) :
    (workerRound 0 a c).Spends Regular intake w mine (3, 4) fun _ _ mine' => mine' = mine := by
  change Act.Spends _ _ _ _ _ ((3, 3) + (0 + ((0, 1) + (0 + 0)))) _
  refine spends_newA.bind ?_
  rintro fresh w₁ _ hext₁ ⟨rfl, -⟩
  refine (spends_setAt (Multiset.mem_cons_of_mem hc) (Multiset.mem_cons_self _ _) (his.extends hext₁)
    (Nat.zero_lt_succ 1)).bind ?_
  rintro _ w₂ _ - rfl
  refine (spends_clone (Multiset.mem_cons_of_mem ha)).bind ?_
  rintro copy w₃ _ - ⟨rfl, -⟩
  refine spends_drop.bind ?_
  rintro _ w₄ _ - rfl
  exact spends_drop

theorem spends_workerRounds (ha : .root a ∈ mine) (hc : .root c ∈ mine) (his : Is .c c.obj w)
    (n : Nat) :
    (workerRounds 0 a c n).Spends Regular intake w mine (n • (3, 4)) fun _ _ mine' => mine' = mine := by
  induction n generalizing w with
  | zero =>
      rw [zero_nsmul]
      exact Act.spends_pure rfl
  | succ n ih =>
      rw [succ_nsmul']
      refine (spends_workerRound ha hc his).bind ?_
      rintro _ w' _ hext rfl
      exact ih (his.extends hext)

/-- A worker ends with nothing. -/
theorem spends_worker (his : Is .c c.obj w) :
    (worker 0 a c).Spends Regular intake w {.root a, .root c} (48, 64)
      fun _ _ mine' => mine' = 0 := by
  change Act.Spends _ _ _ _ _ (16 • (3, 4) + 0) _
  refine (spends_workerRounds (by simp) (by simp) his 16).bind ?_
  rintro _ w' _ - rfl
  exact spends_dropEach [a, c]

theorem spends_startWorkers (ha : .root a ∈ mine) (hc : .root c ∈ mine) (his : Is .c c.obj w)
    (n : Nat) :
    (startWorkers 0 a c n).Spends Regular intake w mine (n • (48, 66))
      fun _ _ mine' => mine' = mine := by
  -- a worker is charged for its whole life when it starts, whenever its turns come
  induction n generalizing w with
  | zero =>
      rw [zero_nsmul]
      exact Act.spends_pure rfl
  | succ n ih =>
      rw [succ_nsmul']
      change Act.Spends _ _ _ _ _ ((0, 1) + ((0, 1) + (48, 64)) + _) _
      rw [add_assoc, add_assoc]
      refine (spends_clone ha).bind ?_
      rintro a' w₁ _ hext₁ ⟨rfl, -⟩
      refine (spends_clone (Multiset.mem_cons_of_mem hc)).bind ?_
      rintro c' w₂ _ hext₂ ⟨rfl, hobj⟩
      have his₂ := (his.extends hext₁).extends hext₂
      have hgiven : (.root c' ::ₘ .root a' ::ₘ mine : Multiset Holding) =
          {.root a', .root c'} + mine := by
        rw [Multiset.cons_swap, Multiset.insert_eq_cons, Multiset.cons_add, Multiset.singleton_add]
      rw [hgiven]
      refine (Act.spends_spawn (spends_worker (hobj ▸ his₂))).bind ?_
      rintro _ w₃ _ hext₃ rfl
      exact ih (his₂.extends hext₃)

theorem spends_crossThread (options : Options) :
    (crossThread 0 options).Spends Regular intake w 0
      (3 + 48 * max options.threads 1, 5 + 66 * max options.threads 1)
      fun _ _ mine' => mine' = 0 := by
  have hcost : (3 + 48 * max options.threads 1, 5 + 66 * max options.threads 1) =
      (3, 3) + ((0, 2) + (0 + (max options.threads 1 • (48, 66) + (0 + 0)))) := by
    ext <;> simp <;> omega
  rw [hcost]
  refine spends_newA.bind ?_
  rintro a w₁ _ - ⟨rfl, ha⟩
  refine (spends_cOf (Multiset.mem_cons_self _ _) ha).bind ?_
  rintro c w₂ _ - ⟨rfl, hc⟩
  refine (spends_setAt (by simp) (by simp) hc (Nat.lt_succ_self 1)).bind ?_
  rintro _ w₃ _ hext₃ rfl
  refine (spends_startWorkers (by simp) (by simp) (hc.extends hext₃) _).bind ?_
  rintro _ w₄ _ - rfl
  refine Act.spends_join.bind ?_
  rintro _ w₅ _ - rfl
  exact spends_dropEach [c, a]

end Acts

/-! ## Every schedule -/

/-- However the threads take turns, they come to an end; as long as any is not done, one of them can go
on; and once all are done, nothing is left of what was allocated and rooted on the way. To carry each
thread out as soon as it is started is one of the schedules, and its end is what is reported. -/
theorem crossThread_scheduled (options : Options) :
    Acc (fun q p => Pool.Step p q) (Scenario.crossThread.pool options) ∧
    (∀ p, Relation.ReflTransGen Pool.Step (Scenario.crossThread.pool options) p →
      (p.Finished ∨ ∃ q, Pool.Step p q) ∧
      (p.Finished →
        (p.world.stats 0).liveObjects = 0 ∧ (p.world.stats 0).liveRoots = 0 ∧
        (p.world.stats 0).allocations = 3 + 48 * max options.threads 1 ∧
        (p.world.stats 0).collected = 3 + 48 * max options.threads 1 ∧
        (p.world.stats 0).rootsAcquired = 5 + 66 * max options.threads 1 ∧
        (p.world.stats 0).rootsReleased = 5 + 66 * max options.threads 1)) ∧
    ∃ p, Relation.ReflTransGen Pool.Step (Scenario.crossThread.pool options) p ∧ p.Finished ∧
      Scenario.runNamed options "cross-thread" = .ok ⟨"cross-thread", p.world.stats 0⟩ := by
  obtain ⟨_, w, hcreate, rfl, hsole, hcounters, hobjects, -⟩ :=
    (Client.Sole.found { name := Scenario.crossThread.name } rfl rfl).exists_ok
  have hregular : Regular 0 w := ⟨hsole, fun o ho => absurd ho (by simp [hobjects])⟩
  have hintake : intake w = 0 := by
    rw [intake, hcounters]
    rfl
  have hpool : Scenario.crossThread.pool options = ⟨[⟨(crossThread 0 options).thread, []⟩], w⟩ := by
    rw [Scenario.pool, hcreate]
    rfl
  have hspends := spends_crossThread (w := w) options
  -- what was counted and what the threads have yet to count add up to the same after each step
  have hkeeps {p : Pool} (hreach : Relation.ReflTransGen Pool.Step (Scenario.crossThread.pool options) p) :
      p.Keeps Regular intake
        (3 + 48 * max options.threads 1, 5 + 66 * max options.threads 1) := by
    have h := (hspends.keeps hregular).reaches (hpool ▸ hreach)
    rwa [hintake, zero_add] at h
  have hend {p : Pool} (hreach : Relation.ReflTransGen Pool.Step (Scenario.crossThread.pool options) p)
      (hfinished : p.Finished) : p.world.stats 0 = .capture { p.world.countersAt 0 with
        allocations := 3 + 48 * max options.threads 1
        collected := 3 + 48 * max options.threads 1
        rootsAcquired := 5 + 66 * max options.threads 1
        rootsReleased := 5 + 66 * max options.threads 1 } 0 0 := by
    obtain ⟨h, htotal⟩ := (hkeeps hreach).finished hfinished
    obtain ⟨hallocations, hacquired⟩ := Prod.mk.inj htotal
    rw [h.sole.vacated h.typed.plain, ← hallocations, ← hacquired]
  refine ⟨Pool.wellFounded_step.apply _, fun p hreach => ⟨(hkeeps hreach).progress, fun hfinished => ?_⟩,
    ?_⟩
  · rw [hend hreach hfinished]
    exact ⟨rfl, rfl, rfl, rfl, rfl, rfl⟩
  · have hnothing : Regular (0 + 0) w := (add_zero (0 : Multiset Holding)).symm ▸ hregular
    obtain ⟨_, w', hrun, rfl, -, -⟩ := (hspends.fulfils.run hnothing).exists_ok
    obtain ⟨started, after, -, hafter, hreach⟩ :=
      Pool.reaches_of_run hrun [] [] [] (by simp) (by simp)
    have hreach : Relation.ReflTransGen Pool.Step (Scenario.crossThread.pool options)
        ⟨⟨.done, started⟩ :: after, w'⟩ := hpool ▸ hreach
    have hfinished : Pool.Finished ⟨⟨.done, started⟩ :: after, w'⟩ :=
      List.forall_mem_cons.mpr ⟨rfl, hafter⟩
    refine ⟨_, hreach, hfinished, Scenario.run_of_thread .crossThread hcreate hrun ?_⟩
    rw [hend hreach hfinished]
    rfl

end Demo

end RootedHeap
