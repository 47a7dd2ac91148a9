import Mathlib.Data.List.Forall2
import Mathlib.Data.List.Nodup
import RootedHeap.Derive.Output
import RootedHeap.Proofs.Visits

/-! # What an expansion traverses

A definition can be expanded exactly when each of its fields is marked well: the `gc` attributes are
lists of the words `skip` and `base`, and do not name both (`Role.readFrom_eq_ok_iff`). Both
halves of the expansion then call the trait on the same fields in the same order, which
`Layout.order` reads off the attributes alone. A struct is followed through its own fields, an enum
through what the patterns of its arms bind. All of this holds for any reader of items that is
`Faithful`, which says of lists of words what it makes of them, and of other lists that it finds a
fault or some item that is no word. The reader in use is faithful (`items_faithful`).
-/

namespace RootedHeap.Derive

/-! ## Marks -/

/-- The tokens are the words with commas between them; the last one may be followed by a comma. -/
inductive Separated : List String → List Token → Prop
  | nil : Separated [] []
  | last (w : String) : Separated [w] [.word w]
  | more (w : String) (joint : Bool) {ws : List String} {rest : List Token}
      (h : Separated ws rest) : Separated (w :: ws) (.word w :: .mark ',' joint :: rest)

/-- A faithful reader hands over the words of a list in order and finds nothing wrong, and it does
so for no other tokens. -/
def ItemReader.Faithful (read : ItemReader) : Prop :=
  ∀ ts ws, read ts = (ws.map .ofWord, none) ↔ Separated ws ts

theorem Separated.mem_iff {ws : List String} {ts : List Token} (h : Separated ws ts) {w : String} :
    .word w ∈ ts ↔ w ∈ ws := by
  induction h with
  | nil => simp
  | last => simp
  | more _ _ _ ih => simp [ih]

/-- Words `skip` and `base` with commas between them. -/
def Listing (ts : List Token) : Prop :=
  ∃ ws, Separated ws ts ∧ ∀ w ∈ ws, w = "skip" ∨ w = "base"

namespace Attribute

/-- The attribute is a list of the words `skip` and `base`. -/
def Lists (a : Attribute) : Prop := ∃ d ts, a.arguments = .list d ts ∧ Listing ts

/-- Whether the word `w` is in the attribute's list. -/
def mentions (a : Attribute) (w : String) : Bool :=
  match a.arguments with
  | .list _ ts => .word w ∈ ts
  | _ => false

end Attribute

/-- Whether the attributes of a field mark it with the word `w`. -/
def marked (w : String) (attributes : List Attribute) : Bool :=
  (attributes.filter (·.isRole)).any (·.mentions w)

/-- The marks of a field are lists of `skip` and `base`, and it does not carry both. -/
structure WellMarked (attributes : List Attribute) : Prop where
  lists : ∀ a ∈ attributes.filter (·.isRole), a.Lists
  apart : ¬ (marked "skip" attributes = true ∧ marked "base" attributes = true)

end RootedHeap.Derive

namespace RootedHeap.Role

open Derive

/-- The role of what is marked to be skipped, or marked as base; nothing can be both. -/
def ofMarks : Bool → Bool → Option Role
  | false, false => some .owned
  | true, false => some .skipped
  | false, true => some .base
  | true, true => none

/-- The role that comes of `role` and of further marks. -/
def join (role : Role) (skip base : Bool) : Option Role :=
  ofMarks (role = .skipped || skip) (role = .base || base)

@[simp] theorem join_false (role : Role) : role.join false false = some role := by
  cases role <;> rfl

theorem join_owned (skip base : Bool) : owned.join skip base = ofMarks skip base := by
  simp [join]

/-- Marks can be taken into account one after the other. -/
theorem join_eq_some_iff {role role' : Role} {s b s' b' : Bool} :
    role.join (s || s') (b || b') = some role' ↔
      ∃ next, role.join s b = some next ∧ next.join s' b' = some role' := by
  cases role <;> cases s <;> cases b <;> cases s' <;> cases b' <;> simp [join, ofMarks]

theorem withItem_eq_ok_iff {role role' : Role} {p : Path} :
    role.withItem p = .ok role' ↔ ∃ w, (w = "skip" ∨ w = "base") ∧ p = .ofWord w ∧
      role.join (w = "skip") (w = "base") = some role' := by
  have hcombine (next : Role) (hnext : next ≠ .owned) :
      role.combine next = .ok role' ↔
        role.join (next = .skipped) (next = .base) = some role' := by
    cases role <;> cases next <;> cases role' <;> simp_all [combine, join, ofMarks]
  unfold withItem ofPath?
  by_cases hskip : p = .ofWord "skip"
  · rw [if_pos hskip]
    simp [hcombine, hskip, Path.ofWord]
  · rw [if_neg hskip]
    by_cases hbase : p = .ofWord "base"
    · rw [if_pos hbase]
      simp [hcombine, hbase, Path.ofWord]
    · rw [if_neg hbase]
      simp only [reduceCtorEq, false_iff]
      rintro ⟨w, rfl | rfl, hp, -⟩
      · exact hskip hp
      · exact hbase hp

end RootedHeap.Role

namespace RootedHeap.Derive

theorem bind_eq_ok_iff {α β : Type} {x : Except Refusal α} {f : α → Except Refusal β} {b : β} :
    x >>= f = .ok b ↔ ∃ a, x = .ok a ∧ f a = .ok b := by
  cases x with
  | error e => simp [bind, Except.bind]
  | ok a => simp [bind, Except.bind]

theorem mapM_eq_ok_iff {α β : Type} {f : α → Except Refusal β} {l : List α} {l' : List β} :
    l.mapM f = .ok l' ↔ List.Forall₂ (fun a b => f a = .ok b) l l' := by
  induction l generalizing l' with
  | nil => simp [pure, Except.pure, eq_comm]
  | cons a l ih =>
      rw [List.mapM_cons, bind_eq_ok_iff, List.forall₂_cons_left_iff]
      simp only [bind_eq_ok_iff, ih, pure, Except.pure, Except.ok.injEq]
      constructor
      · rintro ⟨b, hb, l', hl, rfl⟩
        exact ⟨b, l', hb, hl, rfl⟩
      · rintro ⟨b, l', hb, hl, rfl⟩
        exact ⟨b, hb, l', hl, rfl⟩

theorem exists_forall₂_iff {α β : Type} {R : α → β → Prop} {l : List α} :
    (∃ l', List.Forall₂ R l l') ↔ ∀ a ∈ l, ∃ b, R a b := by
  induction l with
  | nil => simp
  | cons a l ih =>
      rw [List.forall_mem_cons, ← ih]
      constructor
      · rintro ⟨_, h⟩
        cases h with
        | cons hab hl => exact ⟨⟨_, hab⟩, _, hl⟩
      · rintro ⟨⟨b, hab⟩, l', hl⟩
        exact ⟨b :: l', .cons hab hl⟩

/-! ## Items -/

theorem itemSegments_eq_nil {ts left : List Token} (h : itemSegments ts = .ok ([], left)) :
    left = ts := by
  unfold itemSegments at h
  split at h
  · split at h <;> cases h
  · cases h
  · cases h
  · cases h
    rfl

theorem eq_cons_of_itemWords {rooted : Bool} {w : String} {ts left : List Token}
    (h : itemWords rooted ts = .ok (.ofWord w, left)) : rooted = false ∧ ts = .word w :: left := by
  unfold itemWords at h
  split at h
  · cases h
  · next w' rest =>
      cases hsegments : itemSegments rest with
      | error e =>
          rw [hsegments] at h
          cases h
      | ok found =>
          obtain ⟨ws, left'⟩ := found
          rw [hsegments] at h
          cases h
          exact ⟨rfl, by rw [itemSegments_eq_nil hsegments]⟩
  · cases h

/-- An item that is one word takes that word only. -/
theorem eq_cons_of_itemPath {w : String} {ts left : List Token}
    (h : itemPath ts = .ok (.ofWord w, left)) : ts = .word w :: left := by
  unfold itemPath at h
  split at h
  · cases (eq_cons_of_itemWords h).1
  · exact (eq_cons_of_itemWords h).2

theorem afterItem_eq_ok_iff {left rest : List Token} :
    afterItem left = .ok rest ↔
      left = [] ∧ rest = [] ∨ ∃ joint, left = .mark ',' joint :: rest := by
  unfold afterItem
  split
  next =>
    constructor
    · rintro ⟨⟩
      exact .inl ⟨rfl, rfl⟩
    · rintro (⟨-, rfl⟩ | ⟨joint, hcomma⟩)
      · rfl
      · cases hcomma
  next => simp
  next hnil hcomma =>
    simp only [reduceCtorEq, false_iff]
    rintro (⟨rfl, -⟩ | ⟨joint, rfl⟩)
    · exact hnil rfl
    · exact hcomma joint rest rfl

/-- One item, and then the rest. -/
theorem items_of_item {ts left rest : List Token} {p : Path} (hpath : itemPath ts = .ok (p, left))
    (hafter : afterItem left = .ok rest) : items ts = (p :: (items rest).1, (items rest).2) := by
  have hts : ts ≠ [] := by
    rintro rfl
    cases hpath
  rw [items, if_neg hts]
  split
  next hp => cases hp.symm.trans hpath
  next hp =>
    cases hp.symm.trans hpath
    split
    next hl => cases hl.symm.trans hafter
    next hl =>
      cases hl.symm.trans hafter
      rfl

theorem items_nil : items [] = ([], none) := by
  rw [items, if_pos rfl]

/-- The reader in use is faithful. -/
theorem items_faithful : ItemReader.Faithful items := by
  intro ts ws
  constructor
  · intro h
    fun_induction items ts generalizing ws with
    | case1 =>
        cases List.map_eq_nil_iff.mp (Prod.mk.inj h).1.symm
        exact .nil
    | case2 => cases (Prod.mk.inj h).2
    | case3 => cases (Prod.mk.inj h).2
    | case4 ts hts p left hp rest hl ps wrong heq ih =>
        obtain ⟨hpaths, rfl⟩ := Prod.mk.inj h
        obtain ⟨w, ws, rfl, rfl, rfl⟩ := List.map_eq_cons_iff.mp hpaths.symm
        have hrest := ih ws heq
        rw [eq_cons_of_itemPath hp]
        rcases afterItem_eq_ok_iff.mp hl with ⟨rfl, rfl⟩ | ⟨joint, rfl⟩
        · cases hrest
          exact .last w
        · exact .more w joint hrest
  · intro h
    induction h with
    | nil => exact items_nil
    | last w => rw [items_of_item rfl rfl, items_nil]; rfl
    | more w joint _ ih => rw [items_of_item rfl rfl, ih]; rfl

end RootedHeap.Derive

namespace RootedHeap.Role

open Derive

/-- Items that are judged to the end are all `skip` or `base`. -/
theorem foldlM_withItem_eq_ok_iff {ps : List Path} {role role' : Role} :
    ps.foldlM withItem role = .ok role' ↔
      ∃ ws : List String, ps = ws.map .ofWord ∧ (∀ w ∈ ws, w = "skip" ∨ w = "base") ∧
        role.join ("skip" ∈ ws) ("base" ∈ ws) = some role' := by
  induction ps generalizing role with
  | nil => simp [pure, Except.pure]
  | cons p ps ih =>
      -- the marks of a list of words are those of its first word and of the rest
      have hmarks (w : String) (ws : List String) :
          role.join ("skip" ∈ w :: ws) ("base" ∈ w :: ws) = some role' ↔
            ∃ next, role.join (w = "skip") (w = "base") = some next ∧
              next.join ("skip" ∈ ws) ("base" ∈ ws) = some role' := by
        rw [← join_eq_some_iff]
        simp [eq_comm]
      rw [List.foldlM_cons, bind_eq_ok_iff]
      simp only [ih, withItem_eq_ok_iff]
      constructor
      · rintro ⟨next, ⟨w, hw, rfl, hnext⟩, ws, rfl, hws, hlater⟩
        exact ⟨w :: ws, rfl, List.forall_mem_cons.mpr ⟨hw, hws⟩,
          (hmarks w ws).mpr ⟨next, hnext, hlater⟩⟩
      · rintro ⟨ws, hps, hws, hjoin⟩
        obtain ⟨w, ws, rfl, rfl, rfl⟩ := List.map_eq_cons_iff.mp hps.symm
        obtain ⟨hw, hws⟩ := List.forall_mem_cons.mp hws
        obtain ⟨next, hnext, hlater⟩ := (hmarks w ws).mp hjoin
        exact ⟨next, ⟨w, hw, rfl, hnext⟩, ws, rfl, hws, hlater⟩

section Reader

variable {read : ItemReader} (hread : read.Faithful)

include hread

/-- The items of an attribute are accepted exactly when they are a list of `skip` and `base` that
goes with the marks there are. -/
theorem withItems_eq_ok_iff {role role' : Role} {ts : List Token} :
    role.withItems read ts = .ok role' ↔ Listing ts ∧
      role.join (Token.word "skip" ∈ ts) (Token.word "base" ∈ ts) = some role' := by
  have hends : role.withItems read ts = .ok role' ↔
      (read ts).1.foldlM withItem role = .ok role' ∧ (read ts).2 = none := by
    unfold withItems
    split
    next h => simp [h]
    next role'' h => cases (read ts).2 <;> simp [h]
  rw [hends, foldlM_withItem_eq_ok_iff]
  constructor
  · rintro ⟨⟨ws, hpaths, hws, hjoin⟩, hend⟩
    have hseparated := (hread ts ws).mp (Prod.ext hpaths hend)
    exact ⟨⟨ws, hseparated, hws⟩, by simpa only [hseparated.mem_iff] using hjoin⟩
  · rintro ⟨⟨ws, hseparated, hws⟩, hjoin⟩
    have hpaths := (hread ts ws).mpr hseparated
    rw [hpaths]
    exact ⟨⟨ws, rfl, hws, by simpa only [hseparated.mem_iff] using hjoin⟩, rfl⟩

theorem withAttribute_eq_ok_iff {role role' : Role} {a : Attribute} :
    role.withAttribute read a = .ok role' ↔
      a.Lists ∧ role.join (a.mentions "skip") (a.mentions "base") = some role' := by
  unfold withAttribute Attribute.Lists Attribute.mentions
  cases a.arguments with
  | none => simp
  | value ts => simp
  | list d ts => simp [withItems_eq_ok_iff hread]

/-- The attributes of a field give it a role exactly when they mark it well. -/
theorem readFrom_eq_ok_iff {attributes : List Attribute} {role : Role} :
    readFrom read attributes = .ok role ↔ WellMarked attributes ∧
      ofMarks (marked "skip" attributes) (marked "base" attributes) = some role := by
  have hfold (as : List Attribute) (start : Role) : as.foldlM (withAttribute read) start = .ok role ↔
      (∀ a ∈ as, a.Lists) ∧
        start.join (as.any (·.mentions "skip")) (as.any (·.mentions "base")) = some role := by
    induction as generalizing start with
    | nil => simp [pure, Except.pure]
    | cons a as ih =>
        rw [List.foldlM_cons, bind_eq_ok_iff, List.forall_mem_cons, List.any_cons, List.any_cons,
          join_eq_some_iff]
        simp only [withAttribute_eq_ok_iff hread, ih]
        constructor
        · rintro ⟨next, ⟨ha, hnext⟩, has, hlater⟩
          exact ⟨⟨ha, has⟩, next, hnext, hlater⟩
        · rintro ⟨⟨ha, has⟩, next, hnext, hlater⟩
          exact ⟨next, ⟨ha, hnext⟩, has, hlater⟩
  rw [readFrom, hfold, join_owned]
  constructor
  · rintro ⟨hlists, hmarks⟩
    refine ⟨⟨hlists, ?_⟩, hmarks⟩
    rintro ⟨hskip, hbase⟩
    rw [marked] at hskip hbase
    rw [hskip, hbase] at hmarks
    cases hmarks
  · rintro ⟨hwell, hmarks⟩
    exact ⟨hwell.lists, hmarks⟩

end Reader

end RootedHeap.Role

/-! ## Arrangements -/

namespace RootedHeap.Role

variable {α β γ : Type}

/-- Parts of the same roles are arranged alike. -/
theorem forall₂_arrange {R : α → β → Prop} {parts : List (Role × α)} {parts' : List (Role × β)}
    (h : List.Forall₂ (fun e e' => e.1 = e'.1 ∧ R e.2 e'.2) parts parts') :
    List.Forall₂ R (arrange parts) (arrange parts') := by
  have hfiltered (role : Role) : List.Forall₂ R ((parts.filter (·.1 = role)).map (·.2))
      ((parts'.filter (·.1 = role)).map (·.2)) := by
    induction h with
    | nil => exact .nil
    | @cons e e' _ _ he _ ih =>
        rw [List.filter_cons, List.filter_cons, he.1]
        split
        · exact .cons he.2 ih
        · exact ih
  exact List.rel_append (hfiltered .base) (hfiltered .owned)

theorem forall₂_zip {R : α → β → Prop} {as : List α} {bs : List β} (h : List.Forall₂ R as bs)
    (cs : List γ) : List.Forall₂ (fun e e' => e.1 = e'.1 ∧ R e.2 e'.2) (cs.zip as) (cs.zip bs) := by
  induction h generalizing cs with
  | nil => simp
  | cons hab _ ih =>
      cases cs with
      | nil => exact .nil
      | cons c cs => exact .cons ⟨rfl, hab⟩ (ih cs)

end RootedHeap.Role

namespace RootedHeap.Derive

namespace Layout

/-- The fields whose attributes satisfy `p`, in declaration order. -/
def fieldsWhere (layout : Layout) (p : List Attribute → Bool) : List Nat :=
  (List.range layout.attributes.length).filter fun i => layout.attributes[i]?.any p

/-- The fields that a traversal follows, in order: all that are marked as base, then all others that
are not to be skipped. -/
def order (layout : Layout) : List Nat :=
  layout.fieldsWhere (marked "base") ++
    layout.fieldsWhere fun attributes => !marked "base" attributes && !marked "skip" attributes

/-- The fields are marked well, and the roles are those of their marks. -/
def HasRoles (layout : Layout) (roles : List Role) : Prop :=
  List.Forall₂ (fun attributes role => WellMarked attributes ∧
    Role.ofMarks (marked "skip" attributes) (marked "base" attributes) = some role)
    layout.attributes roles

variable {layout : Layout} {roles : List Role}

theorem roles_eq_ok_iff {read : ItemReader} (hread : read.Faithful) :
    layout.roles read = .ok roles ↔ layout.HasRoles roles := by
  simp only [Layout.roles, HasRoles, mapM_eq_ok_iff, Role.readFrom_eq_ok_iff hread]

theorem exists_hasRoles_iff : (∃ roles, layout.HasRoles roles) ↔
    ∀ attributes ∈ layout.attributes, WellMarked attributes := by
  simp only [HasRoles, exists_forall₂_iff]
  refine forall₂_congr fun attributes _ => ?_
  constructor
  · rintro ⟨role, hwell, -⟩
    exact hwell
  · intro hwell
    have hapart := hwell.apart
    cases hskip : marked "skip" attributes with
    | false => cases hbase : marked "base" attributes <;> exact ⟨_, hwell, rfl⟩
    | true =>
        cases hbase : marked "base" attributes with
        | false => exact ⟨_, hwell, rfl⟩
        | true => exact absurd ⟨hskip, hbase⟩ hapart

section Roles

variable (h : layout.HasRoles roles)

include h

theorem length_roles : roles.length = layout.attributes.length :=
  h.length_eq.symm

theorem order_eq : layout.order =
    (List.range roles.length).filter (fun i => roles[i]? = some .base) ++
      (List.range roles.length).filter (fun i => roles[i]? = some .owned) := by
  have hfields (p : List Attribute → Bool) (role : Role)
      (hp : ∀ attributes role', Role.ofMarks (marked "skip" attributes) (marked "base" attributes) =
        some role' → p attributes = decide (role' = role)) :
      layout.fieldsWhere p = (List.range roles.length).filter fun i => roles[i]? = some role := by
    rw [fieldsWhere, length_roles h]
    apply List.filter_congr
    intro i hi
    have hi : i < layout.attributes.length := List.mem_range.mp hi
    have hi' : i < roles.length := (length_roles h).symm ▸ hi
    have hrole := (List.Forall₂.get h hi hi').2
    simp only [List.get_eq_getElem] at hrole
    simp [hi, hi', hp _ _ hrole]
  rw [order, hfields _ .base, hfields _ .owned]
  · intro attributes role
    cases marked "skip" attributes <;> cases marked "base" attributes <;> cases role <;>
      simp [Role.ofMarks]
  · intro attributes role
    cases marked "skip" attributes <;> cases marked "base" attributes <;> cases role <;>
      simp [Role.ofMarks]

/-- The roles arrange the fields in that order. -/
theorem arrange_range : Role.arrange (roles.zip (List.range roles.length)) = layout.order := by
  have hzip : roles.zip (List.range roles.length) =
      (List.range roles.length).map fun i => (roles.getD i .owned, i) := by
    apply List.ext_getElem
    · simp
    · intro i hi _
      have hi : i < roles.length := by simpa using hi
      simp [hi]
  have hfilter (role : Role) :
      (((List.range roles.length).map fun i => (roles.getD i .owned, i)).filter
        (·.1 = role)).map (·.2) =
      (List.range roles.length).filter fun i => roles[i]? = some role := by
    rw [List.filter_map, List.map_map]
    have hmap : ((fun e : Role × Nat => e.2) ∘ fun i => (roles.getD i .owned, i)) = id := rfl
    rw [hmap, List.map_id]
    apply List.filter_congr
    intro i hi
    have hi : i < roles.length := List.mem_range.mp hi
    simp [hi]
  rw [order_eq h, hzip, Role.arrange, hfilter, hfilter]

theorem mem_order {i : Nat} : i ∈ layout.order ↔ ∃ role, roles[i]? = some role ∧ role ≠ .skipped := by
  rw [order_eq h, List.mem_append, List.mem_filter, List.mem_filter, List.mem_range]
  by_cases hi : i < roles.length
  · cases hrole : roles[i] <;> simp [hi, hrole]
  · simp [hi]

end Roles

/-! ## Structs and arms -/

/-- `a` is how a struct reaches its field `i`. -/
def Reaches : Layout → Nat → Access → Prop
  | named fields, i, .field name => fields[i]?.map (·.1) = some name
  | tuple fields, i, .position j => i < fields.length ∧ j = i
  | _, _, _ => False

/-- No name stands for two fields. -/
def Distinct : Layout → Prop
  | named fields => (fields.map (·.1)).Nodup
  | tuple _ | unit => True

/-- The pattern has the form of the variant's fields, and names no others. -/
def Accepts : Layout → Pattern → Prop
  | named fields, .named bindings => ∀ b ∈ bindings, b.1 ∈ fields.map (·.1)
  | tuple fields, .tuple places => places.length = fields.length
  | unit, .unit => True
  | _, _ => False

/-- In the pattern, the name `x` is bound to field `i`. -/
def Binds : Layout → Pattern → String → Nat → Prop
  | named fields, .named bindings, x, i =>
    ∃ b ∈ bindings, bindingName b.2 = x ∧ fields[i]?.map (·.1) = some b.1
  | tuple _, .tuple places, x, i => ∃ k, places[i]? = some (some k) ∧ bindingName k = x
  | _, _, _, _ => False

theorem reaches_accesses (layout : Layout) :
    List.Forall₂ (fun i a => layout.Reaches i a) (List.range layout.attributes.length)
      layout.accesses := by
  cases layout with
  | unit => exact .nil
  | named fields =>
      rw [List.forall₂_iff_get]
      refine ⟨by simp [accesses, attributes], fun i hi _ => ?_⟩
      have hi : i < fields.length := by simpa [attributes] using hi
      simp [Reaches, accesses, hi]
  | tuple fields =>
      rw [List.forall₂_iff_get]
      refine ⟨by simp [accesses, attributes], fun i hi _ => ?_⟩
      have hi : i < fields.length := by simpa [attributes] using hi
      simp [Reaches, accesses, hi]

/-- Bindings of different numbers have different names. -/
theorem bindingName_injective : Function.Injective bindingName := by
  intro k k' h
  have hrepr : k.repr = k'.repr := (String.append_right_inj _).mp h
  have hread := congrArg (fun digits => Nat.ofDigitChars 10 digits.toList 0) hrepr
  simpa only [Nat.toList_repr, Nat.ofDigitChars_toDigits (b := 10) (by decide) (by decide)]
    using hread

theorem mem_named_pattern (fields : List (String × List Attribute)) (roles : List Role)
    {b : String × Nat} :
    (∃ bindings, (named fields).pattern roles = .named bindings ∧ b ∈ bindings) ↔
      ∃ role, fields[b.2]?.map (·.1) = some b.1 ∧ roles[b.2]? = some role ∧ role ≠ .skipped := by
  obtain ⟨name, k⟩ := b
  simp only [pattern, Pattern.named.injEq, exists_eq_left', List.mem_filterMap, Prod.exists,
    List.mem_zipIdx_iff_getElem?, List.getElem?_zip_eq_some]
  constructor
  · rintro ⟨name', attributes, role, i, ⟨hfield, hrole⟩, hbound⟩
    split at hbound
    · cases hbound
    next hkept =>
      cases hbound
      exact ⟨role, by simp [hfield], hrole, hkept⟩
  · rintro ⟨role, hfield, hrole, hkept⟩
    obtain ⟨⟨name', attributes⟩, hmember, rfl⟩ := Option.map_eq_some_iff.mp hfield
    exact ⟨name', attributes, role, k, ⟨hmember, hrole⟩, if_neg hkept⟩

theorem getElem?_tuple_pattern (fields : List (List Attribute)) (roles : List Role) {k i : Nat} :
    (∃ places, (tuple fields).pattern roles = .tuple places ∧ places[i]? = some (some k)) ↔
      k = i ∧ ∃ role, roles[i]? = some role ∧ role ≠ .skipped := by
  simp only [pattern, Pattern.tuple.injEq, exists_eq_left', List.getElem?_map,
    List.getElem?_zipIdx, Option.map_map, Option.map_eq_some_iff, Function.comp_apply, Nat.zero_add]
  constructor
  · rintro ⟨role, hrole, hbound⟩
    split at hbound
    · cases hbound
    next hkept =>
      cases hbound
      exact ⟨rfl, role, hrole, hkept⟩
  · rintro ⟨rfl, role, hrole, hkept⟩
    exact ⟨role, hrole, if_neg hkept⟩

theorem accepts_pattern (h : layout.HasRoles roles) :
    layout.Accepts (layout.pattern roles) := by
  have hlength := length_roles h
  cases layout with
  | unit => trivial
  | tuple fields => simpa [Accepts, pattern, attributes] using hlength
  | named fields =>
      intro b hb
      obtain ⟨_, hfield, -⟩ := (mem_named_pattern fields roles).mp ⟨_, rfl, hb⟩
      obtain ⟨f, hf, heq⟩ := Option.map_eq_some_iff.mp hfield
      exact List.mem_map.mpr ⟨f, List.mem_of_getElem? hf, heq⟩

/-- In the pattern for a variant, a field that is followed is bound to the name numbered for it. -/
theorem binds_of_mem_order (h : layout.HasRoles roles) {i : Nat} (hi : i ∈ layout.order) :
    layout.Binds (layout.pattern roles) (bindingName i) i := by
  have hrole := (mem_order h).mp hi
  have hlength := length_roles h
  cases layout with
  | unit =>
      have hnil : roles = [] := List.eq_nil_of_length_eq_zero hlength
      simp [hnil] at hrole
  | tuple fields =>
      obtain ⟨_, hpattern, hplace⟩ := (getElem?_tuple_pattern fields roles).mpr ⟨rfl, hrole⟩
      rw [hpattern]
      exact ⟨i, hplace, rfl⟩
  | named fields =>
      obtain ⟨role, hrole, hkept⟩ := hrole
      have hi : i < fields.length := by
        rw [← show roles.length = fields.length by simpa [attributes] using hlength]
        exact (List.getElem?_eq_some_iff.mp hrole).1
      have hfield : fields[i]?.map (·.1) = some fields[i].1 := by simp [hi]
      obtain ⟨_, hpattern, hb⟩ := (mem_named_pattern fields roles (b := (fields[i].1, i))).mpr
        ⟨role, hfield, hrole, hkept⟩
      rw [hpattern]
      exact ⟨_, hb, rfl, hfield⟩

/-- That name is bound to no other field. -/
theorem eq_of_binds (hdistinct : layout.Distinct) {k i : Nat}
    (hbinds : layout.Binds (layout.pattern roles) (bindingName k) i) : i = k := by
  cases layout with
  | unit => exact hbinds.elim
  | tuple fields =>
      obtain ⟨k', hplace, hname⟩ := hbinds
      obtain ⟨rfl, -⟩ := (getElem?_tuple_pattern fields roles).mp ⟨_, rfl, hplace⟩
      exact bindingName_injective hname
  | named fields =>
      obtain ⟨b, hb, hname, hfield⟩ := hbinds
      obtain ⟨_, hown, -⟩ := (mem_named_pattern fields roles).mp ⟨_, rfl, hb⟩
      rw [← bindingName_injective hname]
      rw [← List.getElem?_map] at hfield hown
      have hi := (List.getElem?_eq_some_iff.mp hfield).1
      exact (List.getElem?_inj hi hdistinct).mp (hfield.trans hown.symm)

end Layout

/-! ## Expansions -/

/-- In the arm for a variant, the call is on the name that the arm's pattern gives to field `i`, and
to no other field. -/
def Arm.Calls (arm : Arm) (layout : Layout) (half : Half) (i : Nat) (call : Call) : Prop :=
  call.half = half ∧ ∃ k, call.target = .binding k ∧
    layout.Binds arm.pattern (bindingName k) i ∧
      (layout.Distinct → ∀ j, layout.Binds arm.pattern (bindingName k) j → j = i)

/-- The arm is for the variant, and calls `half` on the variant's fields in order. -/
structure Arm.Serves (half : Half) (v : Variant) (arm : Arm) : Prop where
  variant : arm.variant = v.name
  accepts : v.layout.Accepts arm.pattern
  calls : List.Forall₂ (arm.Calls v.layout half) v.layout.order arm.calls

/-- The body calls `half` on the fields of a struct in order, or chooses between the variants of an
enum, with one arm for each. -/
def Body.Traverses (half : Half) : Data → Body → Prop
  | .struct layout, .calls made =>
    List.Forall₂ (fun i (call : Call) => call.half = half ∧ layout.Reaches i call.target)
      layout.order made
  | .enum variants, .choice arms => List.Forall₂ (Arm.Serves half) variants arms
  | _, _ => False

/-- The definition is of a struct or an enum, and all its fields are marked well. -/
def Data.WellMarked : Data → Prop
  | .struct layout => ∀ attributes ∈ layout.attributes, Derive.WellMarked attributes
  | .enum variants =>
    ∀ v ∈ variants, ∀ attributes ∈ v.layout.attributes, Derive.WellMarked attributes
  | .union _ => False

theorem Half.calls_bindings {layout : Layout} {roles : List Role} (h : layout.HasRoles roles)
    (half : Half) : half.calls (roles.zip layout.bindings) =
      layout.order.map fun i => ⟨half, .binding i⟩ := by
  rw [Half.calls, Layout.bindings, ← Layout.length_roles h, List.zip_map_right,
    ← Layout.arrange_range h]
  have hmap : (roles.zip (List.range roles.length)).map (Prod.map id Access.binding) =
      (roles.zip (List.range roles.length)).map fun e => (e.1, Access.binding e.2) := rfl
  rw [hmap, Role.arrange_map, List.map_map]
  rfl

section Reader

variable {read : ItemReader} (hread : read.Faithful)

include hread

theorem Variant.arm_serves {half : Half} {v : Variant} {arm : Arm} (h : v.arm read half = .ok arm) :
    Arm.Serves half v arm := by
  unfold Variant.arm at h
  split at h
  next roles hok =>
    cases h
    have hroles := (Layout.roles_eq_ok_iff hread).mp hok
    refine ⟨rfl, Layout.accepts_pattern hroles, ?_⟩
    rw [Half.calls_bindings hroles, List.forall₂_map_right_iff, List.forall₂_same]
    intro i hi
    exact ⟨rfl, i, rfl, Layout.binds_of_mem_order hroles hi, fun hdistinct j hj =>
      Layout.eq_of_binds hdistinct hj⟩
  next => cases h

theorem Data.body_traverses {half : Half} {data : Data} {body : Body}
    (h : data.body read half = .ok body) : body.Traverses half data := by
  unfold Data.body at h
  cases data with
  | union layout => cases h
  | struct layout =>
      dsimp only at h
      split at h
      next roles hok =>
        cases h
        have hroles := (Layout.roles_eq_ok_iff hread).mp hok
        have hfields := Role.forall₂_arrange
          (Role.forall₂_zip (Layout.reaches_accesses layout) roles)
        rw [← Layout.length_roles hroles, Layout.arrange_range hroles] at hfields
        refine List.forall₂_map_right_iff.mpr ?_
        exact hfields.imp fun _ _ hreaches => ⟨rfl, hreaches⟩
      next => cases h
  | enum variants =>
      dsimp only at h
      split at h
      next arms harms =>
        cases h
        exact (mapM_eq_ok_iff.mp harms).imp fun _ _ => Variant.arm_serves hread
      next => cases h

theorem Data.exists_body_iff (half : Half) (data : Data) :
    (∃ body, data.body read half = .ok body) ↔ data.WellMarked := by
  have hroles (layout : Layout) : (∃ roles, layout.roles read = .ok roles) ↔
      ∀ attributes ∈ layout.attributes, Derive.WellMarked attributes := by
    simp only [Layout.roles_eq_ok_iff hread, Layout.exists_hasRoles_iff]
  have harm (v : Variant) : (∃ arm, v.arm read half = .ok arm) ↔
      ∃ roles, v.layout.roles read = .ok roles := by
    unfold Variant.arm
    cases v.layout.roles read <;> simp
  cases data with
  | union layout => simp [Data.body, Data.WellMarked]
  | struct layout =>
      simp only [Data.body, Data.WellMarked, ← hroles]
      cases layout.roles read <;> simp
  | enum variants =>
      simp only [Data.body, Data.WellMarked, ← hroles, ← harm, ← exists_forall₂_iff,
        ← mapM_eq_ok_iff]
      cases variants.mapM (·.arm read half) <;> simp

end Reader

/-- An enum with a variant whose first field is skipped and whose last is a base. -/
def linkItem : Item :=
  let gc (w : String) : List Attribute := [⟨.ofWord "gc", .list .paren [.word w]⟩]
  ⟨"Node", {}, .enum [⟨"Leaf", .unit⟩, ⟨"Link", .tuple [gc "skip", [], gc "base"]⟩]⟩

/-- Either half of its expansion: there is no call for the skipped field, and the base comes first. -/
def linkBody (half : Half) : Body :=
  .choice [⟨"Leaf", .unit, []⟩,
    ⟨"Link", .tuple [none, some 1, some 2], [⟨half, .binding 2⟩, ⟨half, .binding 1⟩]⟩]

end RootedHeap.Derive
