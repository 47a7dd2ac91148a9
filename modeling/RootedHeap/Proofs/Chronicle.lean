import Mathlib.Data.List.Induction
import RootedHeap.Proofs.Roots

/-! # The history of a registry

A registry keeps no record of the roots it released: it tells them from roots that were never issued by
its counter alone. What it answers is nevertheless what a record of all requests and answers would say
(`Registry.transcript_answers`): a root is active if it was issued and not released since, and its
target is the one it was given last.
-/

namespace RootedHeap.Registry

/-- What can be asked of a registry. -/
inductive Request where
  | acquire (target : ObjId)
  | release (r : RootId)
  | retarget (r : RootId) (target : ObjId)
  deriving DecidableEq, Repr

/-- What a registry answers. -/
inductive Answer where
  | issued (r : RootId)
  /-- The root that was asked for pointed at `target`. -/
  | former (target : ObjId)
  | refused (cause : Violation)
  deriving DecidableEq, Repr

namespace Request

/-- The answer to a request, and the registry that is left. -/
def answer (g : Registry) : Request → Answer × Registry
  | acquire target => (.issued (g.acquire target).1, (g.acquire target).2)
  | release r =>
    match g.release r with
    | .ok (target, g') => (.former target, g')
    | .error cause => (.refused cause, g)
  | retarget r target =>
    match g.retarget r target with
    | .ok (old, g') => (.former old, g')
    | .error cause => (.refused cause, g)

/-- The root that a request is about, if it is about one that ought to be there. -/
def root? : Request → Option RootId
  | acquire _ => none
  | release r | retarget r _ => some r

end Request

/-- A record of requests with their answers, in order. -/
abbrev Record := List (Request × Answer)

namespace Record

/-- The roots that were issued, in order. -/
def issued (past : Record) : List RootId :=
  past.filterMap fun
    | (_, .issued r) => some r
    | _ => none

/-- The roots that were released, in order. -/
def released (past : Record) : List RootId :=
  past.filterMap fun
    | (.release r, .former _) => some r
    | _ => none

/-- The targets that `r` was given, in order. -/
def targets (r : RootId) (past : Record) : List ObjId :=
  past.filterMap fun
    | (.acquire t, .issued r') => if r' = r then some t else none
    | (.retarget r' t, .former _) => if r' = r then some t else none
    | _ => none

/-- `r` was issued, and not released since. -/
def Outstanding (past : Record) (r : RootId) : Prop := r ∈ past.issued ∧ r ∉ past.released

@[simp] theorem issued_append (past more : Record) :
    issued (past ++ more) = past.issued ++ more.issued := List.filterMap_append

@[simp] theorem released_append (past more : Record) :
    released (past ++ more) = past.released ++ more.released := List.filterMap_append

@[simp] theorem targets_append (r : RootId) (past more : Record) :
    targets r (past ++ more) = past.targets r ++ more.targets r := List.filterMap_append

end Record

/-- One more request is put on record. -/
def ask (s : Record × Registry) (q : Request) : Record × Registry :=
  (s.1 ++ [(q, (q.answer s.2).1)], (q.answer s.2).2)

/-- The record of `qs`, from the beginning, and the registry that is left. -/
def transcript (qs : List Request) : Record × Registry := qs.foldl ask ([], .empty)

theorem transcript_concat (qs : List Request) (q : Request) :
    transcript (qs ++ [q]) = ask (transcript qs) q := by
  simp [transcript]

/-! ## What the record says of the registry -/

variable {g : Registry} {r : RootId} {o t : ObjId}

theorem lookup_redirect (r r' : RootId) (t : ObjId) (active : List (RootId × ObjId)) :
    (active.map fun e => if e.1 = r then (r, t) else e).lookup r' =
      if r' = r then (active.lookup r).map fun _ => t else active.lookup r' := by
  induction active with
  | nil => simp
  | cons e active ih =>
      obtain ⟨s, o⟩ := e
      rw [List.map_cons, lookup_cons_ite, lookup_cons_ite]
      by_cases hs : s = r
      · subst hs
        rw [if_pos rfl, lookup_cons_ite, ih]
        by_cases hr : r' = s
        · simp [hr]
        · simp [hr]
      · rw [if_neg hs, lookup_cons_ite, ih, if_neg (Ne.symm hs)]
        by_cases hr : r' = r
        · subst hr
          simp [Ne.symm hs]
        · simp [hr]

theorem target?_redirect (r' : RootId) :
    (g.redirect r t).target? r' =
      if r' = r then (g.target? r).map fun _ => t else g.target? r' :=
  lookup_redirect r r' t g.active

theorem target?_without (r' : RootId) :
    (g.without r).target? r' = if r' = r then none else g.target? r' :=
  lookup_filter_ne r r' g.active

theorem size_without (hnodup : (g.active.map Prod.fst).Nodup) (h : g.target? r = some o) :
    (g.without r).size + 1 = g.size := by
  have hmem := (target?_eq_some_iff hnodup).mp h
  have hcard := congrArg Multiset.card (without_eq_erase hnodup hmem)
  rw [Multiset.coe_card, Multiset.card_erase_of_mem (Multiset.mem_coe.mpr hmem), Multiset.coe_card,
    Nat.pred_eq_sub_one] at hcard
  have := List.length_pos_of_mem hmem
  unfold size
  omega

theorem release_missing (h : g.target? r = none) : g.release r = .error (g.missing r) := by
  unfold release
  rw [h]

theorem retarget_missing (h : g.target? r = none) : g.retarget r t = .error (g.missing r) := by
  unfold retarget
  rw [h]

theorem answer_release (h : g.target? r = some o) :
    (Request.release r).answer g = (.former o, g.without r) := by
  simp only [Request.answer, release_eq h]

theorem answer_retarget (h : g.target? r = some o) :
    (Request.retarget r t).answer g = (.former o, g.redirect r t) := by
  simp only [Request.answer, retarget_eq h]

/-- A request about a root that is not active is refused, and changes nothing. -/
theorem answer_missing {q : Request} (hq : q.root? = some r) (h : g.target? r = none) :
    q.answer g = (.refused (g.missing r), g) := by
  cases q with
  | acquire => cases hq
  | release | retarget =>
      cases Option.some.inj hq
      simp only [Request.answer, release_missing h, retarget_missing h]

/-- The registry is as the record says: the counter is one ahead of the roots issued, and the
outstanding ones are active, with the targets given to them last. -/
structure Follows (past : Record) (g : Registry) : Prop where
  issued_eq : past.issued = List.range' 1 past.issued.length
  released_issued : past.released ⊆ past.issued
  next_eq : g.next = past.issued.length + 1
  nodup : (g.active.map Prod.fst).Nodup
  outstanding_iff : ∀ r, past.Outstanding r ↔ (g.target? r).isSome
  target_eq : ∀ r t, g.target? r = some t → (past.targets r).getLast? = some t
  size_eq : g.size + past.released.length = past.issued.length

namespace Follows

variable {past : Record}

theorem mem_issued_iff (h : Follows past g) : r ∈ past.issued ↔ r ≠ 0 ∧ r < g.next := by
  have hmem := List.mem_range'_1 (m := r) (s := 1) (n := past.issued.length)
  rw [← h.issued_eq] at hmem
  rw [hmem, h.next_eq, Nat.add_comm 1]
  exact and_congr_left fun _ => Nat.one_le_iff_ne_zero

theorem outstanding (h : Follows past g) (htarget : g.target? r = some o) : past.Outstanding r :=
  (h.outstanding_iff r).mpr (by rw [htarget]; rfl)

/-- What is refused, and why, is as the record says. -/
theorem missing_eq (h : Follows past g) : g.missing r =
    if r ∈ past.issued then .doubleRootRelease r else .unknownRoot r := by
  simp only [missing, h.mem_issued_iff]

theorem start : Follows [] .empty := by
  refine ⟨rfl, List.Subset.refl _, rfl, List.nodup_nil, fun r => ?_, fun r t ht => ?_, rfl⟩
  · simp [Record.Outstanding, Record.issued, target?, empty]
  · simp [target?, empty] at ht

/-- The next root was not issued yet. -/
theorem next_notMem (h : Follows past g) : g.next ∉ past.issued := fun hmem =>
  Nat.lt_irrefl _ (h.mem_issued_iff.mp hmem).2

/-- A new root is outstanding, and points where it was acquired for. -/
theorem acquire (h : Follows past g) (t : ObjId) :
    Follows (past ++ [(.acquire t, .issued g.next)]) (g.acquire t).2 := by
  have hissued : Record.issued [(.acquire t, .issued g.next)] = [g.next] := rfl
  have hreleased : Record.released [(.acquire t, .issued g.next)] = [] := rfl
  have hnone : g.target? g.next = none := by
    rw [← Option.not_isSome_iff_eq_none, ← h.outstanding_iff]
    exact fun hout => h.next_notMem hout.1
  refine ⟨?_, ?_, ?_, ?_, fun r => ?_, fun r t' ht => ?_, ?_⟩
  · rw [Record.issued_append, hissued, List.length_append, List.length_singleton,
      ← List.range'_append_1, ← h.issued_eq, h.next_eq, Nat.add_comm]
    rfl
  · rw [Record.issued_append, Record.released_append, hreleased, List.append_nil]
    exact fun r hr => List.mem_append_left _ (h.released_issued hr)
  · rw [Record.issued_append, hissued, List.length_append, List.length_singleton, ← h.next_eq]
    rfl
  · refine List.nodup_cons.mpr ⟨fun hmem => ?_, h.nodup⟩
    obtain ⟨e, he, heq⟩ := List.mem_map.mp hmem
    have hfirst : e.1 = g.next := heq
    have htarget := (target?_eq_some_iff h.nodup).mpr he
    rw [hfirst, hnone] at htarget
    cases htarget
  · have hold := h.outstanding_iff r
    rw [target?_acquire, Record.Outstanding, Record.issued_append, Record.released_append, hissued,
      hreleased, List.append_nil, List.mem_append, List.mem_singleton]
    -- only the new root changes its standing
    by_cases hr : r = g.next
    · have hnot : r ∉ past.released := fun hmem => h.next_notMem (hr ▸ h.released_issued hmem)
      simp [hr, hr ▸ hnot]
    · simpa [hr, Record.Outstanding] using hold
  · rw [target?_acquire] at ht
    rw [Record.targets_append]
    by_cases hr : r = g.next
    · rw [if_pos hr] at ht
      simp [Record.targets, hr, Option.some.inj ht]
    · rw [if_neg hr] at ht
      simpa [Record.targets, Ne.symm hr] using h.target_eq r t' ht
  · rw [Record.issued_append, Record.released_append, hissued, hreleased, List.append_nil,
      List.length_append, List.length_singleton, ← h.size_eq]
    simp only [Registry.acquire, size, List.length_cons]
    omega

/-- A root that was released is no longer outstanding; the others are as they were. -/
theorem release (h : Follows past g) (htarget : g.target? r = some o) :
    Follows (past ++ [(.release r, .former o)]) (g.without r) := by
  have hissued : Record.issued [(.release r, .former o)] = [] := rfl
  have hreleased : Record.released [(.release r, .former o)] = [r] := rfl
  refine ⟨?_, ?_, ?_, ?_, fun r' => ?_, fun r' t ht => ?_, ?_⟩
  · rw [Record.issued_append, hissued, List.append_nil]
    exact h.issued_eq
  · rw [Record.issued_append, Record.released_append, hissued, hreleased, List.append_nil]
    refine List.append_subset.mpr ⟨h.released_issued, fun r' hr => ?_⟩
    rw [List.mem_singleton.mp hr]
    exact (h.outstanding htarget).1
  · rw [Record.issued_append, hissued, List.append_nil]
    exact h.next_eq
  · exact h.nodup.sublist (List.filter_sublist.map _)
  · have hold := h.outstanding_iff r'
    rw [target?_without, Record.Outstanding, Record.issued_append, Record.released_append, hissued,
      hreleased, List.append_nil, List.mem_append, List.mem_singleton]
    by_cases hr : r' = r
    · simp [hr]
    · simpa [hr, Record.Outstanding] using hold
  · rw [target?_without] at ht
    rw [Record.targets_append]
    split_ifs at ht
    simpa [Record.targets] using h.target_eq r' t ht
  · have hsize := size_without h.nodup htarget
    have := h.size_eq
    rw [Record.issued_append, Record.released_append, hissued, hreleased, List.append_nil,
      List.length_append, List.length_singleton]
    omega

/-- An answer that neither issues nor releases a root leaves the same roots, whatever their targets. -/
theorem concat {g' : Registry} {e : Request × Answer} (h : Follows past g)
    (hissued : Record.issued [e] = []) (hreleased : Record.released [e] = [])
    (hnext : g'.next = g.next) (hkeys : g'.active.map Prod.fst = g.active.map Prod.fst)
    (hsome : ∀ r, (g'.target? r).isSome = (g.target? r).isSome)
    (htarget : ∀ r t, g'.target? r = some t → ((past ++ [e]).targets r).getLast? = some t) :
    Follows (past ++ [e]) g' := by
  have hissued' : (past ++ [e]).issued = past.issued := by
    rw [Record.issued_append, hissued, List.append_nil]
  have hreleased' : (past ++ [e]).released = past.released := by
    rw [Record.released_append, hreleased, List.append_nil]
  have hsize : g'.size = g.size := by
    have hlength := congrArg List.length hkeys
    rwa [List.length_map, List.length_map] at hlength
  refine ⟨?_, ?_, ?_, hkeys ▸ h.nodup, fun r => ?_, htarget, ?_⟩
  · rw [hissued']
    exact h.issued_eq
  · rw [hissued', hreleased']
    exact h.released_issued
  · rw [hissued', hnext]
    exact h.next_eq
  · rw [Record.Outstanding, hissued', hreleased', hsome]
    exact h.outstanding_iff r
  · rw [hissued', hreleased', hsize]
    exact h.size_eq

/-- A root that was redirected points at its new target; the others are as they were. -/
theorem retarget (h : Follows past g) (htarget : g.target? r = some o) (t : ObjId) :
    Follows (past ++ [(.retarget r t, .former o)]) (g.redirect r t) := by
  refine h.concat rfl rfl rfl keys_redirect (fun r' => ?_) fun r' t' ht => ?_
  · rw [target?_redirect]
    by_cases hr : r' = r
    · rw [if_pos hr, hr, Option.isSome_map]
    · rw [if_neg hr]
  · rw [target?_redirect] at ht
    rw [Record.targets_append]
    by_cases hr : r' = r
    · rw [if_pos hr, htarget] at ht
      simp [Record.targets, hr, Option.some.inj ht]
    · rw [if_neg hr] at ht
      simpa [Record.targets, Ne.symm hr] using h.target_eq r' t' ht

/-- What was refused leaves nothing behind but its record. -/
theorem refused (h : Follows past g) (q : Request) (cause : Violation) :
    Follows (past ++ [(q, .refused cause)]) g := by
  have hreleased : Record.released [(q, .refused cause)] = [] := by cases q <;> rfl
  have htargets (r : RootId) : Record.targets r [(q, .refused cause)] = [] := by cases q <;> rfl
  refine h.concat rfl hreleased rfl rfl (fun _ => rfl) fun r t ht => ?_
  rw [Record.targets_append, htargets, List.append_nil]
  exact h.target_eq r t ht

/-- Whatever is asked, the registry goes on to follow the record. -/
theorem ask {s : Record × Registry} (h : Follows s.1 s.2) (q : Request) :
    Follows (Registry.ask s q).1 (Registry.ask s q).2 := by
  unfold Registry.ask
  cases q with
  | acquire t => exact h.acquire t
  | release r =>
      cases htarget : s.2.target? r with
      | none =>
          rw [answer_missing rfl htarget]
          exact h.refused _ _
      | some o =>
          rw [answer_release htarget]
          exact h.release htarget
  | retarget r t =>
      cases htarget : s.2.target? r with
      | none =>
          rw [answer_missing rfl htarget]
          exact h.refused _ _
      | some o =>
          rw [answer_retarget htarget]
          exact h.retarget htarget t

end Follows

theorem transcript_follows (qs : List Request) : Follows (transcript qs).1 (transcript qs).2 := by
  induction qs using List.reverseRecOn with
  | nil => exact Follows.start
  | append_singleton qs q ih =>
      rw [transcript_concat]
      exact ih.ask q

theorem length_issued_le (qs : List Request) : (transcript qs).1.issued.length ≤ qs.length := by
  have hlength : (transcript qs).1.length = qs.length := by
    induction qs using List.reverseRecOn with
    | nil => rfl
    | append_singleton qs q ih => simp [transcript_concat, Registry.ask, ih]
  exact hlength ▸ List.length_filterMap_le _ _

/-- A request about an active root is answered with the root's target. -/
theorem answer_active {q : Request} (hq : q.root? = some r) (h : g.target? r = some o) :
    (q.answer g).1 = .former o := by
  cases q with
  | acquire => cases hq
  | release =>
      cases Option.some.inj hq
      rw [answer_release h]
  | retarget =>
      cases Option.some.inj hq
      rw [answer_retarget h]

/-- Whatever was asked of a registry from the beginning, roots were issued as `1`, `2`, `3` and so on,
so that the next one is new, and there are as many roots as were issued and not released. A request
about a root is answered with the target that the root was given last if the root was issued and not
released since. Otherwise the registry stays as it is, and the request is refused: as a second release
if the root was issued, and as unknown if not. The counter is ahead of the requests by one at most. -/
theorem transcript_answers (qs : List Request) :
    let (past, g) := transcript qs
    past.issued = List.range' 1 past.issued.length ∧
    (∀ t, ((Request.acquire t).answer g).1 = .issued (past.issued.length + 1) ∧
      past.issued.length + 1 ∉ past.issued) ∧
    g.size = past.issued.length - past.released.length ∧
    past.released.length ≤ past.issued.length ∧
    g.next ≤ qs.length + 1 ∧
    ∀ (r : RootId) (q : Request), q.root? = some r →
      (past.Outstanding r ↔ ∃ t, (q.answer g).1 = .former t) ∧
      (∀ t, (q.answer g).1 = .former t → (past.targets r).getLast? = some t) ∧
      ((q.answer g).1 = .refused (.doubleRootRelease r) ↔ r ∈ past.issued ∧ ¬ past.Outstanding r) ∧
      ((q.answer g).1 = .refused (.unknownRoot r) ↔ r ∉ past.issued) ∧
      (¬ past.Outstanding r → (q.answer g).2 = g) := by
  have h := transcript_follows qs
  have hlength := length_issued_le qs
  generalize transcript qs = s at h hlength
  obtain ⟨past, g⟩ := s
  have hsize : g.size + past.released.length = past.issued.length := h.size_eq
  refine ⟨h.issued_eq, fun t => ⟨?_, h.next_eq ▸ h.next_notMem⟩, by omega, by omega, ?_,
    fun r q hq => ?_⟩
  · rw [← h.next_eq]
    rfl
  · rw [h.next_eq]
    exact Nat.succ_le_succ hlength
  rw [h.outstanding_iff]
  -- a root is outstanding exactly when the registry has a target for it
  cases htarget : g.target? r with
  | none =>
      rw [answer_missing hq htarget, h.missing_eq]
      by_cases hissued : r ∈ past.issued <;> simp [hissued]
  | some o =>
      have hissued := (h.outstanding htarget).1
      rw [answer_active hq htarget]
      refine ⟨by simp, ?_, by simp, by simp [hissued], by simp⟩
      rintro t ⟨⟩
      exact h.target_eq r o htarget

/-- A root that was redirected and released is refused afterwards, as is one that never was. -/
example : (transcript [.acquire 8, .retarget 1 24, .release 1, .release 1, .release 0]).1.map Prod.snd =
    [.issued 1, .former 8, .former 24, .refused (.doubleRootRelease 1), .refused (.unknownRoot 0)] := by
  decide

end RootedHeap.Registry
