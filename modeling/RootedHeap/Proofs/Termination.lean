import RootedHeap.Proofs.Connection
import RootedHeap.Proofs.Release

/-! # Loops of passes

A pass is a loop over a stack. A round pops an object: the pass gives up there, passes over it, or
enters it, and then the edges of the object go on the stack. Every pass is run here round by round,
on whatever graph its edges make, and comes to the end that the pass functions compute. Nothing is
asked of the tallies or of the edges: the two halves of a value may report different objects, or an
object several times.

A pass that closes what it enters enters each object once (`Walk.Finishes.nodup_entered`), so the objects
bound the rounds; a disconnect pass, which may enter an object again after others, uses up a counted
edge in each round (`disconnectAll_total`).
-/

namespace RootedHeap

namespace Loop

variable {σ : Type} {round : σ → Option σ}

/-- `n` rounds of a loop lead from one state to another. -/
inductive Runs (round : σ → Option σ) : Nat → σ → σ → Prop
  | stop (state : σ) : Runs round 0 state state
  | next {n : Nat} {state middle final : σ} (h : round state = some middle)
      (rest : Runs round n middle final) : Runs round (n + 1) state final

/-- The loop ends after `n` rounds: there is no further one. -/
structure Ends (round : σ → Option σ) (n : Nat) (state final : σ) : Prop where
  runs : Runs round n state final
  ended : round final = none

namespace Ends

theorem now {state : σ} (h : round state = none) : Ends round 0 state state := ⟨.stop state, h⟩

theorem head {n : Nat} {state middle final : σ} (h : round state = some middle)
    (rest : Ends round n middle final) : Ends round (n + 1) state final :=
  ⟨.next h rest.runs, rest.ended⟩

end Ends

/-- What every round keeps holds at the end of a run. -/
theorem Runs.invariant {P : σ → Prop}
    (hround : ∀ state next, P state → round state = some next → P next)
    {n : Nat} {state final : σ} (h : Runs round n state final) (hP : P state) : P final := by
  induction h with
  | stop => exact hP
  | next h _ ih => exact ih (hround _ _ hP h)

end Loop

/-- A pass between two rounds of its loop. -/
structure Walk (σ : Type) where
  /-- The counts or marks the pass works on. -/
  store : σ
  /-- The objects entered so far, in order. -/
  entered : List ObjId
  /-- The objects still to be popped, the next one first. -/
  stack : List ObjId

/-- What becomes of a popped object. -/
inductive Popped (σ : Type) where
  | fatal
  | passed (store : σ)
  | entered (store : σ)

namespace Walk

variable {σ : Type} {pop : σ → ObjId → Popped σ} {edges : ObjId → List ObjId}

/-- A round of a pass; there is none when the stack is empty or the next object is fatal. -/
def round (pop : σ → ObjId → Popped σ) (edges : ObjId → List ObjId) (walk : Walk σ) :
    Option (Walk σ) :=
  match walk.stack with
  | [] => none
  | o :: rest =>
    match pop walk.store o with
    | .fatal => none
    | .passed store => some ⟨store, walk.entered, rest⟩
    | .entered store => some ⟨store, walk.entered ++ [o], (edges o).reverse ++ rest⟩

/-- What a round does: its object is passed over, or entered with its edges put on the stack. -/
theorem round_cases {walk next : Walk σ} (h : round pop edges walk = some next) :
    ∃ store entered o rest, walk = ⟨store, entered, o :: rest⟩ ∧
      ((∃ store', pop store o = .passed store' ∧ next = ⟨store', entered, rest⟩) ∨
        ∃ store', pop store o = .entered store' ∧
          next = ⟨store', entered ++ [o], (edges o).reverse ++ rest⟩) := by
  obtain ⟨store, entered, stack⟩ := walk
  cases stack with
  | nil => simp [round] at h
  | cons o rest =>
      refine ⟨store, entered, o, rest, rfl, ?_⟩
      simp only [round] at h
      split at h
      case h_1 => cases h
      case h_2 store' hpop => exact .inl ⟨store', hpop, (Option.some.inj h).symm⟩
      case h_3 store' hpop => exact .inr ⟨store', hpop, (Option.some.inj h).symm⟩

/-- Started with `stack`, the pass is over after `n` rounds. It has entered `entered` and left
`store`, and either the stack is empty or its first object was `fatal`. -/
def Finishes (pop : σ → ObjId → Popped σ) (edges : ObjId → List ObjId) (start : σ)
    (stack : List ObjId) (n : Nat) (store : σ) (entered : List ObjId) (fatal : Option ObjId) :
    Prop :=
  ∃ left, Loop.Ends (round pop edges) n ⟨start, [], stack⟩ ⟨store, entered, left⟩ ∧
    left.head? = fatal

/-- The walk, preceded by what was entered before. -/
def after (done : List ObjId) (walk : Walk σ) : Walk σ :=
  { walk with entered := done ++ walk.entered }

theorem round_after (done : List ObjId) (walk : Walk σ) :
    round pop edges (walk.after done) = (round pop edges walk).map (after done) := by
  obtain ⟨store, entered, stack⟩ := walk
  cases stack with
  | nil => rfl
  | cons o rest =>
      simp only [round, after]
      cases pop store o <;> simp [after]

theorem ends_after {n : Nat} {walk final : Walk σ} (done : List ObjId)
    (h : Loop.Ends (round pop edges) n walk final) :
    Loop.Ends (round pop edges) n (walk.after done) (final.after done) := by
  obtain ⟨hruns, hended⟩ := h
  induction hruns with
  | stop walk => exact .now (by rw [round_after, hended, Option.map_none])
  | next hround _ ih => exact .head (by rw [round_after, hround, Option.map_some]) (ih hended)

namespace Finishes

variable {start store final : σ} {o : ObjId} {rest entered : List ObjId} {n : Nat}
  {fatal : Option ObjId}

theorem done : Finishes pop edges start [] 0 start [] none := ⟨[], .now rfl, rfl⟩

theorem fails (h : pop start o = .fatal) :
    Finishes pop edges start (o :: rest) 0 start [] (some o) :=
  ⟨o :: rest, .now (by simp [round, h]), rfl⟩

theorem passes (h : pop start o = .passed store)
    (hrest : Finishes pop edges store rest n final entered fatal) :
    Finishes pop edges start (o :: rest) (n + 1) final entered fatal := by
  obtain ⟨left, hends, hleft⟩ := hrest
  exact ⟨left, .head (by simp [round, h]) hends, hleft⟩

theorem enters (h : pop start o = .entered store)
    (hrest : Finishes pop edges store ((edges o).reverse ++ rest) n final entered fatal) :
    Finishes pop edges start (o :: rest) (n + 1) final (o :: entered) fatal := by
  obtain ⟨left, hends, hleft⟩ := hrest
  exact ⟨left, .head (by simp [round, h, after]) (ends_after [o] hends), hleft⟩

end Finishes

/-- Every object that was pushed was popped or is left: the target, and the edges of what was
entered. -/
theorem rounds_add_left {n : Nat} {walk final : Walk σ}
    (h : Loop.Runs (round pop edges) n walk final) :
    n + final.stack.length + (walk.entered.flatMap edges).length =
      walk.stack.length + (final.entered.flatMap edges).length := by
  induction h with
  | stop => omega
  | @next n walk middle final hround _ ih =>
      obtain ⟨store, done, o, rest, rfl, ⟨store', -, rfl⟩ | ⟨store', -, rfl⟩⟩ := round_cases hround
      · simp only [List.length_cons] at ih ⊢
        omega
      · simp only [List.length_cons, List.length_append, List.length_reverse,
          List.flatMap_append, List.flatMap_singleton] at ih ⊢
        omega

/-- The pass enters only what is open, and closes it; nothing is opened again. -/
structure Closes (pop : σ → ObjId → Popped σ) (opened : σ → ObjId → Prop) : Prop where
  passed : ∀ store o store', pop store o = .passed store' → ∀ x, opened store' x → opened store x
  entered : ∀ store o store', pop store o = .entered store' →
    opened store o ∧ ∀ x, opened store' x → opened store x ∧ x ≠ o

/-- A pass that closes what it enters enters each object once, and no object that was closed before. -/
theorem Finishes.nodup_entered {opened : σ → ObjId → Prop} (hcloses : Closes pop opened)
    {start store : σ} {stack entered : List ObjId} {n : Nat} {fatal : Option ObjId}
    (h : Finishes pop edges start stack n store entered fatal) : entered.Nodup := by
  obtain ⟨left, hends, -⟩ := h
  -- what was entered so far is closed, and stays so
  refine (hends.runs.invariant
    (P := fun walk => walk.entered.Nodup ∧ ∀ o ∈ walk.entered, ¬ opened walk.store o)
    (fun walk next hwalk hround => ?_) ⟨List.nodup_nil, by simp⟩).1
  obtain ⟨hnodup, hclosed⟩ := hwalk
  obtain ⟨store, done, o, rest, rfl, ⟨store', hpop, rfl⟩ | ⟨store', hpop, rfl⟩⟩ := round_cases hround
  · exact ⟨hnodup, fun x hx hopen => hclosed x hx (hcloses.passed _ _ _ hpop x hopen)⟩
  · obtain ⟨hopen, hother⟩ := hcloses.entered _ _ _ hpop
    refine ⟨List.nodup_append.mpr ⟨hnodup, List.nodup_singleton o, ?_⟩, fun x hx hopen' => ?_⟩
    · rintro a ha b hb rfl
      rw [List.mem_singleton.mp hb] at ha
      exact hclosed o ha hopen
    · obtain ⟨hopen', hne⟩ := hother x hopen'
      rcases List.mem_append.mp hx with hx | hx
      · exact hclosed x hx hopen'
      · exact hne (List.mem_singleton.mp hx)

/-- A pass from one object makes at most as many rounds as it reports edges, and one. -/
theorem Finishes.rounds_le {start store : σ} {target : ObjId} {entered : List ObjId} {n : Nat}
    {fatal : Option ObjId} (h : Finishes pop edges start [target] n store entered fatal) :
    n ≤ 1 + (entered.flatMap edges).length := by
  obtain ⟨left, hends, -⟩ := h
  have := rounds_add_left hends.runs
  simp only [List.flatMap_nil, List.length_nil, List.length_singleton] at this
  omega

end Walk

section Passes

variable {owns : ObjId → Bool} {r : RootId}

/-- A connect pass counts an edge into what it pops, and enters it if it is the first one. -/
def connectPop (owns : ObjId → Bool) (r : RootId) (ts : Tallies) (o : ObjId) : Popped Tallies :=
  if h : o < ts.size then
    if owns o then
      if ts[o].count r = 0 then .entered (ts.set o (ts[o].bump r))
      else .passed (ts.set o (ts[o].bump r))
    else .fatal
  else .fatal

/-- A disconnect pass takes an edge away from what it pops, and enters it if it was the last one. -/
def disconnectPop (r : RootId) (ts : Tallies) (o : ObjId) : Popped Tallies :=
  if h : o < ts.size then
    if ts[o].count r = 0 then .fatal
    else if ts[o].count r = 1 then .entered (ts.set o (ts[o].lower r))
    else .passed (ts.set o (ts[o].lower r))
  else .fatal

/-- A strip pass enters what still has the tag, and removes it. -/
def stripPop (r : RootId) (ts : Tallies) (o : ObjId) : Popped Tallies :=
  if h : o < ts.size then
    if ts[o].count r = 0 then .passed ts else .entered (ts.set o (ts[o].strip r))
  else .passed ts

/-- A walk enters what is not marked yet, and marks it. -/
def explorePop (marks : Marks) (o : ObjId) : Popped Marks :=
  if marks.free o then .entered (marks.add o) else .passed marks

theorem connectAll_finishes (edges : ObjId → List ObjId) (owns : ObjId → Bool) (r : RootId)
    (ts : Tallies) (stack : List ObjId) :
    Walk.Finishes (connectPop owns r) edges ts stack
      (connectAll edges owns r ts stack).touches.length
      (connectAll edges owns r ts stack).tallies (connectAll edges owns r ts stack).expanded
      (connectAll edges owns r ts stack).stranger := by
  fun_induction connectAll edges owns r ts stack with
  | case1 => exact .done
  | case2 ts o rest h howns h0 pass ih =>
      rw [Connected.expanded_cons, if_pos rfl]
      exact .enters (by simp [connectPop, h, howns, h0]) ih
  | case3 ts o rest h howns h0 pass ih =>
      rw [Connected.expanded_cons, if_neg (by simpa using h0)]
      exact .passes (by simp [connectPop, h, howns, h0]) ih
  | case4 ts o rest h howns => exact .fails (by simp [connectPop, howns])
  | case5 ts o rest h => exact .fails (by simp [connectPop, h])

/-- A connect pass closes what it enters: the root reaches it from then on. -/
theorem connectPop_closes : Walk.Closes (connectPop owns r) fun ts o => ts.count o r = 0 := by
  have hkeeps (ts : Tallies) {o : ObjId} (h : o < ts.size) (x : ObjId)
      (hx : Tallies.count (ts.set o (ts[o].bump r)) x r = 0) : ts.count x r = 0 ∧ x ≠ o := by
    by_cases hxo : x = o
    · rw [hxo, count_bump_self] at hx
      omega
    · exact ⟨by rwa [count_bump_of_ne ts h r hxo] at hx, hxo⟩
  constructor
  · intro ts o ts' hpop x hx
    unfold connectPop at hpop
    split_ifs at hpop with h howns h0
    cases hpop
    exact (hkeeps ts h x hx).1
  · intro ts o ts' hpop
    unfold connectPop at hpop
    split_ifs at hpop with h howns h0
    cases hpop
    exact ⟨by rwa [Tallies.count_getElem ts h], hkeeps ts h⟩

/-- A strip pass closes what it enters: the tag is gone. -/
theorem stripPop_closes : Walk.Closes (stripPop r) fun ts o => ts.count o r ≠ 0 := by
  constructor
  · intro ts o ts' hpop x hx
    unfold stripPop at hpop
    split_ifs at hpop <;> cases hpop <;> exact hx
  · intro ts o ts' hpop
    unfold stripPop at hpop
    split_ifs at hpop with h h0
    cases hpop
    refine ⟨by rwa [Tallies.count_getElem ts h], fun x hx => ?_⟩
    rw [count_set_strip ts h] at hx
    split at hx
    next => exact absurd rfl hx
    next hne => exact ⟨hx, fun hxo => hne ⟨hxo, rfl⟩⟩

/-- A walk closes what it enters: it is marked from then on. -/
theorem explorePop_closes : Walk.Closes explorePop fun marks o => marks.free o = true := by
  constructor
  · intro marks o marks' hpop x hx
    unfold explorePop at hpop
    split_ifs at hpop
    cases hpop
    exact hx
  · intro marks o marks' hpop
    unfold explorePop at hpop
    split_ifs at hpop with hfree
    cases hpop
    exact ⟨hfree, fun x hx => (Marks.free_add.mp hx).symm⟩

theorem Cascade.removed_cons (pass : Cascade) (touch : Touch) :
    Cascade.removed { pass with touches := touch :: pass.touches } =
      if touch.count = 0 then touch.obj :: pass.removed else pass.removed := by
  by_cases h : touch.count = 0 <;> simp [Cascade.removed, h]

theorem disconnectAll_finishes (edges : ObjId → List ObjId) (r : RootId) (ts : Tallies)
    (stack : List ObjId) :
    Walk.Finishes (disconnectPop r) edges ts stack (disconnectAll edges r ts stack).touches.length
      (disconnectAll edges r ts stack).tallies (disconnectAll edges r ts stack).removed
      (disconnectAll edges r ts stack).unreached := by
  fun_induction disconnectAll edges r ts stack with
  | case1 => exact .done
  | case2 ts o rest h h0 => exact .fails (by simp [disconnectPop, h0])
  | case3 ts o rest h h0 next pass ih =>
      rw [Cascade.removed_cons]
      by_cases h1 : ts[o].count r = 1
      · have hnext : next = (edges o).reverse ++ rest := if_pos h1
        have hpop : disconnectPop r ts o = .entered (ts.set o (ts[o].lower r)) := by
          simp [disconnectPop, h, h1]
        rw [if_pos (by simp [h1])]
        refine .enters hpop ?_
        rw [← hnext]
        exact ih
      · have hnext : next = rest := if_neg h1
        have hleft : ts[o].count r - 1 ≠ 0 := by omega
        have hpop : disconnectPop r ts o = .passed (ts.set o (ts[o].lower r)) := by
          simp [disconnectPop, h, h0, h1]
        rw [if_neg hleft]
        refine .passes hpop ?_
        rw [← hnext]
        exact ih
  | case4 ts o rest h => exact .fails (by simp [disconnectPop, h])

/-- Every round of a disconnect pass uses up a counted edge. -/
theorem disconnectAll_total (edges : ObjId → List ObjId) (r : RootId) (ts : Tallies)
    (stack : List ObjId) :
    (disconnectAll edges r ts stack).touches.length +
      (disconnectAll edges r ts stack).tallies.total r = ts.total r := by
  fun_induction disconnectAll edges r ts stack with
  | case1 => simp
  | case2 => simp
  | case3 ts o rest h h0 next pass ih =>
      have hset := ts.total_set h (ts[o].lower r) r
      simp only [Tally.count_lower_self] at hset
      simp only [List.length_cons, pass]
      omega
  | case4 => simp

theorem stripAll_finishes (edges : ObjId → List ObjId) (r : RootId) (ts : Tallies)
    (stack : List ObjId) :
    ∃ n, Walk.Finishes (stripPop r) edges ts stack n (stripAll edges r ts stack).tallies
      (stripAll edges r ts stack).objects none := by
  fun_induction stripAll edges r ts stack with
  | case1 => exact ⟨0, .done⟩
  | case2 ts o rest h h0 ih =>
      obtain ⟨n, hn⟩ := ih
      exact ⟨n + 1, .passes (by simp [stripPop, h0]) hn⟩
  | case3 ts o rest h h0 pass ih =>
      obtain ⟨n, hn⟩ := ih
      exact ⟨n + 1, .enters (by simp [stripPop, h, h0]) hn⟩
  | case4 ts o rest h ih =>
      obtain ⟨n, hn⟩ := ih
      exact ⟨n + 1, .passes (by simp [stripPop, h]) hn⟩

theorem explore_finishes (edges : ObjId → List ObjId) (marks : Marks) (stack : List ObjId) :
    ∃ n final, Walk.Finishes explorePop edges marks stack n final (explore edges marks stack)
      none := by
  fun_induction explore edges marks stack with
  | case1 marks => exact ⟨0, marks, .done⟩
  | case2 marks o rest hfree ih =>
      obtain ⟨n, final, hn⟩ := ih
      exact ⟨n + 1, final, .enters (by simp [explorePop, hfree]) hn⟩
  | case3 marks o rest hfree ih =>
      obtain ⟨n, final, hn⟩ := ih
      exact ⟨n + 1, final, .passes (by simp [explorePop, hfree]) hn⟩

end Passes

/-- The examined objects with support from outside. -/
def supported (succ : ObjId → List ObjId) (support : ObjId → Nat) (order : List ObjId) :
    List ObjId :=
  order.filter fun o => (order.flatMap succ).count o < support o

/-- A trial deletion comes to its end: one loop enters objects into the order, another keeps what
the supported ones lead to, and each enters an object once. -/
structure Trial.Walked (t : Trial) (size : Nat) (succ : ObjId → List ObjId)
    (support : ObjId → Nat) (stack : List ObjId) : Prop where
  order_ends : ∃ n final, Walk.Finishes explorePop succ (.clear size) stack n final t.order none
  kept_ends : ∃ n final, Walk.Finishes explorePop succ (.clear size)
    (supported succ support t.order) n final t.kept none
  order_nodup : t.order.Nodup
  kept_nodup : t.kept.Nodup

theorem trial_walked (size : Nat) (succ : ObjId → List ObjId) (support : ObjId → Nat)
    (stack : List ObjId) : (trial size succ support stack).Walked size succ support stack := by
  obtain ⟨n, final, horder⟩ := explore_finishes succ (.clear size) stack
  have hkept : (trial size succ support stack).kept =
      explore succ (.clear size) (supported succ support (trial size succ support stack).order) := by
    simp only [trial, supported]
    congr 1
    refine List.filter_congr fun o ho => ?_
    have hlt : o < size := by simpa [Marks.clear] using lt_of_mem_explore ho
    rw [occurrences_eq_count hlt]
    rfl
  obtain ⟨n', final', hn'⟩ := explore_finishes succ (.clear size)
    (supported succ support (trial size succ support stack).order)
  rw [← hkept] at hn'
  exact ⟨⟨n, final, horder⟩, ⟨n', final', hn'⟩, horder.nodup_entered explorePop_closes,
    hn'.nodup_entered explorePop_closes⟩

/-- An orphan scan examines the order of its trial deletion, and what it finds is from there. -/
theorem scanOrphans_walked (edges : ObjId → List ObjId) (r : RootId) (candidates : List ObjId)
    (ts : Tallies) :
    (scanOrphans edges r candidates ts).scanned = (orphanTrial edges r candidates ts).order.length ∧
      (scanOrphans edges r candidates ts).orphans = (orphanTrial edges r candidates ts).lost := by
  rw [scanOrphans_eq]
  split
  next hempty => exact ⟨rfl, (List.isEmpty_iff.mp hempty).symm⟩
  next => exact ⟨rfl, rfl⟩

/-- The loop of every pass ends, on every graph and on whatever tallies: with an empty stack, or at
an object that it gives up on. A connect pass and a strip pass expand each object at most once. A
disconnect pass pops at most as many objects as there are counted edges of the root, and then the
one it gives up on. An orphan scan and a reclamation enter each object into their order at most
once. -/
theorem passes_end (edges back : ObjId → List ObjId) (owns : ObjId → Bool) (r : RootId)
    (target : ObjId) (candidates : List ObjId) (ts : Tallies) (w : World) (suspects : List ObjId) :
    (∃ n, Walk.Finishes (connectPop owns r) edges ts [target] n
          (connect edges owns r target ts).tallies (connect edges owns r target ts).expanded
          (connect edges owns r target ts).stranger ∧
        n ≤ 1 + ((connect edges owns r target ts).expanded.flatMap edges).length ∧
        (connect edges owns r target ts).expanded.Nodup) ∧
      (∃ n, Walk.Finishes (disconnectPop r) back ts [target] n
          (cascade back r target ts).tallies (cascade back r target ts).removed
          (cascade back r target ts).unreached ∧
        n ≤ ts.total r) ∧
      (∃ n, Walk.Finishes (stripPop r) back ts [target] n
          (strip back r target ts).tallies (strip back r target ts).objects none ∧
        n ≤ 1 + ((strip back r target ts).objects.flatMap back).length ∧
        (strip back r target ts).objects.Nodup) ∧
      ((orphanTrial edges r candidates ts).Walked ts.size (ts.inside edges r) (ts.count · r)
          (candidates.filter fun o => decide (0 < ts.count o r)).reverse ∧
        (scanOrphans edges r candidates ts).scanned =
          (orphanTrial edges r candidates ts).order.length ∧
        (scanOrphans edges r candidates ts).orphans = (orphanTrial edges r candidates ts).lost) ∧
      (w.garbage suspects).Walked w.objects.size (fun o => (w.out o).filter w.candidate) w.strongAt
        (suspects.filter w.candidate).reverse := by
  have hconnect := connectAll_finishes edges owns r ts [target]
  have hcascade := disconnectAll_finishes back r ts [target]
  obtain ⟨n, hstrip⟩ := stripAll_finishes back r ts [target]
  have htotal := disconnectAll_total back r ts [target]
  refine ⟨⟨_, hconnect, hconnect.rounds_le, hconnect.nodup_entered connectPop_closes⟩,
    ⟨_, hcascade, by omega⟩, ⟨n, hstrip, hstrip.rounds_le, hstrip.nodup_entered stripPop_closes⟩,
    ⟨trial_walked .., scanOrphans_walked ..⟩, trial_walked ..⟩

end RootedHeap
