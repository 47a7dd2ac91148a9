import Mathlib.Logic.Hydra
import Mathlib.Tactic.Abel
import RootedHeap.Demo.Scenario
import RootedHeap.Proofs.Sole

/-! # Schedules

A pool is a thread with all threads that it and others have started, any of which may take the next
step: carry an operation out, start a thread, or go on once all threads that it waits for are done.
Every schedule comes to an end (`Demo.Pool.wellFounded_step`). What threads come to in whichever order
they take their steps follows from what each of them does while others change the world in between
(`Demo.Thread.Fulfils`, `Demo.Pool.Keeps.reaches`).
-/

namespace RootedHeap

open World

namespace Demo

/-! ## Pools -/

/-- What is left of a thread of a pool, and which threads it has started. -/
structure Strand where
  rest : Thread
  started : List Nat := []

/-- The threads there are, in the order in which they were started, and the world they share. -/
structure Pool where
  strands : List Strand
  world : World

namespace Pool

/-- One thread takes a step. -/
inductive Step : Pool → Pool → Prop
  | op {β : Type} {action : Op β} {next : β → Thread} {b : β} {w w' : World} {started : List Nat}
      (before after : List Strand) (hop : action w = .ok b w') :
      Step ⟨before ++ ⟨.op action next, started⟩ :: after, w⟩
        ⟨before ++ ⟨next b, started⟩ :: after, w'⟩
  | fault {β : Type} {action : Op β} {next : β → Thread} {f : Fault} {w w' : World}
      {started : List Nat} (before after : List Strand) (hop : action w = .error f w') :
      Step ⟨before ++ ⟨.op action next, started⟩ :: after, w⟩
        ⟨before ++ ⟨.fail (.faulted f), started⟩ :: after, w'⟩
  | spawn {child rest : Thread} {w : World} {started : List Nat} (before after : List Strand) :
      Step ⟨before ++ ⟨.spawn child rest, started⟩ :: after, w⟩
        ⟨before ++ ⟨rest, (before.length + 1 + after.length) :: started⟩ :: (after ++ [⟨child, []⟩]), w⟩
  | join {rest : Thread} {w : World} {started : List Nat} (before after : List Strand)
      (hdone : ∀ i ∈ started, ∃ x, (before ++ ⟨.join rest, started⟩ :: after)[i]? = some x ∧
        x.rest = .done) :
      Step ⟨before ++ ⟨.join rest, started⟩ :: after, w⟩ ⟨before ++ ⟨rest, started⟩ :: after, w⟩

/-- All threads are done, without a problem. -/
def Finished (p : Pool) : Prop := ∀ x ∈ p.strands, x.rest = .done

/-- The threads that come after one of them. -/
theorem getElem?_later {before after : List Strand} {x : Strand} {k : Nat} (hk : k < after.length) :
    (before ++ x :: after)[before.length + k + 1]? = some after[k] := by
  have hindex : before.length + k + 1 - before.length = k + 1 := by omega
  rw [List.getElem?_append_right (by omega), hindex, List.getElem?_cons_succ,
    List.getElem?_eq_getElem hk]

end Pool

/-- A demonstration that is about to begin, on a heap of its own. -/
def Scenario.pool (options : Options) (scenario : Scenario) : Pool :=
  match createHeap { name := scenario.name } {} with
  | .ok h w => ⟨[⟨(scenario.act h options).thread, []⟩], w⟩
  | .error _ w => ⟨[], w⟩

/-! ## Every schedule ends -/

/-- What a thread may come to by a step, and a thread that it starts. -/
inductive Thread.Below : Thread → Thread → Prop
  | op {β : Type} {action : Op β} {next : β → Thread} (b : β) : Below (next b) (.op action next)
  | fault {β : Type} {action : Op β} {next : β → Thread} (problem : Problem) :
      Below (.fail problem) (.op action next)
  | child {child rest : Thread} : Below child (.spawn child rest)
  | spawn {child rest : Thread} : Below rest (.spawn child rest)
  | join {rest : Thread} : Below rest (.join rest)

theorem Thread.wellFounded_below : WellFounded Thread.Below := by
  have hfail (problem : Problem) : Acc Thread.Below (.fail problem) :=
    ⟨_, by rintro _ ⟨⟩⟩
  refine ⟨fun t => ?_⟩
  induction t with
  | done => exact ⟨_, by rintro _ ⟨⟩⟩
  | fail problem => exact hfail problem
  | op action next ih =>
      refine ⟨_, ?_⟩
      rintro _ (b | problem)
      · exact ih b
      · exact hfail problem
  | spawn child rest ihchild ihrest =>
      refine ⟨_, ?_⟩
      rintro _ ⟨⟩
      · exact ihchild
      · exact ihrest
  | join rest ih =>
      refine ⟨_, ?_⟩
      rintro _ ⟨⟩
      exact ih

namespace Pool

/-- What is left of all threads. -/
def rests (p : Pool) : Multiset Thread := (p.strands.map Strand.rest : List Thread)

theorem rests_mk (before after : List Strand) (x : Strand) (w : World) :
    rests ⟨before ++ x :: after, w⟩ = {x.rest} + rests ⟨before ++ after, w⟩ := by
  unfold rests
  rw [Multiset.singleton_add, Multiset.cons_coe, Multiset.coe_eq_coe, ← List.map_cons]
  exact List.perm_middle.map _

/-- A step replaces a thread by what it comes to, and by what it starts. -/
theorem Step.cutExpand {p q : Pool} (h : Step p q) :
    Relation.CutExpand Thread.Below q.rests p.rests := by
  have hreplace {before after : List Strand} {w w' : World} {x y : Strand}
      (hbelow : Thread.Below y.rest x.rest) : Relation.CutExpand Thread.Below
        (rests ⟨before ++ y :: after, w'⟩) (rests ⟨before ++ x :: after, w⟩) := by
    rw [rests_mk, rests_mk]
    exact Relation.cutExpand_single_add hbelow _
  cases h with
  | op before after hop => exact hreplace (.op _)
  | fault before after hop => exact hreplace (.fault _)
  | join before after hdone => exact hreplace .join
  | @spawn child rest w started before after =>
      refine ⟨{rest, child}, .spawn child rest, ?_, ?_⟩
      · intro t ht
        rcases Multiset.mem_cons.mp ht with rfl | ht
        · exact .spawn
        · exact Multiset.mem_singleton.mp ht ▸ .child
      · rw [rests_mk, rests_mk, ← List.append_assoc, rests_mk, List.append_nil,
          Multiset.insert_eq_cons, ← Multiset.singleton_add]
        change {rest} + ({child} + rests ⟨before ++ after, w⟩) + {.spawn child rest} =
          {.spawn child rest} + rests ⟨before ++ after, w⟩ + ({rest} + {child})
        abel

/-- However threads take turns, they come to an end. -/
theorem wellFounded_step : WellFounded fun q p : Pool => Step p q :=
  Subrelation.wf Step.cutExpand (InvImage.wf rests Thread.wellFounded_below.cutExpand)

end Pool

/-! ## Threads one at a time -/

namespace Pool

/-- One schedule carries each thread out as soon as it is started, which is what `Thread.run` does. -/
theorem reaches_of_run {t : Thread} {w w' : World} (h : t.run w = .ok none w')
    (before after : List Strand) (started : List Nat)
    (hstarted : ∀ i ∈ started, before.length < i ∧ i < before.length + 1 + after.length)
    (hafter : ∀ x ∈ after, x.rest = .done) :
    ∃ started' after', after.length ≤ after'.length ∧ (∀ x ∈ after', x.rest = .done) ∧
      Relation.ReflTransGen Step ⟨before ++ ⟨t, started⟩ :: after, w⟩
        ⟨before ++ ⟨.done, started'⟩ :: after', w'⟩ := by
  induction t generalizing before after started w w' with
  | done =>
      cases h
      exact ⟨started, after, Nat.le_refl _, hafter, .refl⟩
  | fail problem => cases h
  | op action next ih =>
      obtain ⟨b, w₁, hop, hnext⟩ := exists_of_bind_ok h
      obtain ⟨started', after', hle, hdone, hreach⟩ := ih b hnext before after started hstarted hafter
      exact ⟨started', after', hle, hdone, .head (.op before after hop) hreach⟩
  | spawn child rest ihchild ihrest =>
      obtain ⟨problem, w₁, hchild, hreturn⟩ := exists_of_bind_ok h
      cases problem with
      | some problem => cases hreturn
      | none =>
          -- the new thread comes last, and leaves threads behind it that are done
          obtain ⟨js, more, -, hmore, hreach⟩ := ihchild hchild
            (before ++ ⟨rest, (before.length + 1 + after.length) :: started⟩ :: after) [] []
            (by simp) (by simp)
          have hdone : ∀ x ∈ after ++ ⟨.done, js⟩ :: more, x.rest = .done :=
            List.forall_mem_append.mpr ⟨hafter, List.forall_mem_cons.mpr ⟨rfl, hmore⟩⟩
          have hlength : (after ++ ⟨.done, js⟩ :: more).length = after.length + (more.length + 1) :=
            List.length_append
          have hlater : ∀ i ∈ (before.length + 1 + after.length) :: started, before.length < i ∧
              i < before.length + 1 + (after ++ ⟨.done, js⟩ :: more).length := by
            rw [hlength, List.forall_mem_cons]
            refine ⟨by omega, fun i hi => ?_⟩
            obtain ⟨hlt, hlt'⟩ := hstarted i hi
            omega
          obtain ⟨started', after', hle, hdone', hreach'⟩ := ihrest hreturn before _ _ hlater hdone
          rw [List.append_assoc, List.append_assoc] at hreach
          exact ⟨started', after', by omega, hdone',
            .head (.spawn before after) (hreach.trans hreach')⟩
  | join rest ih =>
      obtain ⟨started', after', hle, hdone, hreach⟩ := ih h before after started hstarted hafter
      refine ⟨started', after', hle, hdone, .head (.join before after fun i hi => ?_) hreach⟩
      obtain ⟨hlt, hlt'⟩ := hstarted i hi
      obtain ⟨k, rfl⟩ := Nat.exists_eq_add_of_lt hlt
      have hk : k < after.length := by omega
      exact ⟨after[k], getElem?_later hk, hafter _ (List.getElem_mem hk)⟩

end Pool

/-! ## What threads do to each other -/

section Contracts

variable {M : Type} [AddCommMonoid M] (I : Multiset Holding → World → Prop) (tally : World → M)
  {w w' : World} {mine others : Multiset Holding} {cost : M}

/-- The thread holds `mine`, in some world that extends `w` and leaves that as it is. Whatever others do
meanwhile, it does not fail, keeps `I` true of all that is held together, leaves what they hold as it is,
and gives everything up in the end; until then the tally goes up by `cost` on its account. -/
def Thread.Fulfils : Thread → World → Multiset Holding → M → Prop
  | .done, _, mine, cost => mine = 0 ∧ cost = 0
  | .fail _, _, _, _ => False
  | .op action next, w, mine, cost => ∀ w' others, w.Leaves mine w' → I (mine + others) w' →
      Ends action w' (fun b w'' => w'.Leaves others w'' ∧ ∃ mine' cost', I (mine' + others) w'' ∧
        tally w'' + cost' = tally w' + cost ∧ (next b).Fulfils w'' mine' cost') fun _ _ => False
  | .spawn child rest, w, mine, cost => ∃ given kept cost' cost'', mine = given + kept ∧
      cost = cost' + cost'' ∧ child.Fulfils w given cost' ∧ rest.Fulfils w kept cost''
  | .join rest, w, mine, cost => rest.Fulfils w mine cost

variable {I tally}

theorem Thread.Fulfils.leaves {t : Thread} (h : t.Fulfils I tally w mine cost)
    (hleaves : w.Leaves mine w') : t.Fulfils I tally w' mine cost := by
  induction t generalizing mine cost with
  | done | fail => exact h
  | op action next => exact fun w'' others hleaves' => h w'' others (hleaves.trans hleaves')
  | spawn child rest ihchild ihrest =>
      obtain ⟨given, kept, cost', cost'', rfl, hcost, hchild, hrest⟩ := h
      exact ⟨given, kept, cost', cost'', rfl, hcost, ihchild hchild hleaves.left,
        ihrest hrest hleaves.right⟩
  | join rest ih => exact ih h hleaves

/-- A thread that is carried out at once, with all that it starts. -/
theorem Thread.Fulfils.run {t : Thread} (h : t.Fulfils I tally w mine cost)
    (hI : I (mine + others) w) :
    Ends t.run w (fun problem w' => problem = none ∧ w.Leaves others w' ∧ I others w')
      fun _ _ => False := by
  induction t generalizing w mine cost others with
  | done =>
      obtain ⟨rfl, -⟩ := h
      exact ⟨rfl, .refl others w, zero_add others ▸ hI⟩
  | fail problem => exact h.elim
  | op action next ih =>
      refine (h w others (.refl mine w) hI).bind ?_
      rintro b w₁ ⟨hleaves, mine', cost', hI', -, hnext⟩
      refine (ih b hnext hI').mono ?_ fun _ _ => id
      rintro problem w₂ ⟨hnone, hleaves', hI''⟩
      exact ⟨hnone, hleaves.trans hleaves', hI''⟩
  | spawn child rest ihchild ihrest =>
      obtain ⟨given, kept, cost', cost'', rfl, -, hchild, hrest⟩ := h
      have hI' : I (given + (kept + others)) w := add_assoc given kept others ▸ hI
      refine (ihchild hchild hI').bind ?_
      rintro _ w₁ ⟨rfl, hleaves, hI'⟩
      refine (ihrest (hrest.leaves hleaves.left) hI').mono ?_ fun _ _ => id
      rintro problem w₂ ⟨hnone, hleaves', hI''⟩
      exact ⟨hnone, hleaves.right.trans hleaves', hI''⟩
  | join rest ih => exact ih h hI

variable (I tally)

/-- The threads of a list hold `held` together, and each one does its part. -/
def Shares (w : World) : List Strand → Multiset Holding → M → Prop
  | [], held, cost => held = 0 ∧ cost = 0
  | x :: rest, held, cost => ∃ mine cost' others cost'', held = mine + others ∧
      cost = cost' + cost'' ∧ x.rest.Fulfils I tally w mine cost' ∧ Shares w rest others cost''

variable {I tally}

theorem Shares.leaves {strands : List Strand} {held : Multiset Holding}
    (h : Shares I tally w strands held cost) (hleaves : w.Leaves held w') :
    Shares I tally w' strands held cost := by
  induction strands generalizing held cost with
  | nil => exact h
  | cons x rest ih =>
      obtain ⟨mine, cost', others, cost'', rfl, hcost, hx, hrest⟩ := h
      exact ⟨mine, cost', others, cost'', rfl, hcost, hx.leaves hleaves.left, ih hrest hleaves.right⟩

theorem shares_append {before after : List Strand} {held : Multiset Holding} :
    Shares I tally w (before ++ after) held cost ↔ ∃ held' cost' held'' cost'',
      held = held' + held'' ∧ cost = cost' + cost'' ∧ Shares I tally w before held' cost' ∧
        Shares I tally w after held'' cost'' := by
  induction before generalizing held cost with
  | nil =>
      constructor
      · intro h
        exact ⟨0, 0, held, cost, (zero_add _).symm, (zero_add _).symm, ⟨rfl, rfl⟩, h⟩
      · rintro ⟨_, _, held'', cost'', rfl, rfl, ⟨rfl, rfl⟩, h⟩
        rwa [zero_add, zero_add]
  | cons x before ih =>
      constructor
      · rintro ⟨mine, cost₁, others, cost₂, rfl, rfl, hx, hrest⟩
        obtain ⟨held', cost', held'', cost'', rfl, rfl, hbefore, hafter⟩ := ih.mp hrest
        exact ⟨mine + held', cost₁ + cost', held'', cost'', (add_assoc _ _ _).symm,
          (add_assoc _ _ _).symm, ⟨mine, cost₁, held', cost', rfl, rfl, hx, hbefore⟩, hafter⟩
      · rintro ⟨_, _, held'', cost'', rfl, rfl, ⟨mine, cost₁, others, cost₂, rfl, rfl, hx, hrest⟩, hafter⟩
        exact ⟨mine, cost₁, others + held'', cost₂ + cost'', add_assoc _ _ _, add_assoc _ _ _, hx,
          ih.mpr ⟨others, cost₂, held'', cost'', rfl, rfl, hrest, hafter⟩⟩

/-- One thread among others. -/
theorem shares_middle {before after : List Strand} {x : Strand} {held : Multiset Holding} :
    Shares I tally w (before ++ x :: after) held cost ↔ ∃ mine cost' others cost'',
      held = mine + others ∧ cost = cost' + cost'' ∧ x.rest.Fulfils I tally w mine cost' ∧
        Shares I tally w (before ++ after) others cost'' := by
  simp only [shares_append]
  constructor
  · rintro ⟨held', cost', _, _, rfl, rfl, hbefore, mine, cost₁, others, cost₂, rfl, rfl, hx, hafter⟩
    exact ⟨mine, cost₁, held' + others, cost' + cost₂, add_left_comm _ _ _, add_left_comm _ _ _, hx,
      held', cost', others, cost₂, rfl, rfl, hbefore, hafter⟩
  · rintro ⟨mine, cost₁, _, _, rfl, rfl, hx, held', cost', others, cost₂, rfl, rfl, hbefore, hafter⟩
    exact ⟨held', cost', mine + others, cost₁ + cost₂, add_left_comm _ _ _, add_left_comm _ _ _,
      hbefore, mine, cost₁, others, cost₂, rfl, rfl, hx, hafter⟩

/-- Threads only wait for threads that came after them. -/
def Later (started : List (List Nat)) : Prop :=
  ∀ (i : Nat) (js : List Nat), started[i]? = some js → ∀ j ∈ js, i < j ∧ j < started.length

theorem Later.spawn {before after : List (List Nat)} {js : List Nat}
    (h : Later (before ++ js :: after)) :
    Later (before ++ ((before.length + 1 + after.length) :: js) :: (after ++ [[]])) := by
  intro i js' hi j hj
  have hlength : (before ++ ((before.length + 1 + after.length) :: js) :: (after ++ [[]])).length =
      (before ++ js :: after).length + 1 := by
    simp only [List.length_append, List.length_cons, List.length_nil]
    omega
  rw [hlength]
  have hold {js'' : List Nat} (hi : (before ++ js :: after)[i]? = some js'') (hj : j ∈ js'') :
      i < j ∧ j < (before ++ js :: after).length + 1 := by
    obtain ⟨hlt, hle⟩ := h i js'' hi j hj
    exact ⟨hlt, Nat.lt_succ_of_lt hle⟩
  rcases Nat.lt_trichotomy i before.length with hlt | rfl | hgt
  · rw [List.getElem?_append_left hlt] at hi
    exact hold (by rw [List.getElem?_append_left hlt, hi]) hj
  · rw [List.getElem?_append_right (Nat.le_refl _), Nat.sub_self] at hi
    cases hi
    rcases List.mem_cons.mp hj with rfl | hj
    · simp
      omega
    · exact hold (by rw [List.getElem?_append_right (Nat.le_refl _), Nat.sub_self]; rfl) hj
  · obtain ⟨k, rfl⟩ := Nat.exists_eq_add_of_lt hgt
    have hindex : before.length + k + 1 - before.length = k + 1 := by omega
    rw [List.getElem?_append_right (by omega), hindex, List.getElem?_cons_succ] at hi
    by_cases hk : k < after.length
    · rw [List.getElem?_append_left hk] at hi
      refine hold ?_ hj
      rw [List.getElem?_append_right (by omega), hindex, List.getElem?_cons_succ, hi]
    · -- the new thread has not started any
      rw [List.getElem?_append_right (Nat.le_of_not_lt hk)] at hi
      obtain ⟨hlt, rfl⟩ := List.getElem?_eq_some_iff.mp hi
      simp at hj

namespace Pool

variable (I tally)

/-- What stays as it is while threads take their steps: `I` is true of all that they hold, what each one
adds to the tally comes to `total` in the end, and threads only wait for threads that came after them. -/
structure Keeps (total : M) (p : Pool) : Prop where
  shares : ∃ held cost, Shares I tally p.world p.strands held cost ∧ I held p.world ∧
    tally p.world + cost = total
  later : Later (p.strands.map Strand.started)

variable {I tally} {total : M} {p q : Pool}

theorem Keeps.step (h : p.Keeps I tally total) (hstep : Step p q) : q.Keeps I tally total := by
  obtain ⟨⟨held, cost, hshares, hI, htotal⟩, hlater⟩ := h
  cases hstep with
  | @op β action next b w w' started before after hop =>
      obtain ⟨mine, cost', others, cost'', rfl, rfl, hx, hothers⟩ := shares_middle.mp hshares
      obtain ⟨hleaves, mine', cost₁, hI', htally, hnext⟩ := (hx w others (.refl mine w) hI).of_ok hop
      refine ⟨⟨mine' + others, cost₁ + cost'', shares_middle.mpr ⟨mine', cost₁, others, cost'', rfl, rfl,
        hnext, hothers.leaves hleaves⟩, hI', ?_⟩, by simpa using hlater⟩
      rw [← add_assoc, htally, add_assoc]
      exact htotal
  | @fault β action next f w w' started before after hop =>
      obtain ⟨mine, cost', others, cost'', rfl, rfl, hx, hothers⟩ := shares_middle.mp hshares
      exact ((hx w others (.refl mine w) hI).of_error hop).elim
  | @spawn child rest w started before after =>
      obtain ⟨_, _, others, cost'', rfl, rfl, ⟨given, kept, cost₁, cost₂, rfl, rfl, hchild, hrest⟩,
        hothers⟩ := shares_middle.mp hshares
      refine ⟨⟨given + kept + others, cost₁ + cost₂ + cost'', shares_middle.mpr ⟨kept, cost₂,
        others + given, cost'' + cost₁, ?_, ?_, hrest, ?_⟩, hI, htotal⟩, ?_⟩
      · rw [add_comm given kept, add_assoc, add_comm given others]
      · rw [add_comm cost₁ cost₂, add_assoc, add_comm cost₁ cost'']
      · rw [← List.append_assoc]
        exact shares_append.mpr ⟨others, cost'', given, cost₁, rfl, rfl, hothers, given, cost₁, 0, 0,
          (add_zero _).symm, (add_zero _).symm, hchild, rfl, rfl⟩
      · rw [List.map_append, List.map_cons] at hlater
        have hlater' := hlater.spawn
        rw [List.length_map, List.length_map] at hlater'
        simpa using hlater'
  | @join rest w started before after hdone =>
      obtain ⟨mine, cost', others, cost'', rfl, rfl, hx, hothers⟩ := shares_middle.mp hshares
      exact ⟨⟨mine + others, cost' + cost'', shares_middle.mpr ⟨mine, cost', others, cost'', rfl, rfl,
        hx, hothers⟩, hI, htotal⟩, by simpa using hlater⟩

theorem Keeps.reaches (h : p.Keeps I tally total) (hreach : Relation.ReflTransGen Step p q) :
    q.Keeps I tally total := by
  induction hreach with
  | refl => exact h
  | tail _ hstep ih => exact ih.step hstep

/-- There is a last thread that is not done, as long as there is any. -/
theorem exists_last {strands : List Strand} (h : ¬ ∀ x ∈ strands, x.rest = .done) :
    ∃ before x after, strands = before ++ x :: after ∧ x.rest ≠ .done ∧
      ∀ y ∈ after, y.rest = .done := by
  induction strands with
  | nil => exact absurd (by simp) h
  | cons x rest ih =>
      by_cases hrest : ∀ y ∈ rest, y.rest = .done
      · refine ⟨[], x, rest, rfl, fun hx => h ?_, hrest⟩
        rintro y (_ | ⟨_, hy⟩)
        · exact hx
        · exact hrest y hy
      · obtain ⟨before, y, after, rfl, hy, hafter⟩ := ih hrest
        exact ⟨x :: before, y, after, rfl, hy, hafter⟩

/-- The last thread that is not done can always take a step: those that it waits for are done. -/
theorem Keeps.progress (h : p.Keeps I tally total) : p.Finished ∨ ∃ q, Step p q := by
  by_cases hfinished : p.Finished
  · exact .inl hfinished
  refine .inr ?_
  obtain ⟨strands, w⟩ := p
  obtain ⟨before, ⟨rest, started⟩, after, rfl, hrest, hafter⟩ := exists_last hfinished
  obtain ⟨⟨held, cost, hshares, -, -⟩, hlater⟩ := h
  obtain ⟨mine, cost', others, cost'', -, -, hx, -⟩ := shares_middle.mp hshares
  cases rest with
  | done => exact absurd rfl hrest
  | fail problem => exact hx.elim
  | op action next =>
      cases hop : action w with
      | ok b w' => exact ⟨_, .op before after hop⟩
      | error f w' => exact ⟨_, .fault before after hop⟩
  | spawn child rest => exact ⟨_, .spawn before after⟩
  | join rest =>
      refine ⟨_, .join before after fun i hi => ?_⟩
      have hself : ((before ++ ⟨.join rest, started⟩ :: after).map Strand.started)[before.length]? =
          some started := by simp
      obtain ⟨hlt, hle⟩ := hlater _ _ hself i hi
      obtain ⟨k, rfl⟩ := Nat.exists_eq_add_of_lt hlt
      have hk : k < after.length := by
        simp at hle
        omega
      exact ⟨after[k], getElem?_later hk, hafter _ (List.getElem_mem hk)⟩

/-- When all threads are done, nothing is held any more, and the tally is what it was to come to. -/
theorem Keeps.finished (h : p.Keeps I tally total) (hfinished : p.Finished) :
    I 0 p.world ∧ tally p.world = total := by
  obtain ⟨⟨held, cost, hshares, hI, htotal⟩, -⟩ := h
  have hnothing : held = 0 ∧ cost = 0 := by
    clear hI htotal
    unfold Finished at hfinished
    generalize p.strands = strands at hshares hfinished
    induction strands generalizing held cost with
    | nil => exact hshares
    | cons x rest ih =>
        obtain ⟨mine, cost', others, cost'', rfl, rfl, hx, hrest⟩ := hshares
        rw [hfinished x List.mem_cons_self] at hx
        obtain ⟨rfl, rfl⟩ := hx
        obtain ⟨rfl, rfl⟩ := ih _ _ hrest fun y hy => hfinished y (List.mem_cons_of_mem _ hy)
        exact ⟨add_zero _, add_zero _⟩
  obtain ⟨rfl, rfl⟩ := hnothing
  rw [add_zero] at htotal
  exact ⟨hI, htotal⟩

end Pool

/-! ### Acts -/

namespace Act

variable {α β : Type}

variable (I tally) in
/-- The act holds `mine`, in some world that extends `w` and leaves that as it is, and adds `cost` to the
tally. What comes after it goes on with its result, in a world and with holdings of which `Q` is true. -/
def Spends (x : Act α) (w : World) (mine : Multiset Holding) (cost : M)
    (Q : α → World → Multiset Holding → Prop) : Prop :=
  ∀ (next : α → Thread) (rest : M), (∀ a w' mine', w.Extends w' → Q a w' mine' →
    (next a).Fulfils I tally w' mine' rest) → (x next).Fulfils I tally w mine (cost + rest)

variable {x : Act α} {Q : α → World → Multiset Holding → Prop}
  {R : β → World → Multiset Holding → Prop} {cost' : M}

theorem Spends.bind {f : α → Act β} (h : x.Spends I tally w mine cost Q)
    (hf : ∀ a w' mine', w.Extends w' → Q a w' mine' → (f a).Spends I tally w' mine' cost' R) :
    (x >>= f).Spends I tally w mine (cost + cost') R := by
  intro next rest hnext
  rw [add_assoc]
  exact h _ _ fun a w' mine' hext hQ => hf a w' mine' hext hQ next rest
    fun b w'' mine'' hext' hR => hnext b w'' mine'' (hext.trans hext') hR

theorem spends_pure {a : α} (h : Q a w mine) : (pure a : Act α).Spends I tally w mine 0 Q := by
  intro next rest hnext
  rw [zero_add]
  exact hnext a w mine (.refl w) h

/-- One operation, after whatever others have done. -/
theorem spends_once {op : Op α} (h : ∀ w' others, w.Leaves mine w' → I (mine + others) w' →
    Ends op w' (fun a w'' => w'.Leaves others w'' ∧ tally w'' = tally w' + cost ∧
      ∃ mine', I (mine' + others) w'' ∧ Q a w'' mine') fun _ _ => False) :
    (once op).Spends I tally w mine cost Q := by
  intro next rest hnext w' others hleaves hI
  refine (h w' others hleaves hI).mono ?_ fun _ _ => id
  rintro a w'' ⟨hleaves', htally, mine', hI', hQ⟩
  exact ⟨hleaves', mine', rest, hI', by rw [htally, add_assoc],
    hnext a w'' mine' (hleaves.toExtends.trans hleaves'.toExtends) hQ⟩

/-- An act that gives everything up makes a thread. -/
theorem Spends.fulfils {x : Act Unit}
    (h : x.Spends I tally w mine cost fun _ _ mine' => mine' = 0) :
    x.thread.Fulfils I tally w mine cost := by
  have hthread := h (fun _ => .done) 0 fun _ _ _ _ hmine => ⟨hmine, rfl⟩
  rwa [add_zero] at hthread

/-- A thread takes over some of what is held. -/
theorem spends_spawn {child : Act Unit} {given kept : Multiset Holding}
    (h : child.Spends I tally w given cost fun _ _ mine' => mine' = 0) :
    (spawn child).Spends I tally w (given + kept) cost fun _ _ mine' => mine' = kept := by
  intro next rest hnext
  exact ⟨given, kept, cost, rest, rfl, rfl, h.fulfils, hnext () w kept (.refl w) rfl⟩

theorem spends_join : join.Spends I tally w mine 0 fun _ _ mine' => mine' = mine := by
  intro next rest hnext
  rw [zero_add]
  exact hnext () w mine (.refl w) rfl

/-- A pool begins with one thread, which holds nothing. -/
theorem Spends.keeps {x : Act Unit} (h : x.Spends I tally w 0 cost fun _ _ mine' => mine' = 0)
    (hI : I 0 w) : Pool.Keeps I tally (tally w + cost) ⟨[⟨x.thread, []⟩], w⟩ := by
  refine ⟨⟨0, cost, ⟨0, cost, 0, 0, (zero_add _).symm, (add_zero _).symm, h.fulfils, rfl, rfl⟩, hI,
    rfl⟩, ?_⟩
  intro i js hi j hj
  have hjs : js ∈ [[]] := List.mem_of_getElem? hi
  rw [List.mem_singleton.mp hjs] at hj
  cases hj

end Act

end Contracts

end Demo

end RootedHeap
