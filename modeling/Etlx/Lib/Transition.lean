/-
Runs of a partial step function, and the histories they leave.

A run takes a list of actions; it exists when every action is enabled where it
is taken. An invariant that every step keeps holds after every run, and so does
one that is kept only by steps that meet a condition on the state before them,
along runs whose steps all meet it. A history grows at its end; what is said of
each event and the events before it is checked when the event is appended.
-/

import Mathlib.Tactic.ByContra

namespace Etlx.Transition

variable {σ α : Type}

def run (step : σ → α → Option σ) : σ → List α → Option σ
  | state, [] => some state
  | state, action :: actions =>
      match step state action with
      | none => none
      | some next => run step next actions

/-- Every step of the run meets the condition in the state it is taken in. -/
def Meets (step : σ → α → Option σ) (condition : σ → α → Prop) : σ → List α → Prop
  | _, [] => True
  | state, action :: actions =>
      condition state action ∧
        match step state action with
        | none => True
        | some next => Meets step condition next actions

theorem run_cons_inv {step : σ → α → Option σ} {state final : σ} {action : α} {actions : List α}
    (ran : run step state (action :: actions) = some final) :
    ∃ next, step state action = some next ∧ run step next actions = some final := by
  unfold run at ran
  cases stepped : step state action with
  | none =>
      rw [stepped] at ran
      cases ran
  | some next =>
      rw [stepped] at ran
      exact ⟨next, rfl, ran⟩

theorem run_trans {step : σ → α → Option σ} {state middle final : σ} {earlier later : List α}
    (first : run step state earlier = some middle) (second : run step middle later = some final) :
    run step state (earlier ++ later) = some final := by
  induction earlier generalizing state with
  | nil =>
      cases first
      exact second
  | cons action actions ih =>
      obtain ⟨next, stepped, rest⟩ := run_cons_inv first
      rw [List.cons_append, run, stepped]
      exact ih rest

theorem meets_cons {step : σ → α → Option σ} {condition : σ → α → Prop} {state next : σ}
    {action : α} {actions : List α} (stepped : step state action = some next) :
    Meets step condition state (action :: actions) ↔
      condition state action ∧ Meets step condition next actions := by
  rw [Meets, stepped]

theorem run_invariant_of_meets {step : σ → α → Option σ} {condition : σ → α → Prop}
    (Inv : σ → Prop)
    (keeps : ∀ state action next, Inv state → condition state action →
      step state action = some next → Inv next)
    (actions : List α) (state final : σ) (holds : Inv state)
    (meets : Meets step condition state actions) (ran : run step state actions = some final) :
    Inv final := by
  induction actions generalizing state with
  | nil =>
      cases ran
      exact holds
  | cons action actions ih =>
      obtain ⟨next, stepped, rest⟩ := run_cons_inv ran
      obtain ⟨now, later⟩ := (meets_cons stepped).mp meets
      exact ih next (keeps state action next holds now stepped) later rest

theorem meets_of_forall {step : σ → α → Option σ} {condition : σ → α → Prop}
    (always : ∀ state action, condition state action) (state : σ) (actions : List α) :
    Meets step condition state actions := by
  induction actions generalizing state with
  | nil => exact trivial
  | cons action actions ih =>
      refine ⟨always state action, ?_⟩
      cases step state action with
      | none => exact trivial
      | some next => exact ih next

theorem run_invariant {step : σ → α → Option σ} (Inv : σ → Prop)
    (keeps : ∀ state action next, Inv state → step state action = some next → Inv next)
    (actions : List α) (state final : σ) (holds : Inv state)
    (ran : run step state actions = some final) : Inv final := by
  have meets : Meets step (fun _ _ => True) state actions :=
    meets_of_forall (fun _ _ => trivial) state actions
  exact run_invariant_of_meets Inv
    (fun state action next inv _ stepped => keeps state action next inv stepped)
    actions state final holds meets ran

theorem Meets.and {step : σ → α → Option σ} {first second : σ → α → Prop} {state : σ}
    {actions : List α} (meetsFirst : Meets step first state actions)
    (meetsSecond : Meets step second state actions) :
    Meets step (fun state action => first state action ∧ second state action) state actions := by
  induction actions generalizing state with
  | nil => exact trivial
  | cons action actions ih =>
      unfold Meets at meetsFirst meetsSecond ⊢
      refine ⟨⟨meetsFirst.1, meetsSecond.1⟩, ?_⟩
      cases stepped : step state action with
      | none => exact trivial
      | some next =>
          rw [stepped] at meetsFirst meetsSecond
          exact ih meetsFirst.2 meetsSecond.2

/-- Actions that lower a measure which no other action raises are as few as it allows. -/
theorem countP_add_le_of_meets {step : σ → α → Option σ} {condition : σ → α → Prop}
    (measure : σ → Nat) (counted : α → Bool)
    (lowers : ∀ state action next, condition state action → step state action = some next →
      measure next + (if counted action then 1 else 0) ≤ measure state)
    (actions : List α) (state final : σ) (meets : Meets step condition state actions)
    (ran : run step state actions = some final) :
    actions.countP counted + measure final ≤ measure state := by
  induction actions generalizing state with
  | nil =>
      cases ran
      simp
  | cons action actions ih =>
      obtain ⟨next, stepped, rest⟩ := run_cons_inv ran
      obtain ⟨now, later⟩ := (meets_cons stepped).mp meets
      have laterBound := ih next later rest
      have nowBound := lowers state action next now stepped
      rw [List.countP_cons]
      omega

theorem run_counted_of_meets {step : σ → α → Option σ} {condition : σ → α → Prop}
    (P : Nat → σ → Prop) (counted : α → Bool)
    (keeps : ∀ count state action next, P count state → condition state action →
      step state action = some next → P (count + if counted action then 1 else 0) next)
    (actions : List α) (count : Nat) (state final : σ) (holds : P count state)
    (meets : Meets step condition state actions) (ran : run step state actions = some final) :
    P (count + actions.countP counted) final := by
  induction actions generalizing count state with
  | nil =>
      cases ran
      exact holds
  | cons action actions ih =>
      obtain ⟨next, stepped, rest⟩ := run_cons_inv ran
      obtain ⟨now, later⟩ := (meets_cons stepped).mp meets
      have after := ih _ next (keeps count state action next holds now stepped) later rest
      rw [List.countP_cons, Nat.add_comm (actions.countP counted), ← Nat.add_assoc]
      exact after

/-- Under an invariant, a step that misses the condition leads into a trap, and no step
leaves it: a run that ends outside the trap met the condition everywhere. -/
theorem meets_of_trap_after {step : σ → α → Option σ} {given condition : σ → α → Prop}
    (Inv Trap : σ → Prop)
    (keeps : ∀ state action next, Inv state → given state action →
      step state action = some next → Inv next)
    (enters : ∀ state action next, Inv state → ¬condition state action →
      step state action = some next → Trap next)
    (stays : ∀ state action next, Trap state → step state action = some next → Trap next)
    (actions : List α) (state final : σ) (holds : Inv state)
    (meets : Meets step given state actions) (ran : run step state actions = some final)
    (free : ¬Trap final) : Meets step condition state actions := by
  induction actions generalizing state with
  | nil => exact trivial
  | cons action actions ih =>
      obtain ⟨next, stepped, rest⟩ := run_cons_inv ran
      obtain ⟨now, later⟩ := (meets_cons stepped).mp meets
      rw [meets_cons stepped]
      constructor
      · by_contra missed
        exact free (run_invariant Trap stays actions next final
          (enters state action next holds missed stepped) rest)
      · exact ih next (keeps state action next holds now stepped) later rest

theorem meets_of_trap {step : σ → α → Option σ} {condition : σ → α → Prop} (Trap : σ → Prop)
    (enters : ∀ state action, ¬condition state action → Trap state)
    (stays : ∀ state action next, Trap state → step state action = some next → Trap next)
    (actions : List α) (state final : σ) (ran : run step state actions = some final)
    (free : ¬Trap final) : Meets step condition state actions := by
  have always : ∀ (state : σ) (action : α), (fun _ _ => True) state action :=
    fun _ _ => trivial
  exact meets_of_trap_after (fun _ => True) Trap (fun _ _ _ _ _ _ => trivial)
    (fun state action next _ missed stepped =>
      stays state action next (enters state action missed) stepped)
    stays actions state final trivial
    (meets_of_forall always state actions) ran free

instance decidableMeets (step : σ → α → Option σ) (condition : σ → α → Prop)
    [tested : ∀ state action, Decidable (condition state action)] :
    (state : σ) → (actions : List α) → Decidable (Meets step condition state actions)
  | _, [] => isTrue trivial
  | state, action :: actions =>
      have later : Decidable (match step state action with
          | none => True
          | some next => Meets step condition next actions) :=
        match step state action with
        | none => isTrue trivial
        | some next => decidableMeets step condition next actions
      @instDecidableAnd _ _ (tested state action) later

/-! ### Refinement -/

theorem meets_append {step : σ → α → Option σ} {condition : σ → α → Prop} {state middle : σ}
    {earlier later : List α} (ran : run step state earlier = some middle)
    (first : Meets step condition state earlier) (second : Meets step condition middle later) :
    Meets step condition state (earlier ++ later) := by
  induction earlier generalizing state with
  | nil =>
      cases ran
      exact second
  | cons action actions ih =>
      obtain ⟨next, stepped, rest⟩ := run_cons_inv ran
      obtain ⟨now, behind⟩ := (meets_cons stepped).mp first
      rw [List.cons_append, meets_cons stepped]
      exact ⟨now, ih rest behind⟩

/-- Where each step of a system, seen from above, is a run of another, so is each of its runs;
what fair steps meet above is met all along a run of them. -/
theorem run_simulates {τ ι : Type} {concrete : σ → α → Option σ} {abstract : τ → ι → Option τ}
    (view : σ → τ) (Inv : σ → Prop) (fair : α → Prop) (condition : τ → ι → Prop)
    (keeps : ∀ state action next, Inv state → concrete state action = some next →
      Inv next ∧ ∃ above, run abstract (view state) above = some (view next) ∧
        (fair action → Meets abstract condition (view state) above))
    (actions : List α) (state final : σ) (holds : Inv state)
    (ran : run concrete state actions = some final) :
    Inv final ∧ ∃ above, run abstract (view state) above = some (view final) ∧
      ((∀ action ∈ actions, fair action) → Meets abstract condition (view state) above) := by
  induction actions generalizing state with
  | nil =>
      cases ran
      exact ⟨holds, [], rfl, fun _ => trivial⟩
  | cons action actions ih =>
      obtain ⟨next, stepped, rest⟩ := run_cons_inv ran
      obtain ⟨kept, first, firstRan, firstMeets⟩ := keeps state action next holds stepped
      obtain ⟨last, later, laterRan, laterMeets⟩ := ih next kept rest
      refine ⟨last, first ++ later, run_trans firstRan laterRan, ?_⟩
      intro every
      exact meets_append firstRan (firstMeets (every action List.mem_cons_self))
        (laterMeets fun other member => every other (List.mem_cons_of_mem action member))

/-! ### Histories -/

variable {ε : Type}

def Each (Q : List ε → ε → Prop) (history : List ε) : Prop :=
  ∀ before event after, history = before ++ event :: after → Q before event

theorem each_nil (Q : List ε → ε → Prop) : Each Q [] := by
  intro before event after split
  exact absurd split.symm (List.append_ne_nil_of_right_ne_nil _ (List.cons_ne_nil _ _))

theorem each_snoc {Q : List ε → ε → Prop} {history : List ε} {event : ε} :
    Each Q (history ++ [event]) ↔ Each Q history ∧ Q history event := by
  constructor
  · intro every
    constructor
    · intro before earlier after split
      apply every before earlier (after ++ [event])
      rw [split, List.append_assoc, List.cons_append]
    · exact every history event [] rfl
  · intro both before later after split
    rcases List.eq_nil_or_concat after with empty | ⟨front, last, extended⟩
    · rw [empty] at split
      obtain ⟨same, single⟩ := List.append_inj' split rfl
      cases single
      rw [← same]
      exact both.2
    · rw [extended, List.concat_eq_append, ← List.cons_append, ← List.append_assoc] at split
      exact both.1 before later front (List.append_inj' split rfl).1

theorem Each.of_prefix {Q : List ε → ε → Prop} {earlier history : List ε}
    (every : Each Q history) (shorter : earlier <+: history) : Each Q earlier := by
  obtain ⟨rest, extended⟩ := shorter
  intro before event after split
  apply every before event (after ++ rest)
  rw [← extended, split, List.append_assoc, List.cons_append]

end Etlx.Transition
