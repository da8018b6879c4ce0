/-
Runs of a machine that answers calls, and refinement between two machines.

A machine takes a call in a state and gives a reply and the next state. A
relation between the states of two machines that every call preserves, with
equal replies, gives equal replies over every run; the calls may be restricted
to those that keep the abstract machine within given states. An invariant that is
kept by the calls that meet a condition holds after every run of such calls.
-/

namespace Etlx.Machine

variable {σ τ ι ο : Type}

def run (step : σ → ι → ο × σ) : σ → List ι → List ο × σ
  | state, [] => ([], state)
  | state, call :: calls =>
      ((step state call).1 :: (run step (step state call).2 calls).1,
        (run step (step state call).2 calls).2)

/-- Every state of a run, the first and the last included, satisfies `P`. -/
def Along (step : σ → ι → ο × σ) (P : σ → Prop) : σ → List ι → Prop
  | state, [] => P state
  | state, call :: calls => P state ∧ Along step P (step state call).2 calls

theorem Along.head {step : σ → ι → ο × σ} {P : σ → Prop} {state : σ} {calls : List ι}
    (along : Along step P state calls) : P state := by
  cases calls with
  | nil => exact along
  | cons call calls => exact along.1

theorem along_of_forall {step : σ → ι → ο × σ} {P : σ → Prop} (always : ∀ state, P state)
    (state : σ) (calls : List ι) : Along step P state calls := by
  induction calls generalizing state with
  | nil => exact always state
  | cons call calls ih => exact ⟨always state, ih _⟩

/-- The simulation rule. -/
theorem run_refines {concrete : σ → ι → ο × σ} {abstract : τ → ι → ο × τ}
    (Related : σ → τ → Prop) (P : τ → Prop)
    (keeps : ∀ s t call, Related s t → P t → P (abstract t call).2 →
      (concrete s call).1 = (abstract t call).1 ∧
        Related (concrete s call).2 (abstract t call).2)
    (calls : List ι) (s : σ) (t : τ) (related : Related s t) (along : Along abstract P t calls) :
    (run concrete s calls).1 = (run abstract t calls).1 ∧
      Related (run concrete s calls).2 (run abstract t calls).2 := by
  induction calls generalizing s t with
  | nil => exact ⟨rfl, related⟩
  | cons call calls ih =>
      obtain ⟨now, later⟩ := along
      obtain ⟨reply, next⟩ := keeps s t call related now later.head
      obtain ⟨replies, final⟩ := ih _ _ next later
      refine ⟨?_, final⟩
      change (concrete s call).1 :: _ = (abstract t call).1 :: _
      rw [reply, replies]

theorem run_append (step : σ → ι → ο × σ) (state : σ) (front back : List ι) :
    run step state (front ++ back) =
      ((run step state front).1 ++ (run step (run step state front).2 back).1,
        (run step (run step state front).2 back).2) := by
  induction front generalizing state with
  | nil => rfl
  | cons call front ih =>
      simp only [List.cons_append, run, ih]

/-! ### Conditions on calls -/

def Meets (step : σ → ι → ο × σ) (condition : σ → ι → Prop) : σ → List ι → Prop
  | _, [] => True
  | state, call :: calls => condition state call ∧ Meets step condition (step state call).2 calls

theorem run_invariant_of_meets {step : σ → ι → ο × σ} {condition : σ → ι → Prop}
    (Inv : σ → Prop)
    (keeps : ∀ state call, Inv state → condition state call → Inv (step state call).2)
    (calls : List ι) (state : σ) (holds : Inv state) (meets : Meets step condition state calls) :
    Inv (run step state calls).2 := by
  induction calls generalizing state with
  | nil => exact holds
  | cons call calls ih => exact ih _ (keeps state call holds meets.1) meets.2

theorem meets_iff {step : σ → ι → ο × σ} {condition : σ → ι → Prop} {state : σ}
    {calls : List ι} :
    Meets step condition state calls ↔
      ∀ front call back, calls = front ++ call :: back →
        condition (run step state front).2 call := by
  induction calls generalizing state with
  | nil =>
      refine ⟨?_, fun _ => trivial⟩
      intro _ front call back impossible
      exact absurd impossible.symm (List.append_ne_nil_of_right_ne_nil front (List.cons_ne_nil _ _))
  | cons first calls ih =>
      unfold Meets
      rw [ih]
      constructor
      · rintro ⟨now, later⟩ front call back parts
        cases front with
        | nil =>
            cases parts
            exact now
        | cons head front =>
            cases parts
            exact later front call back rfl
      · intro every
        refine ⟨every [] first calls rfl, ?_⟩
        rintro front call back rfl
        exact every (first :: front) call back rfl

end Etlx.Machine
