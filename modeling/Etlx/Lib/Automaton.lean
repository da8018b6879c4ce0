/-
Words read by a deterministic machine.

A word takes a state to another one exactly when it first stays, then leaves,
and the rest leads on from where the leaving letter led. A state that no letter
leaves is entered by one letter of the word, and what follows is arbitrary.
-/

namespace Etlx.Automaton

variable {σ α : Type}

def read (step : σ → α → σ) (state : σ) (word : List α) : σ :=
  word.foldl step state

@[simp] theorem read_nil (step : σ → α → σ) (state : σ) : read step state [] = state := rfl

@[simp] theorem read_cons (step : σ → α → σ) (state : σ) (letter : α) (word : List α) :
    read step state (letter :: word) = read step (step state letter) word := rfl

@[simp] theorem read_append (step : σ → α → σ) (state : σ) (front back : List α) :
    read step state (front ++ back) = read step (read step state front) back :=
  List.foldl_append

theorem read_eq_self {step : σ → α → σ} {state : σ} {word : List α}
    (stays : ∀ letter ∈ word, step state letter = state) : read step state word = state := by
  induction word with
  | nil => rfl
  | cons letter word ih =>
      rw [read_cons, stays letter List.mem_cons_self]
      exact ih (fun later member => stays later (List.mem_cons_of_mem letter member))

theorem read_eq_iff_leaves [DecidableEq σ] {step : σ → α → σ} {state target : σ}
    (different : state ≠ target) (word : List α) :
    read step state word = target ↔
      ∃ front letter rest, word = front ++ letter :: rest ∧
        (∀ earlier ∈ front, step state earlier = state) ∧ step state letter ≠ state ∧
        read step (step state letter) rest = target := by
  constructor
  · intro reached
    induction word with
    | nil => exact absurd reached different
    | cons letter word ih =>
        by_cases stays : step state letter = state
        · rw [read_cons, stays] at reached
          obtain ⟨front, leaving, rest, split, before, leaves, onward⟩ := ih reached
          refine ⟨letter :: front, leaving, rest, ?_, ?_, leaves, onward⟩
          · rw [split, List.cons_append]
          · intro earlier member
            rcases List.mem_cons.mp member with first | later
            · rw [first]
              exact stays
            · exact before earlier later
        · exact ⟨[], letter, word, rfl, fun _ member => absurd member List.not_mem_nil, stays,
            reached⟩
  · rintro ⟨front, letter, rest, split, before, _leaves, onward⟩
    rw [split, read_append, read_eq_self before, read_cons]
    exact onward

/-- The letter that enters a state nothing leaves. -/
theorem read_eq_iff_enters [DecidableEq σ] {step : σ → α → σ} {state target : σ}
    (absorbing : ∀ letter, step target letter = target) (different : state ≠ target)
    (word : List α) :
    read step state word = target ↔
      ∃ front letter rest, word = front ++ letter :: rest ∧
        read step state front ≠ target ∧ step (read step state front) letter = target := by
  constructor
  · intro reached
    induction word generalizing state with
    | nil => exact absurd reached different
    | cons letter word ih =>
        by_cases entered : step state letter = target
        · exact ⟨[], letter, word, rfl, different, entered⟩
        · obtain ⟨front, entering, rest, split, outside, enters⟩ := ih entered reached
          refine ⟨letter :: front, entering, rest, ?_, outside, enters⟩
          rw [split, List.cons_append]
  · rintro ⟨front, letter, rest, split, _outside, enters⟩
    rw [split, read_append, read_cons, enters]
    exact read_eq_self (fun later _ => absorbing later)

end Etlx.Automaton
