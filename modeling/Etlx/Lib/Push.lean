/-
Loops that hand a sequence to a primitive which takes as much of it as it likes.

Every attempt presents what is left. The primitive takes a front of that, or asks to
be tried again, or fails. What an answer means is one thing, and what the loop makes of
it another. The answers of the primitive are a list, and a loop that has used them up is
waiting for the next one; so what is said of every list of answers is said of every
point of a loop that may never end.
-/

import Mathlib.Data.List.Basic

namespace Etlx.Push

variable {α ι ε : Type}

inductive Verdict (ε : Type)
  | taken (count : Nat)
  | again
  | failed (e : ε)
deriving DecidableEq, Repr

structure Attempt (α ι : Type) where
  presented : List α
  answer : ι
deriving DecidableEq, Repr

/-- The attempts made so far, and the result once there is one. -/
structure Outcome (α ι ε : Type) where
  result : Option (Except ε Unit)
  attempts : List (Attempt α ι)

def Outcome.after (outcome : Outcome α ι ε) (attempt : Attempt α ι) : Outcome α ι ε :=
  { outcome with attempts := attempt :: outcome.attempts }

def push (verdict : ι → Verdict ε) (src : List α) (sent : Nat) : List ι → Outcome α ι ε
  | [] =>
      if sent < src.length then { result := none, attempts := [] }
      else { result := some (.ok ()), attempts := [] }
  | answer :: answers =>
      if sent < src.length then
        match verdict answer with
        | .taken count =>
            (push verdict src (sent + count) answers).after
              { presented := src.drop sent, answer := answer }
        | .again =>
            (push verdict src sent answers).after
              { presented := src.drop sent, answer := answer }
        | .failed e =>
            { result := some (.error e)
              attempts := [{ presented := src.drop sent, answer := answer }] }
      else { result := some (.ok ()), attempts := [] }

/-- What an answer means, by its value: how many of the items presented were taken, whether the
primitive asks to be called again, and its error. -/
structure Primitive (ι ε : Type) where
  accepts : ι → Nat
  again : ι → Prop
  error : ι → Option ε
  rests : ∀ answer, again answer → accepts answer = 0

structure Reads (verdict : ι → Verdict ε) (primitive : Primitive ι ε) : Prop where
  taken : ∀ answer count, verdict answer = .taken count →
    primitive.accepts answer = count ∧ primitive.error answer = none
  again : ∀ answer, verdict answer = .again →
    primitive.accepts answer = 0 ∧ primitive.error answer = none
  failed : ∀ answer e, verdict answer = .failed e →
    primitive.accepts answer = 0 ∧ primitive.error answer = some e

def Fits (primitive : Primitive ι ε) : Nat → List ι → Prop
  | 0, _ => True
  | _ + 1, [] => True
  | left + 1, answer :: answers =>
      match primitive.error answer with
      | some _ => True
      | none => primitive.accepts answer ≤ left + 1 ∧
          Fits primitive (left + 1 - primitive.accepts answer) answers

instance decidableFits (primitive : Primitive ι ε) :
    (left : Nat) → (answers : List ι) → Decidable (Fits primitive left answers)
  | 0, _ => isTrue (by rw [Fits]; trivial)
  | _ + 1, [] => isTrue trivial
  | left + 1, answer :: answers =>
      have fits : Decidable (match primitive.error answer with
          | some _ => True
          | none => primitive.accepts answer ≤ left + 1 ∧
              Fits primitive (left + 1 - primitive.accepts answer) answers) :=
        match primitive.error answer with
        | some _ => isTrue trivial
        | none =>
            @instDecidableAnd _ _ inferInstance
              (decidableFits primitive (left + 1 - primitive.accepts answer) answers)
      fits

def Attempt.taken (primitive : Primitive ι ε) (attempt : Attempt α ι) : List α :=
  attempt.presented.take (primitive.accepts attempt.answer)

/-- What the primitive has taken, in the order of the attempts. -/
def delivered (primitive : Primitive ι ε) (attempts : List (Attempt α ι)) : List α :=
  attempts.flatMap (Attempt.taken primitive)

/-- The loop delivers the sequence from its front on, each element once, until it is done or
the primitive fails. -/
structure Delivers (primitive : Primitive ι ε) (src : List α) (answers : List ι)
    (outcome : Outcome α ι ε) : Prop where
  begins : delivered primitive outcome.attempts <+: src
  whole : outcome.result = some (.ok ()) → delivered primitive outcome.attempts = src
  fails : ∀ e, outcome.result = some (.error e) →
    ∃ front last, outcome.attempts = front ++ [last] ∧ primitive.error last.answer = some e
  stops : ∀ attempt ∈ outcome.attempts, ∀ e, primitive.error attempt.answer = some e →
    outcome.result = some (.error e)
  presents : ∀ front attempt back, outcome.attempts = front ++ attempt :: back →
    src = delivered primitive front ++ attempt.presented
  asks : outcome.attempts.map Attempt.answer <+: answers
  returns : src.length ≤ answers.countP (fun answer => 0 < primitive.accepts answer) ∨
    (∃ answer ∈ answers, primitive.error answer ≠ none) → outcome.result ≠ none

/-! ### One attempt -/

theorem delivered_cons (primitive : Primitive ι ε) (attempt : Attempt α ι)
    (attempts : List (Attempt α ι)) :
    delivered primitive (attempt :: attempts) =
      Attempt.taken primitive attempt ++ delivered primitive attempts :=
  List.flatMap_cons

section

variable {verdict : ι → Verdict ε} {primitive : Primitive ι ε} {src : List α} {answers : List ι}
  {outcome : Outcome α ι ε}

theorem Delivers.done (primitive : Primitive ι ε) (answers : List ι) :
    Delivers primitive ([] : List α) answers { result := some (.ok ()), attempts := [] } :=
  { begins := List.prefix_refl []
    whole := fun _ => rfl
    fails := by intro e impossible; cases impossible
    stops := by intro attempt impossible; cases impossible
    presents := by
      intro front attempt back split
      simp at split
    asks := List.nil_prefix
    returns := by intro _ impossible; cases impossible }

theorem Delivers.waiting (primitive : Primitive ι ε) (more : src ≠ []) :
    Delivers primitive src [] { result := none, attempts := [] } :=
  { begins := List.nil_prefix
    whole := by intro impossible; cases impossible
    fails := by intro e impossible; cases impossible
    stops := by intro attempt impossible; cases impossible
    presents := by
      intro front attempt back split
      simp at split
    asks := List.nil_prefix
    returns := by
      rintro (short | ⟨answer, impossible, -⟩)
      · exact absurd (List.length_eq_zero_iff.mp (Nat.le_zero.mp short)) more
      · cases impossible }

theorem Delivers.failed {answer : ι} {e : ε} (nothing : primitive.accepts answer = 0)
    (refused : primitive.error answer = some e) :
    Delivers primitive src (answer :: answers)
      { result := some (.error e), attempts := [{ presented := src, answer := answer }] } :=
  have none' : Attempt.taken primitive { presented := src, answer := answer } = [] := by
    rw [Attempt.taken, nothing, List.take_zero]
  { begins := by
      rw [delivered, List.flatMap_singleton, none']
      exact List.nil_prefix
    whole := by intro impossible; cases impossible
    fails := by
      intro other same
      cases same
      exact ⟨[], _, rfl, refused⟩
    stops := by
      intro attempt member other broke
      rw [List.mem_singleton.mp member, refused] at broke
      cases broke
      rfl
    presents := by
      intro front attempt back split
      rcases List.cons_eq_append_iff.mp split with ⟨rfl, same⟩ | ⟨front, -, impossible⟩
      · cases same
        rfl
      · simp at impossible
    asks := ⟨answers, rfl⟩
    returns := by intro _ impossible; cases impossible }

theorem Delivers.after {rest later : List α} {answer : ι}
    (taken : rest = Attempt.taken primitive { presented := rest, answer := answer } ++ later)
    (goesOn : primitive.error answer = none)
    (fewer : later.length + (if 0 < primitive.accepts answer then 1 else 0) ≤ rest.length)
    (delivers : Delivers primitive later answers outcome) :
    Delivers primitive rest (answer :: answers)
      (outcome.after { presented := rest, answer := answer }) :=
  { begins := by
      obtain ⟨tail, extended⟩ := delivers.begins
      refine ⟨tail, ?_⟩
      rw [Outcome.after, delivered_cons, List.append_assoc, extended]
      exact taken.symm
    whole := by
      intro done
      rw [Outcome.after, delivered_cons, delivers.whole done]
      exact taken.symm
    fails := by
      intro e broke
      obtain ⟨front, last, split, refused⟩ := delivers.fails e broke
      refine ⟨{ presented := rest, answer := answer } :: front, last, ?_, refused⟩
      rw [Outcome.after, split, List.cons_append]
    stops := by
      intro attempt member e refused
      rcases List.mem_cons.mp member with rfl | later
      · rw [goesOn] at refused
        cases refused
      · exact delivers.stops attempt later e refused
    presents := by
      intro front attempt back split
      rcases List.cons_eq_append_iff.mp split with ⟨rfl, same⟩ | ⟨front, rfl, further⟩
      · cases same
        rfl
      · have presented := delivers.presents front attempt back further
        rw [delivered_cons, List.append_assoc, ← presented]
        exact taken
    asks := List.cons_prefix_cons.mpr ⟨rfl, delivers.asks⟩
    returns := by
      intro enough
      apply delivers.returns
      rcases enough with taking | ⟨refusal, member, refused⟩
      · left
        rw [List.countP_cons] at taking
        simp only [decide_eq_true_eq] at taking
        omega
      · right
        rcases List.mem_cons.mp member with rfl | further
        · exact absurd goesOn refused
        · exact ⟨refusal, further, refused⟩ }

end

/-! ### The loop -/

theorem Fits.of_goesOn {primitive : Primitive ι ε} {left : Nat} {answer : ι}
    {answers : List ι} (more : 0 < left) (fits : Fits primitive left (answer :: answers))
    (goesOn : primitive.error answer = none) :
    primitive.accepts answer ≤ left ∧
      Fits primitive (left - primitive.accepts answer) answers := by
  cases left with
  | zero => cases more
  | succ left =>
      rw [Fits, goesOn] at fits
      exact fits

theorem push_delivers {verdict : ι → Verdict ε} {primitive : Primitive ι ε}
    (reads : Reads verdict primitive) (src : List α) (answers : List ι) (sent : Nat)
    (fits : Fits primitive (src.length - sent) answers) :
    Delivers primitive (src.drop sent) answers (push verdict src sent answers) := by
  induction answers generalizing sent with
  | nil =>
      by_cases more : sent < src.length
      · rw [push, if_pos more]
        apply Delivers.waiting
        intro empty
        rw [List.drop_eq_nil_iff] at empty
        omega
      · rw [push, if_neg more, List.drop_eq_nil_of_le (Nat.le_of_not_lt more)]
        exact Delivers.done primitive []
  | cons answer answers ih =>
      by_cases more : sent < src.length
      · have someLeft : 0 < src.length - sent := Nat.sub_pos_of_lt more
        rw [push, if_pos more]
        cases answered : verdict answer with
        | taken count =>
            obtain ⟨accepts, goesOn⟩ := reads.taken answer count answered
            obtain ⟨within, later⟩ := fits.of_goesOn someLeft goesOn
            rw [accepts] at within later
            rw [Nat.sub_sub] at later
            refine Delivers.after ?_ goesOn ?_ (ih (sent + count) later)
            · rw [Attempt.taken, accepts, ← List.drop_drop, List.take_append_drop]
            · rw [List.length_drop, List.length_drop, accepts]
              split <;> omega
        | again =>
            obtain ⟨nothing, goesOn⟩ := reads.again answer answered
            obtain ⟨-, later⟩ := fits.of_goesOn someLeft goesOn
            rw [nothing, Nat.sub_zero] at later
            refine Delivers.after ?_ goesOn ?_ (ih sent later)
            · rw [Attempt.taken, nothing, List.take_zero, List.nil_append]
            · rw [nothing]
              exact Nat.le_refl _
        | failed e =>
            obtain ⟨nothing, refused⟩ := reads.failed answer e answered
            exact Delivers.failed nothing refused
      · rw [push, if_neg more, List.drop_eq_nil_of_le (Nat.le_of_not_lt more)]
        exact Delivers.done primitive _

theorem Delivers.retries {primitive : Primitive ι ε} {src : List α} {answers : List ι}
    {outcome : Outcome α ι ε} (delivers : Delivers primitive src answers outcome)
    {front back : List (Attempt α ι)} {attempt next : Attempt α ι}
    (split : outcome.attempts = front ++ attempt :: next :: back)
    (retried : primitive.again attempt.answer) : next.presented = attempt.presented := by
  have nothing : Attempt.taken primitive attempt = [] := by
    rw [Attempt.taken, primitive.rests _ retried, List.take_zero]
  have before := delivers.presents front attempt (next :: back) split
  have after := delivers.presents (front ++ [attempt]) next back (by simpa using split)
  rw [delivered, List.flatMap_append, List.flatMap_singleton, nothing, List.append_nil,
    ← delivered] at after
  exact List.append_cancel_left (after.symm.trans before)

end Etlx.Push
