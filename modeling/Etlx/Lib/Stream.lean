/-
Sources that hand out a finite sequence in pieces, and sinks that take pieces.

A source knows what it has left: a read gives a non-empty front of it that is no
longer than what was offered, and an empty piece means that nothing is left. A
read may also fail. `Moves` is the run of a loop that carries pieces from a source
to a sink, up to a point where every read and write so far has succeeded.
-/

import Mathlib.Data.List.Basic

namespace Etlx.Stream

variable {α ε σ τ : Type}

structure Source (α ε σ : Type) where
  read : σ → Nat → Except ε (List α) × σ
  left : σ → List α
  fits : ∀ s offered piece, (read s offered).1 = .ok piece → piece.length ≤ offered
  delivers : ∀ s offered piece, (read s offered).1 = .ok piece →
    left s = piece ++ left (read s offered).2
  ends : ∀ s offered, 0 < offered → (read s offered).1 = .ok [] → left s = []

abbrev Sink (α ε τ : Type) := τ → List α → Except ε Unit × τ

theorem Source.shrinks (source : Source α ε σ) {s : σ} {offered : Nat} {piece : List α}
    (read : (source.read s offered).1 = .ok piece) (nonempty : piece ≠ []) :
    (source.left (source.read s offered).2).length < (source.left s).length := by
  have positive := List.length_pos_iff.mpr nonempty
  rw [source.delivers s offered piece read, List.length_append]
  omega

section

variable (source : Source α ε σ) (sink : Sink α ε τ) (offered : Nat)

/-- The pieces of `data` have gone from the source to the sink. -/
inductive Moves : σ → τ → List α → σ → τ → Prop
  | here (s : σ) (t : τ) : Moves s t [] s t
  | step {s s' s'' : σ} {t t' t'' : τ} {piece data : List α}
      (read : source.read s offered = (.ok piece, s')) (nonempty : piece ≠ [])
      (write : sink t piece = (.ok (), t')) (rest : Moves s' t' data s'' t'') :
      Moves s t (piece ++ data) s'' t''

def Fails (s : σ) (t : τ) (e : ε) : Prop :=
  (source.read s offered).1 = .error e ∨
    ∃ piece, piece ≠ [] ∧ (source.read s offered).1 = .ok piece ∧ (sink t piece).1 = .error e

end

variable {source : Source α ε σ} {sink : Sink α ε τ} {offered : Nat}

theorem Moves.left {s s' : σ} {t t' : τ} {data : List α}
    (moves : Moves source sink offered s t data s' t') :
    source.left s = data ++ source.left s' := by
  induction moves with
  | here s t => rfl
  | step read nonempty write rest ih =>
      have front := source.delivers _ offered _ (congrArg Prod.fst read)
      rw [read, ih] at front
      rw [front, List.append_assoc]

/-- A source that never fails and gives all that is asked for while it lasts. -/
def Source.Full (source : Source α ε σ) : Prop :=
  ∀ s offered, (source.read s offered).1 = .ok ((source.left s).take offered)

theorem Moves.whole_pieces (full : source.Full) {s s' : σ} {t t' : τ} {data : List α}
    (moves : Moves source sink offered s t data s' t') (more : source.left s' ≠ []) :
    offered ∣ data.length := by
  induction moves with
  | here s t => exact Nat.dvd_zero offered
  | @step s s' s'' t t' t'' piece data read nonempty write rest ih =>
      have front := source.delivers _ offered _ (congrArg Prod.fst read)
      have given := full s offered
      rw [read] at front given
      have taken : piece = (source.left s).take offered := Except.ok.inj given
      have later : source.left s' ≠ [] := by
        intro nothing
        have whole := rest.left
        rw [nothing] at whole
        exact more (List.append_eq_nil_iff.mp whole.symm).2
      have longer : offered ≤ (source.left s).length := by
        by_contra short
        have all : piece = source.left s := by
          rw [taken, List.take_of_length_le (by omega)]
        rw [all] at front
        exact later (List.append_right_eq_self.mp front.symm)
      have size : piece.length = offered := by
        rw [taken, List.length_take, Nat.min_eq_left longer]
      rw [List.length_append, size]
      exact Nat.dvd_add (Nat.dvd_refl offered) (ih more)

theorem Moves.invariant (P : List α → τ → Prop)
    (keeps : ∀ before t piece, piece ≠ [] → P before t → (sink t piece).1 = .ok () →
      P (before ++ piece) (sink t piece).2)
    {s s' : σ} {t t' : τ} {data before : List α}
    (moves : Moves source sink offered s t data s' t') (start : P before t) :
    P (before ++ data) t' := by
  induction moves generalizing before with
  | here s t =>
      rw [List.append_nil]
      exact start
  | @step s s' s'' t t' t'' piece data read nonempty write rest ih =>
      have next := keeps before t piece nonempty start (by rw [write])
      rw [write] at next
      have final := ih next
      rw [List.append_assoc] at final
      exact final

end Etlx.Stream
