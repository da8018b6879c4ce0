/-
Feeding a message to a compression function block by block.

`absorb` takes whole blocks off the front of a message while there are any and
returns the state they lead to with the bytes that are left. Absorbing a message
in pieces, each behind what the last one left, is absorbing it at once.
-/

import Mathlib.Data.List.Basic

namespace Etlx.BlockStream

variable {σ α : Type} (compress : σ → List α → σ) (size : Nat)

def absorb (state : σ) (message : List α) : σ × List α :=
  if 0 < size ∧ size ≤ message.length then
    absorb (compress state (message.take size)) (message.drop size)
  else (state, message)
termination_by message.length
decreasing_by
  rw [List.length_drop]
  omega

variable {compress size}

theorem absorb_short {state : σ} {message : List α} (short : message.length < size) :
    absorb compress size state message = (state, message) := by
  rw [absorb, if_neg (by omega)]

theorem absorb_block (positive : 0 < size) {state : σ} {block message : List α}
    (whole : block.length = size) :
    absorb compress size state (block ++ message) =
      absorb compress size (compress state block) message := by
  rw [absorb, if_pos ⟨positive, by rw [List.length_append]; omega⟩, ← whole, List.take_left,
    List.drop_left]

theorem absorb_mod (positive : 0 < size) (state : σ) (message : List α) :
    (absorb compress size state message).2.length = message.length % size := by
  fun_induction absorb compress size state message with
  | case1 state message whole ih =>
      rw [ih, List.length_drop, ← Nat.mod_eq_sub_mod whole.2]
  | case2 state message short =>
      change message.length = message.length % size
      rw [Nat.mod_eq_of_lt (by omega)]

theorem absorb_append (state : σ) (front back : List α) :
    absorb compress size state (front ++ back) =
      absorb compress size (absorb compress size state front).1
        ((absorb compress size state front).2 ++ back) := by
  fun_induction absorb compress size state front with
  | case1 state front whole ih =>
      have split : front ++ back = front.take size ++ (front.drop size ++ back) := by
        rw [← List.append_assoc, List.take_append_drop]
      rw [split, absorb_block whole.1 (List.length_take_of_le whole.2), ih]
  | case2 state front short => rfl

/-- A message of exactly `count` blocks is a fold over them. -/
theorem absorb_blocks (positive : 0 < size) (state : σ) (message : List α) (count : Nat)
    (whole : message.length = size * count) :
    absorb compress size state message =
      ((List.range count).foldl
        (fun state i => compress state ((message.drop (size * i)).take size)) state, []) := by
  induction count generalizing state message with
  | zero =>
      have empty : message = [] := List.length_eq_zero_iff.mp (by omega)
      subst empty
      exact absorb_short positive
  | succ count ih =>
      rw [Nat.mul_succ] at whole
      rw [absorb, if_pos ⟨positive, by omega⟩,
        ih _ (message.drop size) (by rw [List.length_drop]; omega), List.range_succ_eq_map,
        List.foldl_cons, List.foldl_map]
      simp only [Nat.mul_zero, List.drop_zero, List.drop_drop, Nat.mul_succ, Nat.add_comm]

end Etlx.BlockStream
