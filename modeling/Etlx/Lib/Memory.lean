/-
Writes into a buffer at an offset, and records of one width.

A write replaces as many items as it brings. Written behind what is already
there, it extends it and leaves the rest of the buffer as it was. Records that are
all as wide as each other are read back from their sequence in one way only.
-/

namespace Etlx.Memory

variable {α : Type}

def write (buffer : List α) (offset : Nat) (data : List α) : List α :=
  buffer.take offset ++ data ++ buffer.drop (offset + data.length)

theorem write_length {buffer data : List α} {offset : Nat} (inside : offset ≤ buffer.length)
    (fits : data.length ≤ buffer.length - offset) :
    (write buffer offset data).length = buffer.length := by
  unfold write
  simp only [List.length_append, List.length_take, List.length_drop]
  omega

theorem write_take {buffer data : List α} {offset : Nat} (inside : offset ≤ buffer.length) :
    (write buffer offset data).take (offset + data.length) = buffer.take offset ++ data := by
  have size : (buffer.take offset ++ data).length = offset + data.length := by
    rw [List.length_append, List.length_take_of_le inside]
  unfold write
  rw [← size, List.take_left]

theorem write_drop {buffer data : List α} {offset : Nat} (inside : offset ≤ buffer.length)
    (count : Nat) (behind : offset + data.length ≤ count) :
    (write buffer offset data).drop count = buffer.drop count := by
  have size : (buffer.take offset ++ data).length = offset + data.length := by
    rw [List.length_append, List.length_take_of_le inside]
  unfold write
  rw [List.drop_append, List.drop_eq_nil_of_le (by omega), size, List.nil_append, List.drop_drop]
  congr 1
  omega

theorem write_behind {written rest data : List α} {offset : Nat} (place : written.length = offset) :
    write (written ++ rest) offset data = (written ++ data) ++ rest.drop data.length := by
  subst place
  unfold write
  rw [List.take_left, ← List.drop_drop, List.drop_left]

theorem flatMap_inj {β : Type} {layout : β → List α} {width : Nat}
    (wide : ∀ record, (layout record).length = width) (positive : 0 < width)
    (injective : ∀ first second, layout first = layout second → first = second)
    {left right : List β} (same : left.flatMap layout = right.flatMap layout) : left = right := by
  induction left generalizing right with
  | nil =>
      cases right with
      | nil => rfl
      | cons record right =>
          have empty := congrArg List.length same
          rw [List.flatMap_cons, List.length_append, wide, List.flatMap_nil,
            List.length_nil] at empty
          omega
  | cons record left ih =>
      cases right with
      | nil =>
          have empty := congrArg List.length same
          rw [List.flatMap_cons, List.length_append, wide, List.flatMap_nil,
            List.length_nil] at empty
          omega
      | cons other right =>
          rw [List.flatMap_cons, List.flatMap_cons] at same
          obtain ⟨first, rest⟩ := List.append_inj same (by rw [wide, wide])
          rw [injective record other first, ih rest]

end Etlx.Memory
