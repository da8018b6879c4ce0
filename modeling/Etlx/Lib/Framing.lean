/-
Frames on a stream, each with a header that says how much follows it.

A stream is cut from its beginning into whole frames and what is left, which is too
short for a frame. Whole frames that were written one after another are found again,
whatever follows them.
-/

import Mathlib.Data.List.Basic

namespace Etlx.Framing

variable {α : Type}

/-- The size of the header, and the size that a header gives to the rest of its frame. -/
structure Format (α : Type) where
  header : Nat
  rest : List α → Nat
  positive : 0 < header

namespace Format

variable (format : Format α)

def size (stream : List α) : Nat := format.header + format.rest (stream.take format.header)

def Whole (frame : List α) : Prop := frame.length = format.size frame

def Short (stream : List α) : Prop := stream.length < format.size stream

theorem size_pos (stream : List α) : 0 < format.size stream :=
  Nat.lt_of_lt_of_le format.positive (Nat.le_add_right _ _)

/-- The whole frames in front, and what is left. -/
def split (stream : List α) : List (List α) × List α :=
  if format.size stream ≤ stream.length then
    (stream.take (format.size stream) :: (split (stream.drop (format.size stream))).1,
      (split (stream.drop (format.size stream))).2)
  else ([], stream)
termination_by stream.length
decreasing_by
  all_goals
    rw [List.length_drop]
    have positive := format.size_pos stream
    omega

theorem size_append (front : List α) (headed : format.header ≤ front.length) (back : List α) :
    format.size (front ++ back) = format.size front := by
  rw [size, size, List.take_append_of_le_length headed]

theorem Whole.headed {format : Format α} {frame : List α} (whole : format.Whole frame) :
    format.header ≤ frame.length := by
  rw [Whole, size] at whole
  omega

theorem Whole.short {format : Format α} {frame front : List α} (whole : format.Whole frame)
    (part : front <+: frame) (shorter : front.length < frame.length) : format.Short front := by
  rw [Short]
  by_cases headed : format.header ≤ front.length
  · obtain ⟨back, joined⟩ := part
    have size := format.size_append front headed back
    rw [joined] at size
    rw [← size, ← whole]
    exact shorter
  · rw [size]
    omega

theorem split_short {stream : List α} (short : format.Short stream) :
    format.split stream = ([], stream) := by
  rw [split, if_neg (Nat.not_le.mpr short)]

theorem split_cons {frame : List α} (whole : format.Whole frame) (stream : List α) :
    format.split (frame ++ stream) =
      (frame :: (format.split stream).1, (format.split stream).2) := by
  have size : format.size (frame ++ stream) = frame.length :=
    (format.size_append frame whole.headed stream).trans whole.symm
  rw [split, size, if_pos (by rw [List.length_append]; omega), List.take_left, List.drop_left]

theorem split_whole {frame : List α} (whole : format.Whole frame) :
    format.split frame = ([frame], []) := by
  have nothing : format.split [] = ([], []) := format.split_short (format.size_pos [])
  have split := format.split_cons whole []
  rw [List.append_nil, nothing] at split
  exact split

/-- Frames in a row are found again, and so is what comes after them. -/
theorem split_flatten {frames : List (List α)} (whole : ∀ frame ∈ frames, format.Whole frame)
    (stream : List α) :
    format.split (frames.flatten ++ stream) =
      (frames ++ (format.split stream).1, (format.split stream).2) := by
  induction frames with
  | nil => rfl
  | cons frame frames ih =>
      have first : format.Whole frame := whole frame List.mem_cons_self
      have others := ih (fun other member => whole other (List.mem_cons_of_mem frame member))
      rw [List.flatten_cons, List.append_assoc, format.split_cons first, others]
      rfl

end Format

end Etlx.Framing
