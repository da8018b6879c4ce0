/-
Reading and updating a list at a cursor.

A scanner keeps an index into its input. These lemmas trade the index for the
suffix that starts there, so that a statement about a scan is a statement
about the text ahead, and they say what an update at an index does to a list
that is given as a concatenation.
-/

import Mathlib.Data.List.Basic

namespace Etlx.Cursor

variable {α : Type}

/-- The element under a cursor and the cursor after it. -/
theorem ahead_cons {items rest : List α} {pos : Nat} {item : α}
    (ahead : items.drop pos = item :: rest) :
    items[pos]? = some item ∧ items.drop (pos + 1) = rest := by
  constructor
  · have first : (items.drop pos)[0]? = some item := by rw [ahead]; rfl
    rwa [List.getElem?_drop, Nat.add_zero] at first
  · rw [← List.drop_drop, ahead]
    rfl

theorem ahead_of_reading {items : List α} {pos : Nat} {item : α}
    (reading : items[pos]? = some item) : items.drop pos = item :: items.drop (pos + 1) := by
  obtain ⟨inside, rfl⟩ := List.getElem?_eq_some_iff.mp reading
  exact List.drop_eq_getElem_cons inside

theorem ahead_append {items front rest : List α} {pos : Nat}
    (ahead : items.drop pos = front ++ rest) : items.drop (pos + front.length) = rest := by
  rw [← List.drop_drop, ahead, List.drop_left]

theorem ahead_nil {items : List α} {pos : Nat} (ahead : items.drop pos = []) :
    items[pos]? = none :=
  List.getElem?_eq_none (List.drop_eq_nil_iff.mp ahead)

theorem modify_append_left {front back : List α} {index : Nat} (f : α → α)
    (inside : index < front.length) :
    (front ++ back).modify index f = front.modify index f ++ back := by
  induction front generalizing index with
  | nil => simp at inside
  | cons item front ih =>
      cases index with
      | zero => rfl
      | succ index =>
          simp only [List.cons_append, List.modify_succ_cons]
          rw [ih (by simpa using inside)]

theorem modify_append_at (front back : List α) (item : α) (f : α → α) :
    (front ++ item :: back).modify front.length f = front ++ f item :: back := by
  induction front with
  | nil => rfl
  | cons head front ih =>
      simp only [List.cons_append, List.length_cons, List.modify_succ_cons, ih]

theorem set_append_at (front back : List α) (old item : α) :
    (front ++ old :: back).set front.length item = front ++ item :: back := by
  rw [List.set_append_right _ _ (Nat.le_refl _), Nat.sub_self]
  rfl

theorem getD_append_at (front back : List α) (item default : α) :
    (front ++ item :: back).getD front.length default = item := by
  rw [List.getD_eq_getElem?_getD, List.getElem?_append_right (Nat.le_refl _), Nat.sub_self]
  rfl

end Etlx.Cursor
