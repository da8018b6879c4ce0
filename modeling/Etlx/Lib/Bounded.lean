/-
A sequence that never grows past a fixed capacity.

The capacity is a field of the value, so an overfull sequence cannot be built:
an element is pushed only together with the proof that there is room.
-/

namespace Etlx

structure Bounded (capacity : Nat) (α : Type) where
  items : List α
  bound : items.length ≤ capacity
deriving DecidableEq

namespace Bounded

variable {capacity : Nat} {α : Type}

def empty : Bounded capacity α := { items := [], bound := Nat.zero_le _ }

/-- The front of a list, as much of it as there is room for. -/
def assign (items : List α) : Bounded capacity α :=
  { items := items.take capacity, bound := List.length_take_le _ _ }

def full (b : Bounded capacity α) : Bool := b.items.length == capacity

theorem room_of_not_full {b : Bounded capacity α} (room : ¬b.full = true) :
    b.items.length < capacity := by
  have short := b.bound
  have different : b.items.length ≠ capacity := by
    intro same
    exact room (beq_iff_eq.mpr same)
  omega

def push (b : Bounded capacity α) (item : α) (room : ¬b.full = true) : Bounded capacity α :=
  { items := b.items ++ [item]
    bound := by
      rw [List.length_append, List.length_singleton]
      exact room_of_not_full room }

def pop (b : Bounded capacity α) : Bounded capacity α :=
  { items := b.items.tail
    bound := by
      rw [List.length_tail]
      exact Nat.le_trans (Nat.sub_le _ _) b.bound }

def eraseP (b : Bounded capacity α) (p : α → Bool) : Bounded capacity α :=
  { items := b.items.eraseP p
    bound := Nat.le_trans List.eraseP_sublist.length_le b.bound }

@[simp]
theorem push_items (b : Bounded capacity α) (item : α) (room : ¬b.full = true) :
    (b.push item room).items = b.items ++ [item] := rfl

@[simp]
theorem pop_items (b : Bounded capacity α) : b.pop.items = b.items.tail := rfl

@[simp]
theorem eraseP_items (b : Bounded capacity α) (p : α → Bool) :
    (b.eraseP p).items = b.items.eraseP p := rfl

end Bounded

end Etlx
