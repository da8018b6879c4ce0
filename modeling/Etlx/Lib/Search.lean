/-
The first occurrence of a pattern in a list.

`search` is specified by what it skips: a stretch that the first element of the
pattern does not occur in is passed over whole, and a pattern at the front is
found at once.
-/

import Mathlib.Data.List.Basic

namespace Etlx.Search

variable {α : Type} [DecidableEq α]

def search (pattern : List α) : List α → Option Nat
  | [] => if pattern = [] then some 0 else none
  | item :: rest =>
      if (item :: rest).take pattern.length = pattern then some 0
      else (search pattern rest).map (· + 1)

/-- The first occurrence at or after `pos`. -/
def find (text pattern : List α) (pos : Nat) : Option Nat :=
  (search pattern (text.drop pos)).map (· + pos)

theorem search_here (pattern rest : List α) : search pattern (pattern ++ rest) = some 0 := by
  cases whole : pattern ++ rest with
  | nil =>
      have empty := (List.append_eq_nil_iff.mp whole).1
      rw [empty, search, if_pos rfl]
  | cons item items =>
      rw [search, ← whole, if_pos List.take_left]

theorem search_step {pattern rest : List α} {item : α}
    (absent : (item :: rest).take pattern.length ≠ pattern) :
    search pattern (item :: rest) = (search pattern rest).map (· + 1) := by
  rw [search, if_neg absent]

theorem search_avoid {first : α} {pattern front : List α} (avoids : first ∉ front)
    (rest : List α) :
    search (first :: pattern) (front ++ rest) =
      (search (first :: pattern) rest).map (· + front.length) := by
  induction front with
  | nil => simp
  | cons item front ih =>
      have different : item ≠ first := fun same => avoids (same ▸ List.mem_cons_self)
      rw [List.cons_append, search_step, ih (fun member => avoids (List.mem_cons_of_mem _ member)),
        Option.map_map]
      · congr 1
      · intro same
        rw [List.length_cons, List.take_succ_cons, List.cons.injEq] at same
        exact different same.1

theorem search_found {first : α} {pattern front : List α} (avoids : first ∉ front)
    (rest : List α) :
    search (first :: pattern) (front ++ (first :: pattern) ++ rest) = some front.length := by
  rw [List.append_assoc, search_avoid avoids, search_here]
  simp

theorem search_some {pattern text : List α} {found : Nat}
    (hit : search pattern text = some found) :
    found + pattern.length ≤ text.length ∧ (text.drop found).take pattern.length = pattern := by
  induction text generalizing found with
  | nil =>
      unfold search at hit
      split at hit
      · next empty =>
          cases hit
          subst empty
          exact ⟨Nat.le_refl _, rfl⟩
      · cases hit
  | cons item rest ih =>
      unfold search at hit
      split at hit
      · next here =>
          cases hit
          have long := congrArg List.length here
          rw [List.length_take] at long
          exact ⟨by omega, here⟩
      · obtain ⟨before, later, rfl⟩ := Option.map_eq_some_iff.mp hit
        obtain ⟨inside, occurs⟩ := ih later
        refine ⟨?_, ?_⟩
        · rw [List.length_cons]
          omega
        · rw [List.drop_succ_cons]
          exact occurs

theorem search_le (pattern front rest : List α) :
    ∃ found ≤ front.length, search pattern (front ++ pattern ++ rest) = some found := by
  induction front with
  | nil => exact ⟨0, Nat.le_refl _, search_here pattern rest⟩
  | cons item front ih =>
      obtain ⟨found, bound, hit⟩ := ih
      by_cases here : (item :: (front ++ pattern ++ rest)).take pattern.length = pattern
      · refine ⟨0, Nat.zero_le _, ?_⟩
        rw [List.cons_append, List.cons_append, search, if_pos here]
      · refine ⟨found + 1, Nat.succ_le_succ bound, ?_⟩
        rw [List.cons_append, List.cons_append, search_step here, hit]
        rfl

theorem search_first {pattern text : List α} {found : Nat} (nonempty : pattern ≠ [])
    (hit : search pattern text = some found) : ¬pattern <:+: text.take found := by
  rintro ⟨front, back, whole⟩
  obtain ⟨earlier, bound, first⟩ := search_le pattern front (back ++ text.drop found)
  rw [← List.append_assoc, whole, List.take_append_drop] at first
  have same := first.symm.trans hit
  cases same
  have length := congrArg List.length whole
  rw [List.length_append, List.length_append] at length
  have taken := List.length_take_le found text
  have positive := List.length_pos_iff.mpr nonempty
  omega

/-- What is found in a text is found there in every longer one. -/
theorem search_append {pattern text : List α} {found : Nat} (nonempty : pattern ≠ [])
    (hit : search pattern text = some found) (rest : List α) :
    search pattern (text ++ rest) = some found := by
  induction text generalizing found with
  | nil =>
      rw [search, if_neg nonempty] at hit
      cases hit
  | cons item text ih =>
      unfold search at hit
      split at hit
      · next here =>
          cases hit
          have long := congrArg List.length here
          rw [List.length_take] at long
          rw [List.cons_append, search, if_pos]
          rw [← List.cons_append, List.take_append_of_le_length (by omega)]
          exact here
      · next absent =>
          obtain ⟨before, later, rfl⟩ := Option.map_eq_some_iff.mp hit
          have inside := (search_some later).1
          rw [List.cons_append, search_step, ih later]
          · rfl
          · rw [← List.cons_append, List.take_append_of_le_length (by rw [List.length_cons]; omega)]
            exact absent

theorem search_front {pattern text rest : List α} {found : Nat} (nonempty : pattern ≠ [])
    (hit : search pattern (text ++ rest) = some found)
    (inside : found + pattern.length ≤ text.length) : search pattern text = some found := by
  have occurs := (search_some hit).2
  rw [List.drop_append_of_le_length (by omega),
    List.take_append_of_le_length (by rw [List.length_drop]; omega)] at occurs
  have split : text = text.take found ++ pattern ++ text.drop (found + pattern.length) := by
    rw [← occurs, List.append_assoc]
    conv => lhs; rw [← List.take_append_drop found text]
    rw [occurs, ← List.drop_drop]
    conv => lhs; rw [← List.take_append_drop pattern.length (text.drop found)]
    rw [occurs]
  obtain ⟨earlier, -, first⟩ := search_le pattern (text.take found)
    (text.drop (found + pattern.length))
  rw [← split] at first
  rw [search_append nonempty first rest] at hit
  rw [first, hit]

theorem find_ge {text pattern : List α} {pos found : Nat}
    (hit : find text pattern pos = some found) : pos ≤ found := by
  obtain ⟨offset, -, rfl⟩ := Option.map_eq_some_iff.mp hit
  exact Nat.le_add_left _ _

end Etlx.Search
