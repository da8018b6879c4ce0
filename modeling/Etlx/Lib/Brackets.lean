/-
Words of brackets of several kinds.

`Nested` is the language of the properly nested, fully closed words, and
`unwind` recognises it with the stack of the kinds still open. A scanner that
holds such a stack in a form of its own is compared with the language through
`nested_iff_unwind`.
-/

import Mathlib.Data.List.Basic

namespace Etlx.Brackets

variable {α : Type}

inductive Bracket (α : Type)
  | opening (kind : α)
  | closing (kind : α)
deriving DecidableEq, Repr

/-- The kinds of a pair are equal, and pairs do not cross. -/
inductive Nested : List (Bracket α) → Prop
  | nil : Nested []
  | wrap (kind : α) {inner rest : List (Bracket α)} (inside : Nested inner)
      (behind : Nested rest) :
      Nested (.opening kind :: (inner ++ .closing kind :: rest))

variable [DecidableEq α]

/-- The kinds open after a word, innermost first, or `none` at a bracket that
closes nothing or closes the wrong kind. -/
def unwind : List α → List (Bracket α) → Option (List α)
  | stack, [] => some stack
  | stack, .opening kind :: word => unwind (kind :: stack) word
  | [], .closing _ :: _ => none
  | top :: stack, .closing kind :: word => if top = kind then unwind stack word else none

theorem unwind_append (stack : List α) (front back : List (Bracket α)) :
    unwind stack (front ++ back) = (unwind stack front).bind (unwind · back) := by
  fun_induction unwind stack front with
  | case1 stack => rfl
  | case2 stack kind front ih => exact ih
  | case3 kind front => rfl
  | case4 stack kind front ih =>
      simp only [List.cons_append, unwind, if_true]
      exact ih
  | case5 top stack kind front different =>
      simp only [List.cons_append, unwind, if_neg different, Option.bind_none]

theorem Nested.unwind {word : List (Bracket α)} (nested : Nested word) (stack : List α) :
    unwind stack word = some stack := by
  induction nested generalizing stack with
  | nil => rfl
  | wrap kind inside behind innerKeeps restKeeps =>
      simp only [Brackets.unwind, unwind_append, innerKeeps, Option.bind_some, if_true]
      exact restKeeps stack

/-- A word that closes a stack: a nested word before each closing bracket. -/
def Pending : List α → List (Bracket α) → Prop
  | [], word => Nested word
  | kind :: stack, word =>
      ∃ inner rest, word = inner ++ .closing kind :: rest ∧ Nested inner ∧ Pending stack rest

omit [DecidableEq α] in
theorem Pending.wrap {stack : List α} {kind : α} {inner rest : List (Bracket α)}
    (inside : Nested inner) (behind : Pending stack rest) :
    Pending stack (.opening kind :: (inner ++ .closing kind :: rest)) := by
  cases stack with
  | nil => exact Nested.wrap kind inside behind
  | cons top stack =>
      obtain ⟨between, outer, rfl, nested, others⟩ := behind
      refine ⟨.opening kind :: (inner ++ .closing kind :: between), outer, ?_, ?_, others⟩
      · simp only [List.append_assoc, List.cons_append]
      · exact Nested.wrap kind inside nested

theorem pending_of_unwind {stack : List α} {word : List (Bracket α)}
    (closes : unwind stack word = some []) : Pending stack word := by
  fun_induction unwind stack word with
  | case1 stack =>
      cases closes
      exact .nil
  | case2 stack kind word ih =>
      obtain ⟨inner, rest, rfl, inside, behind⟩ := ih closes
      exact Pending.wrap inside behind
  | case3 kind word => cases closes
  | case4 stack kind word ih => exact ⟨[], word, rfl, .nil, ih closes⟩
  | case5 top stack kind word different => cases closes

theorem nested_iff_unwind (word : List (Bracket α)) : Nested word ↔ unwind [] word = some [] :=
  ⟨fun nested => nested.unwind [], pending_of_unwind⟩

end Etlx.Brackets
