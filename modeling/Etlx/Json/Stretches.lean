/-
What a lexeme does to the token array.

The open tokens, read from the last one back, are the stack that the bracket
word of the text leaves. A stretch of the text does to the allocated slots what
does not depend on the free ones behind them, so runs over arrays of different
capacities agree until one of them has no slot left.
-/

import Etlx.Json.TokenizerCorrect
import Etlx.Json.Grammar
import Mathlib.Data.List.GetD

namespace Etlx.Json

open Ascii Cursor Brackets

/-! ### The allocated slots -/

/-- The allocated slots and the token that receives the next value. Every token
index in them is unset or names one of them. -/
structure Slots where
  used : List Token
  super : Int
  receives : ValidSuper super used
  parents : ∀ parent ∈ used.map Token.parent, ValidSuper parent used

def Slots.parser (s : Slots) (stale : List Token) (pos : Nat) : Parser :=
  reached s.used stale pos s.super

theorem ValidSuper.mono {super : Int} {used more : List Token} (valid : ValidSuper super used)
    (longer : used.length ≤ more.length) : ValidSuper super more := by
  rcases valid with unset | ⟨lower, upper⟩
  · exact .inl unset
  · exact .inr ⟨lower, by omega⟩

theorem counted_map {β : Type} (field : Token → β)
    (ignores : ∀ token, field (addChild token) = field token) (super : Int) (used : List Token) :
    (counted super used).map field = used.map field := by
  unfold counted
  split
  · rfl
  · apply List.ext_getElem?
    intro i
    rw [List.getElem?_map, List.getElem?_modify, List.getElem?_map]
    cases used[i]? with
    | none => rfl
    | some token =>
        split
        · exact congrArg some (ignores token)
        · rfl

def Slots.add (s : Slots) (token : Token) (child : token.parent = s.super) : Slots where
  used := counted s.super s.used ++ [token]
  super := s.super
  receives := s.receives.mono (by simp)
  parents := by
    intro parent member
    rw [List.map_append, counted_map Token.parent (fun _ => rfl)] at member
    have valid : ValidSuper parent s.used := by
      rcases List.mem_append.mp member with old | new
      · exact s.parents parent old
      · rw [List.mem_singleton.mp new, child]
        exact s.receives
    exact valid.mono (by simp)

def Slots.receive (s : Slots) (super : Int) (receives : ValidSuper super s.used) : Slots :=
  { s with super := super, receives := receives }

/-! ### The open tokens -/

def Token.openKind (token : Token) : Option Kind :=
  if token.isOpen then some token.type else none

/-- The kinds of the open tokens, innermost first. -/
def openKinds (used : List Token) : List Kind :=
  (used.filterMap Token.openKind).reverse

theorem Token.openKind_none {token : Token} :
    token.openKind = none ↔ token.isOpen = false := by
  simp [Token.openKind]

theorem Token.openKind_some {token : Token} {kind : Kind} :
    token.openKind = some kind ↔ token.isOpen = true ∧ token.type = kind := by
  simp [Token.openKind]

theorem openKinds_counted (super : Int) (used : List Token) :
    openKinds (counted super used) = openKinds used := by
  have same := counted_map Token.openKind (fun _ => rfl) super used
  have through : ∀ tokens : List Token,
      tokens.filterMap Token.openKind = (tokens.map Token.openKind).filterMap id := by
    intro tokens
    rw [List.filterMap_map]
    rfl
  rw [openKinds, through, same, ← through]
  rfl

theorem openKinds_concat (used : List Token) (token : Token) :
    openKinds (used ++ [token]) = token.openKind.toList ++ openKinds used := by
  cases kind : token.openKind with
  | none => simp [openKinds, kind]
  | some kind => simp [openKinds, kind]

theorem openKinds_nil {used : List Token} (none_ : openKinds used = []) :
    ∀ token ∈ used, token.isOpen = false := by
  intro token member
  rw [openKinds, List.reverse_eq_nil_iff, List.filterMap_eq_nil_iff] at none_
  exact Token.openKind_none.mp (none_ token member)

theorem openKinds_skip (front : List Token) {back : List Token}
    (closed : ∀ token ∈ back, token.isOpen = false) :
    openKinds (front ++ back) = openKinds front := by
  have skipped : back.filterMap Token.openKind = [] :=
    List.filterMap_eq_nil_iff.mpr (fun token member =>
      Token.openKind_none.mpr (closed token member))
  rw [openKinds, List.filterMap_append, skipped, List.append_nil]
  rfl

theorem openKinds_cons {used : List Token} {kind : Kind} {below : List Kind}
    (stack : openKinds used = kind :: below) :
    ∃ front container back, used = front ++ container :: back ∧ container.isOpen = true ∧
      container.type = kind ∧ (∀ token ∈ back, token.isOpen = false) ∧
      openKinds front = below := by
  have forward : used.filterMap Token.openKind = below.reverse ++ [kind] := by
    rw [← List.reverse_cons, ← stack, openKinds, List.reverse_reverse]
  obtain ⟨front, rest, rfl, before, after⟩ := List.filterMap_eq_append_iff.mp forward
  obtain ⟨shut, container, back, rfl, closed, isTop, behind⟩ :=
    List.filterMap_eq_cons_iff.mp after
  obtain ⟨isOpen, type⟩ := Token.openKind_some.mp isTop
  refine ⟨front ++ shut, container, back, by simp, isOpen, type, ?_, ?_⟩
  · intro token member
    exact Token.openKind_none.mp (List.filterMap_eq_nil_iff.mp behind token member)
  · rw [openKinds_skip front (fun token member => Token.openKind_none.mp (closed token member)),
      openKinds, before, List.reverse_reverse]

/-! ### Stretches of the text -/

/-- What a stretch of `width` characters that wants `count` tokens does to the
slots, whatever free slots lie behind them. -/
structure Takes (js : Bytes) (s : Slots) (pos width count : Nat) (t : Slots) : Prop where
  length : t.used.length = s.used.length + count
  fits : ∀ stale : List Token, count ≤ stale.length →
    parseLoop js (s.parser stale pos) =
      parseLoop js (t.parser (stale.drop count) (pos + width))
  full : ∀ stale : List Token, stale.length < count →
    parseLoop js (s.parser stale pos) = fail category Code.noMemory.value "tokens exhausted"

section Stretches

variable {js : Bytes} {s t u : Slots} {pos : Nat}

theorem Takes.nothing : Takes js s pos 0 0 s where
  length := rfl
  fits := fun _ _ => rfl
  full := fun _ short => absurd short (Nat.not_lt_zero _)

theorem Takes.trans {width more count others : Nat} (first : Takes js s pos width count t)
    (second : Takes js t (pos + width) more others u) :
    Takes js s pos (width + more) (count + others) u where
  length := by
    rw [second.length, first.length, Nat.add_assoc]
  fits := by
    intro stale room
    have behind := second.fits (stale.drop count) (by rw [List.length_drop]; omega)
    rw [first.fits stale (by omega), behind, List.drop_drop, Nat.add_assoc]
  full := by
    intro stale short
    by_cases room : count ≤ stale.length
    · rw [first.fits stale room]
      exact second.full _ (by rw [List.length_drop]; omega)
    · exact first.full stale (by omega)

theorem Takes.free {width : Nat} (length : t.used.length = s.used.length)
    (moves : ∀ stale, parseLoop js (s.parser stale pos) =
      parseLoop js (t.parser stale (pos + width))) : Takes js s pos width 0 t where
  length := length
  fits := fun stale _ => moves stale
  full := fun _ short => absurd short (Nat.not_lt_zero _)

theorem Takes.slot {width : Nat} (length : t.used.length = s.used.length + 1)
    (moves : ∀ old stale, parseLoop js (s.parser (old :: stale) pos) =
      parseLoop js (t.parser stale (pos + width)))
    (stops : parseLoop js (s.parser [] pos) =
      fail category Code.noMemory.value "tokens exhausted") :
    Takes js s pos width 1 t where
  length := length
  fits := by
    intro stale room
    obtain ⟨old, stale, rfl, -⟩ := exists_cons_of_lt room
    exact moves old stale
  full := by
    intro stale short
    rw [List.length_eq_zero_iff.mp (Nat.lt_one_iff.mp short)]
    exact stops

end Stretches

/-! ### Single lexemes -/

theorem alloc_full (used : List Token) (pos : Nat) (super : Int) (token : Token) :
    (reached used [] pos super).alloc token = none := by
  simp [Parser.alloc, reached]

section Lexemes

variable {js : Bytes} {s : Slots} {pos : Nat} {rest : Bytes}

theorem takes_blank {c : UInt8} (skipped : isBlank c = true)
    (ahead : js.drop pos = c :: rest) : Takes js s pos 1 0 s :=
  Takes.free rfl (fun stale =>
    parseLoop_step (p := s.parser stale pos) (ahead_cons ahead).1 (parseStep_blank js _ skipped))

theorem takes_colon (ahead : js.drop pos = colon :: rest) :
    ∃ t, openKinds t.used = openKinds s.used ∧ Takes js s pos 1 0 t := by
  have last : ValidSuper ((s.used.length : Int) - 1) s.used := by
    unfold ValidSuper
    omega
  exact ⟨s.receive _ last, rfl, Takes.free rfl (fun stale => run_colon ahead)⟩

theorem tokenAt_used {super : Int} {used : List Token} (valid : ValidSuper super used)
    (set_ : super ≠ -1) (stale : List Token) :
    tokenAt (used ++ stale) super = tokenAt used super := by
  rcases valid with unset | ⟨lower, upper⟩
  · exact absurd unset set_
  · unfold tokenAt
    rw [List.getD_append _ _ _ _ (by omega)]

theorem parent_valid (s : Slots) (set_ : s.super ≠ -1) :
    ValidSuper (tokenAt s.used s.super).parent s.used := by
  apply s.parents
  apply List.mem_map_of_mem
  rcases s.receives with unset | ⟨lower, upper⟩
  · exact absurd unset set_
  · unfold tokenAt
    rw [List.getD_eq_getElem _ _ (by omega)]
    exact List.getElem_mem _

theorem takes_comma (ahead : js.drop pos = comma :: rest) :
    ∃ t, openKinds t.used = openKinds s.used ∧ Takes js s pos 1 0 t := by
  by_cases released : s.super ≠ -1 ∧ (tokenAt s.used s.super).type ≠ .array ∧
      (tokenAt s.used s.super).type ≠ .object
  · refine ⟨s.receive _ (parent_valid s released.1), rfl, Takes.free rfl ?_⟩
    intro stale
    have backs : backToContainer (reached s.used stale pos s.super) =
        reached s.used stale pos (tokenAt s.used s.super).parent := by
      simp only [backToContainer, reached, tokenAt_used s.receives released.1, if_pos released]
    unfold Slots.parser
    rw [run_comma ahead, backs]
    rfl
  · refine ⟨s, rfl, Takes.free rfl ?_⟩
    intro stale
    have stays : backToContainer (reached s.used stale pos s.super) =
        reached s.used stale pos s.super := by
      unfold backToContainer
      rw [if_neg]
      rintro ⟨set_, kind⟩
      simp only [reached, tokenAt_used s.receives set_] at kind
      exact released ⟨set_, kind⟩
    unfold Slots.parser
    rw [run_comma ahead, stays]
    rfl

theorem openKinds_add_closed (token : Token) (child : token.parent = s.super)
    (closed : token.isOpen = false) : openKinds (s.add token child).used = openKinds s.used := by
  simp only [Slots.add, openKinds_concat, Token.openKind_none.mpr closed, openKinds_counted]
  rfl

theorem Slots.add_length (token : Token) (child : token.parent = s.super) :
    (s.add token child).used.length = s.used.length + 1 := by
  simp [Slots.add]

variable (small : js.length < 2 ^ 31)

include small

theorem takes_string (content : StringText) (ahead : js.drop pos = quoted content ++ rest) :
    ∃ t, openKinds t.used = openKinds s.used ∧ Takes js s pos (quoted content).length 1 t := by
  refine ⟨s.add ((Doc.string content).token pos s.super) rfl,
    openKinds_add_closed _ _ (Token.isOpen_of_end rfl),
    Takes.slot (Slots.add_length _ _) (fun old stale => run_string small content ahead s.receives)
      ?_⟩
  have inside := ahead_quoted ahead
  have scanned : parseString js (s.parser [] pos) =
      fail category Code.noMemory.value "tokens exhausted" := by
    unfold parseString
    rw [parseStringLoop_items content _ _ inside,
      parseStringLoop_close (ahead_cons (ahead_append inside)).1]
    exact congrArg granted (alloc_full s.used _ s.super _)
  apply parseLoop_fail (p := s.parser [] pos) (ahead_cons ahead).1
  rw [parseStep_quote, scanned]
  rfl

theorem takes_primitive (content : PrimitiveText) (ahead : js.drop pos = content.text ++ rest)
    (ends : EndsValue rest) :
    ∃ t, openKinds t.used = openKinds s.used ∧ Takes js s pos content.text.length 1 t := by
  obtain ⟨c, tail, rfl, terminates⟩ := ends
  refine ⟨s.add ((Doc.primitive content).token pos s.super) rfl,
    openKinds_add_closed _ _ (Token.isOpen_of_end rfl),
    Takes.slot (Slots.add_length _ _)
      (fun old stale => run_primitive small content ahead terminates s.receives) ?_⟩
  have scanned : parsePrimitive js (s.parser [] pos) =
      fail category Code.noMemory.value "tokens exhausted" := by
    unfold parsePrimitive
    rw [parsePrimitiveLoop_text content.text _ content.plain _ ahead,
      parsePrimitiveLoop_end (ahead_cons (ahead_append ahead)).1 terminates]
    exact congrArg (fun outcome => granted (outcome.map unread)) (alloc_full s.used _ s.super _)
  apply parseLoop_fail (p := s.parser [] pos) (ahead_cons ahead).1
  rw [parseStep_primitive js _ content.opens content.goesOn, scanned]
  rfl

theorem takes_open {c : UInt8} (opener : c = openBrace ∨ c = openBracket)
    (ahead : js.drop pos = c :: rest) :
    ∃ t, openKinds t.used = openerKind c :: openKinds s.used ∧ Takes js s pos 1 1 t := by
  let token : Token := { type := openerKind c, start := pos, parent := s.super }
  have isOpen : token.openKind = some (openerKind c) := by
    have started : (pos : Int) ≠ -1 := by omega
    simp [token, Token.openKind, Token.isOpen, started]
  have last : ValidSuper s.used.length (s.add token rfl).used := by
    have longer : (s.add token rfl).used.length = s.used.length + 1 := Slots.add_length _ _
    exact .inr ⟨Int.natCast_nonneg _, by omega⟩
  refine ⟨(s.add token rfl).receive _ last, ?_,
    Takes.slot (Slots.add_length token rfl)
      (fun old stale => run_open small opener ahead s.receives) ?_⟩
  · simp only [Slots.receive, Slots.add, openKinds_concat, isOpen, openKinds_counted]
    rfl
  · apply parseLoop_fail (p := s.parser [] pos) (ahead_cons ahead).1
    unfold parseStep openContainer Slots.parser
    rw [if_pos opener, alloc_full]
    rfl

theorem takes_close {c : UInt8} (closer : c = closeBrace ∨ c = closeBracket)
    (ahead : js.drop pos = c :: rest) {below : List Kind}
    (stack : openKinds s.used = closerKind c :: below) :
    ∃ t, openKinds t.used = below ∧ Takes js s pos 1 0 t := by
  obtain ⟨used, super, receives, parents⟩ := s
  obtain ⟨front, container, back, rfl, isOpen, type, closed, others⟩ := openKinds_cons stack
  let shut : Token := { container with end_ := (pos + 1 : Nat) }
  have same : (front ++ shut :: back).map Token.parent =
      (front ++ container :: back).map Token.parent := by
    simp [shut]
  have lengths : (front ++ container :: back).length ≤ (front ++ shut :: back).length := by simp
  have kept : ∀ parent ∈ (front ++ shut :: back).map Token.parent,
      ValidSuper parent (front ++ shut :: back) := by
    intro parent member
    rw [same] at member
    exact (parents parent member).mono lengths
  refine ⟨{ used := front ++ shut :: back, super := container.parent,
            receives := kept _ (by simp [shut]), parents := kept }, ?_,
    Takes.free (by simp) (fun stale => run_close small closer ahead isOpen type closed)⟩
  have complete : ∀ token ∈ shut :: back, token.isOpen = false := by
    intro token member
    rcases List.mem_cons.mp member with rfl | later
    · exact Token.isOpen_of_end rfl
    · exact closed token later
  rw [openKinds_skip front complete, others]

omit small in
theorem close_rejected {c : UInt8} (closer : c = closeBrace ∨ c = closeBracket)
    (ahead : js.drop pos = c :: rest)
    (stuck : unwind (openKinds s.used) [.closing (closerKind c)] = none) (stale : List Token) :
    ∃ e, parseLoop js (s.parser stale pos) = .error e := by
  have atStep : parseStep js (s.parser stale pos) c = closeContainer (s.parser stale pos) c := by
    unfold parseStep
    rw [if_neg (by rcases closer with rfl | rfl <;> decide), if_pos closer]
  have failed : ∃ e, closeContainer (s.parser stale pos) c = .error e := by
    unfold closeContainer Slots.parser
    cases stack : openKinds s.used with
    | nil =>
        rw [show findOpen (reached s.used stale pos s.super).tokens
            (reached s.used stale pos s.super).toknext = none from
          findOpen_none s.used stale (openKinds_nil stack)]
        exact ⟨_, rfl⟩
    | cons kind below =>
        obtain ⟨front, container, back, shape, isOpen, type, closed, -⟩ := openKinds_cons stack
        have different : kind ≠ closerKind c := by
          intro same
          simp [stack, unwind, same] at stuck
        simp only [reached, shape, findOpen_container front back stale container isOpen closed,
          tokenAt_reached, type]
        rw [if_pos different]
        exact ⟨_, rfl⟩
  obtain ⟨e, result⟩ := failed
  exact ⟨e, parseLoop_fail (p := s.parser stale pos) (ahead_cons ahead).1 (atStep.trans result)⟩

end Lexemes

/-! ### Whole texts -/

section Texts

variable {js : Bytes} (small : js.length < 2 ^ 31)

include small

theorem Lexeme.takes (lexeme : Lexeme) (s : Slots) {pos : Nat} {rest : Bytes}
    (ahead : js.drop pos = lexeme.text ++ rest) (ends : lexeme.EndsBefore rest)
    {stack : List Kind} (admits : unwind (openKinds s.used) lexeme.brackets = some stack) :
    ∃ t, openKinds t.used = stack ∧ Takes js s pos lexeme.text.length lexeme.cost t := by
  cases lexeme with
  | blank c skipped =>
      cases admits
      exact ⟨s, rfl, takes_blank skipped ahead⟩
  | colon =>
      cases admits
      exact takes_colon ahead
  | comma =>
      cases admits
      exact takes_comma ahead
  | opener c opens =>
      cases admits
      exact takes_open small opens ahead
  | closer c closes =>
      cases kinds : openKinds s.used with
      | nil =>
          rw [kinds] at admits
          cases admits
      | cons kind below =>
          rw [kinds] at admits
          simp only [Lexeme.brackets, unwind, Option.ite_none_right_eq_some, Option.some.injEq]
            at admits
          obtain ⟨rfl, rfl⟩ := admits
          exact takes_close small closes ahead kinds
  | string content =>
      cases admits
      exact takes_string small content ahead
  | primitive content =>
      cases admits
      exact takes_primitive small content ahead ends

omit small in
theorem Lexeme.rejected (lexeme : Lexeme) (s : Slots) {pos : Nat} {rest : Bytes}
    (ahead : js.drop pos = lexeme.text ++ rest)
    (stuck : unwind (openKinds s.used) lexeme.brackets = none) (stale : List Token) :
    ∃ e, parseLoop js (s.parser stale pos) = .error e := by
  cases lexeme with
  | closer c closes => exact close_rejected closes ahead stuck stale
  | _ => cases stuck

theorem Lexes.takes {text : Bytes} {lexemes : List Lexeme} (lexes : Lexes text lexemes)
    (s : Slots) {pos : Nat} (ahead : js.drop pos = text) {stack : List Kind}
    (admits : unwind (openKinds s.used) (bracketWord lexemes) = some stack) :
    ∃ t, openKinds t.used = stack ∧ Takes js s pos text.length (tokenCount lexemes) t := by
  induction lexes generalizing s pos with
  | nil =>
      cases admits
      exact ⟨s, rfl, Takes.nothing⟩
  | cons lexeme ends others ih =>
      rw [bracketWord_cons, unwind_append] at admits
      obtain ⟨middle, first, second⟩ := Option.bind_eq_some_iff.mp admits
      obtain ⟨t, rfl, taken⟩ := lexeme.takes small s ahead ends first
      obtain ⟨u, kinds, behind⟩ := ih t (ahead_append ahead) second
      refine ⟨u, kinds, ?_⟩
      rw [List.length_append, tokenCount_cons]
      exact taken.trans behind

theorem Lexes.rejected {text : Bytes} {lexemes : List Lexeme} (lexes : Lexes text lexemes)
    (s : Slots) {pos : Nat} (ahead : js.drop pos = text)
    (stuck : unwind (openKinds s.used) (bracketWord lexemes) = none) (stale : List Token) :
    ∃ e, parseLoop js (s.parser stale pos) = .error e := by
  induction lexes generalizing s pos stale with
  | nil => cases stuck
  | cons lexeme ends others ih =>
      rw [bracketWord_cons, unwind_append] at stuck
      cases first : unwind (openKinds s.used) lexeme.brackets with
      | none => exact lexeme.rejected s ahead first stale
      | some middle =>
          obtain ⟨t, rfl, taken⟩ := lexeme.takes small s ahead ends first
          rw [first, Option.bind_some] at stuck
          by_cases room : lexeme.cost ≤ stale.length
          · rw [taken.fits stale room]
            exact ih t (ahead_append ahead) stuck _
          · exact ⟨_, taken.full stale (by omega)⟩

end Texts

end Etlx.Json
