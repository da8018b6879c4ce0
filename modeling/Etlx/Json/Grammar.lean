/-
The lexical grammar of the tokenizer.

A text is cut into lexemes from left to right: whitespace, separators,
brackets, strings and primitives. The cut is unique, so a text that has one
has one bracket word and one number of tokens. Nothing here runs the
tokenizer, and nothing here asks for the order that JSON gives to keys,
values and separators.
-/

import Etlx.Json.Document
import Etlx.Lib.Brackets

namespace Etlx.Json

open Ascii Brackets

inductive Lexeme
  | blank (c : UInt8) (skipped : isBlank c = true)
  | colon
  | comma
  | opener (c : UInt8) (opens : c = openBrace ∨ c = openBracket)
  | closer (c : UInt8) (closes : c = closeBrace ∨ c = closeBracket)
  | string (content : StringText)
  | primitive (content : PrimitiveText)

def Lexeme.text : Lexeme → Bytes
  | .blank c _ => [c]
  | .colon => [Ascii.colon]
  | .comma => [Ascii.comma]
  | .opener c _ => [c]
  | .closer c _ => [c]
  | .string content => quoted content
  | .primitive content => content.text

/-- A primitive is a maximal run: a terminator follows it, which the end of the
text is not. -/
def Lexeme.EndsBefore : Lexeme → Bytes → Prop
  | .primitive _, rest => EndsValue rest
  | _, _ => True

/-- The lexemes that a text splits into. -/
inductive Lexes : Bytes → List Lexeme → Prop
  | nil : Lexes [] []
  | cons (lexeme : Lexeme) {rest : Bytes} {lexemes : List Lexeme}
      (ends : lexeme.EndsBefore rest) (others : Lexes rest lexemes) :
      Lexes (lexeme.text ++ rest) (lexeme :: lexemes)

def Lexeme.brackets : Lexeme → List (Bracket Kind)
  | .opener c _ => [.opening (openerKind c)]
  | .closer c _ => [.closing (closerKind c)]
  | _ => []

def bracketWord (lexemes : List Lexeme) : List (Bracket Kind) :=
  lexemes.flatMap Lexeme.brackets

theorem bracketWord_cons (lexeme : Lexeme) (lexemes : List Lexeme) :
    bracketWord (lexeme :: lexemes) = lexeme.brackets ++ bracketWord lexemes := rfl

/-- Opening brackets, strings and primitives take a token each. -/
def Lexeme.cost : Lexeme → Nat
  | .opener _ _ => 1
  | .string _ => 1
  | .primitive _ => 1
  | _ => 0

def tokenCount (lexemes : List Lexeme) : Nat :=
  (lexemes.map Lexeme.cost).sum

theorem tokenCount_cons (lexeme : Lexeme) (lexemes : List Lexeme) :
    tokenCount (lexeme :: lexemes) = lexeme.cost + tokenCount lexemes := rfl

/-! ### The cut is unique -/

theorem StringItem.text_unique {item other : StringItem} {rest more : Bytes}
    (same : item.text ++ rest = other.text ++ more) : item = other ∧ rest = more := by
  have notSimple : isSimpleEscape 0x75 = false := by decide
  cases item with
  | plain c ordinary =>
      cases other with
      | plain d ordinary' => simpa [StringItem.text] using same
      | escape d simple => exact absurd (List.cons.inj same).1 ordinary.2
      | unicode a b c' d hex => exact absurd (List.cons.inj same).1 ordinary.2
  | escape c simple =>
      cases other with
      | plain d ordinary => exact absurd (List.cons.inj same).1.symm ordinary.2
      | escape d simple' => simpa [StringItem.text] using same
      | unicode a b c' d hex =>
          simp only [StringItem.text, List.cons_append, List.cons.injEq, true_and] at same
          rw [same.1, notSimple] at simple
          cases simple
  | unicode a b c d hex =>
      cases other with
      | plain d' ordinary => exact absurd (List.cons.inj same).1.symm ordinary.2
      | escape d' simple =>
          simp only [StringItem.text, List.cons_append, List.cons.injEq, true_and] at same
          rw [← same.1, notSimple] at simple
          cases simple
      | unicode a' b' c' d' hex' => simpa [StringItem.text, and_assoc] using same

theorem StringItem.text_ne_quote (item : StringItem) (rest more : Bytes) :
    item.text ++ rest ≠ quote :: more := by
  intro same
  cases item with
  | plain c ordinary => exact ordinary.1 (List.cons.inj same).1
  | escape c simple => exact absurd (List.cons.inj same).1 (by decide)
  | unicode a b c d hex => exact absurd (List.cons.inj same).1 (by decide)

/-- The first unescaped quote ends a string. -/
theorem StringText.raw_unique {front back : StringText} {rest more : Bytes}
    (same : front.raw ++ quote :: rest = back.raw ++ quote :: more) :
    front = back ∧ rest = more := by
  induction front generalizing back with
  | nil =>
      cases back with
      | nil => simpa [StringText.raw] using same
      | cons item back =>
          rw [StringText.raw_cons, List.append_assoc] at same
          exact absurd same.symm (item.text_ne_quote _ _)
  | cons item front ih =>
      rw [StringText.raw_cons, List.append_assoc] at same
      cases back with
      | nil => exact absurd same (item.text_ne_quote _ _)
      | cons other back =>
          rw [StringText.raw_cons, List.append_assoc] at same
          obtain ⟨rfl, behind⟩ := StringItem.text_unique same
          obtain ⟨rfl, rfl⟩ := ih behind
          exact ⟨rfl, rfl⟩

theorem PrimitiveText.text_unique {front back : PrimitiveText} {rest more : Bytes}
    (same : front.text ++ rest = back.text ++ more) (ends : EndsValue rest)
    (ends' : EndsValue more) : front = back ∧ rest = more := by
  have cut : ∀ (content : PrimitiveText) (behind : Bytes), EndsValue behind →
      (content.text ++ behind).takeWhile (!isTerminator ·) = content.text := by
    intro content behind ending
    obtain ⟨c, tail, rfl, terminates⟩ := ending
    rw [List.takeWhile_append_of_pos]
    · simp [terminates]
    · intro c member
      simp [(content.plain c member).1]
  have texts : front.text = back.text := by
    rw [← cut front rest ends, same, cut back more ends']
  rw [texts] at same
  refine ⟨?_, List.append_cancel_left same⟩
  cases front
  cases back
  cases texts
  rfl

def Lexeme.first : Lexeme → UInt8
  | .blank c _ => c
  | .colon => Ascii.colon
  | .comma => Ascii.comma
  | .opener c _ => c
  | .closer c _ => c
  | .string _ => quote
  | .primitive content => content.first

theorem Lexeme.text_first (lexeme : Lexeme) : ∃ tail, lexeme.text = lexeme.first :: tail := by
  cases lexeme with
  | string content => exact ⟨_, rfl⟩
  | primitive content => exact ⟨_, rfl⟩
  | _ => exact ⟨[], rfl⟩

def caseOf (c : UInt8) : Nat :=
  if c = openBrace ∨ c = openBracket then 0
  else if c = closeBrace ∨ c = closeBracket then 1
  else if c = quote then 2
  else if isBlank c then 3
  else if c = colon then 4
  else if c = comma then 5
  else 6

def Lexeme.case : Lexeme → Nat
  | .opener _ _ => 0
  | .closer _ _ => 1
  | .string _ => 2
  | .blank _ _ => 3
  | .colon => 4
  | .comma => 5
  | .primitive _ => 6

theorem Lexeme.caseOf_first (lexeme : Lexeme) : caseOf lexeme.first = lexeme.case := by
  cases lexeme with
  | blank c skipped =>
      rcases isBlank_cases skipped with rfl | rfl | rfl | rfl
      all_goals rfl
  | colon => rfl
  | comma => rfl
  | opener c opens =>
      rcases opens with rfl | rfl
      all_goals rfl
  | closer c closes =>
      rcases closes with rfl | rfl
      all_goals rfl
  | string content => rfl
  | primitive content =>
      obtain ⟨notBrace, notBracket, notQuote⟩ := content.opens
      have goesOn := (content.plain content.first List.mem_cons_self).1
      simp only [isTerminator, Bool.or_eq_false_iff, beq_eq_false_iff_ne] at goesOn
      obtain ⟨⟨⟨⟨notBlank, notComma⟩, notCloseBracket⟩, notCloseBrace⟩, notColon⟩ := goesOn
      simp [caseOf, Lexeme.first, Lexeme.case, notBrace, notBracket, notQuote, notBlank, notComma,
        notCloseBracket, notCloseBrace, notColon]

theorem Lexeme.text_unique {lexeme other : Lexeme} {rest more : Bytes}
    (same : lexeme.text ++ rest = other.text ++ more) (ends : lexeme.EndsBefore rest)
    (ends' : other.EndsBefore more) : lexeme = other ∧ rest = more := by
  obtain ⟨front, atFront⟩ := lexeme.text_first
  obtain ⟨back, atBack⟩ := other.text_first
  have oneCase : lexeme.case = other.case := by
    rw [atFront, atBack] at same
    rw [← lexeme.caseOf_first, ← other.caseOf_first, (List.cons.inj same).1]
  cases lexeme with
  | blank c skipped =>
      cases other with
      | blank d skipped' => simpa [Lexeme.text] using same
      | _ => cases oneCase
  | colon =>
      cases other with
      | colon => simpa [Lexeme.text] using same
      | _ => cases oneCase
  | comma =>
      cases other with
      | comma => simpa [Lexeme.text] using same
      | _ => cases oneCase
  | opener c opens =>
      cases other with
      | opener d opens' => simpa [Lexeme.text] using same
      | _ => cases oneCase
  | closer c closes =>
      cases other with
      | closer d closes' => simpa [Lexeme.text] using same
      | _ => cases oneCase
  | string content =>
      cases other with
      | string content' =>
          have inside : content.raw ++ quote :: rest = content'.raw ++ quote :: more := by
            simpa [Lexeme.text, quoted] using same
          obtain ⟨rfl, rfl⟩ := StringText.raw_unique inside
          exact ⟨rfl, rfl⟩
      | _ => cases oneCase
  | primitive content =>
      cases other with
      | primitive content' =>
          obtain ⟨rfl, rfl⟩ := PrimitiveText.text_unique same ends ends'
          exact ⟨rfl, rfl⟩
      | _ => cases oneCase

theorem Lexes.unique {js : Bytes} {lexemes others : List Lexeme} (lexes : Lexes js lexemes)
    (lexes' : Lexes js others) : lexemes = others := by
  induction lexes generalizing others with
  | nil =>
      generalize empty : ([] : Bytes) = js at lexes'
      cases lexes' with
      | nil => rfl
      | cons lexeme ends behind =>
          obtain ⟨tail, text⟩ := lexeme.text_first
          rw [text] at empty
          cases empty
  | cons lexeme ends behind ih =>
      generalize text : lexeme.text ++ _ = js at lexes'
      cases lexes' with
      | nil =>
          obtain ⟨tail, first⟩ := lexeme.text_first
          rw [first] at text
          cases text
      | cons other ends' behind' =>
          obtain ⟨rfl, rfl⟩ := Lexeme.text_unique text ends ends'
          rw [ih behind']

end Etlx.Json
