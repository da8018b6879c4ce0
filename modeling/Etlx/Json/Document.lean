/-
JSON documents and the token listing they must produce.

A `Doc` is a JSON value together with one rendering of it: every place where
the grammar allows whitespace carries the whitespace written there. Its text
and its pre-order token listing are functions of it. The listing is the
specification of `Parse`; nothing here runs the tokenizer.
-/

import Etlx.Json.Tokenizer
import Mathlib.Data.List.Basic

namespace Etlx.Json

open Ascii

/-! ### Lexical pieces -/

theorem isBlank_cases {c : UInt8} (blank : isBlank c = true) :
    c = tab ∨ c = carriageReturn ∨ c = lineFeed ∨ c = space := by
  simpa [isBlank, or_assoc] using blank

structure Blank where
  text : Bytes
  isBlank : ∀ c ∈ text, isBlank c = true

/-- The text of a primitive. The class is the one the tokenizer delimits, which
contains `true`, `false`, `null` and every JSON number. -/
structure PrimitiveText where
  first : UInt8
  rest : Bytes
  opens : first ≠ openBrace ∧ first ≠ openBracket ∧ first ≠ quote
  plain : ∀ c ∈ first :: rest, isTerminator c = false ∧ ¬ c < 32

def PrimitiveText.text (primitive : PrimitiveText) : Bytes :=
  primitive.first :: primitive.rest

def PrimitiveText.null : PrimitiveText :=
  { first := 0x6e, rest := [0x75, 0x6c, 0x6c], opens := by decide,
    plain := by
      rw [← List.forall_iff_forall_mem]
      decide }

def PrimitiveText.true : PrimitiveText :=
  { first := 0x74, rest := [0x72, 0x75, 0x65], opens := by decide,
    plain := by
      rw [← List.forall_iff_forall_mem]
      decide }

def PrimitiveText.false : PrimitiveText :=
  { first := 0x66, rest := [0x61, 0x6c, 0x73, 0x65], opens := by decide,
    plain := by
      rw [← List.forall_iff_forall_mem]
      decide }

def digitText (digit : Fin 10) : UInt8 := zero + UInt8.ofNat digit.val

/-- The number grammar of JSON: an optional minus, an integer part without a
superfluous leading zero, an optional fraction and an optional exponent. -/
structure NumberText where
  negative : Bool
  leading : Fin 10
  digits : List (Fin 10)
  noLeadingZero : leading = 0 → digits = []
  fraction : Option (Fin 10 × List (Fin 10))
  exponent : Option (Bool × Option Bool × Fin 10 × List (Fin 10))

def NumberText.fractionText (number : NumberText) : Bytes :=
  match number.fraction with
  | none => []
  | some (head, tail) => dot :: (head :: tail).map digitText

def NumberText.exponentText (number : NumberText) : Bytes :=
  match number.exponent with
  | none => []
  | some (upper, sign, head, tail) =>
      (if upper then 0x45 else 0x65) ::
        ((match sign with
          | none => []
          | some positive => [if positive then plus else minus]) ++
          (head :: tail).map digitText)

def NumberText.text (number : NumberText) : Bytes :=
  (if number.negative then [minus] else []) ++
    ((number.leading :: number.digits).map digitText ++
      (number.fractionText ++ number.exponentText))

def IsNumeric (c : UInt8) : Prop :=
  c = plus ∨ c = minus ∨ c = dot ∨ c = 0x45 ∨ c = 0x65 ∨ ∃ digit, c = digitText digit

theorem IsNumeric.plain {c : UInt8} (numeric : IsNumeric c) :
    (c ≠ openBrace ∧ c ≠ openBracket ∧ c ≠ quote) ∧ isTerminator c = false ∧ ¬ c < 32 := by
  rcases numeric with rfl | rfl | rfl | rfl | rfl | ⟨digit, rfl⟩
  · decide
  · decide
  · decide
  · decide
  · decide
  · revert digit
    decide

theorem numeric_digits (digits : List (Fin 10)) :
    ∀ c ∈ digits.map digitText, IsNumeric c := by
  intro c member
  obtain ⟨digit, -, rfl⟩ := List.mem_map.mp member
  exact .inr (.inr (.inr (.inr (.inr ⟨digit, rfl⟩))))

theorem NumberText.fraction_numeric (number : NumberText) :
    ∀ c ∈ number.fractionText, IsNumeric c := by
  intro c member
  unfold NumberText.fractionText at member
  split at member
  · cases member
  · rcases List.mem_cons.mp member with rfl | digit
    · exact .inr (.inr (.inl rfl))
    · exact numeric_digits _ c digit

theorem NumberText.exponent_numeric (number : NumberText) :
    ∀ c ∈ number.exponentText, IsNumeric c := by
  intro c member
  unfold NumberText.exponentText at member
  split at member
  · cases member
  · next upper sign head tail shape =>
      rcases List.mem_cons.mp member with rfl | later
      · cases upper
        · exact .inr (.inr (.inr (.inr (.inl rfl))))
        · exact .inr (.inr (.inr (.inl rfl)))
      · rcases List.mem_append.mp later with signed | digit
        · cases sign with
          | none => cases signed
          | some positive =>
              rw [List.mem_singleton.mp signed]
              cases positive
              · exact .inr (.inl rfl)
              · exact .inl rfl
        · exact numeric_digits _ c digit

theorem NumberText.text_numeric (number : NumberText) :
    ∀ c ∈ number.text, IsNumeric c := by
  intro c member
  rcases List.mem_append.mp member with signed | later
  · cases negative : number.negative with
    | false => simp [negative] at signed
    | true =>
        simp only [negative, if_true, List.mem_singleton] at signed
        exact .inr (.inl signed)
  · rcases List.mem_append.mp later with integer | rest
    · exact numeric_digits _ c integer
    · rcases List.mem_append.mp rest with fraction | exponent
      · exact number.fraction_numeric c fraction
      · exact number.exponent_numeric c exponent

/-- Every JSON number is the text of a primitive. -/
theorem NumberText.exists_primitive (number : NumberText) :
    ∃ primitive : PrimitiveText, primitive.text = number.text := by
  cases shape : number.text with
  | nil =>
      have lengths := congrArg List.length shape
      simp only [NumberText.text, List.length_append, List.length_map, List.length_cons,
        List.length_nil] at lengths
      omega
  | cons first rest =>
      have numeric : ∀ c ∈ first :: rest, IsNumeric c := shape ▸ number.text_numeric
      exact
        ⟨{ first := first
           rest := rest
           opens := (numeric first List.mem_cons_self).plain.1
           plain := fun c member => (numeric c member).plain.2 }, rfl⟩

/-- One item between the quotes of a string: an ordinary byte or an escape. -/
inductive StringItem
  | plain (c : UInt8) (ordinary : c ≠ quote ∧ c ≠ backslash)
  | escape (c : UInt8) (simple : isSimpleEscape c = true)
  | unicode (a b c d : UInt8)
      (hex : isHex a = true ∧ isHex b = true ∧ isHex c = true ∧ isHex d = true)

def StringItem.text : StringItem → Bytes
  | .plain c _ => [c]
  | .escape c _ => [backslash, c]
  | .unicode a b c d _ => [backslash, 0x75, a, b, c, d]

abbrev StringText := List StringItem

/-- The raw text of a string, without its quotes and without decoding. -/
def StringText.raw (string : StringText) : Bytes :=
  string.flatMap StringItem.text

theorem StringText.raw_cons (item : StringItem) (content : StringText) :
    StringText.raw (item :: content) = item.text ++ content.raw := rfl

/-- The text after a value begins with a character that ends a primitive. -/
def EndsValue (rest : Bytes) : Prop :=
  ∃ c tail, rest = c :: tail ∧ isTerminator c = true

/-! ### Documents -/

mutual

/-- A JSON value with the whitespace of one rendering. `blank` follows the
opening bracket, so an empty container can hold whitespace too. -/
inductive Doc
  | primitive (text : PrimitiveText)
  | string (text : StringText)
  | array (blank : Blank) (elements : Elements)
  | object (blank : Blank) (members : Members)

inductive Elements
  | nil
  | cons (before : Blank) (value : Doc) (after : Blank) (rest : Elements)

inductive Members
  | nil
  | cons (before : Blank) (key : StringText) (beforeColon afterColon : Blank) (value : Doc)
      (after : Blank) (rest : Members)

end

def quoted (string : StringText) : Bytes :=
  quote :: (string.raw ++ [quote])

mutual

def Doc.text : Doc → Bytes
  | .primitive content => content.text
  | .string content => quoted content
  | .array blank elements =>
      openBracket :: (blank.text ++ (elements.text ++ [closeBracket]))
  | .object blank members =>
      openBrace :: (blank.text ++ (members.text ++ [closeBrace]))

def Elements.text : Elements → Bytes
  | .nil => []
  | .cons before value after rest =>
      before.text ++ (value.text ++ (after.text ++
        (match rest with
          | .nil => []
          | .cons .. => comma :: rest.text)))

def Members.text : Members → Bytes
  | .nil => []
  | .cons before key beforeColon afterColon value after rest =>
      before.text ++ (quoted key ++ (beforeColon.text ++ (colon :: (afterColon.text ++
        (value.text ++ (after.text ++
          (match rest with
            | .nil => []
            | .cons .. => comma :: rest.text)))))))

end

def Elements.tail : Elements → Bytes
  | .nil => []
  | .cons before value after rest => comma :: (Elements.cons before value after rest).text

def Members.tail : Members → Bytes
  | .nil => []
  | .cons before key beforeColon afterColon value after rest =>
      comma :: (Members.cons before key beforeColon afterColon value after rest).text

mutual

/-- The number of nodes; an object key is a node of its own. -/
def Doc.nodes : Doc → Nat
  | .primitive _ => 1
  | .string _ => 1
  | .array _ elements => elements.nodes + 1
  | .object _ members => members.nodes + 1

def Elements.nodes : Elements → Nat
  | .nil => 0
  | .cons _ value _ rest => value.nodes + rest.nodes

def Members.nodes : Members → Nat
  | .nil => 0
  | .cons _ _ _ _ value _ rest => value.nodes + 1 + rest.nodes

end

def Elements.toList : Elements → List Doc
  | .nil => []
  | .cons _ value _ rest => value :: rest.toList

def Members.toList : Members → List (StringText × Doc)
  | .nil => []
  | .cons _ key _ _ value _ rest => (key, value) :: rest.toList

def Doc.kind : Doc → Kind
  | .primitive _ => .primitive
  | .string _ => .string
  | .array .. => .array
  | .object .. => .object

def Doc.size : Doc → Nat
  | .primitive _ => 0
  | .string _ => 0
  | .array _ elements => elements.toList.length
  | .object _ members => members.toList.length

/-- Where a node's source slice begins: a string's lies inside its quotes. -/
def Doc.sliceStart (pos : Nat) : Doc → Nat
  | .string _ => pos + 1
  | _ => pos

def Doc.slice : Doc → Bytes
  | .string content => content.raw
  | doc => doc.text

def Doc.token (pos : Nat) (parent : Int) (doc : Doc) : Token :=
  { type := doc.kind
    start := doc.sliceStart pos
    end_ := (doc.sliceStart pos + doc.slice.length : Nat)
    size := doc.size
    parent := parent }

theorem Doc.token_array (pos : Nat) (parent : Int) (blank : Blank) (elements : Elements) :
    (Doc.array blank elements).token pos parent =
      { type := .array
        start := pos
        end_ := (pos + (Doc.array blank elements).text.length : Nat)
        size := elements.toList.length
        parent := parent } := rfl

theorem Doc.token_object (pos : Nat) (parent : Int) (blank : Blank) (members : Members) :
    (Doc.object blank members).token pos parent =
      { type := .object
        start := pos
        end_ := (pos + (Doc.object blank members).text.length : Nat)
        size := members.toList.length
        parent := parent } := rfl

def keyToken (pos : Nat) (parent : Int) (key : StringText) : Token :=
  { type := .string
    start := (pos + 1 : Nat)
    end_ := (pos + 1 + key.raw.length : Nat)
    size := 1
    parent := parent }

mutual

/-- The pre-order listing of a document whose text begins at `pos` and whose
first node gets the token number `index`. -/
def Doc.tokens (pos index : Nat) (parent : Int) : Doc → List Token
  | .primitive content => [(Doc.primitive content).token pos parent]
  | .string content => [(Doc.string content).token pos parent]
  | .array blank elements =>
      (Doc.array blank elements).token pos parent ::
        elements.tokens (pos + 1 + blank.text.length) (index + 1) index
  | .object blank members =>
      (Doc.object blank members).token pos parent ::
        members.tokens (pos + 1 + blank.text.length) (index + 1) index

def Elements.tokens (pos index : Nat) (container : Int) : Elements → List Token
  | .nil => []
  | .cons before value after rest =>
      value.tokens (pos + before.text.length) index container ++
        rest.tokens
          (pos + before.text.length + value.text.length + after.text.length + 1)
          (index + value.nodes) container

def Members.tokens (pos index : Nat) (container : Int) : Members → List Token
  | .nil => []
  | .cons before key beforeColon afterColon value after rest =>
      keyToken (pos + before.text.length) container key ::
        (value.tokens
            (pos + before.text.length + (quoted key).length + beforeColon.text.length + 1 +
              afterColon.text.length)
            (index + 1) index ++
          rest.tokens
            (pos + before.text.length + (quoted key).length + beforeColon.text.length + 1 +
              afterColon.text.length + value.text.length + after.text.length + 1)
            (index + 1 + value.nodes) container)

end

mutual

theorem Doc.tokens_length (pos index : Nat) (parent : Int) :
    (doc : Doc) → (doc.tokens pos index parent).length = doc.nodes
  | .primitive _ => rfl
  | .string _ => rfl
  | .array blank elements => by
      simp only [Doc.tokens, Doc.nodes, List.length_cons, elements.tokens_length]
  | .object blank members => by
      simp only [Doc.tokens, Doc.nodes, List.length_cons, members.tokens_length]

theorem Elements.tokens_length (pos index : Nat) (container : Int) :
    (elements : Elements) → (elements.tokens pos index container).length = elements.nodes
  | .nil => rfl
  | .cons before value after rest => by
      simp only [Elements.tokens, Elements.nodes, List.length_append, value.tokens_length,
        rest.tokens_length]

theorem Members.tokens_length (pos index : Nat) (container : Int) :
    (members : Members) → (members.tokens pos index container).length = members.nodes
  | .nil => rfl
  | .cons before key beforeColon afterColon value after rest => by
      simp only [Members.tokens, Members.nodes, List.length_cons, List.length_append,
        value.tokens_length, rest.tokens_length]
      omega

end

/-- A whole source text: the root value between optional whitespace. A root
primitive is followed by whitespace, without which the tokenizer cannot tell
that it has ended. -/
structure Source where
  before : Blank
  root : Doc
  after : Blank
  terminated : root.kind = .primitive → after.text ≠ []

def Source.text (source : Source) : Bytes :=
  source.before.text ++ (source.root.text ++ source.after.text)

/-- The listing of the whole text: the root has no parent. -/
def Source.tokens (source : Source) : List Token :=
  source.root.tokens source.before.text.length 0 (-1)

end Etlx.Json
