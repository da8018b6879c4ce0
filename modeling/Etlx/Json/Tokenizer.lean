/-
The JSON tokenizer: one pass over the source text into a caller-supplied array
of tokens.

Positions are the source's own: `pos` indexes the text, a container token is
open while its `end_` is `-1`, and `toksuper` is the token that receives the
next value. The array keeps whatever it held before the call in every slot the
pass does not allocate. Offsets are stored through the `int32_t` casts of the
source, so a text of 2 GiB or more wraps them.
-/

import Etlx.Core.Result

namespace Etlx.Json

open Ascii

def category : Category := { name := "json" }

inductive Code
  | none
  | noMemory
  | invalid
  | partialInput
  | wrongType
deriving DecidableEq, Repr

def Code.value : Code → Int
  | .none => 0
  | .noMemory => 1
  | .invalid => 2
  | .partialInput => 3
  | .wrongType => 4

inductive Kind
  | undefined
  | object
  | array
  | string
  | primitive
deriving DecidableEq, Repr

/-- The field defaults are those of a freshly allocated `Token{}`. -/
structure Token where
  type : Kind := .undefined
  start : Int := -1
  end_ : Int := -1
  size : Int := 0
  parent : Int := -1
deriving DecidableEq, Repr

/-- `static_cast<int32_t>` of a source offset. -/
def toInt32 (offset : Nat) : Int := Int.bmod offset (2 ^ 32)

theorem toInt32_eq {offset : Nat} (small : offset < 2 ^ 31) : toInt32 offset = offset := by
  unfold toInt32
  exact Int.bmod_eq_of_le (by omega) (by omega)

structure Parser where
  tokens : List Token
  pos : Nat := 0
  toknext : Nat := 0
  toksuper : Int := -1
deriving DecidableEq, Repr

def tokenAt (tokens : List Token) (index : Int) : Token :=
  tokens.getD index.toNat {}

/-- `Alloc` followed by its callers' assignments to the fresh slot; a field
that the caller leaves alone keeps its default. -/
def Parser.alloc (p : Parser) (token : Token) : Option Parser :=
  if p.tokens.length ≤ p.toknext then none
  else some { p with tokens := p.tokens.set p.toknext token, toknext := p.toknext + 1 }

/-- `if (p.toksuper != -1) tokens[p.toksuper].size++`. -/
def Parser.countChild (p : Parser) : Parser :=
  if p.toksuper = -1 then p
  else
    { p with
      tokens := p.tokens.modify p.toksuper.toNat
        (fun token => { token with size := token.size + 1 }) }

def isHex (c : UInt8) : Bool :=
  (0x30 ≤ c && c ≤ 0x39) || (0x61 ≤ c && c ≤ 0x66) || (0x41 ≤ c && c ≤ 0x46)

def isBlank (c : UInt8) : Bool :=
  c == tab || c == carriageReturn || c == lineFeed || c == space

def isTerminator (c : UInt8) : Bool :=
  isBlank c || c == comma || c == closeBracket || c == closeBrace || c == colon

def isSimpleEscape (c : UInt8) : Bool :=
  c == quote || c == slash || c == backslash || c == 0x62 || c == 0x66 ||
    c == 0x72 || c == 0x6e || c == 0x74

def parsePrimitiveLoop (js : Bytes) (start : Nat) (p : Parser) : Result Parser :=
  match _reading : js[p.pos]? with
  | none => fail category Code.partialInput.value "unterminated primitive"
  | some c =>
      if isTerminator c then
        match p.alloc
            { type := .primitive, start := toInt32 start, end_ := toInt32 p.pos,
              parent := p.toksuper } with
        | none => fail category Code.noMemory.value "tokens exhausted"
        | some q => .ok { q with pos := q.pos - 1 }
      else if c < 32 then
        fail category Code.invalid.value "control char in primitive"
      else parsePrimitiveLoop js start { p with pos := p.pos + 1 }
termination_by js.length - p.pos
decreasing_by
  have inside := (List.getElem?_eq_some_iff.mp ‹js[p.pos]? = some c›).1
  change js.length - (p.pos + 1) < js.length - p.pos
  omega

def parsePrimitive (js : Bytes) (p : Parser) : Result Parser :=
  parsePrimitiveLoop js p.pos p

/-- The four digits after `\u`; `pos` is the index of the last character
consumed. -/
def parseHexDigits (js : Bytes) : Nat → Nat → Result Nat
  | 0, pos => .ok pos
  | count + 1, pos =>
      match js[pos + 1]? with
      | none => fail category Code.partialInput.value "short \\u escape"
      | some c =>
          if isHex c then parseHexDigits js count (pos + 1)
          else fail category Code.invalid.value "bad \\u escape"

/-- The `switch` on the character after a backslash, at index `pos`. -/
def parseEscape (js : Bytes) (pos : Nat) : Result Nat :=
  match js[pos]? with
  | none => .ok pos
  | some c =>
      if isSimpleEscape c then .ok pos
      else if c = 0x75 then parseHexDigits js 4 pos
      else fail category Code.invalid.value "bad escape"

theorem parseHexDigits_pos (js : Bytes) (count pos reached : Nat)
    (accepted : parseHexDigits js count pos = .ok reached) : reached = pos + count := by
  induction count generalizing pos with
  | zero =>
      cases accepted
      rfl
  | succ count ih =>
      unfold parseHexDigits at accepted
      split at accepted
      · cases accepted
      · split at accepted
        · have tail := ih (pos + 1) accepted
          omega
        · cases accepted

theorem parseEscape_le (js : Bytes) (pos reached : Nat)
    (accepted : parseEscape js pos = .ok reached) : pos ≤ reached := by
  unfold parseEscape at accepted
  split at accepted
  · cases accepted
    exact Nat.le_refl pos
  · split at accepted
    · cases accepted
      exact Nat.le_refl pos
    · split at accepted
      · have exactPos := parseHexDigits_pos js 4 pos reached accepted
        omega
      · cases accepted

def parseStringLoop (js : Bytes) (start : Nat) (p : Parser) : Result Parser :=
  match _reading : js[p.pos]? with
  | none => fail category Code.partialInput.value "unterminated string"
  | some c =>
      if c = quote then
        match p.alloc
            { type := .string, start := toInt32 (start + 1), end_ := toInt32 p.pos,
              parent := p.toksuper } with
        | none => fail category Code.noMemory.value "tokens exhausted"
        | some q => .ok q
      else if c = backslash ∧ p.pos + 1 < js.length then
        match _escaped : parseEscape js (p.pos + 1) with
        | .error e => .error e
        | .ok pos => parseStringLoop js start { p with pos := pos + 1 }
      else parseStringLoop js start { p with pos := p.pos + 1 }
termination_by js.length - p.pos
decreasing_by
  · have forward := parseEscape_le js (p.pos + 1) pos _escaped
    change js.length - (pos + 1) < js.length - p.pos
    omega
  · have inside := (List.getElem?_eq_some_iff.mp ‹js[p.pos]? = some c›).1
    change js.length - (p.pos + 1) < js.length - p.pos
    omega

def parseString (js : Bytes) (p : Parser) : Result Parser :=
  parseStringLoop js p.pos { p with pos := p.pos + 1 }

def Token.isOpen (token : Token) : Bool :=
  token.start != -1 && token.end_ == -1

/-- The backwards scan from `tokens[below - 1]` for the innermost open token. -/
def findOpen (tokens : List Token) : Nat → Option Nat
  | 0 => none
  | below + 1 =>
      if (tokens.getD below {}).isOpen then some below else findOpen tokens below

def openerKind (c : UInt8) : Kind := if c = openBrace then .object else .array

def closerKind (c : UInt8) : Kind := if c = closeBrace then .object else .array

def openContainer (p : Parser) (c : UInt8) : Result Parser :=
  match p.alloc { type := openerKind c, start := toInt32 p.pos, parent := p.toksuper } with
  | none => fail category Code.noMemory.value "tokens exhausted"
  | some q => .ok { q.countChild with toksuper := (q.toknext : Int) - 1 }

def closeContainer (p : Parser) (c : UInt8) : Result Parser :=
  match findOpen p.tokens p.toknext with
  | none => fail category Code.invalid.value "stray closing bracket"
  | some i =>
      if (tokenAt p.tokens i).type ≠ closerKind c then
        fail category Code.invalid.value "mismatched bracket"
      else
        .ok
          { p with
            tokens := p.tokens.modify i (fun token => { token with end_ := toInt32 (p.pos + 1) })
            toksuper := (tokenAt p.tokens i).parent }

/-- `','`: a scalar that was receiving values hands over to its own parent. -/
def backToContainer (p : Parser) : Parser :=
  if p.toksuper ≠ -1 ∧ (tokenAt p.tokens p.toksuper).type ≠ .array ∧
      (tokenAt p.tokens p.toksuper).type ≠ .object then
    { p with toksuper := (tokenAt p.tokens p.toksuper).parent }
  else p

def parseStep (js : Bytes) (p : Parser) (c : UInt8) : Result Parser :=
  if c = openBrace ∨ c = openBracket then openContainer p c
  else if c = closeBrace ∨ c = closeBracket then closeContainer p c
  else if c = quote then
    match parseString js p with
    | .error e => .error e
    | .ok q => .ok q.countChild
  else if isBlank c then .ok p
  else if c = colon then .ok { p with toksuper := (p.toknext : Int) - 1 }
  else if c = comma then .ok (backToContainer p)
  else
    match parsePrimitive js p with
    | .error e => .error e
    | .ok q => .ok q.countChild

theorem Parser.alloc_some {p q : Parser} {token : Token} (allocated : p.alloc token = some q) :
    p.toknext < p.tokens.length ∧
      q = { p with tokens := p.tokens.set p.toknext token, toknext := p.toknext + 1 } := by
  unfold Parser.alloc at allocated
  split at allocated
  · cases allocated
  · exact ⟨by omega, (Option.some.inj allocated).symm⟩

@[simp] theorem Parser.countChild_pos (p : Parser) : p.countChild.pos = p.pos := by
  unfold Parser.countChild
  split <;> rfl

@[simp] theorem Parser.countChild_toknext (p : Parser) : p.countChild.toknext = p.toknext := by
  unfold Parser.countChild
  split <;> rfl

@[simp] theorem Parser.countChild_toksuper (p : Parser) :
    p.countChild.toksuper = p.toksuper := by
  unfold Parser.countChild
  split <;> rfl

@[simp] theorem backToContainer_pos (p : Parser) : (backToContainer p).pos = p.pos := by
  unfold backToContainer
  split <;> rfl

theorem parsePrimitiveLoop_ok {js : Bytes} {start : Nat} {p q : Parser}
    (accepted : parsePrimitiveLoop js start p = .ok q) :
    ∃ stop c, p.pos ≤ stop ∧ js[stop]? = some c ∧ isTerminator c = true ∧
      (∀ i, p.pos ≤ i → i < stop → ∃ d, js[i]? = some d ∧ isTerminator d = false ∧ ¬ d < 32) ∧
      p.toknext < p.tokens.length ∧
      q = { p with
        tokens := p.tokens.set p.toknext
          { type := .primitive, start := toInt32 start, end_ := toInt32 stop,
            parent := p.toksuper }
        toknext := p.toknext + 1
        pos := stop - 1 } := by
  fun_induction parsePrimitiveLoop js start p with
  | case1 p reading => cases accepted
  | case2 p c reading ends allocated => cases accepted
  | case3 p c reading ends r allocated =>
      obtain ⟨room, rfl⟩ := Parser.alloc_some allocated
      cases accepted
      exact ⟨p.pos, c, Nat.le_refl _, reading, ends, by omega, room, rfl⟩
  | case4 p c reading goesOn control => cases accepted
  | case5 p c reading goesOn control ih =>
      obtain ⟨stop, d, reached, atStop, ends, between, room, result⟩ := ih accepted
      change p.pos + 1 ≤ stop at reached
      refine ⟨stop, d, by omega, atStop, ends, ?_, room, result⟩
      intro i atLeast below
      rcases Nat.eq_or_lt_of_le atLeast with same | later
      · subst same
        exact ⟨c, reading, by simpa using goesOn, control⟩
      · exact between i later below

theorem parseStringLoop_ok {js : Bytes} {start : Nat} {p q : Parser}
    (accepted : parseStringLoop js start p = .ok q) :
    ∃ stop, p.pos ≤ stop ∧ js[stop]? = some quote ∧
      p.toknext < p.tokens.length ∧
      q = { p with
        tokens := p.tokens.set p.toknext
          { type := .string, start := toInt32 (start + 1), end_ := toInt32 stop,
            parent := p.toksuper }
        toknext := p.toknext + 1
        pos := stop } := by
  fun_induction parseStringLoop js start p with
  | case1 p reading => cases accepted
  | case2 p allocated reading => cases accepted
  | case3 p r allocated reading =>
      obtain ⟨room, rfl⟩ := Parser.alloc_some allocated
      cases accepted
      exact ⟨p.pos, Nat.le_refl _, reading, room, rfl⟩
  | case4 p c reading notQuote escapes e escaped => cases accepted
  | case5 p c reading notQuote escapes pos escaped ih =>
      obtain ⟨stop, reached, atStop, room, result⟩ := ih accepted
      have forward := parseEscape_le js (p.pos + 1) pos escaped
      change pos + 1 ≤ stop at reached
      exact ⟨stop, by omega, atStop, room, result⟩
  | case6 p c reading notQuote plain ih =>
      obtain ⟨stop, reached, atStop, room, result⟩ := ih accepted
      change p.pos + 1 ≤ stop at reached
      exact ⟨stop, by omega, atStop, room, result⟩

/-- Every way a round of `Parse` can succeed on the character `c` at `p.pos`,
with the parser it leaves. -/
inductive Round (js : Bytes) (p : Parser) (c : UInt8) : Parser → Prop
  | opened (opener : c = openBrace ∨ c = openBracket) (room : p.toknext < p.tokens.length) :
      Round js p c
        { ({ p with
              tokens := p.tokens.set p.toknext
                { type := openerKind c, start := toInt32 p.pos, parent := p.toksuper }
              toknext := p.toknext + 1 } : Parser).countChild with
          toksuper := p.toknext }
  | closed (i : Nat) (closer : c = closeBrace ∨ c = closeBracket)
      (innermost : findOpen p.tokens p.toknext = some i)
      (matching : (tokenAt p.tokens i).type = closerKind c) :
      Round js p c
        { p with
          tokens := p.tokens.modify i (fun token => { token with end_ := toInt32 (p.pos + 1) })
          toksuper := (tokenAt p.tokens i).parent }
  | string (stop : Nat) (opens : c = quote) (after : p.pos < stop)
      (closes : js[stop]? = some quote) (room : p.toknext < p.tokens.length) :
      Round js p c
        ({ p with
            tokens := p.tokens.set p.toknext
              { type := .string, start := toInt32 (p.pos + 1), end_ := toInt32 stop,
                parent := p.toksuper }
            toknext := p.toknext + 1
            pos := stop } : Parser).countChild
  | blank (skipped : isBlank c = true) : Round js p c p
  | colon (keyed : c = colon) : Round js p c { p with toksuper := (p.toknext : Int) - 1 }
  | comma (separates : c = comma) : Round js p c (backToContainer p)
  | primitive (stop : Nat) (d : UInt8) (after : p.pos < stop) (ends : js[stop]? = some d)
      (terminator : isTerminator d = true)
      (between : ∀ i, p.pos ≤ i → i < stop →
        ∃ e, js[i]? = some e ∧ isTerminator e = false ∧ ¬ e < 32)
      (room : p.toknext < p.tokens.length) :
      Round js p c
        ({ p with
            tokens := p.tokens.set p.toknext
              { type := .primitive, start := toInt32 p.pos, end_ := toInt32 stop,
                parent := p.toksuper }
            toknext := p.toknext + 1
            pos := stop - 1 } : Parser).countChild

theorem openContainer_round {js : Bytes} {p q : Parser} {c : UInt8}
    (opener : c = openBrace ∨ c = openBracket) (stepped : openContainer p c = .ok q) :
    Round js p c q := by
  unfold openContainer at stepped
  split at stepped
  · cases stepped
  · next r allocated =>
      obtain ⟨room, rfl⟩ := Parser.alloc_some allocated
      cases stepped
      have next : ((p.toknext + 1 : Nat) : Int) - 1 = p.toknext := by omega
      rw [next]
      exact .opened opener room

theorem closeContainer_round {js : Bytes} {p q : Parser} {c : UInt8}
    (closer : c = closeBrace ∨ c = closeBracket) (stepped : closeContainer p c = .ok q) :
    Round js p c q := by
  unfold closeContainer at stepped
  split at stepped
  · cases stepped
  · next i innermost =>
      split at stepped
      · cases stepped
      · next matching =>
          cases stepped
          exact .closed i closer innermost (by simpa using matching)

theorem parseStep_round {js : Bytes} {p q : Parser} {c : UInt8} (reading : js[p.pos]? = some c)
    (stepped : parseStep js p c = .ok q) : Round js p c q := by
  unfold parseStep at stepped
  split at stepped
  · next opener => exact openContainer_round opener stepped
  · split at stepped
    · next closer => exact closeContainer_round closer stepped
    · split at stepped
      · next opens =>
          split at stepped
          · cases stepped
          · next r scanned =>
              obtain ⟨stop, after, closes, room, rfl⟩ := parseStringLoop_ok scanned
              cases stepped
              exact .string stop opens after closes room
      · split at stepped
        · next skipped =>
            cases stepped
            exact .blank skipped
        · split at stepped
          · next keyed =>
              cases stepped
              exact .colon keyed
          · split at stepped
            · next separates =>
                cases stepped
                exact .comma separates
            · next notOpen notClose notQuote notBlank notColon notComma =>
                split at stepped
                · cases stepped
                · next r scanned =>
                    obtain ⟨stop, d, reached, ends, terminator, between, room, rfl⟩ :=
                      parsePrimitiveLoop_ok scanned
                    cases stepped
                    have different : stop ≠ p.pos := by
                      intro same
                      rw [same, reading] at ends
                      cases ends
                      simp only [not_or] at notClose
                      simp_all [isTerminator]
                    exact .primitive stop d (by omega) ends terminator between room

theorem Round.le {js : Bytes} {p q : Parser} {c : UInt8} (round : Round js p c q) :
    p.pos ≤ q.pos := by
  cases round with
  | opened opener room => simp
  | closed i closer innermost matching => exact Nat.le_refl _
  | string stop opens after closes room =>
      simp only [Parser.countChild_pos]
      omega
  | blank skipped => exact Nat.le_refl _
  | colon keyed => exact Nat.le_refl _
  | comma separates => simp
  | primitive stop d after ends terminator between room =>
      simp only [Parser.countChild_pos]
      omega

def parseLoop (js : Bytes) (p : Parser) : Result Parser :=
  match _reading : js[p.pos]? with
  | none => .ok p
  | some c =>
      match _stepped : parseStep js p c with
      | .error e => .error e
      | .ok q => parseLoop js { q with pos := q.pos + 1 }
termination_by js.length - p.pos
decreasing_by
  have inside := (List.getElem?_eq_some_iff.mp ‹js[p.pos]? = some c›).1
  have forward := (parseStep_round _reading _stepped).le
  change js.length - (q.pos + 1) < js.length - p.pos
  omega

/-- `Parse`: the number of tokens used, and the array it leaves behind. -/
def parse (js : Bytes) (tokens : List Token) : Result (Nat × List Token) :=
  match parseLoop js { tokens := tokens } with
  | .error e => .error e
  | .ok p =>
      match findOpen p.tokens p.toknext with
      | some _ => fail category Code.partialInput.value "unclosed container"
      | none => .ok (p.toknext, p.tokens)

end Etlx.Json
