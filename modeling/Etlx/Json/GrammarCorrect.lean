/-
`Parse` accepts exactly its lexical grammar, and the capacity of the token array
matters through the number of tokens only.

One direction runs the text of the grammar as a single stretch. The other reads
the lexemes off an accepted run: each round of the loop, with the scan inside
it, has passed one lexeme.
-/

import Etlx.Json.Stretches

namespace Etlx.Json

open Ascii Cursor Brackets

/-! ### What an accepted text is made of -/

theorem parseHexDigits_content {js : Bytes} {count pos reached : Nat}
    (accepted : parseHexDigits js count pos = .ok reached) :
    ∃ digits rest, js.drop (pos + 1) = digits ++ rest ∧ digits.length = count ∧
      ∀ digit ∈ digits, isHex digit = true := by
  induction count generalizing pos with
  | zero => exact ⟨[], _, rfl, rfl, fun digit member => absurd member List.not_mem_nil⟩
  | succ count ih =>
      unfold parseHexDigits at accepted
      split at accepted
      · cases accepted
      · next c reading =>
          split at accepted
          · next hex =>
              obtain ⟨digits, rest, ahead, length, all⟩ := ih accepted
              refine ⟨c :: digits, rest, ?_, by rw [List.length_cons, length], ?_⟩
              · rw [ahead_of_reading reading, ahead, List.cons_append]
              · intro digit member
                rcases List.mem_cons.mp member with rfl | later
                · exact hex
                · exact all digit later
          · cases accepted

theorem parseEscape_content {js : Bytes} {pos reached : Nat}
    (reading : js[pos]? = some backslash) (inside : pos + 1 < js.length)
    (accepted : parseEscape js (pos + 1) = .ok reached) :
    ∃ (item : StringItem) (rest : Bytes), js.drop pos = item.text ++ rest ∧
      pos + item.text.length = reached + 1 := by
  have ahead := ahead_of_reading reading
  unfold parseEscape at accepted
  split at accepted
  · next ended =>
      rw [List.getElem?_eq_none_iff] at ended
      omega
  · next c second =>
      rw [ahead_of_reading second] at ahead
      split at accepted
      · next simple =>
          cases accepted
          exact ⟨.escape c simple, _, ahead, rfl⟩
      · split at accepted
        · next isU =>
            subst isU
            have finish := parseHexDigits_pos js 4 (pos + 1) reached accepted
            obtain ⟨digits, rest, behind, length, all⟩ := parseHexDigits_content accepted
            rw [behind] at ahead
            match digits, length, all with
            | [a, b, c, d], _, all =>
                refine ⟨.unicode a b c d ?_, rest, ahead, ?_⟩
                · exact ⟨all a (by simp), all b (by simp), all c (by simp), all d (by simp)⟩
                · simp only [StringItem.text, List.length_cons, List.length_nil]
                  omega
        · cases accepted

theorem parseStringLoop_content {js : Bytes} {start : Nat} {p q : Parser}
    (accepted : parseStringLoop js start p = .ok q) :
    ∃ (content : StringText) (rest : Bytes), js.drop p.pos = content.raw ++ quote :: rest ∧
      q.pos = p.pos + content.raw.length := by
  fun_induction parseStringLoop js start p with
  | case1 p reading => cases accepted
  | case2 p allocated reading => cases accepted
  | case3 p r allocated reading =>
      obtain ⟨room, rfl⟩ := Parser.alloc_some allocated
      cases accepted
      exact ⟨[], _, ahead_of_reading reading, rfl⟩
  | case4 p c reading notQuote escapes e escaped => cases accepted
  | case5 p c reading notQuote escapes pos escaped ih =>
      obtain ⟨content, rest, ahead, stop⟩ := ih accepted
      rw [escapes.1] at reading
      obtain ⟨item, after, first, width⟩ := parseEscape_content reading escapes.2 escaped
      have behind := ahead_append first
      rw [width, ahead] at behind
      refine ⟨item :: content, rest, ?_, ?_⟩
      · rw [first, ← behind, StringText.raw_cons, List.append_assoc]
      · rw [stop, ← width, StringText.raw_cons, List.length_append, Nat.add_assoc]
  | case6 p c reading notQuote plain ih =>
      obtain ⟨content, rest, ahead, stop⟩ := ih accepted
      have ordinary : c ≠ backslash := by
        intro isBackslash
        have beyond : js.drop (p.pos + 1) = [] :=
          List.drop_eq_nil_of_le (Nat.not_lt.mp (fun inside => plain ⟨isBackslash, inside⟩))
        rw [beyond] at ahead
        simp at ahead
      refine ⟨.plain c ⟨notQuote, ordinary⟩ :: content, rest, ?_, ?_⟩
      · rw [ahead_of_reading reading, ahead]
        rfl
      · rw [stop, StringText.raw_cons, List.length_append, ← Nat.add_assoc]
        rfl

theorem parsePrimitiveLoop_content {js : Bytes} {start : Nat} {p q : Parser}
    (accepted : parsePrimitiveLoop js start p = .ok q) :
    ∃ text rest, js.drop p.pos = text ++ rest ∧ EndsValue rest ∧
      (∀ c ∈ text, isTerminator c = false ∧ ¬ c < 32) ∧ q.pos = p.pos + text.length - 1 := by
  fun_induction parsePrimitiveLoop js start p with
  | case1 p reading => cases accepted
  | case2 p c reading ends allocated => cases accepted
  | case3 p c reading ends r allocated =>
      obtain ⟨room, rfl⟩ := Parser.alloc_some allocated
      cases accepted
      have ahead := ahead_of_reading reading
      exact ⟨[], _, ahead, ⟨c, _, rfl, ends⟩, fun c member => absurd member List.not_mem_nil, rfl⟩
  | case4 p c reading goesOn control => cases accepted
  | case5 p c reading goesOn control ih =>
      obtain ⟨text, rest, ahead, ends, plain, stop⟩ := ih accepted
      refine ⟨c :: text, rest, ?_, ends, ?_, ?_⟩
      · rw [ahead_of_reading reading, ahead, List.cons_append]
      · intro d member
        rcases List.mem_cons.mp member with rfl | later
        · exact ⟨by simpa using goesOn, control⟩
        · exact plain d later
      · rw [stop, List.length_cons, Nat.add_right_comm, Nat.add_assoc]

theorem openContainer_pos {p q : Parser} {c : UInt8} (stepped : openContainer p c = .ok q) :
    q.pos = p.pos := by
  unfold openContainer at stepped
  split at stepped
  · cases stepped
  · next r allocated =>
      obtain ⟨room, rfl⟩ := Parser.alloc_some allocated
      cases stepped
      simp

theorem closeContainer_pos {p q : Parser} {c : UInt8} (stepped : closeContainer p c = .ok q) :
    q.pos = p.pos := by
  unfold closeContainer at stepped
  split at stepped
  · cases stepped
  · split at stepped
    · cases stepped
    · cases stepped
      rfl

theorem map_countChild_ok {outcome : Result Parser} {q : Parser}
    (mapped : outcome.map Parser.countChild = .ok q) :
    ∃ r, outcome = .ok r ∧ q.pos = r.pos := by
  cases outcome with
  | error e => cases mapped
  | ok r =>
      cases mapped
      exact ⟨r, rfl, Parser.countChild_pos r⟩

theorem parseStep_string_content {js : Bytes} {p q : Parser} (reading : js[p.pos]? = some quote)
    (stepped : parseStep js p quote = .ok q) :
    ∃ (content : StringText) (rest : Bytes), js.drop p.pos = quoted content ++ rest ∧
      q.pos + 1 = p.pos + (quoted content).length := by
  rw [parseStep_quote] at stepped
  obtain ⟨r, scanned, stop⟩ := map_countChild_ok stepped
  obtain ⟨content, rest, inside, finish⟩ := parseStringLoop_content scanned
  refine ⟨content, rest, ?_, ?_⟩
  · rw [ahead_of_reading reading, inside]
    simp [quoted]
  · rw [stop, finish]
    simp only [quoted, List.length_cons, List.length_append, List.length_nil]
    omega

theorem parseStep_primitive_content {js : Bytes} {p q : Parser} {c : UInt8}
    (reading : js[p.pos]? = some c) (opens : c ≠ openBrace ∧ c ≠ openBracket ∧ c ≠ quote)
    (goesOn : isTerminator c = false) (stepped : parseStep js p c = .ok q) :
    ∃ (content : PrimitiveText) (rest : Bytes), js.drop p.pos = content.text ++ rest ∧
      EndsValue rest ∧ q.pos + 1 = p.pos + content.text.length := by
  have ahead := ahead_of_reading reading
  rw [parseStep_primitive js p opens goesOn] at stepped
  obtain ⟨r, scanned, stop⟩ := map_countChild_ok stepped
  obtain ⟨text, rest, run, ends, plain, finish⟩ := parsePrimitiveLoop_content scanned
  rw [ahead] at run
  cases text with
  | nil =>
      obtain ⟨d, tail, rfl, terminates⟩ := ends
      cases run
      rw [goesOn] at terminates
      cases terminates
  | cons first others =>
      obtain ⟨rfl, behind⟩ := List.cons.inj run
      refine ⟨{ first := c, rest := others, opens := opens, plain := plain }, rest, ?_, ends, ?_⟩
      · rw [ahead, behind]
        rfl
      · rw [stop, finish]
        simp only [PrimitiveText.text, List.length_cons]
        omega

theorem parseStep_content {js : Bytes} {p q : Parser} {c : UInt8}
    (reading : js[p.pos]? = some c) (stepped : parseStep js p c = .ok q) :
    ∃ (lexeme : Lexeme) (rest : Bytes), js.drop p.pos = lexeme.text ++ rest ∧
      lexeme.EndsBefore rest ∧ q.pos + 1 = p.pos + lexeme.text.length := by
  have ahead := ahead_of_reading reading
  by_cases opens : c = openBrace ∨ c = openBracket
  · have stayed : q.pos = p.pos := by
      unfold parseStep at stepped
      rw [if_pos opens] at stepped
      exact openContainer_pos stepped
    exact ⟨.opener c opens, _, ahead, trivial, congrArg (· + 1) stayed⟩
  by_cases closes : c = closeBrace ∨ c = closeBracket
  · have stayed : q.pos = p.pos := by
      unfold parseStep at stepped
      rw [if_neg opens, if_pos closes] at stepped
      exact closeContainer_pos stepped
    exact ⟨.closer c closes, _, ahead, trivial, congrArg (· + 1) stayed⟩
  by_cases isQuote : c = quote
  · subst isQuote
    obtain ⟨content, rest, text, finish⟩ := parseStep_string_content reading stepped
    exact ⟨.string content, rest, text, trivial, finish⟩
  by_cases skipped : isBlank c = true
  · rw [parseStep_blank js p skipped] at stepped
    cases stepped
    exact ⟨.blank c skipped, _, ahead, trivial, rfl⟩
  by_cases isColon : c = colon
  · subst isColon
    rw [parseStep_colon] at stepped
    cases stepped
    exact ⟨.colon, _, ahead, trivial, rfl⟩
  by_cases isComma : c = comma
  · subst isComma
    rw [parseStep_comma] at stepped
    cases stepped
    exact ⟨.comma, _, ahead, trivial, congrArg (· + 1) (backToContainer_pos p)⟩
  -- What no case of the switch names starts a primitive.
  have starts : c ≠ openBrace ∧ c ≠ openBracket ∧ c ≠ quote :=
    ⟨fun brace => opens (.inl brace), fun bracket => opens (.inr bracket), isQuote⟩
  have goesOn : isTerminator c = false := by
    simp only [not_or] at closes
    simp [isTerminator, skipped, isComma, isColon, closes.1, closes.2]
  obtain ⟨content, rest, text, ends, finish⟩ :=
    parseStep_primitive_content reading starts goesOn stepped
  exact ⟨.primitive content, rest, text, ends, finish⟩

theorem lexes_of_parseLoop {js : Bytes} {p q : Parser} (looped : parseLoop js p = .ok q) :
    ∃ lexemes, Lexes (js.drop p.pos) lexemes := by
  fun_induction parseLoop js p with
  | case1 p ended =>
      rw [List.drop_eq_nil_of_le (List.getElem?_eq_none_iff.mp ended)]
      exact ⟨[], .nil⟩
  | case2 p c reading e stepped => cases looped
  | case3 p c reading r stepped ih =>
      obtain ⟨lexemes, others⟩ := ih looped
      obtain ⟨lexeme, rest, ahead, ends, finish⟩ := parseStep_content reading stepped
      have behind : js.drop (r.pos + 1) = rest := by
        rw [finish]
        exact ahead_append ahead
      rw [behind] at others
      rw [ahead]
      exact ⟨lexeme :: lexemes, .cons lexeme ends others⟩

/-! ### The grammar decides -/

def Slots.initial : Slots where
  used := []
  super := -1
  receives := .inl rfl
  parents := fun _ member => absurd member List.not_mem_nil

theorem Slots.initial_parser (tokens : List Token) :
    ({ tokens := tokens } : Parser) = Slots.initial.parser tokens 0 := rfl

section Outcomes

variable {js : Bytes} {t : Slots} {count : Nat}
  (taken : Takes js .initial 0 js.length count t)

include taken

theorem Takes.parse_full {tokens : List Token} (short : tokens.length < count) :
    parse js tokens = fail category Code.noMemory.value "tokens exhausted" := by
  unfold parse
  rw [Slots.initial_parser, taken.full tokens short]
  rfl

theorem Takes.used_length : t.used.length = count := by
  rw [taken.length]
  exact Nat.zero_add count

theorem Takes.parse_fits {tokens : List Token} (room : count ≤ tokens.length) :
    parse js tokens =
      match findOpen (t.used ++ tokens.drop count) t.used.length with
      | some _ => fail category Code.partialInput.value "unclosed container"
      | none => .ok (count, t.used ++ tokens.drop count) := by
  have finished : parseLoop js (t.parser (tokens.drop count) (0 + js.length)) =
      .ok (t.parser (tokens.drop count) (0 + js.length)) := by
    apply parseLoop_done
    apply List.getElem?_eq_none
    change js.length ≤ 0 + js.length
    omega
  unfold parse
  rw [Slots.initial_parser, taken.fits tokens room, finished, ← taken.used_length]
  rfl

theorem Takes.parse_closed (closed : openKinds t.used = []) {tokens : List Token}
    (room : count ≤ tokens.length) :
    parse js tokens = .ok (count, t.used ++ tokens.drop count) := by
  rw [taken.parse_fits room, findOpen_none t.used _ (openKinds_nil closed)]

theorem Takes.parse_open {kind : Kind} {below : List Kind}
    (stack : openKinds t.used = kind :: below) {tokens : List Token}
    (room : count ≤ tokens.length) :
    parse js tokens = fail category Code.partialInput.value "unclosed container" := by
  obtain ⟨front, container, back, shape, isOpen, -, closed, -⟩ := openKinds_cons stack
  rw [taken.parse_fits room, shape, findOpen_container front back _ container isOpen closed]

end Outcomes

theorem Lexes.takes_nested {js : Bytes} (small : js.length < 2 ^ 31) {lexemes : List Lexeme}
    (lexes : Lexes js lexemes) (nested : Nested (bracketWord lexemes)) :
    ∃ t, openKinds t.used = [] ∧ Takes js .initial 0 js.length (tokenCount lexemes) t :=
  lexes.takes small .initial rfl ((nested_iff_unwind _).mp nested)

theorem lexes_of_parse {js : Bytes} (small : js.length < 2 ^ 31) {tokens filled : List Token}
    {n : Nat} (parsed : parse js tokens = .ok (n, filled)) :
    ∃ lexemes, Lexes js lexemes ∧ Nested (bracketWord lexemes) ∧
      tokenCount lexemes ≤ tokens.length := by
  have looped : ∃ q, parseLoop js (Slots.initial.parser tokens 0) = .ok q := by
    cases outcome : parseLoop js (Slots.initial.parser tokens 0) with
    | error e =>
        unfold parse at parsed
        rw [Slots.initial_parser, outcome] at parsed
        cases parsed
    | ok q => exact ⟨q, rfl⟩
  obtain ⟨q, looped⟩ := looped
  obtain ⟨lexemes, lexes⟩ := lexes_of_parseLoop looped
  change Lexes js lexemes at lexes
  cases word : unwind (openKinds Slots.initial.used) (bracketWord lexemes) with
  | none =>
      obtain ⟨e, failed⟩ := Lexes.rejected small lexes .initial List.drop_zero word tokens
      rw [failed] at looped
      cases looped
  | some stack =>
      obtain ⟨t, kinds, taken⟩ := Lexes.takes small lexes .initial List.drop_zero word
      have room : tokenCount lexemes ≤ tokens.length := by
        apply Nat.not_lt.mp
        intro short
        rw [taken.parse_full short] at parsed
        cases parsed
      cases stack with
      | nil => exact ⟨lexemes, lexes, (nested_iff_unwind _).mpr word, room⟩
      | cons kind below =>
          rw [taken.parse_open kinds room] at parsed
          cases parsed

/-- An accepted text as one stretch, with what it leaves in the array. -/
theorem takes_of_parse {js : Bytes} (small : js.length < 2 ^ 31) {tokens filled : List Token}
    {n : Nat} (parsed : parse js tokens = .ok (n, filled)) :
    ∃ lexemes t, Lexes js lexemes ∧ openKinds t.used = [] ∧
      Takes js .initial 0 js.length (tokenCount lexemes) t ∧
      n = tokenCount lexemes ∧ filled = t.used ++ tokens.drop (tokenCount lexemes) := by
  obtain ⟨lexemes, lexes, nested, room⟩ := lexes_of_parse small parsed
  obtain ⟨t, closed, taken⟩ := lexes.takes_nested small nested
  rw [taken.parse_closed closed room] at parsed
  cases parsed
  exact ⟨lexemes, t, lexes, closed, taken, rfl, rfl⟩

/-- `Parse` succeeds exactly on the texts of the lexical grammar whose brackets
are nested and whose tokens fit, and returns their number. Success with one
array decides every other: as many slots give the same tokens, and fewer give
`NoMemory`. -/
theorem parse_iff_grammar (js : Bytes) (small : js.length < 2 ^ 31) :
    (∀ tokens : List Token,
      (∃ n filled, parse js tokens = .ok (n, filled)) ↔
        ∃ lexemes, Lexes js lexemes ∧ Nested (bracketWord lexemes) ∧
          tokenCount lexemes ≤ tokens.length) ∧
    (∀ (tokens filled : List Token) (n : Nat) (lexemes : List Lexeme),
      parse js tokens = .ok (n, filled) → Lexes js lexemes → n = tokenCount lexemes) ∧
    (∀ (tokens filled : List Token) (n : Nat), parse js tokens = .ok (n, filled) →
      ∀ others : List Token,
        (n ≤ others.length →
          ∃ refilled, parse js others = .ok (n, refilled) ∧
            refilled.take n = filled.take n) ∧
        (others.length < n →
          parse js others = fail category Code.noMemory.value "tokens exhausted")) := by
  refine ⟨?_, ?_, ?_⟩
  · intro tokens
    constructor
    · rintro ⟨n, filled, parsed⟩
      exact lexes_of_parse small parsed
    · rintro ⟨lexemes, lexes, nested, room⟩
      obtain ⟨t, closed, taken⟩ := lexes.takes_nested small nested
      exact ⟨_, _, taken.parse_closed closed room⟩
  · intro tokens filled n lexemes parsed lexes
    obtain ⟨others, t, lexes', -, -, count, -⟩ := takes_of_parse small parsed
    rw [lexes.unique lexes', count]
  · intro tokens filled n parsed others
    obtain ⟨lexemes, t, -, closed, taken, rfl, rfl⟩ := takes_of_parse small parsed
    constructor
    · intro room
      refine ⟨_, taken.parse_closed closed room, ?_⟩
      rw [List.take_left' taken.used_length, List.take_left' taken.used_length]
    · intro short
      exact taken.parse_full short

theorem parse_iff_grammar_list :
    (ascii "[1]").length < 2 ^ 31 ∧
      (∃ lexemes, Lexes (ascii "[1]") lexemes ∧ Nested (bracketWord lexemes) ∧
        tokenCount lexemes ≤ 2) ∧
      parse (ascii "[1]") [{}] = fail category Code.noMemory.value "tokens exhausted" := by
  have settled := parse_iff_grammar (ascii "[1]") (by decide)
  have accepted : parse (ascii "[1]") [{}, {}] =
      .ok (2, [
        { type := .array, start := 0, end_ := 3, size := 1, parent := -1 },
        { type := .primitive, start := 1, end_ := 2, size := 0, parent := 0 }]) := by
    decide +kernel
  exact ⟨by decide, (settled.1 [{}, {}]).mp ⟨_, _, accepted⟩,
    (settled.2.2 _ _ _ accepted [{}]).2 (by decide)⟩

end Etlx.Json
