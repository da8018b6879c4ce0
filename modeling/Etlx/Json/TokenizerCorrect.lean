/-
`Parse` produces the pre-order listing of every well-formed document.

The proof follows the text. A run over the text of a document turns a parser
whose used slots are `used` into one whose used slots end with the document's
listing, leaves `toksuper` where it was, and counts one child more for it.
Inside a container the open token lies under its children, all of them closed,
which is what the backwards scan at a closing bracket finds.
-/

import Etlx.Json.Document
import Etlx.Lib.Cursor

namespace Etlx.Json

open Ascii Cursor

/-! ### The shape of a parser between two tokens -/

/-- A parser whose allocated slots are `used` and whose free ones are `stale`. -/
def reached (used stale : List Token) (pos : Nat) (super : Int) : Parser :=
  { tokens := used ++ stale, pos := pos, toknext := used.length, toksuper := super }

def addChild (token : Token) : Token := { token with size := token.size + 1 }

def counted (super : Int) (used : List Token) : List Token :=
  if super = -1 then used else used.modify super.toNat addChild

def ValidSuper (super : Int) (used : List Token) : Prop :=
  super = -1 ∨ 0 ≤ super ∧ super < used.length

@[simp] theorem counted_length (super : Int) (used : List Token) :
    (counted super used).length = used.length := by
  unfold counted
  split
  · rfl
  · exact List.length_modify _ _ _

theorem counted_append {super : Int} {used : List Token} (valid : ValidSuper super used)
    (more : List Token) : counted super (used ++ more) = counted super used ++ more := by
  unfold counted
  rcases valid with unset | ⟨lower, upper⟩
  · rw [if_pos unset, if_pos unset]
  · rw [if_neg (by omega), if_neg (by omega)]
    exact modify_append_left _ (by omega)

theorem counted_at (front back : List Token) (token : Token) :
    counted (front.length : Int) (front ++ token :: back) = front ++ addChild token :: back := by
  unfold counted
  rw [if_neg (by omega), Int.toNat_natCast]
  exact modify_append_at _ _ _ _

theorem countChild_reached {used stale : List Token} {pos : Nat} {super : Int}
    (valid : ValidSuper super used) :
    (reached used stale pos super).countChild = reached (counted super used) stale pos super := by
  have whole := counted_append valid stale
  unfold Parser.countChild reached
  simp only [counted_length]
  split
  · next unset => simp only [counted, if_pos unset]
  · next set_ =>
      unfold counted at whole ⊢
      simp only [if_neg set_] at whole ⊢
      rw [← whole]
      rfl

theorem alloc_reached (used stale : List Token) (old token : Token) (pos : Nat) (super : Int) :
    (reached used (old :: stale) pos super).alloc token =
      some (reached (used ++ [token]) stale pos super) := by
  unfold Parser.alloc reached
  simp only [List.length_append, List.length_cons, List.length_nil, set_append_at,
    List.append_assoc, List.singleton_append]
  rw [if_neg (by omega)]

theorem tokenAt_reached (front back stale : List Token) (token : Token) :
    tokenAt (front ++ token :: back ++ stale) (front.length : Int) = token := by
  unfold tokenAt
  rw [Int.toNat_natCast, List.append_assoc, List.cons_append, getD_append_at]

/-! ### Single rounds -/

theorem parseLoop_reading {js : Bytes} {p : Parser} {c : UInt8}
    (reading : js[p.pos]? = some c) :
    parseLoop js p =
      match parseStep js p c with
      | .error e => .error e
      | .ok q => parseLoop js { q with pos := q.pos + 1 } := by
  rw [parseLoop]
  split
  · next ended =>
      rw [ended] at reading
      cases reading
  · next d read =>
      rw [read] at reading
      cases reading
      split <;> next stepped => rw [stepped]

theorem parseLoop_step {js : Bytes} {p q : Parser} {c : UInt8} (reading : js[p.pos]? = some c)
    (stepped : parseStep js p c = .ok q) :
    parseLoop js p = parseLoop js { q with pos := q.pos + 1 } := by
  rw [parseLoop_reading reading, stepped]

theorem parseLoop_fail {js : Bytes} {p : Parser} {c : UInt8} {e : Error}
    (reading : js[p.pos]? = some c) (failed : parseStep js p c = .error e) :
    parseLoop js p = .error e := by
  rw [parseLoop_reading reading, failed]

theorem parseLoop_done {js : Bytes} {p : Parser} (ended : js[p.pos]? = none) :
    parseLoop js p = .ok p := by
  rw [parseLoop]
  split
  · rfl
  · next c read =>
      rw [ended] at read
      cases read

theorem parseStep_blank (js : Bytes) (p : Parser) {c : UInt8} (blank : isBlank c = true) :
    parseStep js p c = .ok p := by
  unfold parseStep
  rcases isBlank_cases blank with rfl | rfl | rfl | rfl
  all_goals rw [if_neg (by decide), if_neg (by decide), if_neg (by decide), if_pos blank]

theorem parseStep_colon (js : Bytes) (p : Parser) :
    parseStep js p colon = .ok { p with toksuper := (p.toknext : Int) - 1 } := by
  unfold parseStep
  rw [if_neg (by decide), if_neg (by decide), if_neg (by decide), if_neg (by decide),
    if_pos rfl]

theorem parseStep_comma (js : Bytes) (p : Parser) :
    parseStep js p comma = .ok (backToContainer p) := by
  unfold parseStep
  rw [if_neg (by decide), if_neg (by decide), if_neg (by decide), if_neg (by decide),
    if_neg (by decide), if_pos rfl]

theorem parseStep_quote (js : Bytes) (p : Parser) :
    parseStep js p quote = (parseString js p).map Parser.countChild := by
  unfold parseStep
  rw [if_neg (by decide), if_neg (by decide), if_pos rfl]
  cases parseString js p <;> rfl

theorem parseStep_primitive (js : Bytes) (p : Parser) {c : UInt8}
    (opens : c ≠ openBrace ∧ c ≠ openBracket ∧ c ≠ quote) (goesOn : isTerminator c = false) :
    parseStep js p c = (parsePrimitive js p).map Parser.countChild := by
  obtain ⟨notBrace, notBracket, notQuote⟩ := opens
  simp only [isTerminator, Bool.or_eq_false_iff, beq_eq_false_iff_ne] at goesOn
  obtain ⟨⟨⟨⟨notBlank, notComma⟩, notCloseBracket⟩, notCloseBrace⟩, notColon⟩ := goesOn
  unfold parseStep
  rw [if_neg (by simp only [not_or]; exact ⟨notBrace, notBracket⟩),
    if_neg (by simp only [not_or]; exact ⟨notCloseBrace, notCloseBracket⟩), if_neg notQuote,
    if_neg (by rw [notBlank]; decide), if_neg notColon, if_neg notComma]
  cases parsePrimitive js p <;> rfl

theorem PrimitiveText.goesOn (content : PrimitiveText) :
    isTerminator content.first = Bool.false :=
  (content.plain content.first List.mem_cons_self).1

/-! ### Runs over the pieces between values -/

theorem run_blank {js : Bytes} (blank : Blank) {used stale : List Token} {pos : Nat}
    {super : Int} {rest : Bytes} (ahead : js.drop pos = blank.text ++ rest) :
    parseLoop js (reached used stale pos super) =
      parseLoop js (reached used stale (pos + blank.text.length) super) := by
  obtain ⟨text, isBlank⟩ := blank
  induction text generalizing pos with
  | nil => rfl
  | cons c text ih =>
      obtain ⟨reading, next⟩ := ahead_cons ahead
      have first := parseLoop_step (p := reached used stale pos super) reading
        (parseStep_blank js _ (isBlank c List.mem_cons_self))
      have others := ih (fun d member => isBlank d (List.mem_cons_of_mem c member)) next
      rw [List.length_cons, Nat.add_comm text.length 1, ← Nat.add_assoc]
      exact first.trans others

theorem run_colon {js : Bytes} {used stale : List Token} {pos : Nat} {super : Int}
    {rest : Bytes} (ahead : js.drop pos = colon :: rest) :
    parseLoop js (reached used stale pos super) =
      parseLoop js (reached used stale (pos + 1) ((used.length : Int) - 1)) :=
  parseLoop_step (p := reached used stale pos super) (ahead_cons ahead).1
    (parseStep_colon js _)

theorem run_comma {js : Bytes} {used stale : List Token} {pos : Nat} {super : Int}
    {rest : Bytes} (ahead : js.drop pos = comma :: rest) :
    parseLoop js (reached used stale pos super) =
      parseLoop js
        { backToContainer (reached used stale pos super) with
          pos := (backToContainer (reached used stale pos super)).pos + 1 } :=
  parseLoop_step (p := reached used stale pos super) (ahead_cons ahead).1
    (parseStep_comma js _)

theorem run_comma_array {js : Bytes} {head done stale : List Token} (container : Token)
    {pos : Nat} {rest : Bytes} (isArray : container.type = .array)
    (ahead : js.drop pos = comma :: rest) :
    parseLoop js (reached (head ++ container :: done) stale pos head.length) =
      parseLoop js (reached (head ++ container :: done) stale (pos + 1) head.length) := by
  have stays : backToContainer (reached (head ++ container :: done) stale pos head.length) =
      reached (head ++ container :: done) stale pos head.length := by
    simp only [backToContainer, reached, tokenAt_reached, isArray]
    rw [if_neg (by simp)]
  rw [run_comma ahead, stays]
  rfl

theorem run_comma_key {js : Bytes} (front back stale : List Token) (key : Token)
    {pos : Nat} {rest : Bytes} (isString : key.type = .string)
    (ahead : js.drop pos = comma :: rest) :
    parseLoop js (reached (front ++ key :: back) stale pos front.length) =
      parseLoop js (reached (front ++ key :: back) stale (pos + 1) key.parent) := by
  have backs : backToContainer (reached (front ++ key :: back) stale pos front.length) =
      reached (front ++ key :: back) stale pos key.parent := by
    simp only [backToContainer, reached, tokenAt_reached, isString]
    rw [if_pos ⟨by omega, by decide, by decide⟩]
  rw [run_comma ahead, backs]
  rfl

/-! ### Scalars -/

def granted : Option Parser → Result Parser
  | none => fail category Code.noMemory.value "tokens exhausted"
  | some q => .ok q

theorem parseStringLoop_reading {js : Bytes} {start : Nat} {p : Parser} {c : UInt8}
    (reading : js[p.pos]? = some c) :
    parseStringLoop js start p =
      if c = quote then
        granted (p.alloc
          { type := .string, start := toInt32 (start + 1), end_ := toInt32 p.pos,
            parent := p.toksuper })
      else if c = backslash ∧ p.pos + 1 < js.length then
        match parseEscape js (p.pos + 1) with
        | .error e => .error e
        | .ok pos => parseStringLoop js start { p with pos := pos + 1 }
      else parseStringLoop js start { p with pos := p.pos + 1 } := by
  rw [parseStringLoop]
  split
  · next ended =>
      rw [ended] at reading
      cases reading
  · next d read =>
      rw [read] at reading
      cases reading
      split
      · rfl
      · split
        · split <;> next escaped => rw [escaped]
        · rfl

theorem parseStringLoop_plain {js : Bytes} {start : Nat} {p : Parser} {c : UInt8}
    (reading : js[p.pos]? = some c) (ordinary : c ≠ quote ∧ c ≠ backslash) :
    parseStringLoop js start p = parseStringLoop js start { p with pos := p.pos + 1 } := by
  rw [parseStringLoop_reading reading, if_neg ordinary.1, if_neg (fun both => ordinary.2 both.1)]

theorem parseStringLoop_escape {js : Bytes} {start : Nat} {p : Parser} (reached : Nat)
    (reading : js[p.pos]? = some backslash) (inside : p.pos + 1 < js.length)
    (escaped : parseEscape js (p.pos + 1) = .ok reached) :
    parseStringLoop js start p = parseStringLoop js start { p with pos := reached + 1 } := by
  rw [parseStringLoop_reading reading, if_neg (by decide), if_pos ⟨rfl, inside⟩, escaped]

theorem parseStringLoop_item {js : Bytes} {start : Nat} {p : Parser} {rest : Bytes}
    (item : StringItem) (ahead : js.drop p.pos = item.text ++ rest) :
    parseStringLoop js start p =
      parseStringLoop js start { p with pos := p.pos + item.text.length } := by
  cases item with
  | plain c ordinary =>
      exact parseStringLoop_plain (ahead_cons ahead).1 ordinary
  | escape c simple =>
      have second : js[p.pos + 1]? = some c := (ahead_cons (ahead_cons ahead).2).1
      refine parseStringLoop_escape (p.pos + 1) (ahead_cons ahead).1
        (List.getElem?_eq_some_iff.mp second).1 ?_
      unfold parseEscape
      rw [second]
      simp only [simple, if_true]
  | unicode a b c d hex =>
      have first := ahead_cons ahead
      have marker := ahead_cons first.2
      have digit1 := ahead_cons marker.2
      have digit2 := ahead_cons digit1.2
      have digit3 := ahead_cons digit2.2
      have digit4 := ahead_cons digit3.2
      refine parseStringLoop_escape (p.pos + 5) first.1
        (List.getElem?_eq_some_iff.mp marker.1).1 ?_
      unfold parseEscape
      rw [marker.1]
      simp only [parseHexDigits, digit1.1, digit2.1, digit3.1, digit4.1, hex.1, hex.2.1,
        hex.2.2.1, hex.2.2.2, if_true]
      rfl

theorem parseStringLoop_items {js : Bytes} {start : Nat} (content : StringText) (p : Parser)
    (rest : Bytes) (ahead : js.drop p.pos = content.raw ++ rest) :
    parseStringLoop js start p =
      parseStringLoop js start { p with pos := p.pos + content.raw.length } := by
  induction content generalizing p with
  | nil => rfl
  | cons item content ih =>
      rw [StringText.raw_cons, List.append_assoc] at ahead
      rw [parseStringLoop_item item ahead,
        ih { p with pos := p.pos + item.text.length } (ahead_append ahead), StringText.raw_cons,
        List.length_append, Nat.add_assoc]

theorem parseStringLoop_close {js : Bytes} {start : Nat} {p : Parser}
    (reading : js[p.pos]? = some quote) :
    parseStringLoop js start p =
      granted (p.alloc
        { type := .string, start := toInt32 (start + 1), end_ := toInt32 p.pos,
          parent := p.toksuper }) := by
  rw [parseStringLoop_reading reading, if_pos rfl]

/-- The terminator of a primitive is read again. -/
def unread (p : Parser) : Parser := { p with pos := p.pos - 1 }

theorem parsePrimitiveLoop_reading {js : Bytes} {start : Nat} {p : Parser} {c : UInt8}
    (reading : js[p.pos]? = some c) :
    parsePrimitiveLoop js start p =
      if isTerminator c then
        granted ((p.alloc
          { type := .primitive, start := toInt32 start, end_ := toInt32 p.pos,
            parent := p.toksuper }).map unread)
      else if c < 32 then fail category Code.invalid.value "control char in primitive"
      else parsePrimitiveLoop js start { p with pos := p.pos + 1 } := by
  rw [parsePrimitiveLoop]
  split
  · next ended =>
      rw [ended] at reading
      cases reading
  · next d read =>
      rw [read] at reading
      cases reading
      split
      · cases p.alloc _ <;> rfl
      · rfl

theorem parsePrimitiveLoop_plain {js : Bytes} {start : Nat} {p : Parser} {c : UInt8}
    (reading : js[p.pos]? = some c) (plain : isTerminator c = false ∧ ¬ c < 32) :
    parsePrimitiveLoop js start p =
      parsePrimitiveLoop js start { p with pos := p.pos + 1 } := by
  rw [parsePrimitiveLoop_reading reading, if_neg (by rw [plain.1]; decide), if_neg plain.2]

theorem parsePrimitiveLoop_end {js : Bytes} {start : Nat} {p : Parser} {c : UInt8}
    (reading : js[p.pos]? = some c) (ends : isTerminator c = true) :
    parsePrimitiveLoop js start p =
      granted ((p.alloc
        { type := .primitive, start := toInt32 start, end_ := toInt32 p.pos,
          parent := p.toksuper }).map unread) := by
  rw [parsePrimitiveLoop_reading reading, if_pos ends]

theorem parsePrimitiveLoop_text {js : Bytes} {start : Nat} (text : Bytes) (p : Parser)
    (plain : ∀ c ∈ text, isTerminator c = false ∧ ¬ c < 32) (rest : Bytes)
    (ahead : js.drop p.pos = text ++ rest) :
    parsePrimitiveLoop js start p =
      parsePrimitiveLoop js start { p with pos := p.pos + text.length } := by
  induction text generalizing p with
  | nil => rfl
  | cons c text ih =>
      obtain ⟨reading, next⟩ := ahead_cons ahead
      rw [parsePrimitiveLoop_plain reading (plain c List.mem_cons_self),
        ih { p with pos := p.pos + 1 }
          (fun d member => plain d (List.mem_cons_of_mem c member)) next,
        List.length_cons, Nat.add_comm text.length 1, ← Nat.add_assoc]

theorem ahead_quoted {js rest : Bytes} {content : StringText} {pos : Nat}
    (ahead : js.drop pos = quoted content ++ rest) :
    js.drop (pos + 1) = content.raw ++ (quote :: rest) := by
  have inside : js.drop (pos + 1) = content.raw ++ [quote] ++ rest := (ahead_cons ahead).2
  rwa [List.append_assoc, List.singleton_append] at inside

section Runs

variable {js : Bytes} (small : js.length < 2 ^ 31)

include small

theorem offset_eq {pos : Nat} (inside : pos ≤ js.length) : toInt32 pos = pos :=
  toInt32_eq (Nat.lt_of_le_of_lt inside small)

omit small in
theorem countChild_scalar {used stale : List Token} {token : Token} {pos : Nat} {super : Int}
    (valid : ValidSuper super used) :
    (reached (used ++ [token]) stale pos super).countChild =
      reached (counted super used ++ [token]) stale pos super := by
  rw [countChild_reached, counted_append valid]
  rcases valid with unset | ⟨lower, upper⟩
  · exact .inl unset
  · exact .inr ⟨lower, by rw [List.length_append]; omega⟩

theorem run_string (content : StringText) {used stale : List Token} {old : Token} {pos : Nat}
    {super : Int} {rest : Bytes} (ahead : js.drop pos = quoted content ++ rest)
    (valid : ValidSuper super used) :
    parseLoop js (reached used (old :: stale) pos super) =
      parseLoop js
        (reached (counted super used ++ [(Doc.string content).token pos super]) stale
          (pos + (quoted content).length) super) := by
  have atQuote := ahead_cons ahead
  have inside := ahead_quoted ahead
  have closing := (ahead_cons (ahead_append inside)).1
  have fits := (List.getElem?_eq_some_iff.mp closing).1
  have token_eq : (Doc.string content).token pos super =
      { type := .string, start := toInt32 (pos + 1),
        end_ := toInt32 (pos + 1 + content.raw.length), parent := super } := by
    rw [offset_eq small (by omega : pos + 1 ≤ js.length),
      offset_eq small (Nat.le_of_lt fits)]
    rfl
  have scanned : parseString js (reached used (old :: stale) pos super) =
      .ok (reached (used ++ [(Doc.string content).token pos super]) stale
        (pos + 1 + content.raw.length) super) := by
    unfold parseString
    rw [parseStringLoop_items content _ _ inside, parseStringLoop_close closing, token_eq]
    exact congrArg granted (alloc_reached used stale old _ _ super)
  have stepped := parseStep_quote js (reached used (old :: stale) pos super)
  rw [scanned, Except.map, countChild_scalar valid] at stepped
  rw [parseLoop_step (p := reached used (old :: stale) pos super) atQuote.1 stepped]
  have finish : pos + 1 + content.raw.length + 1 = pos + (quoted content).length := by
    simp [quoted]
    omega
  rw [← finish]
  rfl

theorem run_primitive (content : PrimitiveText) {used stale : List Token} {old : Token}
    {pos : Nat} {super : Int} {c : UInt8} {rest : Bytes}
    (ahead : js.drop pos = content.text ++ c :: rest) (ends : isTerminator c = true)
    (valid : ValidSuper super used) :
    parseLoop js (reached used (old :: stale) pos super) =
      parseLoop js
        (reached (counted super used ++ [(Doc.primitive content).token pos super]) stale
          (pos + content.text.length) super) := by
  have atStop := (ahead_cons (ahead_append ahead)).1
  have fits := (List.getElem?_eq_some_iff.mp atStop).1
  have token_eq : (Doc.primitive content).token pos super =
      { type := .primitive, start := toInt32 pos,
        end_ := toInt32 (pos + content.text.length), parent := super } := by
    rw [offset_eq small (by omega : pos ≤ js.length), offset_eq small (Nat.le_of_lt fits)]
    rfl
  have scanned : parsePrimitive js (reached used (old :: stale) pos super) =
      .ok (reached (used ++ [(Doc.primitive content).token pos super]) stale
        (pos + content.text.length - 1) super) := by
    unfold parsePrimitive
    rw [parsePrimitiveLoop_text content.text _ content.plain _ ahead,
      parsePrimitiveLoop_end atStop ends, token_eq]
    exact congrArg (fun outcome => granted (outcome.map unread))
      (alloc_reached used stale old _ (pos + content.text.length) super)
  have stepped := parseStep_primitive js (reached used (old :: stale) pos super) content.opens
    content.goesOn
  rw [scanned, Except.map, countChild_scalar valid] at stepped
  rw [parseLoop_step (p := reached used (old :: stale) pos super) (ahead_cons ahead).1 stepped]
  have finish : pos + content.text.length - 1 + 1 = pos + content.text.length := by
    simp only [PrimitiveText.text, List.length_cons]
    omega
  change parseLoop js (reached _ stale (pos + content.text.length - 1 + 1) super) = _
  rw [finish]

end Runs

/-! ### Containers -/

theorem Token.isOpen_of_end {token : Token} {stop : Nat} (ends : token.end_ = stop) :
    token.isOpen = false := by
  simp only [Token.isOpen, Bool.and_eq_false_iff, beq_eq_false_iff_ne]
  right
  omega

mutual

theorem Doc.tokens_closed (pos index : Nat) (parent : Int) :
    (doc : Doc) → ∀ token ∈ doc.tokens pos index parent, token.isOpen = false
  | .primitive content => by
      intro token member
      rw [List.mem_singleton.mp member]
      exact Token.isOpen_of_end rfl
  | .string content => by
      intro token member
      rw [List.mem_singleton.mp member]
      exact Token.isOpen_of_end rfl
  | .array blank elements => by
      intro token member
      rcases List.mem_cons.mp member with rfl | later
      · exact Token.isOpen_of_end rfl
      · exact elements.tokens_closed _ _ _ token later
  | .object blank members => by
      intro token member
      rcases List.mem_cons.mp member with rfl | later
      · exact Token.isOpen_of_end rfl
      · exact members.tokens_closed _ _ _ token later

theorem Elements.tokens_closed (pos index : Nat) (container : Int) :
    (elements : Elements) → ∀ token ∈ elements.tokens pos index container,
      token.isOpen = false
  | .nil => by
      intro token member
      cases member
  | .cons before value after rest => by
      intro token member
      rcases List.mem_append.mp member with here | later
      · exact value.tokens_closed _ _ _ token here
      · exact rest.tokens_closed _ _ _ token later

theorem Members.tokens_closed (pos index : Nat) (container : Int) :
    (members : Members) → ∀ token ∈ members.tokens pos index container,
      token.isOpen = false
  | .nil => by
      intro token member
      cases member
  | .cons before key beforeColon afterColon value after rest => by
      intro token member
      rcases List.mem_cons.mp member with rfl | more
      · exact Token.isOpen_of_end rfl
      · rcases List.mem_append.mp more with here | later
        · exact value.tokens_closed _ _ _ token here
        · exact rest.tokens_closed _ _ _ token later

end

theorem findOpen_skip (tokens : List Token) (below count : Nat)
    (closed : ∀ i, below ≤ i → i < below + count → (tokens.getD i {}).isOpen = false) :
    findOpen tokens (below + count) = findOpen tokens below := by
  induction count with
  | zero => rfl
  | succ count ih =>
      have skipped : findOpen tokens (below + count + 1) = findOpen tokens (below + count) := by
        rw [findOpen, closed (below + count) (by omega) (by omega)]
        rfl
      exact skipped.trans (ih (fun i lower upper => closed i lower (by omega)))

/-- The backwards scan passes the closed children and stops at their container. -/
theorem findOpen_container (head children stale : List Token) (container : Token)
    (isOpen : container.isOpen = true)
    (closed : ∀ token ∈ children, token.isOpen = false) :
    findOpen (head ++ container :: children ++ stale)
      (head ++ container :: children).length = some head.length := by
  have length_eq : (head ++ container :: children).length =
      head.length + 1 + children.length := by
    rw [List.length_append, List.length_cons]
    omega
  rw [length_eq, findOpen_skip]
  · have found : (head ++ container :: children ++ stale).getD head.length {} = container := by
      rw [List.append_assoc, List.cons_append, getD_append_at]
    simp only [findOpen, found, isOpen, if_true]
  · intro i lower upper
    have inChildren : i - (head.length + 1) < children.length := by omega
    have past : i - head.length = i - (head.length + 1) + 1 := by omega
    have found : (head ++ container :: children ++ stale).getD i {} =
        children[i - (head.length + 1)] := by
      rw [List.getD_eq_getElem?_getD, List.getElem?_append_left (by omega),
        List.getElem?_append_right (by omega), past, List.getElem?_cons_succ,
        List.getElem?_eq_getElem inChildren]
      rfl
    rw [found]
    exact closed _ (List.getElem_mem inChildren)

section Containers

variable {js : Bytes} (small : js.length < 2 ^ 31)

include small

theorem run_open {c : UInt8} (opener : c = openBrace ∨ c = openBracket)
    {used stale : List Token} {old : Token} {pos : Nat} {super : Int} {rest : Bytes}
    (ahead : js.drop pos = c :: rest) (valid : ValidSuper super used) :
    parseLoop js (reached used (old :: stale) pos super) =
      parseLoop js
        (reached
          (counted super used ++ [{ type := openerKind c, start := pos, parent := super }])
          stale (pos + 1) used.length) := by
  have reading := (ahead_cons ahead).1
  have fits := (List.getElem?_eq_some_iff.mp reading).1
  have stepped : parseStep js (reached used (old :: stale) pos super) c =
      .ok (reached
        (counted super used ++ [{ type := openerKind c, start := pos, parent := super }])
        stale pos used.length) := by
    unfold parseStep
    rw [if_pos opener]
    unfold openContainer
    change (match (reached used (old :: stale) pos super).alloc
      { type := openerKind c, start := toInt32 pos, parent := super } with
      | none => _ | some q => _) = _
    rw [offset_eq small (Nat.le_of_lt fits), alloc_reached]
    simp only [countChild_scalar valid]
    simp only [reached, List.length_append, List.length_cons, List.length_nil, counted_length]
    have last : ((used.length + 1 : Nat) : Int) - 1 = used.length := by omega
    rw [last]
  exact parseLoop_step (p := reached used (old :: stale) pos super) reading stepped

theorem run_close {c : UInt8} (closer : c = closeBrace ∨ c = closeBracket)
    {head children stale : List Token} {container : Token} {pos : Nat} {super : Int}
    {rest : Bytes} (ahead : js.drop pos = c :: rest) (isOpen : container.isOpen = true)
    (matching : container.type = closerKind c)
    (closed : ∀ token ∈ children, token.isOpen = false) :
    parseLoop js (reached (head ++ container :: children) stale pos super) =
      parseLoop js
        (reached (head ++ { container with end_ := (pos + 1 : Nat) } :: children) stale (pos + 1)
          container.parent) := by
  have reading := (ahead_cons ahead).1
  have fits := (List.getElem?_eq_some_iff.mp reading).1
  have stepped : parseStep js (reached (head ++ container :: children) stale pos super) c =
      .ok (reached (head ++ { container with end_ := (pos + 1 : Nat) } :: children) stale pos
        container.parent) := by
    unfold parseStep
    rw [if_neg (by rcases closer with rfl | rfl <;> decide), if_pos closer]
    unfold closeContainer
    simp only [reached, findOpen_container head children stale container isOpen closed,
      tokenAt_reached]
    rw [if_neg (by simpa using matching), offset_eq small (by omega : pos + 1 ≤ js.length),
      List.append_assoc, List.cons_append, modify_append_at]
    simp
  exact parseLoop_step (p := reached (head ++ container :: children) stale pos super) reading
    stepped

end Containers

/-! ### Whole documents -/

theorem EndsValue.blank (blank : Blank) {c : UInt8} (ends : isTerminator c = true)
    (rest : Bytes) : EndsValue (blank.text ++ c :: rest) := by
  obtain ⟨text, isBlank⟩ := blank
  cases text with
  | nil => exact ⟨c, rest, rfl, ends⟩
  | cons d text =>
      refine ⟨d, text ++ c :: rest, rfl, ?_⟩
      simp [isTerminator, isBlank d List.mem_cons_self]

theorem exists_cons_of_lt {count : Nat} {stale : List Token} (room : count < stale.length) :
    ∃ old rest, stale = old :: rest ∧ count ≤ rest.length := by
  cases stale with
  | nil => simp at room
  | cons old rest => exact ⟨old, rest, rfl, by simpa [Nat.lt_succ_iff] using room⟩

theorem validSuper_container (head done : List Token) (container : Token) :
    ValidSuper head.length (head ++ container :: done) := by
  right
  rw [List.length_append, List.length_cons]
  omega

theorem addChild_size (container : Token) (count : Nat) :
    { addChild container with size := (addChild container).size + count } =
      { container with size := container.size + ((count + 1 : Nat) : Int) } := by
  simp only [addChild, Token.mk.injEq, true_and, and_true]
  omega

theorem length_around (head done : List Token) (container : Token) :
    (head ++ container :: done).length = head.length + 1 + done.length := by
  rw [List.length_append, List.length_cons]
  omega

theorem Elements.text_cons (before : Blank) (value : Doc) (after : Blank) (rest : Elements) :
    (Elements.cons before value after rest).text =
      before.text ++ (value.text ++ (after.text ++ rest.tail)) := by
  cases rest <;> rfl

theorem Members.text_cons (before : Blank) (key : StringText) (beforeColon afterColon : Blank)
    (value : Doc) (after : Blank) (rest : Members) :
    (Members.cons before key beforeColon afterColon value after rest).text =
      before.text ++ (quoted key ++ (beforeColon.text ++ (colon :: (afterColon.text ++
        (value.text ++ (after.text ++ rest.tail)))))) := by
  cases rest <;> rfl

theorem Elements.end_cons (pos : Nat) (before : Blank) (value : Doc) (after : Blank)
    (rest : Elements) :
    pos + (Elements.cons before value after rest).text.length =
      pos + before.text.length + value.text.length + after.text.length + rest.tail.length := by
  rw [Elements.text_cons]
  simp only [List.length_append]
  omega

theorem Members.end_cons (pos : Nat) (before : Blank) (key : StringText)
    (beforeColon afterColon : Blank) (value : Doc) (after : Blank) (rest : Members) :
    pos + (Members.cons before key beforeColon afterColon value after rest).text.length =
      pos + before.text.length + (quoted key).length + beforeColon.text.length + 1 +
        afterColon.text.length + value.text.length + after.text.length + rest.tail.length := by
  rw [Members.text_cons]
  simp only [List.length_append, List.length_cons]
  omega

theorem Elements.length_tail_cons (before : Blank) (value : Doc) (after : Blank)
    (rest : Elements) :
    (Elements.cons before value after rest).tail.length =
      1 + (Elements.cons before value after rest).text.length := by
  rw [Elements.tail, List.length_cons, Nat.add_comm]

theorem Members.length_tail_cons (before : Blank) (key : StringText)
    (beforeColon afterColon : Blank) (value : Doc) (after : Blank) (rest : Members) :
    (Members.cons before key beforeColon afterColon value after rest).tail.length =
      1 + (Members.cons before key beforeColon afterColon value after rest).text.length := by
  rw [Members.tail, List.length_cons, Nat.add_comm]

theorem Elements.endsValue (elements : Elements) (after : Blank) (rest : Bytes) :
    EndsValue (after.text ++ (elements.tail ++ closeBracket :: rest)) := by
  cases elements with
  | nil => exact .blank after (by decide) _
  | cons before value following more => exact .blank after (by decide) _

theorem Members.endsValue (members : Members) (after : Blank) (rest : Bytes) :
    EndsValue (after.text ++ (members.tail ++ closeBrace :: rest)) := by
  cases members with
  | nil => exact .blank after (by decide) _
  | cons before key beforeColon afterColon value following more =>
      exact .blank after (by decide) _

section Documents

variable {js : Bytes}

/-- Opening bracket, body and closing bracket, once the run over the body is
known: the container's token is completed in place under its children. -/
theorem run_container (small : js.length < 2 ^ 31) {opener closer : UInt8}
    (isOpener : opener = openBrace ∨ opener = openBracket)
    (isCloser : closer = closeBrace ∨ closer = closeBracket)
    (pair : openerKind opener = closerKind closer) (blank : Blank) {body : Bytes}
    {used stale free children : List Token} {old : Token} {pos : Nat} {super last : Int}
    {count : Nat} {rest : Bytes}
    (ahead : js.drop pos = opener :: (blank.text ++ (body ++ closer :: rest)))
    (valid : ValidSuper super used) (closed : ∀ token ∈ children, token.isOpen = false)
    (inner : parseLoop js
        (reached
          (counted super used ++ [{ type := openerKind opener, start := pos, parent := super }])
          stale (pos + 1 + blank.text.length) used.length) =
      parseLoop js
        (reached (counted super used ++
            { type := openerKind opener, start := pos, size := count, parent := super } :: children)
          free (pos + 1 + blank.text.length + body.length) last)) :
    parseLoop js (reached used (old :: stale) pos super) =
      parseLoop js
        (reached (counted super used ++
            { type := openerKind opener
              start := pos
              end_ := (pos + 1 + blank.text.length + body.length + 1 : Nat)
              size := count
              parent := super } :: children)
          free (pos + 1 + blank.text.length + body.length + 1) super) := by
  have inside := (ahead_cons ahead).2
  have atClose := ahead_append (ahead_append inside)
  rw [run_open small isOpener ahead valid, run_blank blank inside, inner]
  refine run_close small isCloser atClose ?_ pair closed
  simp only [Token.isOpen, Bool.and_eq_true, bne_iff_ne, beq_self_eq_true, and_true]
  omega

theorem run_key (small : js.length < 2 ^ 31) (before : Blank) (key : StringText)
    (beforeColon afterColon : Blank) {head done stale : List Token} {container old : Token}
    {pos : Nat} {rest : Bytes}
    (ahead : js.drop pos =
      before.text ++ (quoted key ++ (beforeColon.text ++ (colon :: (afterColon.text ++ rest))))) :
    parseLoop js (reached (head ++ container :: done) (old :: stale) pos head.length) =
      parseLoop js
        (reached
          (head ++ addChild container :: done ++
            [(Doc.string key).token (pos + before.text.length) head.length])
          stale
          (pos + before.text.length + (quoted key).length + beforeColon.text.length + 1 +
            afterColon.text.length)
          (head ++ addChild container :: done).length) := by
  have atKey := ahead_append ahead
  have atBeforeColon := ahead_append atKey
  have atColon := ahead_append atBeforeColon
  have atAfterColon := (ahead_cons atColon).2
  have keyIndex : (((head ++ addChild container :: done ++
      [(Doc.string key).token (pos + before.text.length) head.length]).length : Nat) : Int) - 1 =
      (head ++ addChild container :: done).length := by
    rw [List.length_append, List.length_singleton]
    omega
  rw [run_blank before ahead,
    run_string small key atKey (validSuper_container head done container), counted_at,
    run_blank beforeColon atBeforeColon, run_colon atColon, run_blank afterColon atAfterColon,
    keyIndex]

mutual

/-- A run over a document appends its listing and leaves `toksuper` alone. -/
theorem Doc.run (small : js.length < 2 ^ 31) : (doc : Doc) → ∀ (used stale : List Token)
    (pos : Nat) (super : Int) (rest : Bytes), js.drop pos = doc.text ++ rest →
    (doc.kind = .primitive → EndsValue rest) → doc.nodes ≤ stale.length →
    ValidSuper super used →
    parseLoop js (reached used stale pos super) =
      parseLoop js
        (reached (counted super used ++ doc.tokens pos used.length super)
          (stale.drop doc.nodes) (pos + doc.text.length) super)
  | .primitive content => by
      intro used stale pos super rest ahead ending room valid
      obtain ⟨old, stale, rfl, -⟩ := exists_cons_of_lt (Nat.lt_of_succ_le room)
      obtain ⟨c, tail, rfl, ends⟩ := ending rfl
      exact run_primitive small content ahead ends valid
  | .string content => by
      intro used stale pos super rest ahead ending room valid
      obtain ⟨old, stale, rfl, -⟩ := exists_cons_of_lt (Nat.lt_of_succ_le room)
      exact run_string small content ahead valid
  | .array blank elements => by
      intro used stale pos super rest ahead ending room valid
      obtain ⟨old, stale, rfl, enough⟩ := exists_cons_of_lt (Nat.lt_of_succ_le room)
      have spread : js.drop pos =
          openBracket :: (blank.text ++ (elements.text ++ closeBracket :: rest)) := by
        simpa [Doc.text] using ahead
      have inner := elements.run small (counted super used) [] stale
        { type := .array, start := pos, parent := super } _ rest rfl
        (ahead_append (ahead_cons spread).2) enough
      rw [counted_length, Int.zero_add] at inner
      rw [run_container small (.inr rfl) (.inr rfl) rfl blank spread valid
        (elements.tokens_closed _ _ _) inner]
      have finish : pos + (Doc.array blank elements).text.length =
          pos + 1 + blank.text.length + elements.text.length + 1 := by
        simp only [Doc.text, List.length_cons, List.length_append, List.length_nil]
        omega
      rw [Doc.tokens, Doc.token_array, finish]
      rfl
  | .object blank members => by
      intro used stale pos super rest ahead ending room valid
      obtain ⟨old, stale, rfl, enough⟩ := exists_cons_of_lt (Nat.lt_of_succ_le room)
      have spread : js.drop pos =
          openBrace :: (blank.text ++ (members.text ++ closeBrace :: rest)) := by
        simpa [Doc.text] using ahead
      obtain ⟨last, inner⟩ := members.run small (counted super used) [] stale
        { type := .object, start := pos, parent := super } _ rest
        (ahead_append (ahead_cons spread).2) enough
      rw [counted_length, Int.zero_add] at inner
      rw [run_container small (.inl rfl) (.inl rfl) rfl blank spread valid
        (members.tokens_closed _ _ _) inner]
      have finish : pos + (Doc.object blank members).text.length =
          pos + 1 + blank.text.length + members.text.length + 1 := by
        simp only [Doc.text, List.length_cons, List.length_append, List.length_nil]
        omega
      rw [Doc.tokens, Doc.token_object, finish]
      rfl

theorem Elements.run (small : js.length < 2 ^ 31) : (elements : Elements) →
    ∀ (head done stale : List Token) (container : Token) (pos : Nat) (rest : Bytes),
    container.type = .array →
    js.drop pos = elements.text ++ closeBracket :: rest → elements.nodes ≤ stale.length →
    parseLoop js (reached (head ++ container :: done) stale pos head.length) =
      parseLoop js
        (reached
          (head ++ { container with size := container.size + elements.toList.length } ::
            (done ++ elements.tokens pos (head.length + 1 + done.length) head.length))
          (stale.drop elements.nodes) (pos + elements.text.length) head.length)
  | .nil => by
      intro head done stale container pos rest isArray ahead room
      simp [Elements.text, Elements.tokens, Elements.nodes, Elements.toList]
  | .cons before value after more => by
      intro head done stale container pos rest isArray ahead room
      rw [Elements.text_cons] at ahead
      simp only [List.append_assoc] at ahead
      have atValue := ahead_append ahead
      have atAfter := ahead_append atValue
      have atTail := ahead_append atAfter
      have roomValue : value.nodes ≤ stale.length := Nat.le_trans (Nat.le_add_right _ _) room
      have roomMore : more.nodes ≤ (stale.drop value.nodes).length := by
        rw [List.length_drop]
        simp only [Elements.nodes] at room
        omega
      have index := length_around head done container
      rw [run_blank before ahead,
        value.run small _ _ _ _ _ atValue (fun _ => more.endsValue after rest) roomValue
          (validSuper_container head done container),
        counted_at, run_blank after atAfter, index, List.append_assoc, List.cons_append]
      cases more with
      | nil =>
          simp [Elements.text, Elements.tokens, Elements.nodes, Elements.toList, addChild,
            Nat.add_assoc]
      | cons before' value' after' more' =>
          rw [run_comma_array (addChild container) isArray atTail]
          have others := (Elements.cons before' value' after' more').run small head
            (done ++ value.tokens (pos + before.text.length) (head.length + 1 + done.length)
              head.length)
            (stale.drop value.nodes) (addChild container) _ rest isArray (ahead_cons atTail).2
            roomMore
          refine Eq.trans others ?_
          have places : head.length + 1 +
              (done ++ value.tokens (pos + before.text.length) (head.length + 1 + done.length)
                head.length).length =
              head.length + 1 + done.length + value.nodes := by
            rw [List.length_append, Doc.tokens_length]
            omega
          rw [places, Elements.end_cons pos before value after, Elements.length_tail_cons,
            ← Nat.add_assoc, List.drop_drop, addChild_size, List.append_assoc]
          rfl

theorem Members.run (small : js.length < 2 ^ 31) : (members : Members) →
    ∀ (head done stale : List Token) (container : Token) (pos : Nat) (rest : Bytes),
    js.drop pos = members.text ++ closeBrace :: rest → members.nodes ≤ stale.length →
    ∃ super, parseLoop js (reached (head ++ container :: done) stale pos head.length) =
      parseLoop js
        (reached
          (head ++ { container with size := container.size + members.toList.length } ::
            (done ++ members.tokens pos (head.length + 1 + done.length) head.length))
          (stale.drop members.nodes) (pos + members.text.length) super)
  | .nil => by
      intro head done stale container pos rest ahead room
      exact ⟨head.length, by
        simp [Members.text, Members.tokens, Members.nodes, Members.toList]⟩
  | .cons before key beforeColon afterColon value after more => by
      intro head done stale container pos rest ahead room
      rw [Members.text_cons] at ahead
      simp only [List.append_assoc, List.cons_append] at ahead
      have atColon := ahead_append (ahead_append (ahead_append ahead))
      have atValue := ahead_append (ahead_cons atColon).2
      have atAfter := ahead_append atValue
      have atTail := ahead_append atAfter
      have roomKey : value.nodes + more.nodes < stale.length := by
        simp only [Members.nodes] at room
        omega
      obtain ⟨old, stale, rfl, roomValue⟩ := exists_cons_of_lt roomKey
      have roomMore : more.nodes ≤ (stale.drop value.nodes).length := by
        rw [List.length_drop]
        omega
      have index := length_around head done (addChild container)
      have keyEq : addChild ((Doc.string key).token (pos + before.text.length) head.length) =
          keyToken (pos + before.text.length) head.length key := rfl
      rw [run_key small before key beforeColon afterColon ahead,
        value.run small _ _ _ _ _ atValue (fun _ => more.endsValue after rest) (by omega)
          (validSuper_container _ [] _),
        counted_at, run_blank after atAfter, keyEq, List.append_assoc, List.singleton_append,
        List.length_append, List.length_singleton, index]
      cases more with
      | nil =>
          refine ⟨(head.length + 1 + done.length : Nat), ?_⟩
          rw [Members.end_cons]
          simp only [Members.tokens, Members.nodes, Members.toList, Members.tail, addChild,
            List.append_nil, List.length_nil, List.length_singleton, Nat.add_zero,
            List.drop_succ_cons, List.append_assoc, List.cons_append, Int.ofNat_one]
      | cons before' key' beforeColon' afterColon' value' after' more' =>
          have handed := run_comma_key (head ++ addChild container :: done)
            (value.tokens
              (pos + before.text.length + (quoted key).length + beforeColon.text.length + 1 +
                afterColon.text.length)
              (head.length + 1 + done.length + 1) ((head.length + 1 + done.length : Nat) : Int))
            (stale.drop value.nodes) (keyToken (pos + before.text.length) head.length key) rfl
            atTail
          rw [index] at handed
          rw [handed]
          obtain ⟨last, others⟩ := (Members.cons before' key' beforeColon' afterColon' value'
              after' more').run small head
            (done ++ keyToken (pos + before.text.length) head.length key ::
              value.tokens
                (pos + before.text.length + (quoted key).length + beforeColon.text.length + 1 +
                  afterColon.text.length)
                (head.length + 1 + done.length + 1) ((head.length + 1 + done.length : Nat) : Int))
            (stale.drop value.nodes) (addChild container) _ rest (ahead_cons atTail).2 roomMore
          refine ⟨last, ?_⟩
          rw [List.append_assoc, List.cons_append]
          refine Eq.trans others ?_
          have places : head.length + 1 +
              (done ++ keyToken (pos + before.text.length) head.length key ::
                value.tokens
                  (pos + before.text.length + (quoted key).length + beforeColon.text.length + 1 +
                    afterColon.text.length)
                  (head.length + 1 + done.length + 1)
                  ((head.length + 1 + done.length : Nat) : Int)).length =
              head.length + 1 + done.length + 1 + value.nodes := by
            rw [List.length_append, List.length_cons, Doc.tokens_length]
            omega
          have freed : (Members.cons before key beforeColon afterColon value after
                (.cons before' key' beforeColon' afterColon' value' after' more')).nodes =
              value.nodes + (Members.cons before' key' beforeColon' afterColon' value' after'
                more').nodes + 1 := by
            simp only [Members.nodes]
            omega
          rw [places, Members.end_cons pos before key, freed, List.drop_drop,
            List.drop_succ_cons, addChild_size, List.append_assoc, Members.length_tail_cons,
            ← Nat.add_assoc]
          rfl

end

end Documents

theorem findOpen_none (used stale : List Token)
    (closed : ∀ token ∈ used, token.isOpen = false) :
    findOpen (used ++ stale) used.length = none := by
  have skipped := findOpen_skip (used ++ stale) 0 used.length (by
    intro i _ upper
    rw [Nat.zero_add] at upper
    rw [List.getD_eq_getElem?_getD, List.getElem?_append_left upper,
      List.getElem?_eq_getElem upper]
    exact closed _ (List.getElem_mem upper))
  rw [Nat.zero_add] at skipped
  exact skipped

theorem Source.endsValue (source : Source) (isPrimitive : source.root.kind = .primitive) :
    EndsValue source.after.text := by
  have nonempty := source.terminated isPrimitive
  cases shape : source.after.text with
  | nil => exact absurd shape nonempty
  | cons c tail =>
      refine ⟨c, tail, rfl, ?_⟩
      have blank := source.after.isBlank c (by rw [shape]; exact List.mem_cons_self)
      simp [isTerminator, blank]

/-- `Parse` accepts every rendering of every document, returns its node count,
and fills the array with its pre-order listing. Slots after the listing keep
what they held, whatever that was. -/
theorem parse_eq_listing (source : Source) (tokens : List Token)
    (small : source.text.length < 2 ^ 31) (room : source.root.nodes ≤ tokens.length) :
    parse source.text tokens =
      .ok (source.root.nodes, source.tokens ++ tokens.drop source.root.nodes) := by
  have atStart : source.text.drop 0 =
      source.before.text ++ (source.root.text ++ source.after.text) := rfl
  have atRoot := ahead_append atStart
  have atAfter := ahead_append atRoot
  have atTrail := atAfter.trans (List.append_nil source.after.text).symm
  have atEnd := ahead_append atTrail
  have looped : parseLoop source.text (reached [] tokens 0 (-1)) =
      .ok (reached source.tokens (tokens.drop source.root.nodes)
        (0 + source.before.text.length + source.root.text.length + source.after.text.length)
        (-1)) := by
    rw [run_blank source.before atStart,
      source.root.run small _ _ _ _ _ atRoot source.endsValue room (.inl rfl),
      run_blank source.after atTrail, parseLoop_done (p := reached _ _ _ _) (ahead_nil atEnd)]
    simp [Source.tokens, counted]
  have closed := source.root.tokens_closed source.before.text.length 0 (-1)
  have count : source.tokens.length = source.root.nodes := source.root.tokens_length _ _ _
  have start : ({ tokens := tokens } : Parser) = reached [] tokens 0 (-1) := rfl
  unfold parse
  rw [start, looped]
  simp only [reached, findOpen_none source.tokens _ closed]
  rw [count]

def Blank.empty : Blank := { text := [], isBlank := by simp }

def sampleSource : Source :=
  { before := .empty
    root :=
      .object .empty
        (.cons .empty [.plain 0x61 (by decide)] .empty .empty
          (.array .empty
            (.cons .empty (.primitive .null) .empty
              (.cons .empty (.string []) .empty .nil)))
          .empty .nil)
    after := { text := [space], isBlank := by simp [Etlx.Json.isBlank] }
    terminated := by decide }

theorem parse_eq_listing_sample :
    sampleSource.text.length < 2 ^ 31 ∧ sampleSource.root.nodes ≤ 6 ∧
      parse sampleSource.text (List.replicate 6 { start := 7, size := -3 }) =
        .ok (5, [
          { type := .object, start := 0, end_ := 15, size := 1, parent := -1 },
          { type := .string, start := 2, end_ := 3, size := 1, parent := 0 },
          { type := .array, start := 5, end_ := 14, size := 2, parent := 1 },
          { type := .primitive, start := 6, end_ := 10, size := 0, parent := 2 },
          { type := .string, start := 12, end_ := 12, size := 0, parent := 2 },
          { start := 7, size := -3 }]) :=
  ⟨by decide, by decide, parse_eq_listing sampleSource _ (by decide) (by decide)⟩

end Etlx.Json
