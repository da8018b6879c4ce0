/-
The read-only cursor over a parsed document.

A view is a source text, the tokens of the document and an index into them.
Member lookup scans every later token for a string whose parent is the object
and takes the token after it; element lookup counts the tokens whose parent is
the array. Neither stops at the end of the container. A number is accumulated in an
`int64_t`.
-/

import Etlx.Json.Tokenizer
import Etlx.Lib.Cursor

namespace Etlx.Json

/-- `class Json`; a default-constructed one has index `-1`. -/
structure View where
  src : Bytes := []
  tokens : List Token := []
  index : Int := -1
deriving DecidableEq, Repr

def View.valid (view : View) : Bool :=
  0 ≤ view.index && view.index < view.tokens.length

def View.token (view : View) : Token := tokenAt view.tokens view.index

def View.type (view : View) : Kind :=
  if view.valid then view.token.type else .undefined

def View.isObject (view : View) : Bool := view.type == .object

def View.isArray (view : View) : Bool := view.type == .array

def substr (text : Bytes) (position count : Nat) : Bytes :=
  (text.drop position).take count

def View.raw (view : View) : Bytes :=
  if view.valid then
    if view.token.start < 0 ∨ view.token.end_ < 0 ∨ view.token.end_ < view.token.start then []
    else
      substr view.src view.token.start.toNat (view.token.end_ - view.token.start).toNat
  else []

def View.size (view : View) : Nat :=
  if view.valid then
    if view.token.type = .object ∨ view.token.type = .array then view.token.size.toNat else 0
  else 0

def View.isKey (view : View) (key : Bytes) (i : Nat) : Bool :=
  (tokenAt view.tokens i).parent == view.index &&
    ((tokenAt view.tokens i).type == .string && ({ view with index := i } : View).raw == key)

/-- The `for` loop of `operator[](etl::string_view)`, from token `i` on. -/
def View.memberLoop (view : View) (key : Bytes) (i : Nat) : View :=
  if i < view.tokens.length then
    if view.isKey key i then { view with index := (i : Int) + 1 }
    else view.memberLoop key (i + 1)
  else {}
termination_by view.tokens.length - i

def View.member (view : View) (key : Bytes) : View :=
  if view.isObject then view.memberLoop key (view.index.toNat + 1) else {}

/-- The `for` loop of `operator[](size_t)`, from token `j` on, when `seen`
elements have been passed. -/
def View.elementLoop (view : View) (i seen j : Nat) : View :=
  if j < view.tokens.length then
    if (tokenAt view.tokens j).parent = view.index then
      if seen = i then { view with index := j } else view.elementLoop i (seen + 1) (j + 1)
    else view.elementLoop i seen (j + 1)
  else {}
termination_by view.tokens.length - j

def View.element (view : View) (i : Nat) : View :=
  if view.isArray then view.elementLoop i 0 (view.index.toNat + 1) else {}

def inInt64 (v : Int) : Bool := -2 ^ 63 ≤ v && v < 2 ^ 63

def isDigit (c : UInt8) : Bool := Ascii.zero ≤ c && c ≤ Ascii.nine

/-- The digit loop of `AsInt`. Signed overflow, of the product or of the sum, is
undefined and is `none` here. -/
def asIntLoop : Bytes → Int → Option (Result Int)
  | [], v => some (.ok v)
  | c :: rest, v =>
      if isDigit c then
        if inInt64 (v * 10) then
          if inInt64 (v * 10 + (c - Ascii.zero).toNat) then
            asIntLoop rest (v * 10 + (c - Ascii.zero).toNat)
          else none
        else none
      else some (fail category Code.wrongType.value "not an integer")

/-- `Json::AsInt`; `none` is a run with undefined behaviour. -/
def View.asInt (view : View) : Option (Result Int) :=
  if view.type ≠ .primitive then some (fail category Code.wrongType.value "not a primitive")
  else
    match view.raw with
    | [] => some (fail category Code.invalid.value "empty number")
    | c :: rest =>
        let neg := c = Ascii.minus
        let digits := if neg then rest else c :: rest
        if digits = [] then some (fail category Code.invalid.value "bad number")
        else
          match asIntLoop digits 0 with
          | none => none
          | some (.error e) => some (.error e)
          | some (.ok v) =>
              if neg then if inInt64 (-v) then some (.ok (-v)) else none else some (.ok v)

def parseToView (js : Bytes) (tokens : List Token) : Result View :=
  match parse js tokens with
  | .error e => .error e
  | .ok (n, filled) =>
      if n = 0 then fail category Code.invalid.value "empty document"
      else .ok { src := js, tokens := filled.take n, index := 0 }

/-! ### Reading one token -/

theorem tokenAt_ahead {tokens rest : List Token} {token : Token} {i : Nat}
    (ahead : tokens.drop i = token :: rest) : tokenAt tokens i = token := by
  unfold tokenAt
  rw [Int.toNat_natCast, List.getD_eq_getElem?_getD, (Cursor.ahead_cons ahead).1]
  rfl

theorem View.raw_eq {view : View} {start : Nat} {slice rest : Bytes} (valid : view.valid = true)
    (starts : view.token.start = start) (ends : view.token.end_ = (start + slice.length : Nat))
    (ahead : view.src.drop start = slice ++ rest) : view.raw = slice := by
  unfold View.raw
  rw [if_pos valid, if_neg (by omega)]
  have count : (view.token.end_ - view.token.start).toNat = slice.length := by omega
  rw [count, starts, Int.toNat_natCast, substr, ahead, List.take_left]

/-! ### The lookup loops as scans of the tokens ahead -/

theorem View.memberLoop_skip (view : View) (key : Bytes) (segment : List Token) (i : Nat)
    (rest : List Token) (ahead : view.tokens.drop i = segment ++ rest)
    (foreign : ∀ token ∈ segment, token.parent ≠ view.index) :
    view.memberLoop key i = view.memberLoop key (i + segment.length) := by
  induction segment generalizing i with
  | nil => rfl
  | cons token segment ih =>
      have here := Cursor.ahead_cons ahead
      have inside := (List.getElem?_eq_some_iff.mp here.1).1
      have notKey : view.isKey key i = false := by
        simp [View.isKey, tokenAt_ahead ahead, foreign token List.mem_cons_self]
      rw [View.memberLoop, if_pos inside, notKey, if_neg (by decide),
        ih (i + 1) here.2 (fun other member => foreign other (List.mem_cons_of_mem _ member)),
        List.length_cons, Nat.add_comm segment.length 1, ← Nat.add_assoc]

theorem View.elementLoop_skip (view : View) (target seen : Nat) (segment : List Token) (j : Nat)
    (rest : List Token) (ahead : view.tokens.drop j = segment ++ rest)
    (foreign : ∀ token ∈ segment, token.parent ≠ view.index) :
    view.elementLoop target seen j = view.elementLoop target seen (j + segment.length) := by
  induction segment generalizing j with
  | nil => rfl
  | cons token segment ih =>
      have here := Cursor.ahead_cons ahead
      have inside := (List.getElem?_eq_some_iff.mp here.1).1
      rw [View.elementLoop, if_pos inside, tokenAt_ahead ahead,
        if_neg (foreign token List.mem_cons_self),
        ih (j + 1) here.2 (fun other member => foreign other (List.mem_cons_of_mem _ member)),
        List.length_cons, Nat.add_comm segment.length 1, ← Nat.add_assoc]

theorem View.memberLoop_foreign (view : View) (key : Bytes) (i : Nat)
    (foreign : ∀ token ∈ view.tokens.drop i, token.parent ≠ view.index) :
    view.memberLoop key i = {} := by
  rw [view.memberLoop_skip key _ i [] (List.append_nil _).symm foreign, View.memberLoop,
    if_neg (by rw [List.length_drop]; omega)]

theorem View.elementLoop_foreign (view : View) (target seen j : Nat)
    (foreign : ∀ token ∈ view.tokens.drop j, token.parent ≠ view.index) :
    view.elementLoop target seen j = {} := by
  rw [view.elementLoop_skip target seen _ j [] (List.append_nil _).symm foreign,
    View.elementLoop, if_neg (by rw [List.length_drop]; omega)]

theorem View.elementLoop_hit (view : View) {target seen j : Nat} {token : Token}
    {rest : List Token} (ahead : view.tokens.drop j = token :: rest)
    (child : token.parent = view.index) :
    view.elementLoop target seen j =
      if seen = target then { view with index := j }
      else view.elementLoop target (seen + 1) (j + 1) := by
  have inside := (List.getElem?_eq_some_iff.mp (Cursor.ahead_cons ahead).1).1
  rw [View.elementLoop, if_pos inside, tokenAt_ahead ahead, if_pos child]

end Etlx.Json
