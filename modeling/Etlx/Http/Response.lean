/-
Parsing an HTTP/1.1 response out of the receive buffer.

Views into the buffer are modelled by the bytes they show. The positions are the
source's: `boundary` is the first CRLFCRLF, each header line is searched for from
`pos` on, and the digits of the length are accumulated in a `size_t`.
-/

import Etlx.Core.Result
import Etlx.Lib.Search

namespace Etlx.Http

open Ascii

def category : Category := { name := "http" }

inductive Code
  | none
  | bufferTooSmall
  | malformed
  | incomplete
  | tooManyHeaders
deriving DecidableEq, Repr

def Code.value : Code → Int
  | .none => 0
  | .bufferTooSmall => 1
  | .malformed => 2
  | .incomplete => 3
  | .tooManyHeaders => 4

structure Header where
  name : Bytes
  value : Bytes
deriving DecidableEq, Repr

def maxHeaders : Nat := 16

structure Response where
  status : Nat
  reason : Bytes
  headers : List Header
  body : Bytes
  contentLength : Option Nat
deriving DecidableEq, Repr

def crlf : Bytes := [carriageReturn, lineFeed]

def Header.line (h : Header) : Bytes := h.name ++ colon :: space :: h.value

def contentLengthName : Bytes :=
  [0x43, 0x6f, 0x6e, 0x74, 0x65, 0x6e, 0x74, 0x2d, 0x4c, 0x65, 0x6e, 0x67, 0x74, 0x68]

def lower (c : UInt8) : UInt8 := if 0x41 ≤ c ∧ c ≤ 0x5a then c - 0x41 + 0x61 else c

def iEqual (a b : Bytes) : Bool :=
  if a.length ≠ b.length then false
  else (a.zip b).all (fun pair => lower pair.1 == lower pair.2)

def isSpaceTab (c : UInt8) : Bool := c == space || c == tab

/-- `Trim`: spaces and tabs at the front, those and CR at the back. -/
def trim (s : Bytes) : Bytes :=
  ((s.dropWhile isSpaceTab).reverse.dropWhile
    (fun c => isSpaceTab c || c == carriageReturn)).reverse

def getHeader (headers : List Header) (name : Bytes) : Bytes :=
  match headers with
  | [] => []
  | h :: rest => if iEqual h.name name then h.value else getHeader rest name

def isDigit (c : UInt8) : Bool := zero ≤ c && c ≤ nine

def digitByte (n : Nat) : UInt8 := UInt8.ofNat (48 + n % 10)

theorem digitByte_toNat (n : Nat) : (digitByte n).toNat = 48 + n % 10 := by
  unfold digitByte
  rw [UInt8.toNat_ofNat', Nat.mod_eq_of_lt]
  omega

theorem digitByte_isDigit (n : Nat) : isDigit (digitByte n) = true := by
  have value := digitByte_toNat n
  simp only [isDigit, Bool.and_eq_true, decide_eq_true_eq, UInt8.le_iff_toNat_le]
  rw [value]
  change 48 ≤ 48 + n % 10 ∧ 48 + n % 10 ≤ 57
  omega

theorem digit_plain {c : UInt8} (digit : isDigit c = true) :
    c ≠ space ∧ c ≠ carriageReturn ∧ c ≠ lineFeed := by
  refine ⟨?_, ?_, ?_⟩
  · rintro rfl
    revert digit
    decide
  · rintro rfl
    revert digit
    decide
  · rintro rfl
    revert digit
    decide

def statusLoop : Bytes → Nat → Result Nat
  | [], status => .ok status
  | c :: rest, status =>
      if isDigit c then statusLoop rest (status * 10 + (c - zero).toNat)
      else fail category Code.malformed.value "non-digit status"

def lineEnd (text : Bytes) (boundary pos : Nat) : Nat :=
  match Search.find text crlf pos with
  | none => boundary
  | some eol => if boundary < eol then boundary else eol

theorem lineEnd_ge {text : Bytes} {boundary pos : Nat} (before : pos < boundary) :
    pos ≤ lineEnd text boundary pos := by
  unfold lineEnd
  split
  · omega
  · next eol hit =>
      have later := Search.find_ge hit
      split
      · omega
      · exact later

/-- `while (pos < boundary)`: junk lines without a colon are passed over. -/
def headerLoop (text : Bytes) (boundary pos : Nat) (headers : List Header) :
    Result (List Header) :=
  if _before : pos < boundary then
    let eol := lineEnd text boundary pos
    let hline := (text.drop pos).take (eol - pos)
    if hline = [] then .ok headers
    else
      match Search.find hline [colon] 0 with
      | none => headerLoop text boundary (eol + 2) headers
      | some c =>
          if maxHeaders ≤ headers.length then
            fail category Code.tooManyHeaders.value "too many headers"
          else
            headerLoop text boundary (eol + 2)
              (headers ++ [{ name := trim (hline.take c), value := trim (hline.drop (c + 1)) }])
  else .ok headers
termination_by boundary - pos
decreasing_by
  all_goals
    have forward : pos ≤ lineEnd text boundary pos := lineEnd_ge _before
    omega

/-- The digit loop over the length, in a 64-bit `size_t`; `none` at the first
character that is not a digit. -/
def lengthLoop : Bytes → Nat → Option Nat
  | [], len => some len
  | c :: rest, len =>
      if isDigit c then lengthLoop rest ((len * 10 + (c - zero).toNat) % 2 ^ 64) else none

def parseStatusLine (line : Bytes) : Result (Nat × Bytes) :=
  match Search.find line [space] 0 with
  | none => fail category Code.malformed.value "no status code"
  | some sp1 =>
      let rest := line.drop (sp1 + 1)
      let sp2 := Search.find rest [space] 0
      let code := match sp2 with
        | none => rest
        | some sp2 => rest.take sp2
      if code.length < 3 then fail category Code.malformed.value "bad status code"
      else
        match statusLoop (code.take 3) 0 with
        | .error e => .error e
        | .ok status =>
            .ok (status, match sp2 with
              | none => []
              | some sp2 => trim (rest.drop (sp2 + 1)))

/-- The body, cut to the announced length when that is shorter. -/
def frameBody (cl payload : Bytes) : Bytes × Option Nat :=
  if cl = [] then (payload, none)
  else
    match lengthLoop cl 0 with
    | none => (payload, none)
    | some len => (if len < payload.length then payload.take len else payload, some len)

def parseResponse (raw : Bytes) : Result Response :=
  match Search.find raw (crlf ++ crlf) 0 with
  | none => fail category Code.incomplete.value "headers not terminated"
  | some boundary =>
      let lineStop := (Search.find raw crlf 0).getD raw.length
      match parseStatusLine (raw.take lineStop) with
      | .error e => .error e
      | .ok (status, reason) =>
          match headerLoop raw boundary (lineStop + 2) [] with
          | .error e => .error e
          | .ok headers =>
              let framed :=
                frameBody (getHeader headers contentLengthName) (raw.drop (boundary + 4))
              .ok
                { status := status
                  reason := reason
                  headers := headers
                  body := framed.1
                  contentLength := framed.2 }

end Etlx.Http
