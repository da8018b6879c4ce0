/-
Building an HTTP/1.1 request in a buffer.

Every part goes through a bounded cursor that stops at the first part that does
not fit. What `BuildRequest` writes is the wire form of the request, which is a
list of lines, an empty line and the body.
-/

import Etlx.Http.Response

namespace Etlx.Http

open Ascii

inductive Method
  | get
  | post
  | put
  | delete
  | head
deriving DecidableEq, Repr

def Method.name : Method → Bytes
  | .get => [0x47, 0x45, 0x54]
  | .post => [0x50, 0x4f, 0x53, 0x54]
  | .put => [0x50, 0x55, 0x54]
  | .delete => [0x44, 0x45, 0x4c, 0x45, 0x54, 0x45]
  | .head => [0x48, 0x45, 0x41, 0x44]

structure Request where
  method : Method
  host : Bytes
  path : Bytes
  headers : List Header
  body : Bytes
  few : headers.length ≤ maxHeaders

/-- " HTTP/1.1" -/
def versionText : Bytes := [0x20, 0x48, 0x54, 0x54, 0x50, 0x2f, 0x31, 0x2e, 0x31]

/-- "Host: " -/
def hostText : Bytes := [0x48, 0x6f, 0x73, 0x74, 0x3a, 0x20]

/-- "Connection: close" -/
def connectionText : Bytes :=
  [0x43, 0x6f, 0x6e, 0x6e, 0x65, 0x63, 0x74, 0x69, 0x6f, 0x6e, 0x3a, 0x20, 0x63, 0x6c, 0x6f,
    0x73, 0x65]

/-- "Content-Length: " -/
def lengthText : Bytes := contentLengthName ++ [colon, space]

/-! ### The cursor -/

structure Appender where
  buf : Bytes
  pos : Nat
  overflow : Bool
  inside : pos ≤ buf.length

theorem start_inside (buf : Bytes) : 0 ≤ buf.length := Nat.zero_le _

def Appender.start (buf : Bytes) : Appender :=
  { buf := buf, pos := 0, overflow := false, inside := start_inside buf }

def Appender.put (a : Appender) (s : Bytes) : Appender :=
  if a.overflow then a
  else if fits : s.length ≤ a.buf.length - a.pos then
    { buf := a.buf.take a.pos ++ s ++ a.buf.drop (a.pos + s.length)
      pos := a.pos + s.length
      overflow := false
      inside := by
        have inside := a.inside
        simp only [List.length_append, List.length_take, List.length_drop]
        omega }
  else { a with overflow := true }

def reversedDigits (v : Nat) : Bytes :=
  if v = 0 then [] else digitByte v :: reversedDigits (v / 10)

def uintText (v : Nat) : Bytes := if v = 0 then [zero] else (reversedDigits v).reverse

def Appender.putUInt (a : Appender) (v : Nat) : Appender := a.put (uintText v)

def Appender.putHeaders (a : Appender) : List Header → Appender
  | [] => a
  | h :: headers => ((((a.put h.name).put [colon, space]).put h.value).put crlf).putHeaders headers

def Request.append (req : Request) (a : Appender) : Appender :=
  let a := (((a.put req.method.name).put [space]).put req.path).put (versionText ++ crlf)
  let a := ((a.put hostText).put req.host).put crlf
  let a := a.put (connectionText ++ crlf)
  let a := a.putHeaders req.headers
  let a := if req.body ≠ [] then ((a.put lengthText).putUInt req.body.length).put crlf else a
  let a := a.put crlf
  if req.body ≠ [] then a.put req.body else a

/-- `BuildRequest`: the count, and what is left in the buffer. -/
def buildRequest (req : Request) (out : Bytes) : Result Nat × Bytes :=
  let a := req.append (.start out)
  if a.overflow then (fail category Code.bufferTooSmall.value "request buffer too small", a.buf)
  else (.ok a.pos, a.buf)

/-! ### The wire form -/

def Request.requestLine (req : Request) : Bytes :=
  req.method.name ++ space :: (req.path ++ versionText)

def Request.lengthLines (req : Request) : List Bytes :=
  if req.body ≠ [] then [lengthText ++ uintText req.body.length] else []

def Request.lines (req : Request) : List Bytes :=
  req.requestLine :: (hostText ++ req.host) :: connectionText ::
    (req.headers.map Header.line ++ req.lengthLines)

def Request.wire (req : Request) : Bytes :=
  (req.lines.map (· ++ crlf)).flatten ++ (crlf ++ req.body)

/-! ### What the cursor holds -/

/-- The bytes put so far, as long as they have fitted. -/
structure Appender.Holds (a : Appender) (out text : Bytes) : Prop where
  size : a.buf.length = out.length
  fits : a.overflow = false ↔ text.length ≤ out.length
  text : a.overflow = false → a.pos = text.length ∧ a.buf = text ++ out.drop text.length

theorem Appender.start_holds (out : Bytes) : (Appender.start out).Holds out [] where
  size := rfl
  fits := ⟨fun _ => Nat.zero_le _, fun _ => rfl⟩
  text := fun _ => ⟨rfl, rfl⟩

theorem Appender.Holds.put {a : Appender} {out text : Bytes} (holds : a.Holds out text)
    (s : Bytes) : (a.put s).Holds out (text ++ s) := by
  unfold Appender.put
  by_cases overran : a.overflow = true
  · rw [if_pos overran]
    have long : ¬text.length ≤ out.length := fun fits => by
      rw [holds.fits.mpr fits] at overran
      cases overran
    refine ⟨holds.size, ⟨fun live => ?_, fun fits => ?_⟩, fun live => ?_⟩
    · rw [live] at overran
      cases overran
    · rw [List.length_append] at fits
      omega
    · rw [live] at overran
      cases overran
  · have live := Bool.eq_false_iff.mpr overran
    obtain ⟨pos, buf⟩ := holds.text live
    have inside := a.inside
    have size := holds.size
    rw [if_neg overran]
    split
    · next fits =>
        have front : a.buf.take a.pos = text := by
          rw [buf, pos, List.take_left]
        have behind : a.buf.drop (a.pos + s.length) = out.drop (text ++ s).length := by
          rw [buf, pos, ← List.drop_drop, List.drop_left, List.drop_drop, List.length_append]
        refine ⟨?_, ⟨fun _ => ?_, fun _ => rfl⟩, fun _ => ⟨?_, ?_⟩⟩
        · change (a.buf.take a.pos ++ s ++ a.buf.drop (a.pos + s.length)).length = _
          simp only [List.length_append, List.length_take, List.length_drop]
          omega
        · rw [List.length_append]
          omega
        · change a.pos + s.length = _
          rw [List.length_append, pos]
        · change a.buf.take a.pos ++ s ++ a.buf.drop (a.pos + s.length) = _
          rw [front, behind]
    · next noRoom =>
        refine ⟨size, ⟨fun impossible => ?_, fun fits => ?_⟩, fun impossible => ?_⟩
        · cases impossible
        · rw [List.length_append] at fits
          omega
        · cases impossible

theorem Appender.Holds.putHeaders {a : Appender} {out text : Bytes} (holds : a.Holds out text)
    (headers : List Header) :
    (a.putHeaders headers).Holds out
      (text ++ ((headers.map Header.line).map (· ++ crlf)).flatten) := by
  induction headers generalizing a text with
  | nil =>
      rw [List.map_nil, List.map_nil, List.flatten_nil, List.append_nil]
      exact holds
  | cons h headers ih =>
      have next := ih ((((holds.put h.name).put [colon, space]).put h.value).put crlf)
      simp only [List.map_cons, List.flatten_cons, Header.line, List.append_assoc,
        List.cons_append, List.nil_append] at next ⊢
      exact next

theorem Request.append_holds (req : Request) (out : Bytes) :
    (req.append (.start out)).Holds out req.wire := by
  have lines := ((((Appender.start_holds out).put req.method.name).put [space]).put req.path).put
    (versionText ++ crlf)
  have hosted := ((lines.put hostText).put req.host).put crlf
  have connected := (hosted.put (connectionText ++ crlf)).putHeaders req.headers
  unfold Request.append Request.wire Request.lines Request.lengthLines Request.requestLine
  by_cases empty : req.body = []
  · rw [if_neg (by simpa using empty), if_neg (by simpa using empty), if_neg (by simpa using empty)]
    have done := connected.put crlf
    simp only [List.map_cons, List.flatten_cons, List.append_assoc, List.cons_append,
      List.nil_append, List.append_nil, empty] at done ⊢
    exact done
  · rw [if_pos empty, if_pos empty, if_pos empty]
    have done := ((((connected.put lengthText).put (uintText req.body.length)).put crlf).put
      crlf).put req.body
    simp only [List.map_cons, List.map_append, List.map_nil, List.flatten_append,
      List.flatten_cons, List.flatten_nil, List.append_assoc, List.cons_append, List.nil_append,
      List.append_nil] at done ⊢
    exact done

/-- `BuildRequest` accepts what fits and then emits the wire form. -/
theorem buildRequest_eq (req : Request) (out : Bytes) :
    (req.wire.length ≤ out.length ∧
      buildRequest req out = (.ok req.wire.length, req.wire ++ out.drop req.wire.length)) ∨
    (out.length < req.wire.length ∧
      (buildRequest req out).1 = fail category Code.bufferTooSmall.value "request buffer too small")
    := by
  have holds := req.append_holds out
  unfold buildRequest
  dsimp only
  by_cases overran : (req.append (.start out)).overflow = true
  · right
    rw [if_pos overran]
    refine ⟨?_, rfl⟩
    apply Nat.lt_of_not_le
    intro fits
    rw [holds.fits.mpr fits] at overran
    cases overran
  · left
    have live := Bool.eq_false_iff.mpr overran
    obtain ⟨pos, buf⟩ := holds.text live
    rw [if_neg overran, pos, buf]
    exact ⟨holds.fits.mp live, rfl⟩

end Etlx.Http
