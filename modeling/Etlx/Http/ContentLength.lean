/-
The announced length of a response.

The digits of the first Content-Length are accumulated in a `size_t`, so the length
is the number they denote as long as that fits in 64 bits; beyond, its remainder is
taken for the length and the body is cut to that.
-/

import Etlx.Http.HeaderLines

namespace Etlx.Http

open Ascii

/-- The message is a head up to `boundary`, with a first line up to `lineStop`, whose
first Content-Length has a value of digits that denote `n`. -/
structure Announces (raw : Bytes) (lineStop boundary n : Nat) : Prop where
  found : Search.search (crlf ++ crlf) raw = some boundary
  first : Search.search crlf raw = some lineStop
  digits : ∃ h, firstHeader (headersIn raw lineStop boundary) contentLengthName = some h ∧
    IsDecimal h.value n

/-- A length that is reported is `n`, and the body is what follows the blank line, up to
`n` bytes of it. -/
def LengthExact (resp : Response) (payload : Bytes) (n : Nat) : Prop :=
  (∀ len, resp.contentLength = some len → len = n) ∧ resp.body = payload.take n

theorem frameBody_decimal {cl : Bytes} {n : Nat} (decimal : IsDecimal cl n) (payload : Bytes) :
    frameBody cl payload = (payload.take (n % 2 ^ 64), some (n % 2 ^ 64)) := by
  have parsed := lengthLoop_decimal cl 0 decimal.digits
  rw [decimal.denotes, Nat.zero_mod] at parsed
  apply frameBody_some
  rw [frameBody, if_neg decimal.nonempty, parsed]

theorem Announces.response {raw : Bytes} {lineStop boundary n : Nat}
    (announces : Announces raw lineStop boundary n) {resp : Response}
    (accepted : parseResponse raw = .ok resp) :
    resp.contentLength = some (n % 2 ^ 64) ∧
      resp.body = (raw.drop (boundary + 4)).take (n % 2 ^ 64) := by
  obtain ⟨h, header, decimal⟩ := announces.digits
  rw [parseResponse_fields announces.found announces.first] at accepted
  cases status : parseStatusLine (raw.take lineStop) with
  | error e =>
      rw [status] at accepted
      cases accepted
  | ok parsed =>
      rw [status] at accepted
      change (if _ then _ else _) = _ at accepted
      split at accepted
      · have value : getHeader (headersIn raw lineStop boundary) contentLengthName = h.value := by
          rw [getHeader_eq, header]
          rfl
        have cut := frameBody_decimal decimal (raw.drop (boundary + 4))
        rw [← value] at cut
        rw [← Except.ok.inj accepted]
        exact ⟨congrArg Prod.snd cut, congrArg Prod.fst cut⟩
      · cases accepted

/-- The length is exact exactly for numbers of 64 bits. -/
theorem contentLength_exact_iff {raw : Bytes} {lineStop boundary n : Nat} {resp : Response}
    (announces : Announces raw lineStop boundary n) (accepted : parseResponse raw = .ok resp) :
    LengthExact resp (raw.drop (boundary + 4)) n ↔ n < 2 ^ 64 := by
  obtain ⟨length, body⟩ := announces.response accepted
  constructor
  · intro exact
    have same := exact.1 (n % 2 ^ 64) length
    rw [← same]
    exact Nat.mod_lt n (Nat.two_pow_pos 64)
  · intro small
    rw [Nat.mod_eq_of_lt small] at length body
    refine ⟨?_, body⟩
    intro len reported
    rw [length] at reported
    exact (Option.some.inj reported).symm

def lengthMessage (digits : String) : Bytes :=
  ascii "HTTP/1.1 200 OK\r\nContent-Length: " ++ ascii digits ++ ascii "\r\n\r\nab"

def lengthResponse (digits : String) (len : Nat) : Response :=
  { status := 200
    reason := ascii "OK"
    headers := [{ name := ascii "Content-Length", value := ascii digits }]
    body := (ascii "ab").take len
    contentLength := some len }

theorem contentLength_exact_one :
    LengthExact (lengthResponse "1" 1) ((lengthMessage "1").drop (34 + 4)) 1 := by
  have announces : Announces (lengthMessage "1") 15 34 1 :=
    { found := by decide +kernel
      first := by decide +kernel
      digits := ⟨{ name := ascii "Content-Length", value := ascii "1" }, by decide +kernel,
        ⟨by decide, by decide +kernel, by decide⟩⟩ }
  have accepted : parseResponse (lengthMessage "1") = .ok (lengthResponse "1" 1) := by
    decide +kernel
  exact (contentLength_exact_iff announces accepted).mpr (by decide)

/-- The digits of 2^64 + 1 are taken for the length one. -/
theorem contentLength_wraps :
    Announces (lengthMessage "18446744073709551617") 15 53 (2 ^ 64 + 1) ∧
      parseResponse (lengthMessage "18446744073709551617") =
        .ok (lengthResponse "18446744073709551617" 1) ∧
      ¬LengthExact (lengthResponse "18446744073709551617" 1)
        ((lengthMessage "18446744073709551617").drop (53 + 4)) (2 ^ 64 + 1) := by
  refine ⟨?_, by decide +kernel, ?_⟩
  · exact
      { found := by decide +kernel
        first := by decide +kernel
        digits := ⟨{ name := ascii "Content-Length", value := ascii "18446744073709551617" },
          by decide +kernel, ⟨by decide, by decide +kernel, by decide +kernel⟩⟩ }
  · intro exact
    exact absurd (exact.1 1 rfl) (by decide)

end Etlx.Http
