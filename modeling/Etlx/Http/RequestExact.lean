/-
What `BuildRequest` writes, byte for byte.

The message of a request is written out here as the protocol has it, with the
length of the body in decimal. `BuildRequest` gives exactly these bytes where they
fit in the buffer; otherwise it leaves a front of them there and fails. `PutUInt`
goes through two arrays of twenty characters, which every 64-bit number fits in.
-/

import Etlx.Http.Request
import Etlx.Http.ResponseRoundTrip

namespace Etlx.Http

open Ascii

/-! ### The message -/

def decimal (n : Nat) : Bytes := ascii (toString n)

def Method.text : Method → Bytes
  | .get => ascii "GET"
  | .post => ascii "POST"
  | .put => ascii "PUT"
  | .delete => ascii "DELETE"
  | .head => ascii "HEAD"

def Request.message (req : Request) : Bytes :=
  req.method.text ++ ascii " " ++ req.path ++ ascii " HTTP/1.1\r\n" ++
    ascii "Host: " ++ req.host ++ ascii "\r\n" ++
    ascii "Connection: close\r\n" ++
    req.headers.flatMap (fun h => h.name ++ ascii ": " ++ h.value ++ ascii "\r\n") ++
    (if req.body = [] then []
      else ascii "Content-Length: " ++ decimal req.body.length ++ ascii "\r\n") ++
    ascii "\r\n" ++ req.body

/-! ### The digits -/

theorem decimal_eq (n : Nat) :
    decimal n = if n < 10 then [digitByte n] else decimal (n / 10) ++ [digitByte n] := by
  have digit (d : Nat) (small : d < 10) : UInt8.ofNat (Nat.digitChar d).toNat = digitByte d := by
    rw [Nat.toNat_digitChar_of_lt_ten small, digitByte, Nat.mod_eq_of_lt small]
  unfold decimal ascii
  rw [Nat.toString_eq_repr, Nat.toString_eq_repr, Nat.toList_repr, Nat.toList_repr,
    Nat.toDigits_eq_if (by decide)]
  split
  · next small => rw [List.map_cons, List.map_nil, digit n small]
  · next large =>
      rw [List.map_append, List.map_cons, List.map_nil, digit (n % 10) (Nat.mod_lt n (by decide)),
        digitByte, Nat.mod_mod]
      rfl

/-- The digits denote the number and do not begin with a zero that could be left out. -/
theorem decimal_denotes (n : Nat) :
    IsDecimal (decimal n) n ∧ (n ≠ 0 → ∀ c ∈ (decimal n).head?, c ≠ zero) := by
  rw [decimal_eq]
  by_cases small : n < 10
  · rw [if_pos small]
    refine ⟨⟨List.cons_ne_nil _ _, ?_, ?_⟩, ?_⟩
    · intro c member
      rw [List.mem_singleton.mp member]
      exact digitByte_isDigit n
    · rw [List.foldl_cons, List.foldl_nil, digitByte_value, Nat.mod_eq_of_lt small, Nat.zero_mul,
        Nat.zero_add]
    · intro positive c first isZero
      have value := digitByte_toNat n
      rw [Option.mem_some_iff.mp first, isZero, Nat.mod_eq_of_lt small] at value
      change 48 = 48 + n at value
      omega
  · rw [if_neg small]
    obtain ⟨denotes, front⟩ := decimal_denotes (n / 10)
    refine ⟨⟨List.append_ne_nil_of_left_ne_nil denotes.nonempty _, ?_, ?_⟩, ?_⟩
    · intro c member
      rcases List.mem_append.mp member with inFront | last
      · exact denotes.digits c inFront
      · rw [List.mem_singleton.mp last]
        exact digitByte_isDigit n
    · rw [List.foldl_append, denotes.denotes, List.foldl_cons, List.foldl_nil, digitByte_value]
      omega
    · intro _ c first
      rw [List.head?_append_of_ne_nil _ denotes.nonempty] at first
      exact front (by omega) c first

theorem decimal_length_le {n : Nat} (small : n < 2 ^ 64) : (decimal n).length ≤ 20 := by
  unfold decimal ascii
  rw [List.length_map, Nat.toString_eq_repr, Nat.toList_repr,
    Nat.length_toDigits_le_iff (by decide) (by decide)]
  omega

theorem reversedDigits_eq {v : Nat} (positive : v ≠ 0) :
    (reversedDigits v).reverse = decimal v := by
  fun_induction reversedDigits v with
  | case1 => exact absurd rfl positive
  | case2 v positive ih =>
      rw [decimal_eq, List.reverse_cons]
      by_cases small : v < 10
      · have last : v / 10 = 0 := Nat.div_eq_of_lt small
        rw [if_pos small, last, reversedDigits, if_pos rfl]
        rfl
      · rw [if_neg small, ih (by omega)]

theorem uintText_decimal (v : Nat) : uintText v = decimal v := by
  unfold uintText
  split
  · next none =>
      rw [none]
      rfl
  · next positive => exact reversedDigits_eq positive

/-! ### The arrays of PutUInt -/

/-- `while (v > 0)`: the digits go to `tmp`, the last one first. A store outside of the
array is `none`. -/
def tmpLoop (tmp : Bytes) (i v : Nat) : Option (Bytes × Nat) :=
  if v = 0 then some (tmp, i)
  else if i < tmp.length then tmpLoop (tmp.set i (digitByte v)) (i + 1) (v / 10)
  else none

/-- `rev[j] = tmp[i - 1 - j]` for the `j` up to `i`. -/
def revLoop (tmp : Bytes) (i : Nat) (rev : Bytes) (j : Nat) : Option Bytes :=
  if j < i then
    match tmp[i - 1 - j]? with
    | none => none
    | some c => if j < rev.length then revLoop tmp i (rev.set j c) (j + 1) else none
  else some rev
termination_by i - j

/-- The text that `PutUInt` puts, out of two arrays that hold anything before. -/
def putUIntText (tmp rev : Bytes) (v : Nat) : Option Bytes := do
  let filled ←
    if v = 0 then if 0 < tmp.length then some (tmp.set 0 zero, 1) else none
    else tmpLoop tmp 0 v
  let reversed ← revLoop filled.1 filled.2 rev 0
  return reversed.take filled.2

theorem take_set_succ (array : Bytes) {i : Nat} (inside : i < array.length) (c : UInt8) :
    (array.set i c).take (i + 1) = array.take i ++ [c] := by
  rw [List.take_succ_eq_append_getElem (by rw [List.length_set]; exact inside),
    List.getElem_set_self, List.take_set_of_le (Nat.le_refl i)]

theorem tmpLoop_eq (tmp : Bytes) (i v : Nat)
    (room : i + (reversedDigits v).length ≤ tmp.length) :
    ∃ filled, tmpLoop tmp i v = some (filled, i + (reversedDigits v).length) ∧
      filled.length = tmp.length ∧
      filled.take (i + (reversedDigits v).length) = tmp.take i ++ reversedDigits v := by
  fun_induction tmpLoop tmp i v with
  | case1 tmp i =>
      have none : reversedDigits 0 = [] := by rw [reversedDigits, if_pos rfl]
      rw [none, List.append_nil]
      exact ⟨tmp, rfl, rfl, rfl⟩
  | case2 tmp i v positive inside ih =>
      have digits : reversedDigits v = digitByte v :: reversedDigits (v / 10) := by
        rw [reversedDigits, if_neg positive]
      rw [digits, List.length_cons] at room ⊢
      obtain ⟨filled, ran, size, held⟩ := ih (by rw [List.length_set]; omega)
      have place : i + ((reversedDigits (v / 10)).length + 1) =
          i + 1 + (reversedDigits (v / 10)).length := by omega
      rw [place]
      refine ⟨filled, ran, size.trans List.length_set, ?_⟩
      rw [held, take_set_succ tmp inside, List.append_assoc]
      rfl
  | case3 tmp i v positive full =>
      rw [reversedDigits, if_neg positive, List.length_cons] at room
      omega

theorem revLoop_eq (tmp : Bytes) (i : Nat) (rev : Bytes) (j : Nat) (source : i ≤ tmp.length)
    (room : i ≤ rev.length) (bound : j ≤ i)
    (copied : rev.take j = (tmp.take i).reverse.take j) :
    ∃ reversed, revLoop tmp i rev j = some reversed ∧
      reversed.take i = (tmp.take i).reverse := by
  fun_induction revLoop tmp i rev j with
  | case1 rev j before outside =>
      rw [List.getElem?_eq_none_iff] at outside
      omega
  | case2 rev j before c read inside ih =>
      apply ih (by rw [List.length_set]; exact room) before
      have long : j < (tmp.take i).reverse.length := by
        rw [List.length_reverse, List.length_take]
        omega
      have next : (tmp.take i).reverse[j] = c := by
        rw [List.getElem_reverse, List.getElem_take]
        apply Option.some.inj
        rw [← read, ← List.getElem?_eq_getElem]
        congr 1
        rw [List.length_take]
        omega
      rw [take_set_succ rev inside, copied, List.take_succ_eq_append_getElem long, next]
  | case3 rev j before c read full => omega
  | case4 rev j past =>
      have all : j = i := by omega
      subst all
      refine ⟨rev, rfl, copied.trans ?_⟩
      rw [List.take_of_length_le]
      rw [List.length_reverse]
      exact List.length_take_le j tmp

theorem putUIntText_eq {tmp rev : Bytes} (tmpSize : tmp.length = 20) (revSize : rev.length = 20)
    {v : Nat} (small : v < 2 ^ 64) : putUIntText tmp rev v = some (decimal v) := by
  have short := decimal_length_le small
  have reversal {filled : Bytes} {i : Nat} (size : filled.length = tmp.length) (bound : i ≤ 20)
      (held : (filled.take i).reverse = decimal v) :
      (revLoop filled i rev 0).bind (fun reversed => some (reversed.take i)) =
        some (decimal v) := by
    obtain ⟨reversed, ran, backwards⟩ := revLoop_eq filled i rev 0 (by omega) (by omega)
      (Nat.zero_le i) rfl
    rw [ran, Option.bind_some, backwards, held]
  unfold putUIntText
  by_cases none : v = 0
  · rw [if_pos none, if_pos (by omega)]
    apply reversal List.length_set (show 1 ≤ 20 by decide)
    rw [take_set_succ tmp (by omega), none]
    rfl
  · have digits := reversedDigits_eq none
    have length : (reversedDigits v).length = (decimal v).length := by
      rw [← digits, List.length_reverse]
    obtain ⟨filled, ran, size, held⟩ := tmpLoop_eq tmp 0 v (by omega)
    rw [Nat.zero_add] at ran held
    rw [if_neg none, ran]
    apply reversal size (by omega)
    rw [held, ← digits]
    rfl

/-! ### The buffer -/

/-- The buffer begins with a front of the message and is as before behind it. -/
structure Appender.Front (a : Appender) (out message : Bytes) : Prop where
  holds : a.Holds out message
  within : a.pos ≤ message.length
  front : a.buf = message.take a.pos ++ out.drop a.pos

theorem Appender.start_front (out : Bytes) : (Appender.start out).Front out [] where
  holds := Appender.start_holds out
  within := Nat.le_refl 0
  front := rfl

theorem Appender.put_skipped {a : Appender} {s : Bytes} (skipped : (a.put s).overflow = true) :
    (a.put s).pos = a.pos ∧ (a.put s).buf = a.buf := by
  unfold Appender.put at skipped ⊢
  split at skipped
  · next overran =>
      rw [if_pos overran]
      exact ⟨rfl, rfl⟩
  · next live =>
      rw [if_neg live]
      split at skipped
      · cases skipped
      · next full =>
          rw [dif_neg full]
          exact ⟨rfl, rfl⟩

theorem Appender.Front.put {a : Appender} {out message : Bytes} (front : a.Front out message)
    (s : Bytes) : (a.put s).Front out (message ++ s) := by
  have holds := front.holds.put s
  by_cases skipped : (a.put s).overflow = true
  · obtain ⟨pos, buf⟩ := Appender.put_skipped skipped
    have within := front.within
    refine { holds := holds, within := ?_, front := ?_ }
    · rw [pos, List.length_append]
      omega
    · rw [pos, buf, front.front, List.take_append_of_le_length within]
  · obtain ⟨pos, buf⟩ := holds.text (Bool.eq_false_iff.mpr skipped)
    refine { holds := holds, within := Nat.le_of_eq pos, front := ?_ }
    rw [buf, pos, List.take_length]

theorem Appender.Front.put_all {a : Appender} {out message : Bytes} (front : a.Front out message)
    (pieces : List Bytes) :
    (pieces.foldl Appender.put a).Front out (message ++ pieces.flatten) := by
  induction pieces generalizing a message with
  | nil =>
      rw [List.flatten_nil, List.append_nil]
      exact front
  | cons piece pieces ih =>
      rw [List.foldl_cons, List.flatten_cons, ← List.append_assoc]
      exact ih (front.put piece)

def Request.pieces (req : Request) : List Bytes :=
  [req.method.name, [space], req.path, versionText ++ crlf, hostText, req.host, crlf,
      connectionText ++ crlf] ++
    req.headers.flatMap (fun h => [h.name, [colon, space], h.value, crlf]) ++
    (if req.body ≠ [] then [lengthText, uintText req.body.length, crlf] else []) ++
    [crlf] ++ (if req.body ≠ [] then [req.body] else [])

theorem putHeaders_pieces (a : Appender) (headers : List Header) :
    a.putHeaders headers =
      (headers.flatMap (fun h => [h.name, [colon, space], h.value, crlf])).foldl
        Appender.put a := by
  induction headers generalizing a with
  | nil => rfl
  | cons h headers ih =>
      rw [Appender.putHeaders, ih]
      rfl

theorem Request.append_pieces (req : Request) (a : Appender) :
    req.append a = req.pieces.foldl Appender.put a := by
  unfold Request.append Request.pieces
  by_cases empty : req.body = []
  · simp [empty, putHeaders_pieces]
  · simp [empty, putHeaders_pieces, Appender.putUInt]

theorem Request.pieces_flatten (req : Request) : req.pieces.flatten = req.message := by
  have method : req.method.name = req.method.text := by
    cases req.method <;> rfl
  have fields : (req.headers.flatMap (fun h => [h.name, [colon, space], h.value, crlf])).flatten =
      req.headers.flatMap (fun h => h.name ++ ascii ": " ++ h.value ++ ascii "\r\n") := by
    induction req.headers with
    | nil => rfl
    | cons h headers ih =>
        rw [List.flatMap_cons, List.flatten_append, ih, List.flatMap_cons]
        simp [ascii, crlf]
  unfold Request.pieces Request.message
  simp only [List.flatten_append, fields, method, uintText_decimal]
  by_cases empty : req.body = []
  · simp [empty, ascii, versionText, hostText, connectionText, crlf]
  · simp [empty, ascii, versionText, hostText, connectionText, lengthText, contentLengthName, crlf]

theorem Request.append_front (req : Request) (out : Bytes) :
    (req.append (.start out)).Front out req.message := by
  have all := (Appender.start_front out).put_all req.pieces
  rw [List.nil_append, req.pieces_flatten, ← req.append_pieces] at all
  exact all

/-- `BuildRequest` gives the message exactly where it fits; otherwise a front of it is left
in the buffer, whose other bytes stay. The length in it comes out of `PutUInt` in decimal. -/
theorem buildRequest_exact (req : Request) (out : Bytes) :
    ((∃ n, (buildRequest req out).1 = .ok n) ↔ req.message.length ≤ out.length) ∧
      (∀ n, (buildRequest req out).1 = .ok n → n = req.message.length ∧
        (buildRequest req out).2 = req.message ++ out.drop n) ∧
      (¬req.message.length ≤ out.length →
        (buildRequest req out).1 =
          fail category Code.bufferTooSmall.value "request buffer too small" ∧
        ∃ k ≤ out.length, (buildRequest req out).2 = req.message.take k ++ out.drop k) ∧
      ∀ v < 2 ^ 64, ∀ tmp rev : Bytes, tmp.length = 20 → rev.length = 20 →
        putUIntText tmp rev v = some (decimal v) ∧ IsDecimal (decimal v) v ∧
          (v ≠ 0 → ∀ c ∈ (decimal v).head?, c ≠ zero) := by
  have front := req.append_front out
  unfold buildRequest
  generalize req.append (.start out) = a at front
  dsimp only
  refine ⟨?_, ?_, ?_, ?_⟩
  · rw [← front.holds.fits]
    cases a.overflow with
    | false => exact iff_of_true ⟨_, rfl⟩ rfl
    | true =>
        apply iff_of_false
        · rintro ⟨n, impossible⟩
          cases impossible
        · intro impossible
          cases impossible
  · intro n built
    cases live : a.overflow with
    | false =>
        obtain ⟨pos, buf⟩ := front.holds.text live
        rw [live] at built
        have count : a.pos = n := Except.ok.inj built
        rw [← count, pos]
        exact ⟨rfl, buf⟩
    | true =>
        rw [live] at built
        cases built
  · intro long
    cases live : a.overflow with
    | false => exact absurd (front.holds.fits.mp live) long
    | true =>
        refine ⟨rfl, a.pos, ?_, front.front⟩
        rw [← front.holds.size]
        exact a.inside
  · intro v small tmp rev tmpSize revSize
    exact ⟨putUIntText_eq tmpSize revSize small, decimal_denotes v⟩

end Etlx.Http
