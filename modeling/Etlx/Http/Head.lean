/-
The head of a response and the payload behind it.

`ParseResponse` reads the head from its own bytes alone, so the head decides the
status, the headers and the announced length whatever follows. The payload only
becomes the body, cut to the announced length where there is one.
-/

import Etlx.Http.Response

namespace Etlx.Http

/-! ### The head is parsed alone -/

def parseHead (head : Bytes) (boundary : Nat) : Result (Nat × Bytes × List Header) :=
  let lineStop := (Search.find head crlf 0).getD head.length
  match parseStatusLine (head.take lineStop) with
  | .error e => .error e
  | .ok (status, reason) =>
      match headerLoop head boundary (lineStop + 2) [] with
      | .error e => .error e
      | .ok headers => .ok (status, reason, headers)

def frameResponse (head : Nat × Bytes × List Header) (payload : Bytes) : Response :=
  let framed := frameBody (getHeader head.2.2 contentLengthName) payload
  { status := head.1
    reason := head.2.1
    headers := head.2.2
    body := framed.1
    contentLength := framed.2 }

theorem find_zero (text pattern : Bytes) :
    Search.find text pattern 0 = Search.search pattern text := by
  unfold Search.find
  rw [List.drop_zero]
  exact Option.map_id'

structure IsHead (head : Bytes) (boundary : Nat) : Prop where
  found : Search.search (crlf ++ crlf) head = some boundary
  ends : head.length = boundary + 4

theorem IsHead.shape {head : Bytes} {boundary : Nat} (isHead : IsHead head boundary) :
    head = head.take boundary ++ (crlf ++ crlf) := by
  have occurs := (Search.search_some isHead.found).2
  have whole : (head.drop boundary).take (crlf ++ crlf).length = head.drop boundary := by
    apply List.take_of_length_le
    rw [List.length_drop, isHead.ends]
    exact Nat.le_of_eq (Nat.add_sub_cancel_left boundary 4)
  rw [whole] at occurs
  rw [← occurs, List.take_append_drop]

theorem IsHead.find_line {head : Bytes} {boundary pos : Nat} (isHead : IsHead head boundary)
    (before : pos ≤ boundary) (rest : Bytes) :
    ∃ eol ≤ boundary, Search.find head crlf pos = some eol ∧
      Search.find (head ++ rest) crlf pos = some eol := by
  have ahead : head.drop pos = (head.take boundary).drop pos ++ crlf ++ crlf := by
    conv => lhs; rw [isHead.shape]
    rw [List.drop_append_of_le_length, List.append_assoc]
    rw [List.length_take, isHead.ends]
    omega
  obtain ⟨found, bound, hit⟩ := Search.search_le crlf ((head.take boundary).drop pos) crlf
  rw [List.length_drop, List.length_take] at bound
  refine ⟨found + pos, by omega, ?_, ?_⟩
  · unfold Search.find
    rw [ahead, hit]
    rfl
  · unfold Search.find
    rw [List.drop_append_of_le_length (by rw [isHead.ends]; omega), ahead,
      Search.search_append (by decide) hit]
    rfl

theorem IsHead.lineEnd_append {head : Bytes} {boundary pos : Nat} (isHead : IsHead head boundary)
    (before : pos < boundary) (rest : Bytes) :
    lineEnd (head ++ rest) boundary pos = lineEnd head boundary pos ∧
      lineEnd head boundary pos ≤ boundary := by
  obtain ⟨eol, bound, inHead, inWhole⟩ := isHead.find_line (Nat.le_of_lt before) rest
  unfold lineEnd
  rw [inHead, inWhole]
  dsimp only
  rw [if_neg (by omega)]
  exact ⟨rfl, bound⟩

theorem IsHead.line_append {head : Bytes} {boundary pos : Nat} (isHead : IsHead head boundary)
    (before : pos < boundary) (rest : Bytes) :
    ((head ++ rest).drop pos).take (lineEnd head boundary pos - pos) =
      (head.drop pos).take (lineEnd head boundary pos - pos) := by
  have bound := (isHead.lineEnd_append before rest).2
  have ends := isHead.ends
  rw [List.drop_append_of_le_length (by omega), List.take_append_of_le_length]
  rw [List.length_drop]
  omega

theorem IsHead.headerLoop_append {head : Bytes} {boundary : Nat} (isHead : IsHead head boundary)
    (rest : Bytes) (pos : Nat) (headers : List Header) :
    headerLoop (head ++ rest) boundary pos headers = headerLoop head boundary pos headers := by
  fun_induction headerLoop head boundary pos headers with
  | case1 pos headers before eol hline blank =>
      rw [headerLoop, dif_pos before]
      dsimp only
      rw [(isHead.lineEnd_append before rest).1, isHead.line_append before rest, if_pos blank]
  | case2 pos headers before eol hline some noColon ih =>
      rw [headerLoop, dif_pos before]
      dsimp only
      rw [(isHead.lineEnd_append before rest).1, isHead.line_append before rest, if_neg some,
        noColon]
      exact ih
  | case3 pos headers before eol hline some c colonAt full =>
      rw [headerLoop, dif_pos before]
      dsimp only
      rw [(isHead.lineEnd_append before rest).1, isHead.line_append before rest, if_neg some,
        colonAt]
      dsimp only
      rw [if_pos full]
  | case4 pos headers before eol hline some c colonAt room ih =>
      rw [headerLoop, dif_pos before]
      dsimp only
      rw [(isHead.lineEnd_append before rest).1, isHead.line_append before rest, if_neg some,
        colonAt]
      dsimp only
      rw [if_neg room]
      exact ih
  | case5 pos headers past => rw [headerLoop, dif_neg past]

/-- The body is all that the bytes behind the head decide. -/
theorem parseResponse_head {head : Bytes} {boundary : Nat} (isHead : IsHead head boundary)
    (payload : Bytes) :
    parseResponse (head ++ payload) =
      (parseHead head boundary).map (fun parsed => frameResponse parsed payload) := by
  obtain ⟨lineStop, bound, inHead, inWhole⟩ := isHead.find_line (Nat.zero_le _) payload
  have ends := isHead.ends
  have line : (head ++ payload).take lineStop = head.take lineStop :=
    List.take_append_of_le_length (by omega)
  have behind : (head ++ payload).drop (boundary + 4) = payload := by
    rw [← ends, List.drop_left]
  unfold parseResponse parseHead
  rw [find_zero, Search.search_append (by decide) isHead.found]
  dsimp only
  rw [inHead, inWhole, Option.getD_some, Option.getD_some, line]
  cases parseStatusLine (head.take lineStop) with
  | error e => rfl
  | ok parsed =>
      dsimp only
      rw [isHead.headerLoop_append payload]
      cases headerLoop head boundary (lineStop + 2) [] with
      | error e => rfl
      | ok headers =>
          dsimp only
          rw [behind]
          rfl

theorem isHead_of_search {raw : Bytes} {boundary : Nat}
    (found : Search.search (crlf ++ crlf) raw = some boundary) :
    IsHead (raw.take (boundary + 4)) boundary := by
  have inside : boundary + 4 ≤ raw.length := (Search.search_some found).1
  have length : (raw.take (boundary + 4)).length = boundary + 4 := List.length_take_of_le inside
  have whole : Search.search (crlf ++ crlf)
      (raw.take (boundary + 4) ++ raw.drop (boundary + 4)) = some boundary := by
    rw [List.take_append_drop]
    exact found
  exact ⟨Search.search_front (by decide) whole (Nat.le_of_eq length.symm), length⟩

theorem parseResponse_incomplete {raw : Bytes}
    (absent : Search.search (crlf ++ crlf) raw = none) :
    parseResponse raw = fail category Code.incomplete.value "headers not terminated" := by
  unfold parseResponse
  rw [find_zero, absent]

/-! ### Cutting the payload -/

theorem frameBody_some {cl : Bytes} {len : Nat} (announced : (frameBody cl []).2 = some len)
    (payload : Bytes) : frameBody cl payload = (payload.take len, some len) := by
  unfold frameBody at announced ⊢
  split at announced
  · cases announced
  · next present =>
      rw [if_neg present]
      split at announced
      · cases announced
      · next other parsed =>
          cases announced
          split
          · rfl
          · next short => rw [List.take_of_length_le (by omega)]

theorem frameBody_none {cl : Bytes} (unannounced : (frameBody cl []).2 = none) (payload : Bytes) :
    frameBody cl payload = (payload, none) := by
  unfold frameBody at unannounced ⊢
  split at unannounced
  · next absent => rw [if_pos absent]
  · next present =>
      rw [if_neg present]
      split at unannounced
      · rfl
      · cases unannounced

def announcedLength (parsed : Nat × Bytes × List Header) : Option Nat :=
  (frameBody (getHeader parsed.2.2 contentLengthName) []).2

theorem frameResponse_length (parsed : Nat × Bytes × List Header) (payload : Bytes) :
    (frameResponse parsed payload).contentLength = announcedLength parsed := by
  change (frameBody _ payload).2 = _
  cases announced : announcedLength parsed with
  | none => rw [frameBody_none announced]
  | some len => rw [frameBody_some announced]

theorem frameResponse_body (parsed : Nat × Bytes × List Header) (payload : Bytes) :
    (frameResponse parsed payload).body =
      match announcedLength parsed with
      | none => payload
      | some len => payload.take len := by
  change (frameBody _ payload).1 = _
  cases announced : announcedLength parsed with
  | none => rw [frameBody_none announced]
  | some len => rw [frameBody_some announced]

/-- A shorter payload gives the same body exactly when the announced length was
already there. -/
theorem frameResponse_take_iff (parsed : Nat × Bytes × List Header) {payload : Bytes} {k : Nat}
    (shorter : k < payload.length) :
    (frameResponse parsed (payload.take k)).body = (frameResponse parsed payload).body ↔
      ∃ len, announcedLength parsed = some len ∧ len ≤ k := by
  rw [frameResponse_body, frameResponse_body]
  cases announcedLength parsed with
  | none =>
      constructor
      · intro same
        have lengths : (payload.take k).length = payload.length := congrArg List.length same
        rw [List.length_take] at lengths
        omega
      · rintro ⟨len, impossible, -⟩
        cases impossible
  | some len =>
      dsimp only
      rw [List.take_take]
      constructor
      · intro same
        refine ⟨len, rfl, ?_⟩
        have lengths := congrArg List.length same
        rw [List.length_take, List.length_take] at lengths
        omega
      · rintro ⟨other, announced, bound⟩
        cases announced
        rw [Nat.min_eq_left bound]

end Etlx.Http
