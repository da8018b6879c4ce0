/-
What the fields of a request may do to its head.

`BuildRequest` copies host, path, header names and values as they are. The emitted
head has one line for each line of the wire form, and the body behind it, exactly
when none of these fields holds a CRLF: a CRLF cannot arise where a field meets
the text around it.
-/

import Etlx.Http.Request
import Etlx.Http.Lines

namespace Etlx.Http

open Ascii

/-- The bytes before the first CRLFCRLF are as many lines as the request has, and
those behind it are the body. -/
def HeadIntact (req : Request) (sent : Bytes) : Prop :=
  ∃ b, Search.find sent (crlf ++ crlf) 0 = some b ∧
    (splitLines (sent.take b)).length =
      3 + req.headers.length + (if req.body = [] then 0 else 1) ∧
    sent.drop (b + 4) = req.body

/-- No field of the request holds a line break. -/
structure Request.PlainFields (req : Request) : Prop where
  path : ¬crlf <:+: req.path
  host : ¬crlf <:+: req.host
  names : ∀ h ∈ req.headers, ¬crlf <:+: h.name
  values : ∀ h ∈ req.headers, ¬crlf <:+: h.value

/-! ### The lines of the wire form -/

theorem reversedDigits_digit (v : Nat) : ∀ c ∈ reversedDigits v, isDigit c = true := by
  fun_induction reversedDigits v with
  | case1 =>
      intro c member
      cases member
  | case2 v positive ih =>
      intro c member
      rcases List.mem_cons.mp member with rfl | later
      · exact digitByte_isDigit v
      · exact ih c later

theorem uintText_plain (v : Nat) : ¬crlf <:+: uintText v := by
  have digits : ∀ c ∈ uintText v, isDigit c = true := by
    unfold uintText
    intro c member
    split at member
    · rw [List.mem_singleton.mp member]
      decide
    · exact reversedDigits_digit v c (List.mem_reverse.mp member)
  intro occurs
  have digit := digits carriageReturn (occurs.subset List.mem_cons_self)
  revert digit
  decide

theorem crlf_space_iff (front back : Bytes) :
    crlf <:+: front ++ space :: back ↔ crlf <:+: front ∨ crlf <:+: back := by
  have apart : crlf <:+: space :: back ↔ crlf <:+: back := by
    rw [List.infix_cons_iff]
    constructor
    · rintro (⟨behind, same⟩ | later)
      · exact absurd (List.cons.inj same).1 (by decide)
      · exact later
    · exact Or.inr
  rw [crlf_append_iff, apart]
  constructor
  · rintro (inFront | inBack | ⟨-, impossible⟩)
    · exact Or.inl inFront
    · exact Or.inr inBack
    · cases impossible
  · exact Or.imp_right Or.inl

theorem Request.requestLine_iff (req : Request) :
    crlf <:+: req.requestLine ↔ crlf <:+: req.path := by
  have method : ¬crlf <:+: req.method.name := by
    cases req.method <;> decide
  have version : ¬crlf <:+: versionText.tail := by decide
  have shape : req.path ++ versionText = req.path ++ space :: versionText.tail := rfl
  unfold Request.requestLine
  rw [crlf_space_iff, shape, crlf_space_iff]
  constructor
  · rintro (impossible | inPath | impossible)
    · exact absurd impossible method
    · exact inPath
    · exact absurd impossible version
  · intro inPath
    exact Or.inr (Or.inl inPath)

theorem hostLine_iff (host : Bytes) : crlf <:+: hostText ++ host ↔ crlf <:+: host := by
  have label : ¬crlf <:+: hostText.dropLast := by decide
  have shape : hostText ++ host = hostText.dropLast ++ space :: host := rfl
  rw [shape, crlf_space_iff]
  exact or_iff_right label

theorem Header.line_iff (h : Header) : crlf <:+: h.line ↔ crlf <:+: h.name ∨ crlf <:+: h.value := by
  have shape : h.line = (h.name ++ [colon]) ++ space :: h.value := by
    simp [Header.line]
  have joint : crlf <:+: h.name ++ [colon] ↔ crlf <:+: h.name := by
    rw [crlf_append_iff]
    constructor
    · rintro (inName | impossible | ⟨-, impossible⟩)
      · exact inName
      · exact absurd impossible (by decide)
      · cases impossible
    · exact Or.inl
  rw [shape, crlf_space_iff, joint]

theorem Request.lengthLines_plain (req : Request) : ∀ line ∈ req.lengthLines, ¬crlf <:+: line := by
  intro line member
  unfold Request.lengthLines at member
  split at member
  · have label : ¬crlf <:+: lengthText.dropLast := by decide
    have shape : line = lengthText.dropLast ++ space :: uintText req.body.length :=
      List.mem_singleton.mp member
    rw [shape, crlf_space_iff]
    exact not_or.mpr ⟨label, uintText_plain _⟩
  · cases member

theorem Request.lines_plain_iff (req : Request) :
    (∀ line ∈ req.lines, ¬crlf <:+: line) ↔ req.PlainFields := by
  have connection : ¬crlf <:+: connectionText := by decide
  unfold Request.lines
  rw [List.forall_mem_cons, List.forall_mem_cons, List.forall_mem_cons, List.forall_mem_append,
    List.forall_mem_map, req.requestLine_iff, hostLine_iff]
  constructor
  · rintro ⟨path, host, -, headers, -⟩
    refine ⟨path, host, ?_, ?_⟩
    · intro h member inName
      exact headers h member (h.line_iff.mpr (Or.inl inName))
    · intro h member inValue
      exact headers h member (h.line_iff.mpr (Or.inr inValue))
  · intro plain
    refine ⟨plain.path, plain.host, connection, ?_, req.lengthLines_plain⟩
    intro h member occurs
    exact (h.line_iff.mp occurs).elim (plain.names h member) (plain.values h member)

theorem Request.lines_nonempty (req : Request) : ∀ line ∈ req.lines.tail, line ≠ [] := by
  intro line member
  unfold Request.lines at member
  rw [List.tail_cons, List.mem_cons, List.mem_cons, List.mem_append, List.mem_map] at member
  rcases member with rfl | rfl | ⟨h, -, rfl⟩ | inLength
  · exact List.cons_ne_nil _ _
  · exact List.cons_ne_nil _ _
  · simp [Header.line]
  · unfold Request.lengthLines at inLength
    split at inLength
    · rw [List.mem_singleton.mp inLength]
      exact List.cons_ne_nil _ _
    · cases inLength

theorem Request.lines_length (req : Request) :
    req.lines.length = 3 + req.headers.length + (if req.body = [] then 0 else 1) := by
  unfold Request.lines Request.lengthLines
  by_cases empty : req.body = []
  · simp [empty]
    omega
  · simp [empty]
    omega

/-! ### The head of the wire form -/

theorem Request.wire_eq (req : Request) :
    req.wire = joinLines req.requestLine req.lines.tail ++ (crlf ++ (crlf ++ req.body)) := by
  have whole : req.lines = req.requestLine :: req.lines.tail := rfl
  rw [Request.wire, whole, joinLines_end, List.append_assoc]
  rfl

theorem Request.wire_split (req : Request) :
    splitLines (joinLines req.requestLine req.lines.tail) = req.lines.flatMap splitLines :=
  splitLines_join req.requestLine req.lines.tail

theorem HeadIntact.plain {req : Request} (intact : HeadIntact req req.wire) : req.PlainFields := by
  obtain ⟨b, found, count, behind⟩ := intact
  have hit : Search.search (crlf ++ crlf) req.wire = some b := by
    unfold Search.find at found
    obtain ⟨offset, searched, rfl⟩ := Option.map_eq_some_iff.mp found
    exact searched
  have inside : b + 4 ≤ req.wire.length := (Search.search_some hit).1
  have lengths := congrArg List.length behind
  rw [List.length_drop] at lengths
  have size := congrArg List.length req.wire_eq
  simp only [List.length_append] at size
  have two : crlf.length = 2 := rfl
  have boundary : b = (joinLines req.requestLine req.lines.tail).length := by omega
  have head : req.wire.take b = joinLines req.requestLine req.lines.tail := by
    rw [req.wire_eq, boundary, List.take_left]
  rw [head, req.wire_split, ← req.lines_length] at count
  exact req.lines_plain_iff.mp ((flatMap_splitLines_iff req.lines).mp count)

theorem Request.PlainFields.intact {req : Request} (plain : req.PlainFields) :
    HeadIntact req req.wire := by
  have lines := req.lines_plain_iff.mpr plain
  have hit := search_head req.requestLine req.lines.tail req.body lines req.lines_nonempty
  refine ⟨(joinLines req.requestLine req.lines.tail).length, ?_, ?_, ?_⟩
  · unfold Search.find
    rw [List.drop_zero, req.wire_eq, hit]
    rfl
  · rw [req.wire_eq, List.take_left, req.wire_split, (flatMap_splitLines_iff req.lines).mpr lines,
      req.lines_length]
  · rw [req.wire_eq, ← List.drop_drop, List.drop_left]
    rfl

/-- An accepted request is sent with its own lines and its own body exactly when no
field holds a CRLF. -/
theorem buildRequest_head_iff (req : Request) (out : Bytes) (count : Nat)
    (accepted : (buildRequest req out).1 = .ok count) :
    HeadIntact req ((buildRequest req out).2.take count) ↔ req.PlainFields := by
  have sent : (buildRequest req out).2.take count = req.wire := by
    rcases buildRequest_eq req out with ⟨-, built⟩ | ⟨-, refused⟩
    · rw [built] at accepted ⊢
      rw [← Except.ok.inj accepted, List.take_left]
    · rw [refused] at accepted
      cases accepted
  rw [sent]
  exact ⟨HeadIntact.plain, Request.PlainFields.intact⟩

def plainRequest : Request :=
  { method := .get, host := [0x68], path := [slash]
    headers := [{ name := [0x41], value := [0x62] }], body := [], few := by decide }

/-- The value of the header ends its line and starts another. -/
def splitRequest : Request :=
  { plainRequest with
    headers := [{ name := [0x41], value := [0x62, 0x0d, 0x0a, 0x43, 0x3a, 0x20, 0x64] }]
    few := by decide }

theorem buildRequest_head_plain :
    (buildRequest plainRequest (List.replicate 64 0)).1 = .ok 52 ∧
      HeadIntact plainRequest ((buildRequest plainRequest (List.replicate 64 0)).2.take 52) := by
  have accepted : (buildRequest plainRequest (List.replicate 64 0)).1 = .ok 52 := by
    decide +kernel
  refine ⟨accepted, (buildRequest_head_iff plainRequest _ 52 accepted).mpr ?_⟩
  exact ⟨by decide, by decide, by decide, by decide⟩

theorem buildRequest_head_split :
    ∃ count, (buildRequest splitRequest (List.replicate 64 0)).1 = .ok count ∧
      ¬HeadIntact splitRequest
        ((buildRequest splitRequest (List.replicate 64 0)).2.take count) := by
  refine ⟨58, by decide +kernel, ?_⟩
  have sent : (buildRequest splitRequest (List.replicate 64 0)).2.take 58 = splitRequest.wire := by
    decide +kernel
  rw [sent]
  intro intact
  exact intact.plain.values _ List.mem_cons_self (by decide)

end Etlx.Http
