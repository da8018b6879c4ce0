/-
The headers of a response as a function of its bytes.

The text between the status line and the blank line is cut at each CRLF, and each
line with a colon is one header. The loop of `ParseResponse` walks the same lines by
position; it never meets an empty one, since that would end the head earlier.
-/

import Etlx.Http.Head
import Etlx.Http.ResponseRoundTrip

namespace Etlx.Http

open Ascii

/-! ### The headers of a text -/

def cutAtColon (line : Bytes) : Header :=
  { name := trim (line.takeWhile (· ≠ colon))
    value := trim ((line.dropWhile (· ≠ colon)).drop 1) }

def headerOf (line : Bytes) : Option Header :=
  if colon ∈ line then some (cutAtColon line) else none

def headersOf (text : Bytes) : List Header := (splitLines text).filterMap headerOf

def fieldsFrom (raw : Bytes) (boundary pos : Nat) : Bytes := (raw.take boundary).drop pos

theorem takeWhile_colon {front : Bytes} (avoids : colon ∉ front) (back : Bytes) :
    (front ++ colon :: back).takeWhile (· ≠ colon) = front ∧
      (front ++ colon :: back).dropWhile (· ≠ colon) = colon :: back := by
  have all : ∀ c ∈ front, decide (c ≠ colon) = true := by
    intro c member
    apply decide_eq_true
    rintro rfl
    exact avoids member
  constructor
  · rw [List.takeWhile_append_of_pos all]
    exact List.append_nil front
  · rw [List.dropWhile_append_of_pos all]
    rfl

theorem find_colon_none {line : Bytes} (absent : colon ∉ line) :
    Search.find line [colon] 0 = none := by
  have passed : Search.search [colon] (line ++ []) = _ := Search.search_avoid absent []
  rw [List.append_nil] at passed
  rw [find_zero, passed]
  rfl

theorem headerOf_eq (line : Bytes) :
    headerOf line = (Search.find line [colon] 0).map (fun c =>
      { name := trim (line.take c), value := trim (line.drop (c + 1)) }) := by
  unfold headerOf cutAtColon
  by_cases present : colon ∈ line
  · obtain ⟨front, back, rfl, avoids⟩ := List.eq_append_cons_of_mem present
    obtain ⟨before, after⟩ := takeWhile_colon avoids back
    have behind : (front ++ colon :: back).drop (front.length + 1) = back := by
      rw [← List.drop_drop, List.drop_left]
      rfl
    rw [if_pos present, before, after, find_first avoids, Option.map_some, List.take_left, behind]
    rfl
  · rw [if_neg present, find_colon_none present, Option.map_none]

/-! ### The lines ahead -/

theorem headersOf_line {line : Bytes} (plain : ¬crlf <:+: line) :
    headersOf line = (headerOf line).toList := by
  rw [headersOf, splitLines_plain plain]
  cases isHeader : headerOf line with
  | none => rw [List.filterMap_cons_none isHeader, List.filterMap_nil, Option.toList_none]
  | some h => rw [List.filterMap_cons_some isHeader, List.filterMap_nil, Option.toList_some]

section

variable {raw : Bytes} {boundary pos : Nat}

theorem find_lineEnd (found : Search.search (crlf ++ crlf) raw = some boundary)
    (before : pos ≤ boundary) :
    Search.find raw crlf pos = some (lineEnd raw boundary pos) ∧
      lineEnd raw boundary pos ≤ boundary := by
  obtain ⟨eol, bound, -, inWhole⟩ :=
    (isHead_of_search found).find_line before (raw.drop (boundary + 4))
  rw [List.take_append_drop] at inWhole
  have stop : lineEnd raw boundary pos = eol := by
    unfold lineEnd
    rw [inWhole]
    exact if_neg (Nat.not_lt.mpr bound)
  rw [stop]
  exact ⟨inWhole, bound⟩

theorem lineEnd_apart (found : Search.search (crlf ++ crlf) raw = some boundary)
    {eol : Nat} (hit : (raw.drop eol).take 2 = crlf) (bound : eol ≤ boundary) :
    eol = boundary ∨ eol + 2 ≤ boundary := by
  have blank : (raw.drop boundary).take 4 = crlf ++ crlf := (Search.search_some found).2
  by_contra apart
  have next : boundary = eol + 1 := by omega
  have second : (raw.drop eol)[1]? = some lineFeed := by
    have read := congrArg (fun text : Bytes => text[1]?) hit
    rw [List.getElem?_take_of_lt (by decide)] at read
    exact read
  have first : (raw.drop boundary)[0]? = some carriageReturn := by
    have read := congrArg (fun text : Bytes => text[0]?) blank
    rw [List.getElem?_take_of_lt (by decide)] at read
    exact read
  rw [List.getElem?_drop] at second first
  rw [next, Nat.add_zero, second] at first
  cases first

/-- The CRLF behind a line of the head, and none within the line. -/
theorem lineEnd_spec (found : Search.search (crlf ++ crlf) raw = some boundary)
    (before : pos ≤ boundary) :
    pos ≤ lineEnd raw boundary pos ∧ (raw.drop (lineEnd raw boundary pos)).take 2 = crlf ∧
      ¬crlf <:+: (raw.drop pos).take (lineEnd raw boundary pos - pos) ∧
      (lineEnd raw boundary pos = boundary ∨ lineEnd raw boundary pos + 2 ≤ boundary) := by
  obtain ⟨hit, bound⟩ := find_lineEnd found before
  have later := Search.find_ge hit
  obtain ⟨offset, search, here⟩ := Option.map_eq_some_iff.mp hit
  have place : offset = lineEnd raw boundary pos - pos := by omega
  rw [place] at search
  have occurs : (raw.drop (lineEnd raw boundary pos)).take 2 = crlf := by
    have there := (Search.search_some search).2
    rw [List.drop_drop, Nat.add_sub_cancel' later] at there
    exact there
  exact ⟨later, occurs, Search.search_first (by decide) search,
    lineEnd_apart found occurs bound⟩

theorem headersOf_step (found : Search.search (crlf ++ crlf) raw = some boundary)
    (before : pos ≤ boundary) :
    headersOf (fieldsFrom raw boundary pos) =
      (headerOf ((raw.drop pos).take (lineEnd raw boundary pos - pos))).toList ++
        headersOf (fieldsFrom raw boundary (lineEnd raw boundary pos + 2)) := by
  obtain ⟨later, occurs, plain, apart⟩ := lineEnd_spec found before
  generalize lineEnd raw boundary pos = eol at later occurs plain apart ⊢
  have line : (raw.drop pos).take (eol - pos) = (raw.take eol).drop pos := by
    rw [List.drop_take]
  rcases apart with last | inside
  · have rest : fieldsFrom raw boundary (eol + 2) = [] := by
      apply List.drop_eq_nil_of_le
      rw [List.length_take]
      omega
    have whole : fieldsFrom raw boundary pos = (raw.drop pos).take (eol - pos) := by
      rw [line, last]
      rfl
    rw [rest, whole, headersOf_line plain]
    exact (List.append_nil _).symm
  · have cut : fieldsFrom raw boundary pos =
        (raw.drop pos).take (eol - pos) ++ crlf ++ fieldsFrom raw boundary (eol + 2) := by
      have split : raw.take boundary =
          raw.take eol ++ (crlf ++ (raw.take boundary).drop (eol + 2)) := by
        have front : (raw.take boundary).take eol = raw.take eol := by
          rw [List.take_take, Nat.min_eq_left (by omega)]
        have middle : ((raw.take boundary).drop eol).take 2 = crlf := by
          rw [List.drop_take, List.take_take, Nat.min_eq_left (by omega), occurs]
        rw [← front, ← middle, ← List.drop_drop, List.take_append_drop, List.take_append_drop]
      unfold fieldsFrom
      conv => lhs; rw [split]
      have long : boundary + 4 ≤ raw.length := (Search.search_some found).1
      rw [List.drop_append_of_le_length (by rw [List.length_take]; omega), line,
        List.append_assoc]
    rw [cut, headersOf, splitLines_append, List.filterMap_append]
    exact congrArg (· ++ _) (headersOf_line plain)

/-- A line behind a CRLF is not empty: the two CRLFs would end the head. -/
theorem line_nonempty (found : Search.search (crlf ++ crlf) raw = some boundary)
    (before : pos < boundary) (starts : 2 ≤ pos) (ended : (raw.drop (pos - 2)).take 2 = crlf) :
    pos < lineEnd raw boundary pos := by
  obtain ⟨later, occurs, -, apart⟩ := lineEnd_spec found (Nat.le_of_lt before)
  by_contra none
  have here : lineEnd raw boundary pos = pos := by omega
  rw [here] at occurs apart
  apply Search.search_first (by decide) found
  refine ⟨raw.take (pos - 2), (raw.take boundary).drop (pos + 2), ?_⟩
  have front : (raw.take boundary).take (pos - 2) = raw.take (pos - 2) := by
    rw [List.take_take, Nat.min_eq_left (by omega)]
  have first : ((raw.take boundary).drop (pos - 2)).take 2 = crlf := by
    rw [List.drop_take, List.take_take, Nat.min_eq_left (by omega), ended]
  have second : ((raw.take boundary).drop (pos - 2 + 2)).take 2 = crlf := by
    rw [Nat.sub_add_cancel starts, List.drop_take, List.take_take, Nat.min_eq_left (by omega),
      occurs]
  have place : pos + 2 = pos - 2 + 2 + 2 := by omega
  conv => rhs; rw [← List.take_append_drop (pos - 2) (raw.take boundary), front,
    ← List.take_append_drop 2 ((raw.take boundary).drop (pos - 2)), first, List.drop_drop,
    ← List.take_append_drop 2 ((raw.take boundary).drop (pos - 2 + 2)), second, List.drop_drop]
  rw [place]
  simp only [List.append_assoc]

/-- The loop collects the headers of the lines ahead, as long as there is room. -/
theorem headerLoop_eq (found : Search.search (crlf ++ crlf) raw = some boundary)
    (headers : List Header) (few : headers.length ≤ maxHeaders) (starts : 2 ≤ pos)
    (ended : (raw.drop (pos - 2)).take 2 = crlf) :
    headerLoop raw boundary pos headers =
      if (headers ++ headersOf (fieldsFrom raw boundary pos)).length ≤ maxHeaders then
        .ok (headers ++ headersOf (fieldsFrom raw boundary pos))
      else fail category Code.tooManyHeaders.value "too many headers" := by
  fun_induction headerLoop raw boundary pos headers with
  | case1 pos headers before eol hline blank =>
      have long : boundary + 4 ≤ raw.length := (Search.search_some found).1
      have some := line_nonempty found before starts ended
      have bound := (find_lineEnd found (Nat.le_of_lt before)).2
      have empty := congrArg List.length blank
      rw [List.length_take, List.length_drop, List.length_nil] at empty
      omega
  | case2 pos headers before eol hline some noColon ih =>
      have isHeader : headerOf hline = none := by
        rw [headerOf_eq, noColon]
        rfl
      obtain ⟨later, occurs, -⟩ := lineEnd_spec found (Nat.le_of_lt before)
      rw [headersOf_step found (Nat.le_of_lt before), isHeader]
      exact ih few (by omega) occurs
  | case3 pos headers before eol hline some c colonAt full =>
      have isHeader := headerOf_eq hline
      rw [colonAt, Option.map_some] at isHeader
      rw [headersOf_step found (Nat.le_of_lt before), isHeader, if_neg]
      simp only [List.length_append, Option.toList_some, List.length_singleton]
      omega
  | case4 pos headers before eol hline some c colonAt room ih =>
      have isHeader := headerOf_eq hline
      rw [colonAt, Option.map_some] at isHeader
      obtain ⟨later, occurs, -⟩ := lineEnd_spec found (Nat.le_of_lt before)
      have next := ih (by rw [List.length_append, List.length_singleton]; omega) (by omega) occurs
      rw [headersOf_step found (Nat.le_of_lt before), isHeader, Option.toList_some,
        ← List.append_assoc]
      exact next
  | case5 pos headers past =>
      have nothing : fieldsFrom raw boundary pos = [] := by
        apply List.drop_eq_nil_of_le
        rw [List.length_take]
        omega
      rw [nothing]
      have none : headersOf [] = [] := rfl
      rw [none, List.append_nil, if_pos few]

end

/-! ### The response -/

def headersIn (raw : Bytes) (lineStop boundary : Nat) : List Header :=
  headersOf (fieldsFrom raw boundary (lineStop + 2))

theorem parseResponse_fields {raw : Bytes} {boundary lineStop : Nat}
    (found : Search.search (crlf ++ crlf) raw = some boundary)
    (first : Search.search crlf raw = some lineStop) :
    parseResponse raw =
      (parseStatusLine (raw.take lineStop)).bind (fun parsed =>
        if (headersIn raw lineStop boundary).length ≤ maxHeaders then
          .ok (frameResponse (parsed.1, parsed.2, headersIn raw lineStop boundary)
            (raw.drop (boundary + 4)))
        else fail category Code.tooManyHeaders.value "too many headers") := by
  have ended : (raw.drop (lineStop + 2 - 2)).take 2 = crlf := (Search.search_some first).2
  have loop := headerLoop_eq found [] (Nat.zero_le _) (Nat.le_add_left 2 lineStop) ended
  rw [List.nil_append] at loop
  unfold parseResponse
  rw [find_zero, find_zero, found, first]
  dsimp only
  rw [Option.getD_some]
  cases parseStatusLine (raw.take lineStop) with
  | error e => rfl
  | ok parsed =>
      dsimp only
      rw [loop]
      change _ = if (headersIn raw lineStop boundary).length ≤ maxHeaders then _ else _
      unfold headersIn
      by_cases few : (headersOf (fieldsFrom raw boundary (lineStop + 2))).length ≤ maxHeaders
      · rw [if_pos few, if_pos few]
        rfl
      · rw [if_neg few, if_neg few]
        rfl

theorem headersOf_filter (text : Bytes) :
    headersOf text = ((splitLines text).filter (fun line => colon ∈ line)).map cutAtColon := by
  unfold headersOf
  induction splitLines text with
  | nil => rfl
  | cons line lines ih =>
      by_cases present : colon ∈ line
      · have isHeader : headerOf line = some (cutAtColon line) := if_pos present
        rw [List.filterMap_cons_some isHeader, ih,
          List.filter_cons_of_pos (by simpa using present), List.map_cons]
      · have noHeader : headerOf line = none := if_neg present
        rw [List.filterMap_cons_none noHeader, ih,
          List.filter_cons_of_neg (by simpa using present)]

/-! ### The status line -/

/-- The word behind the first space of the line begins with three digits. -/
structure IsStatusLine (line before word tail : Bytes) : Prop where
  shape : line = before ++ space :: (word ++ tail)
  firstSpace : space ∉ before
  oneWord : space ∉ word
  delimited : tail = [] ∨ ∃ reason, tail = space :: reason
  long : 3 ≤ word.length
  digits : ∀ c ∈ word.take 3, isDigit c = true

theorem statusLoop_ok (digits : Bytes) (status : Nat) (all : ∀ c ∈ digits, isDigit c = true) :
    statusLoop digits status =
      .ok (digits.foldl (fun value c => value * 10 + (c - zero).toNat) status) := by
  induction digits generalizing status with
  | nil => rfl
  | cons c digits ih =>
      rw [statusLoop, if_pos (all c List.mem_cons_self),
        ih _ (fun d member => all d (List.mem_cons_of_mem _ member)), List.foldl_cons]

theorem IsStatusLine.parse {line before word tail : Bytes}
    (isLine : IsStatusLine line before word tail) :
    parseStatusLine line =
      .ok ((word.take 3).foldl (fun value c => value * 10 + (c - zero).toNat) 0,
        trim (tail.drop 1)) := by
  have first : Search.find line [space] 0 = some before.length := by
    rw [isLine.shape]
    exact find_first isLine.firstSpace
  have behind : line.drop (before.length + 1) = word ++ tail := by
    rw [isLine.shape, ← List.drop_drop, List.drop_left]
    rfl
  have status := statusLoop_ok (word.take 3) 0 isLine.digits
  have long := isLine.long
  unfold parseStatusLine
  rw [first]
  dsimp only
  rw [behind]
  rcases isLine.delimited with rfl | ⟨reason, rfl⟩
  · have second : Search.find (word ++ []) [space] 0 = none := by
      rw [find_zero]
      exact Search.search_avoid isLine.oneWord []
    rw [second, List.append_nil]
    dsimp only
    rw [if_neg (Nat.not_lt.mpr long), status]
    rfl
  · rw [find_first isLine.oneWord]
    dsimp only
    have skipped : (word ++ space :: reason).drop (word.length + 1) = reason := by
      rw [← List.drop_drop, List.drop_left]
      rfl
    simp only [List.take_left, if_neg (Nat.not_lt.mpr long), status, skipped]
    rfl

end Etlx.Http
