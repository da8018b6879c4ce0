/-
Parsing undoes rendering.

A `ResponseText` is a response with everything its wire form depends on and the
conditions under which the form is unambiguous. The body is any bytes: the first
CRLFCRLF ends the head because no line of the head is empty and none holds a CR.
-/

import Etlx.Http.Lines

namespace Etlx.Http

open Ascii

/-! ### The wire form -/

/-- Text within one line, without blanks at its ends. -/
structure IsField (text : Bytes) : Prop where
  noReturn : carriageReturn ∉ text
  noFeed : lineFeed ∉ text
  front : ∀ c ∈ text.head?, isSpaceTab c = false
  back : ∀ c ∈ text.getLast?, isSpaceTab c = false

/-- The decimal digits of a number, leading zeros allowed. -/
structure IsDecimal (text : Bytes) (n : Nat) : Prop where
  nonempty : text ≠ []
  digits : ∀ c ∈ text, isDigit c = true
  denotes : text.foldl (fun value c => value * 10 + (c - zero).toNat) 0 = n

def firstHeader (headers : List Header) (name : Bytes) : Option Header :=
  headers.find? (fun h => decide (h.name.map lower = name.map lower))

structure ResponseText where
  version : Bytes
  status : Fin 1000
  reason : Bytes
  headers : List Header
  body : Bytes
  extra : Bytes
  versionWord : space ∉ version ∧ carriageReturn ∉ version ∧ lineFeed ∉ version
  reasonField : IsField reason
  nameField : ∀ h ∈ headers, IsField h.name ∧ colon ∉ h.name
  valueField : ∀ h ∈ headers, IsField h.value
  few : headers.length ≤ maxHeaders
  framed : (∃ h, firstHeader headers contentLengthName = some h ∧ IsDecimal h.value body.length) ∨
    (firstHeader headers contentLengthName = none ∧ extra = [])

def statusDigits (status : Nat) : Bytes :=
  [digitByte (status / 100), digitByte (status / 10), digitByte status]

def ResponseText.statusLine (r : ResponseText) : Bytes :=
  r.version ++ space :: (statusDigits r.status ++ space :: r.reason)

def ResponseText.headerText (headers : List Header) : Bytes :=
  (headers.map (fun h => h.line ++ crlf)).flatten

def ResponseText.render (r : ResponseText) : Bytes :=
  r.statusLine ++ crlf ++ ResponseText.headerText r.headers ++ crlf ++ (r.body ++ r.extra)

def ResponseText.response (r : ResponseText) : Response :=
  { status := r.status
    reason := r.reason
    headers := r.headers
    body := r.body
    contentLength := (firstHeader r.headers contentLengthName).map (fun _ => r.body.length) }

/-! ### Names and values -/

theorem iEqual_iff (a b : Bytes) : iEqual a b = true ↔ a.map lower = b.map lower := by
  induction a generalizing b with
  | nil =>
      cases b with
      | nil => simp [iEqual]
      | cons y b => simp [iEqual]
  | cons x a ih =>
      cases b with
      | nil => simp [iEqual]
      | cons y b =>
          have rest := ih b
          unfold iEqual at rest ⊢
          by_cases sameLength : a.length = b.length
          · rw [if_neg (by simpa using sameLength)] at rest
            rw [if_neg (by simpa using sameLength), List.zip_cons_cons, List.all_cons,
              Bool.and_eq_true, rest, beq_iff_eq, List.map_cons, List.map_cons, List.cons.injEq]
          · rw [if_pos (by simpa using sameLength)]
            constructor
            · intro impossible
              cases impossible
            · intro same
              apply absurd _ sameLength
              have lengths := congrArg List.length same
              simpa using lengths

theorem getHeader_eq (headers : List Header) (name : Bytes) :
    getHeader headers name = ((firstHeader headers name).map Header.value).getD [] := by
  induction headers with
  | nil => rfl
  | cons h headers ih =>
      unfold getHeader firstHeader
      rw [List.find?_cons]
      by_cases same : h.name.map lower = name.map lower
      · rw [if_pos ((iEqual_iff _ _).mpr same), decide_eq_true same]
        rfl
      · rw [if_neg (fun equal => same ((iEqual_iff _ _).mp equal)), decide_eq_false same, ih]
        rfl

theorem trim_field {text : Bytes} (field : IsField text) : trim text = text := by
  have front : text.dropWhile isSpaceTab = text := by
    cases text with
    | nil => rfl
    | cons c rest => rw [List.dropWhile_cons, if_neg (by simp [field.front c rfl])]
  unfold trim
  rw [front]
  have last : text.reverse.dropWhile (fun c => isSpaceTab c || c == carriageReturn) =
      text.reverse := by
    cases backwards : text.reverse with
    | nil => rfl
    | cons c rest =>
        have isLast : text.getLast? = some c := by
          rw [← List.head?_reverse, backwards]
          rfl
        have member : c ∈ text := by
          rw [← List.mem_reverse, backwards]
          exact List.mem_cons_self
        have notReturn : c ≠ carriageReturn := fun same => field.noReturn (same ▸ member)
        rw [List.dropWhile_cons, if_neg (by simp [field.back c isLast, notReturn])]
  rw [last, List.reverse_reverse]

theorem trim_space {text : Bytes} (field : IsField text) : trim (space :: text) = text := by
  have skipped : trim (space :: text) = trim text := by
    unfold trim
    rw [List.dropWhile_cons, if_pos (by decide)]
  rw [skipped, trim_field field]

/-! ### The status line -/

theorem digitByte_value (n : Nat) : (digitByte n - zero).toNat = n % 10 := by
  have value := digitByte_toNat n
  rw [UInt8.toNat_sub_of_le]
  · rw [value]
    change 48 + n % 10 - 48 = n % 10
    omega
  · rw [UInt8.le_iff_toNat_le, value]
    change 48 ≤ 48 + n % 10
    omega

theorem statusDigits_digit {status : Nat} {c : UInt8} (member : c ∈ statusDigits status) :
    isDigit c = true := by
  simp only [statusDigits, List.mem_cons, List.not_mem_nil, or_false] at member
  rcases member with rfl | rfl | rfl
  · exact digitByte_isDigit _
  · exact digitByte_isDigit _
  · exact digitByte_isDigit _

theorem statusLoop_digits (status : Fin 1000) :
    statusLoop (statusDigits status) 0 = .ok (status : Nat) := by
  have bound := status.isLt
  simp only [statusDigits, statusLoop, digitByte_isDigit, if_true, digitByte_value]
  congr 1
  omega

theorem find_first {first : UInt8} {front rest : Bytes} (avoids : first ∉ front) :
    Search.find (front ++ first :: rest) [first] 0 = some front.length := by
  have found : Search.search [first] (front ++ [first] ++ rest) = some front.length :=
    Search.search_found avoids rest
  rw [List.append_assoc] at found
  unfold Search.find
  rw [List.drop_zero]
  exact congrArg (Option.map (· + 0)) found

theorem parseStatusLine_render (r : ResponseText) :
    parseStatusLine r.statusLine = .ok ((r.status : Nat), r.reason) := by
  have noSpace : space ∉ statusDigits r.status := fun member =>
    (digit_plain (statusDigits_digit member)).1 rfl
  have first : Search.find r.statusLine [space] 0 = some r.version.length :=
    find_first r.versionWord.1
  have behind : r.statusLine.drop (r.version.length + 1) =
      statusDigits r.status ++ space :: r.reason := by
    unfold ResponseText.statusLine
    rw [← List.drop_drop, List.drop_left]
    rfl
  have second : Search.find (statusDigits r.status ++ space :: r.reason) [space] 0 = some 3 :=
    find_first noSpace
  have reason : (statusDigits r.status ++ space :: r.reason).drop (3 + 1) = r.reason := rfl
  have code : (statusDigits r.status ++ space :: r.reason).take 3 = statusDigits r.status := rfl
  have three : (statusDigits r.status).length = 3 := rfl
  have again : (statusDigits r.status).take 3 = statusDigits r.status := rfl
  unfold parseStatusLine
  simp only [first, behind, second, code, reason, three, again, statusLoop_digits,
    trim_field r.reasonField]
  rfl

/-! ### The header lines -/

theorem crlf_head : crlf = carriageReturn :: [lineFeed] := rfl

theorem Header.line_plain {h : Header} (name : IsField h.name) (value : IsField h.value) :
    carriageReturn ∉ h.line := by
  unfold Header.line
  intro member
  rcases List.mem_append.mp member with inName | later
  · exact name.noReturn inName
  · simp only [List.mem_cons] at later
    rcases later with impossible | impossible | inValue
    · revert impossible
      decide
    · revert impossible
      decide
    · exact value.noReturn inValue

theorem headerText_cons (h : Header) (headers : List Header) :
    ResponseText.headerText (h :: headers) =
      h.line ++ crlf ++ ResponseText.headerText headers := by
  rw [ResponseText.headerText, List.map_cons, List.flatten_cons]
  rfl

theorem headerLoop_lines (text payload : Bytes) (boundary : Nat) (back : List Header)
    (names : ∀ h ∈ back, IsField h.name ∧ colon ∉ h.name) (values : ∀ h ∈ back, IsField h.value)
    (pos : Nat) (front : List Header)
    (ahead : text.drop pos = ResponseText.headerText back ++ crlf ++ payload)
    (ends : boundary + 2 = pos + (ResponseText.headerText back).length)
    (few : front.length + back.length ≤ maxHeaders) :
    headerLoop text boundary pos front = .ok (front ++ back) := by
  induction back generalizing pos front with
  | nil =>
      rw [ResponseText.headerText, List.map_nil, List.flatten_nil, List.length_nil] at ends
      rw [headerLoop, dif_neg (by omega), List.append_nil]
  | cons h back ih =>
      obtain ⟨name, noColon⟩ := names h List.mem_cons_self
      have value := values h List.mem_cons_self
      have shape := headerText_cons h back
      have nonempty : 0 < h.line.length := by
        simp only [Header.line, List.length_append, List.length_cons]
        omega
      have length : (ResponseText.headerText (h :: back)).length =
          h.line.length + 2 + (ResponseText.headerText back).length := by
        rw [shape, List.length_append, List.length_append]
        rfl
      have lineAhead : text.drop pos =
          h.line ++ crlf ++ (ResponseText.headerText back ++ crlf ++ payload) := by
        rw [ahead, shape]
        simp only [List.append_assoc]
      have stop : lineEnd text boundary pos = pos + h.line.length := by
        have found : Search.find text crlf pos = some (h.line.length + pos) := by
          unfold Search.find
          rw [lineAhead, crlf_head, Search.search_found (Header.line_plain name value)]
          rfl
        unfold lineEnd
        rw [found]
        dsimp only
        rw [if_neg (by omega), Nat.add_comm]
      have hline : (text.drop pos).take (pos + h.line.length - pos) = h.line := by
        rw [Nat.add_sub_cancel_left, lineAhead, List.append_assoc, List.take_left]
      have colonAt : Search.find h.line [colon] 0 = some h.name.length := find_first noColon
      have nameBytes : h.line.take h.name.length = h.name := List.take_left
      have valueBytes : h.line.drop (h.name.length + 1) = space :: h.value := by
        unfold Header.line
        rw [← List.drop_drop, List.drop_left]
        rfl
      have next : text.drop (pos + h.line.length + 2) =
          ResponseText.headerText back ++ crlf ++ payload := by
        rw [Nat.add_assoc, ← List.drop_drop, lineAhead, List.append_assoc, ← List.drop_drop,
          List.drop_left]
        rfl
      have rest := ih (fun other member => names other (List.mem_cons_of_mem _ member))
        (fun other member => values other (List.mem_cons_of_mem _ member))
        (pos + h.line.length + 2) (front ++ [h]) next (by omega)
        (by rw [List.length_append, List.length_singleton]; rw [List.length_cons] at few; omega)
      rw [headerLoop, dif_pos (by omega)]
      dsimp only
      rw [stop, hline, if_neg (List.ne_nil_of_length_pos nonempty), colonAt]
      dsimp only
      rw [List.length_cons] at few
      rw [if_neg (by omega), nameBytes, valueBytes, trim_field name, trim_space value, rest,
        List.append_assoc]
      rfl

/-! ### The end of the head -/

theorem crlf_of_plain {line : Bytes} (plain : carriageReturn ∉ line) : ¬crlf <:+: line := by
  intro occurs
  exact plain (occurs.subset List.mem_cons_self)

theorem ResponseText.statusLine_plain (r : ResponseText) : carriageReturn ∉ r.statusLine := by
  unfold ResponseText.statusLine
  intro member
  rcases List.mem_append.mp member with inVersion | later
  · exact r.versionWord.2.1 inVersion
  · rcases List.mem_cons.mp later with impossible | later
    · revert impossible
      decide
    · rcases List.mem_append.mp later with inDigits | later
      · exact (digit_plain (statusDigits_digit inDigits)).2.1 rfl
      · rcases List.mem_cons.mp later with impossible | inReason
        · revert impossible
          decide
        · exact r.reasonField.noReturn inReason

theorem ResponseText.find_boundary (r : ResponseText) :
    Search.find r.render (crlf ++ crlf) 0 =
      some (r.statusLine.length + (ResponseText.headerText r.headers).length) := by
  have lines : r.statusLine ++ crlf ++ ResponseText.headerText r.headers =
      joinLines r.statusLine (r.headers.map Header.line) ++ crlf := by
    rw [← joinLines_end, List.map_cons, List.flatten_cons, ResponseText.headerText, List.map_map]
    rfl
  have found := search_head r.statusLine (r.headers.map Header.line) (r.body ++ r.extra)
    (by
      intro line member
      rcases List.mem_cons.mp member with first | later
      · rw [first]
        exact crlf_of_plain r.statusLine_plain
      · obtain ⟨h, inHeaders, rfl⟩ := List.mem_map.mp later
        exact crlf_of_plain
          (Header.line_plain (r.nameField h inHeaders).1 (r.valueField h inHeaders)))
    (by
      intro line member
      obtain ⟨h, inHeaders, rfl⟩ := List.mem_map.mp member
      simp [Header.line])
  have lengths := congrArg List.length lines
  simp only [List.length_append] at lengths
  unfold Search.find
  rw [List.drop_zero, ResponseText.render, lines, List.append_assoc, List.append_assoc, found,
    Option.map_some]
  congr 1
  omega

theorem ResponseText.find_line (r : ResponseText) :
    Search.find r.render crlf 0 = some r.statusLine.length := by
  have found : Search.search crlf
      (r.statusLine ++ crlf ++
        (ResponseText.headerText r.headers ++ (crlf ++ (r.body ++ r.extra)))) =
      some r.statusLine.length :=
    Search.search_found r.statusLine_plain _
  unfold Search.find ResponseText.render
  rw [List.drop_zero, List.append_assoc, List.append_assoc, found]
  rfl

/-! ### The body -/

theorem lengthLoop_decimal (digits : Bytes) (len : Nat)
    (decimal : ∀ c ∈ digits, isDigit c = true) :
    lengthLoop digits (len % 2 ^ 64) =
      some (digits.foldl (fun value c => value * 10 + (c - zero).toNat) len % 2 ^ 64) := by
  induction digits generalizing len with
  | nil => rfl
  | cons c digits ih =>
      have wrapped : (len % 2 ^ 64 * 10 + (c - zero).toNat) % 2 ^ 64 =
          (len * 10 + (c - zero).toNat) % 2 ^ 64 := by omega
      rw [lengthLoop, if_pos (decimal c List.mem_cons_self), wrapped, List.foldl_cons,
        ih _ (fun d member => decimal d (List.mem_cons_of_mem _ member))]

theorem ResponseText.frameBody_eq (r : ResponseText) (small : r.body.length < 2 ^ 64) :
    frameBody (getHeader r.headers contentLengthName) (r.body ++ r.extra) =
      (r.body,
        (firstHeader r.headers contentLengthName).map (fun _ => r.body.length)) := by
  rw [getHeader_eq]
  rcases r.framed with ⟨h, first, decimal⟩ | ⟨absent, noExtra⟩
  · have parsed := lengthLoop_decimal h.value 0 decimal.digits
    rw [decimal.denotes, Nat.zero_mod, Nat.mod_eq_of_lt small] at parsed
    rw [first]
    unfold frameBody
    rw [Option.map_some, Option.getD_some, if_neg decimal.nonempty, parsed]
    dsimp only
    by_cases more : r.body.length < (r.body ++ r.extra).length
    · rw [if_pos more, List.take_left]
      rfl
    · have noExtra : r.extra = [] := by
        apply List.length_eq_zero_iff.mp
        rw [List.length_append] at more
        omega
      rw [if_neg more, noExtra, List.append_nil]
      rfl
  · rw [absent, noExtra, List.append_nil]
    rfl

theorem parseResponse_render (r : ResponseText) (small : r.render.length < 2 ^ 64) :
    parseResponse r.render = .ok r.response ∧
      ∀ name, getHeader r.response.headers name =
        ((firstHeader r.headers name).map Header.value).getD [] := by
  refine ⟨?_, fun name => getHeader_eq r.headers name⟩
  have ahead : r.render.drop (r.statusLine.length + 2) =
      ResponseText.headerText r.headers ++ crlf ++ (r.body ++ r.extra) := by
    unfold ResponseText.render
    rw [← List.drop_drop, List.append_assoc, List.append_assoc, List.append_assoc,
      List.append_assoc, List.drop_left]
    simp [crlf]
  have line : r.render.take r.statusLine.length = r.statusLine := by
    unfold ResponseText.render
    rw [List.append_assoc, List.append_assoc, List.append_assoc, List.take_left]
  have payload : r.render.drop
      (r.statusLine.length + (ResponseText.headerText r.headers).length + 4) =
        r.body ++ r.extra := by
    have boundary : r.statusLine.length + (ResponseText.headerText r.headers).length + 4 =
        r.statusLine.length + 2 + ((ResponseText.headerText r.headers).length + 2) := by
      omega
    rw [boundary, ← List.drop_drop, ahead, List.append_assoc, ← List.drop_drop, List.drop_left]
    rfl
  have shorter : r.body.length < 2 ^ 64 := by
    simp only [ResponseText.render, List.length_append] at small
    omega
  have headers := headerLoop_lines r.render (r.body ++ r.extra)
    (r.statusLine.length + (ResponseText.headerText r.headers).length) r.headers r.nameField
    r.valueField (r.statusLine.length + 2) [] ahead (by omega) (by simpa using r.few)
  rw [List.nil_append] at headers
  unfold parseResponse
  rw [r.find_boundary]
  dsimp only
  rw [r.find_line, Option.getD_some, line, parseStatusLine_render]
  dsimp only
  rw [headers]
  dsimp only
  rw [payload, r.frameBody_eq shorter]
  rfl

/-- "HTTP/1.1 200 OK" with the header "content-length: 6", a body that holds
CRLFCRLF and two bytes behind it. -/
def sampleResponse : ResponseText :=
  { version := [0x48, 0x54, 0x54, 0x50, 0x2f, 0x31, 0x2e, 0x31]
    status := 200
    reason := [0x4f, 0x4b]
    headers :=
      [{ name := [0x63, 0x6f, 0x6e, 0x74, 0x65, 0x6e, 0x74, 0x2d, 0x6c, 0x65,
            0x6e, 0x67, 0x74, 0x68]
         value := [0x36] }]
    body := [0x61, 0x0d, 0x0a, 0x0d, 0x0a, 0x62]
    extra := [0x78, 0x79]
    versionWord := by decide
    reasonField :=
      ⟨by decide, by decide, by simp [isSpaceTab, space, tab], by simp [isSpaceTab, space, tab]⟩
    nameField := by
      intro h member
      rw [List.mem_singleton.mp member]
      refine ⟨?_, by decide⟩
      exact
        ⟨by decide, by decide, by simp [isSpaceTab, space, tab], by simp [isSpaceTab, space, tab]⟩
    valueField := by
      intro h member
      rw [List.mem_singleton.mp member]
      exact
        ⟨by decide, by decide, by simp [isSpaceTab, space, tab], by simp [isSpaceTab, space, tab]⟩
    few := by decide
    framed := Or.inl ⟨_, rfl, ⟨by decide, by simp [isDigit, zero, nine], rfl⟩⟩ }

theorem parseResponse_render_sample :
    sampleResponse.render.length < 2 ^ 64 ∧
      parseResponse sampleResponse.render = .ok sampleResponse.response ∧
      getHeader sampleResponse.response.headers contentLengthName = [0x36] := by
  have parsed := parseResponse_render sampleResponse (by decide)
  exact ⟨by decide, parsed.1, parsed.2 contentLengthName⟩

end Etlx.Http
