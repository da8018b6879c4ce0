/-
`ParseResponse` by positions.

Here a view is where it starts in the buffer and how long it is, and every access
is checked: `none` stands for one outside the buffer or outside the view it is
made through. The parser never makes such an access, and its views show the bytes
that the model of the contents reports.
-/

import Etlx.Http.HeaderLines

namespace Etlx.Http

open Ascii

/-! ### Views -/

/-- A `string_view` or a span into the buffer; a default one is empty at the front. -/
structure View where
  start : Nat
  size : Nat
deriving DecidableEq, Repr

def View.null : View := { start := 0, size := 0 }

def View.whole (raw : Bytes) : View := { start := 0, size := raw.length }

def View.Inside (v : View) (raw : Bytes) : Prop := v.start + v.size ≤ raw.length

instance (v : View) (raw : Bytes) : Decidable (v.Inside raw) :=
  inferInstanceAs (Decidable (_ ≤ _))

def View.shows (v : View) (raw : Bytes) : Bytes := (raw.drop v.start).take v.size

def View.get (v : View) (raw : Bytes) (i : Nat) : Option UInt8 :=
  if i < v.size then raw[v.start + i]? else none

def View.read (v : View) (raw : Bytes) : Option Bytes :=
  if v.Inside raw then some (v.shows raw) else none

/-- `substr`: an empty view where `position` is not in the view. -/
def View.substr (v : View) (position count : Nat) : View :=
  if position < v.size then
    { start := v.start + position, size := min count (v.size - position) }
  else .null

def View.find (v : View) (raw pattern : Bytes) (pos : Nat) : Option (Option Nat) :=
  if pos ≤ v.size then (v.read raw).map (fun text => Search.find text pattern pos) else none

def View.trimFront (v : View) (raw : Bytes) (b e : Nat) : Option Nat :=
  if b < e then
    match v.get raw b with
    | none => none
    | some c => if isSpaceTab c then v.trimFront raw (b + 1) e else some b
  else some b
termination_by e - b

def View.trimBack (v : View) (raw : Bytes) (b e : Nat) : Option Nat :=
  if b < e then
    match v.get raw (e - 1) with
    | none => none
    | some c =>
        if isSpaceTab c || c == carriageReturn then v.trimBack raw b (e - 1) else some e
  else some e
termination_by e - b

def View.trim (v : View) (raw : Bytes) : Option View := do
  let b ← v.trimFront raw 0 v.size
  let e ← v.trimBack raw b v.size
  return v.substr b (e - b)

/-! ### The parser -/

structure HeaderView where
  name : View
  value : View

structure ResponseView where
  status : Nat
  reason : View
  headers : List HeaderView
  body : View
  contentLength : Option Nat

def View.statusLoop (code : View) (raw : Bytes) (i : Nat) : Nat → Nat → Option (Result Nat)
  | 0, status => some (.ok status)
  | left + 1, status =>
      match code.get raw i with
      | none => none
      | some c =>
          if isDigit c then code.statusLoop raw (i + 1) left (status * 10 + (c - zero).toNat)
          else some (fail category Code.malformed.value "non-digit status")

def View.parseStatusLine (line : View) (raw : Bytes) : Option (Result (Nat × View)) := do
  match ← line.find raw [space] 0 with
  | none => return fail category Code.malformed.value "no status code"
  | some sp1 =>
      let rest := line.substr (sp1 + 1) line.size
      let sp2 ← rest.find raw [space] 0
      let code := match sp2 with
        | none => rest
        | some sp2 => rest.substr 0 sp2
      if code.size < 3 then return fail category Code.malformed.value "bad status code"
      else
        match ← code.statusLoop raw 0 3 0 with
        | .error e => return .error e
        | .ok status =>
            match sp2 with
            | none => return .ok (status, .null)
            | some sp2 =>
                let reason ← (rest.substr (sp2 + 1) rest.size).trim raw
                return .ok (status, reason)

def clipEnd (boundary : Nat) : Option Nat → Nat
  | none => boundary
  | some eol => if boundary < eol then boundary else eol

theorem View.find_ge {v : View} {raw pattern : Bytes} {pos : Nat} {found : Option Nat}
    (hit : v.find raw pattern pos = some found) : ∀ eol ∈ found, pos ≤ eol := by
  unfold View.find at hit
  split at hit
  · obtain ⟨text, -, rfl⟩ := Option.map_eq_some_iff.mp hit
    intro eol inText
    exact Search.find_ge inText
  · cases hit

theorem clipEnd_ge {boundary pos : Nat} {found : Option Nat} (before : pos < boundary)
    (later : ∀ eol ∈ found, pos ≤ eol) : pos ≤ clipEnd boundary found := by
  cases found with
  | none => exact Nat.le_of_lt before
  | some eol =>
      change pos ≤ if boundary < eol then boundary else eol
      split
      · exact Nat.le_of_lt before
      · exact later eol rfl

/-- The colon of a header line and the views around it; `none` inside for a junk line. -/
def View.cut (hline : View) (raw : Bytes) : Option (Option HeaderView) := do
  match ← hline.find raw [colon] 0 with
  | none => return none
  | some c =>
      let name ← (hline.substr 0 c).trim raw
      let value ← (hline.substr (c + 1) hline.size).trim raw
      return some { name := name, value := value }

def View.headerLoop (text : View) (raw : Bytes) (boundary pos : Nat) (headers : List HeaderView) :
    Option (Result (List HeaderView)) :=
  if _before : pos < boundary then
    match _hit : text.find raw crlf pos with
    | none => none
    | some found =>
        let eol := clipEnd boundary found
        let hline := text.substr pos (eol - pos)
        if hline.size = 0 then some (.ok headers)
        else
          match hline.cut raw with
          | none => none
          | some none => text.headerLoop raw boundary (eol + 2) headers
          | some (some header) =>
              if maxHeaders ≤ headers.length then
                some (fail category Code.tooManyHeaders.value "too many headers")
              else text.headerLoop raw boundary (eol + 2) (headers ++ [header])
  else some (.ok headers)
termination_by boundary - pos
decreasing_by
  all_goals
    have forward := clipEnd_ge _before (View.find_ge _hit)
    omega

def getHeaderView (raw : Bytes) (headers : List HeaderView) (name : Bytes) : Option View :=
  match headers with
  | [] => some .null
  | h :: rest =>
      match h.name.read raw with
      | none => none
      | some text => if iEqual text name then some h.value else getHeaderView raw rest name

def View.frame (cl : View) (raw : Bytes) (body : View) : Option (View × Option Nat) :=
  if cl.size = 0 then some (body, none)
  else
    match cl.read raw with
    | none => none
    | some digits =>
        match lengthLoop digits 0 with
        | none => some (body, none)
        | some len => some (if len < body.size then { body with size := len } else body, some len)

/-- `ParseResponse`. The span of the body is a range only where `raw.size() - body_start`
does not wrap. -/
def parseViews (raw : Bytes) : Option (Result ResponseView) := do
  let text := View.whole raw
  match ← text.find raw (crlf ++ crlf) 0 with
  | none => return fail category Code.incomplete.value "headers not terminated"
  | some boundary =>
      let lineStop := (← text.find raw crlf 0).getD raw.length
      match ← (text.substr 0 lineStop).parseStatusLine raw with
      | .error e => return .error e
      | .ok (status, reason) =>
          match ← text.headerLoop raw boundary (lineStop + 2) [] with
          | .error e => return .error e
          | .ok headers =>
              if raw.length < boundary + 4 then none
              else
                let body : View := { start := boundary + 4, size := raw.length - (boundary + 4) }
                let cl ← getHeaderView raw headers contentLengthName
                let framed ← cl.frame raw body
                return .ok
                  { status := status
                    reason := reason
                    headers := headers
                    body := framed.1
                    contentLength := framed.2 }

/-! ### What the views show -/

theorem View.null_inside (raw : Bytes) : View.null.Inside raw := Nat.zero_le _

theorem View.shows_length {v : View} {raw : Bytes} (inside : v.Inside raw) :
    (v.shows raw).length = v.size := by
  unfold View.Inside at inside
  rw [View.shows, List.length_take, List.length_drop]
  omega

theorem View.shows_nil_iff {v : View} {raw : Bytes} (inside : v.Inside raw) :
    v.shows raw = [] ↔ v.size = 0 := by
  rw [← View.shows_length inside, List.length_eq_zero_iff]

theorem View.read_inside {v : View} {raw : Bytes} (inside : v.Inside raw) :
    v.read raw = some (v.shows raw) := if_pos inside

theorem View.get_inside {v : View} {raw : Bytes} (inside : v.Inside raw) {i : Nat}
    (within : i < v.size) :
    ∃ c, v.get raw i = some c ∧ (v.shows raw).drop i = c :: (v.shows raw).drop (i + 1) ∧
      (v.shows raw).take (i + 1) = (v.shows raw).take i ++ [c] := by
  have long : i < (v.shows raw).length := by
    rw [View.shows_length inside]
    exact within
  refine ⟨(v.shows raw)[i], ?_, List.drop_eq_getElem_cons long, ?_⟩
  · rw [View.get, if_pos within, ← List.getElem?_eq_getElem long, View.shows,
      List.getElem?_take_of_lt within, List.getElem?_drop]
  · exact (List.take_append_getElem long).symm

theorem View.find_inside {v : View} {raw : Bytes} (inside : v.Inside raw) (pattern : Bytes)
    {pos : Nat} (within : pos ≤ v.size) :
    v.find raw pattern pos = some (Search.find (v.shows raw) pattern pos) := by
  rw [View.find, if_pos within, View.read_inside inside, Option.map_some]

theorem View.substr_inside {v : View} {raw : Bytes} (inside : v.Inside raw) (position count : Nat) :
    (v.substr position count).Inside raw := by
  unfold View.Inside at inside
  unfold View.substr
  split
  · unfold View.Inside
    dsimp only
    omega
  · exact View.null_inside raw

theorem View.substr_shows {v : View} {raw : Bytes} (inside : v.Inside raw) (position count : Nat) :
    (v.substr position count).shows raw = ((v.shows raw).drop position).take count := by
  have length := View.shows_length inside
  unfold View.substr
  split
  · next within =>
      rw [View.shows, View.shows, List.drop_take, List.take_take, List.drop_drop]
  · next past =>
      rw [List.drop_eq_nil_of_le (by omega), List.take_nil]
      exact List.take_zero

theorem View.from_shows {v : View} {raw : Bytes} (inside : v.Inside raw) (position : Nat) :
    (v.substr position v.size).shows raw = (v.shows raw).drop position := by
  rw [View.substr_shows inside, List.take_of_length_le]
  rw [List.length_drop, View.shows_length inside]
  omega

theorem View.trimFront_eq {v : View} {raw : Bytes} (inside : v.Inside raw) (b : Nat)
    (bound : b ≤ v.size) :
    ∃ b', v.trimFront raw b v.size = some b' ∧ b' ≤ v.size ∧
      (v.shows raw).drop b' = ((v.shows raw).drop b).dropWhile isSpaceTab := by
  rw [View.trimFront]
  by_cases before : b < v.size
  · obtain ⟨c, read, ahead, -⟩ := View.get_inside inside before
    rw [if_pos before, read, ahead, List.dropWhile_cons]
    dsimp only
    by_cases blank : isSpaceTab c = true
    · rw [if_pos blank, if_pos blank]
      exact View.trimFront_eq inside (b + 1) before
    · rw [if_neg blank, if_neg blank]
      exact ⟨b, rfl, bound, ahead⟩
  · rw [if_neg before]
    have ended : (v.shows raw).drop b = [] := by
      apply List.drop_eq_nil_of_le
      rw [View.shows_length inside]
      omega
    exact ⟨b, rfl, bound, by rw [ended, List.dropWhile_nil]⟩
termination_by v.size - b

theorem View.trimBack_eq {v : View} {raw : Bytes} (inside : v.Inside raw) (b e : Nat)
    (low : b ≤ e) (high : e ≤ v.size) :
    ∃ e', v.trimBack raw b e = some e' ∧ b ≤ e' ∧
      (((v.shows raw).take e').drop b).reverse =
        (((v.shows raw).take e).drop b).reverse.dropWhile
          (fun c => isSpaceTab c || c == carriageReturn) := by
  rw [View.trimBack]
  by_cases before : b < e
  · obtain ⟨c, read, -, front⟩ := View.get_inside inside (show e - 1 < v.size by omega)
    have back : (((v.shows raw).take e).drop b).reverse =
        c :: (((v.shows raw).take (e - 1)).drop b).reverse := by
      rw [Nat.sub_add_cancel (by omega)] at front
      rw [front, List.drop_append_of_le_length, List.reverse_append]
      · rfl
      · rw [List.length_take, View.shows_length inside]
        omega
    rw [if_pos before, read, back, List.dropWhile_cons]
    dsimp only
    by_cases blank : (isSpaceTab c || c == carriageReturn) = true
    · rw [if_pos blank, if_pos blank]
      exact View.trimBack_eq inside b (e - 1) (by omega) (by omega)
    · rw [if_neg blank, if_neg blank]
      exact ⟨e, rfl, low, back⟩
  · rw [if_neg before]
    have none : ((v.shows raw).take e).drop b = [] := by
      apply List.drop_eq_nil_of_le
      rw [List.length_take]
      omega
    exact ⟨e, rfl, low, by rw [none, List.reverse_nil, List.dropWhile_nil]⟩
termination_by e - b

theorem View.trim_eq {v : View} {raw : Bytes} (inside : v.Inside raw) :
    ∃ t, v.trim raw = some t ∧ t.Inside raw ∧ t.shows raw = Http.trim (v.shows raw) := by
  obtain ⟨b, first, within, front⟩ := View.trimFront_eq inside 0 (Nat.zero_le _)
  obtain ⟨e, second, low, back⟩ := View.trimBack_eq inside b v.size within (Nat.le_refl _)
  refine ⟨v.substr b (e - b), ?_, View.substr_inside inside _ _, ?_⟩
  · rw [View.trim, first, Option.bind_eq_bind, Option.bind_some, second]
    rfl
  · rw [List.take_of_length_le (Nat.le_of_eq (View.shows_length inside)), front,
      List.drop_zero] at back
    rw [View.substr_shows inside, ← List.drop_take, Http.trim, ← back, List.reverse_reverse]

theorem View.statusLoop_eq {code : View} {raw : Bytes} (inside : code.Inside raw) (left i : Nat)
    (bound : i + left ≤ code.size) (status : Nat) :
    code.statusLoop raw i left status =
      some (Http.statusLoop (((code.shows raw).drop i).take left) status) := by
  induction left generalizing i status with
  | zero =>
      rw [List.take_zero]
      rfl
  | succ left ih =>
      obtain ⟨c, read, ahead, -⟩ := View.get_inside inside (show i < code.size by omega)
      rw [View.statusLoop, read, ahead, List.take_succ_cons, Http.statusLoop]
      dsimp only
      by_cases digit : isDigit c = true
      · rw [if_pos digit, if_pos digit, ih (i + 1) (by omega)]
      · rw [if_neg digit, if_neg digit]

/-! ### The parser makes no access outside -/

/-- A run whose accesses are all inside, with a good result that shows what the model of
the contents computes, or with its error. -/
inductive Agrees {α β : Type} (good : α → Prop) (shown : α → β) :
    Option (Result α) → Result β → Prop
  | ok {a : α} (isGood : good a) : Agrees good shown (some (.ok a)) (.ok (shown a))
  | error (e : Error) : Agrees good shown (some (.error e)) (.error e)

theorem Agrees.ok_result {α β : Type} {good : α → Prop} {shown : α → β}
    {outcome : Option (Result α)} {b : β} (agrees : Agrees good shown outcome (.ok b)) :
    ∃ a, outcome = some (.ok a) ∧ good a ∧ shown a = b := by
  cases agrees with
  | ok isGood => exact ⟨_, rfl, isGood, rfl⟩

theorem Agrees.error_result {α β : Type} {good : α → Prop} {shown : α → β}
    {outcome : Option (Result α)} {e : Error} (agrees : Agrees good shown outcome (.error e)) :
    outcome = some (.error e) := by
  cases agrees with
  | error => rfl

structure HeaderView.Inside (h : HeaderView) (raw : Bytes) : Prop where
  name : h.name.Inside raw
  value : h.value.Inside raw

def HeaderView.shows (h : HeaderView) (raw : Bytes) : Header :=
  { name := h.name.shows raw, value := h.value.shows raw }

structure ResponseView.Inside (r : ResponseView) (raw : Bytes) : Prop where
  reason : r.reason.Inside raw
  headers : ∀ h ∈ r.headers, h.Inside raw
  body : r.body.Inside raw

def ResponseView.shows (r : ResponseView) (raw : Bytes) : Response :=
  { status := r.status
    reason := r.reason.shows raw
    headers := r.headers.map (HeaderView.shows · raw)
    body := r.body.shows raw
    contentLength := r.contentLength }

theorem View.statusCode_agrees {code : View} {raw : Bytes} (inside : code.Inside raw)
    {α β : Type} {good : α → Prop} {shown : α → β} {viewed : Nat → Option (Result α)}
    {plain : Nat → β} (agrees : ∀ status, Agrees good shown (viewed status) (.ok (plain status))) :
    Agrees good shown
      (if code.size < 3 then some (fail category Code.malformed.value "bad status code")
      else
        (code.statusLoop raw 0 3 0).bind fun
          | .error e => some (.error e)
          | .ok status => viewed status)
      (if (code.shows raw).length < 3 then fail category Code.malformed.value "bad status code"
      else
        match Http.statusLoop ((code.shows raw).take 3) 0 with
        | .error e => .error e
        | .ok status => .ok (plain status)) := by
  rw [View.shows_length inside]
  by_cases short : code.size < 3
  · rw [if_pos short, if_pos short]
    exact .error _
  · rw [if_neg short, if_neg short, View.statusLoop_eq inside 3 0 (by omega), List.drop_zero,
      Option.bind_some]
    cases Http.statusLoop ((code.shows raw).take 3) 0 with
    | error e => exact .error e
    | ok status => exact agrees status

theorem View.parseStatusLine_agrees {line : View} {raw : Bytes} (inside : line.Inside raw) :
    Agrees (fun parsed : Nat × View => parsed.2.Inside raw)
      (fun parsed => (parsed.1, parsed.2.shows raw)) (line.parseStatusLine raw)
      (Http.parseStatusLine (line.shows raw)) := by
  unfold View.parseStatusLine Http.parseStatusLine
  rw [View.find_inside inside [space] (Nat.zero_le _)]
  simp only [Option.bind_eq_bind, Option.bind_some]
  cases Search.find (line.shows raw) [space] 0 with
  | none => exact .error _
  | some sp1 =>
      dsimp only
      have restInside := View.substr_inside inside (sp1 + 1) line.size
      have rest := View.from_shows inside (sp1 + 1)
      generalize line.substr (sp1 + 1) line.size = view at restInside rest ⊢
      rw [← rest, View.find_inside restInside [space] (Nat.zero_le _), Option.bind_some]
      cases Search.find (view.shows raw) [space] 0 with
      | none => exact View.statusCode_agrees restInside (fun _ => .ok (View.null_inside raw))
      | some sp2 =>
          have codeInside := View.substr_inside restInside 0 sp2
          have code := View.substr_shows restInside 0 sp2
          rw [List.drop_zero] at code
          obtain ⟨reason, trimmed, reasonInside, shown⟩ :=
            View.trim_eq (View.substr_inside restInside (sp2 + 1) view.size)
          rw [View.from_shows restInside] at shown
          simp only [← code, trimmed, ← shown]
          exact View.statusCode_agrees codeInside (fun _ => .ok reasonInside)

theorem View.cut_eq {hline : View} {raw : Bytes} (inside : hline.Inside raw) :
    ∃ cut, hline.cut raw = some cut ∧ (∀ h ∈ cut, h.Inside raw) ∧
      cut.map (HeaderView.shows · raw) =
        (Search.find (hline.shows raw) [colon] 0).map (fun c =>
          { name := Http.trim ((hline.shows raw).take c)
            value := Http.trim ((hline.shows raw).drop (c + 1)) }) := by
  unfold View.cut
  rw [View.find_inside inside [colon] (Nat.zero_le _)]
  simp only [Option.bind_eq_bind, Option.bind_some]
  cases Search.find (hline.shows raw) [colon] 0 with
  | none => exact ⟨none, rfl, fun h impossible => (Option.not_mem_none h impossible).elim, rfl⟩
  | some c =>
      obtain ⟨name, trimmedName, nameInside, nameShown⟩ :=
        View.trim_eq (View.substr_inside inside 0 c)
      obtain ⟨value, trimmedValue, valueInside, valueShown⟩ :=
        View.trim_eq (View.substr_inside inside (c + 1) hline.size)
      rw [View.substr_shows inside, List.drop_zero] at nameShown
      rw [View.from_shows inside] at valueShown
      refine ⟨some { name := name, value := value }, ?_, ?_, ?_⟩
      · dsimp only
        rw [trimmedName, trimmedValue]
        rfl
      · intro h same
        cases same
        exact ⟨nameInside, valueInside⟩
      · rw [Option.map_some, Option.map_some, HeaderView.shows, nameShown, valueShown]

theorem View.whole_inside (raw : Bytes) : (View.whole raw).Inside raw :=
  Nat.le_of_eq (Nat.zero_add _)

theorem View.whole_shows (raw : Bytes) : (View.whole raw).shows raw = raw := List.take_length

theorem View.headerLoop_agrees {raw : Bytes} {boundary : Nat} (fits : boundary ≤ raw.length)
    (pos : Nat) (headers : List HeaderView) (inside : ∀ h ∈ headers, h.Inside raw) :
    Agrees (fun headers : List HeaderView => ∀ h ∈ headers, h.Inside raw)
      (fun headers => headers.map (HeaderView.shows · raw))
      ((View.whole raw).headerLoop raw boundary pos headers)
      (Http.headerLoop raw boundary pos (headers.map (HeaderView.shows · raw))) := by
  rw [View.headerLoop, Http.headerLoop]
  by_cases before : pos < boundary
  · rw [dif_pos before, dif_pos before]
    have found := View.find_inside (View.whole_inside raw) crlf
      (show pos ≤ (View.whole raw).size from Nat.le_trans (Nat.le_of_lt before) fits)
    rw [View.whole_shows] at found
    have stop : clipEnd boundary (Search.find raw crlf pos) = lineEnd raw boundary pos := rfl
    split
    · next impossible =>
        rw [found] at impossible
        cases impossible
    · next result hit =>
        rw [found] at hit
        cases hit
        dsimp only
        rw [stop]
        have lineInside := View.substr_inside (View.whole_inside raw) pos
          (lineEnd raw boundary pos - pos)
        have line := View.substr_shows (View.whole_inside raw) pos
          (lineEnd raw boundary pos - pos)
        rw [View.whole_shows] at line
        generalize (View.whole raw).substr pos (lineEnd raw boundary pos - pos) = hline
          at lineInside line ⊢
        have forward : pos ≤ lineEnd raw boundary pos := lineEnd_ge before
        obtain ⟨cut, cutAt, cutInside, shown⟩ := View.cut_eq lineInside
        rw [← line, cutAt]
        by_cases blank : hline.size = 0
        · rw [if_pos blank, if_pos ((View.shows_nil_iff lineInside).mpr blank)]
          exact .ok inside
        · rw [if_neg blank,
            if_neg (fun nothing => blank ((View.shows_nil_iff lineInside).mp nothing))]
          cases colonAt : Search.find (hline.shows raw) [colon] 0 with
          | none =>
              rw [colonAt, Option.map_none, Option.map_eq_none_iff] at shown
              subst shown
              exact View.headerLoop_agrees fits _ headers inside
          | some c =>
              rw [colonAt, Option.map_some] at shown
              obtain ⟨header, rfl, header_shown⟩ := Option.map_eq_some_iff.mp shown
              dsimp only
              rw [List.length_map]
              by_cases full : maxHeaders ≤ headers.length
              · rw [if_pos full, if_pos full]
                exact .error _
              · rw [if_neg full, if_neg full, ← header_shown]
                have more : ∀ h ∈ headers ++ [header], h.Inside raw := by
                  intro h member
                  rcases List.mem_append.mp member with earlier | last
                  · exact inside h earlier
                  · rw [List.mem_singleton.mp last]
                    exact cutInside header rfl
                have next := View.headerLoop_agrees fits (lineEnd raw boundary pos + 2)
                  (headers ++ [header]) more
                rw [List.map_append] at next
                exact next
  · rw [dif_neg before, dif_neg before]
    exact .ok inside
termination_by boundary - pos

theorem getHeaderView_eq {raw : Bytes} (headers : List HeaderView)
    (inside : ∀ h ∈ headers, h.Inside raw) (name : Bytes) :
    ∃ v, getHeaderView raw headers name = some v ∧ v.Inside raw ∧
      v.shows raw = getHeader (headers.map (HeaderView.shows · raw)) name := by
  induction headers with
  | nil => exact ⟨.null, rfl, View.null_inside raw, rfl⟩
  | cons h headers ih =>
      have first := inside h List.mem_cons_self
      rw [getHeaderView, View.read_inside first.name, List.map_cons, getHeader]
      dsimp only
      by_cases same : iEqual (h.name.shows raw) name = true
      · rw [if_pos same]
        exact ⟨h.value, rfl, first.value, (if_pos same).symm⟩
      · obtain ⟨v, got, valueInside, shown⟩ :=
          ih (fun other member => inside other (List.mem_cons_of_mem _ member))
        rw [if_neg same]
        exact ⟨v, got, valueInside, shown.trans (if_neg same).symm⟩

theorem View.frame_eq {cl body : View} {raw : Bytes} (inside : cl.Inside raw)
    (bodyInside : body.Inside raw) :
    ∃ framed, cl.frame raw body = some framed ∧ framed.1.Inside raw ∧
      framed.1.start = body.start ∧
      (framed.1.shows raw, framed.2) = frameBody (cl.shows raw) (body.shows raw) := by
  have long := View.shows_length bodyInside
  unfold View.frame frameBody
  by_cases blank : cl.size = 0
  · rw [if_pos blank, if_pos ((View.shows_nil_iff inside).mpr blank)]
    exact ⟨_, rfl, bodyInside, rfl, rfl⟩
  · rw [if_neg blank, if_neg (fun nothing => blank ((View.shows_nil_iff inside).mp nothing)),
      View.read_inside inside]
    dsimp only
    cases lengthLoop (cl.shows raw) 0 with
    | none => exact ⟨_, rfl, bodyInside, rfl, rfl⟩
    | some len =>
        dsimp only
        rw [long]
        by_cases shorter : len < body.size
        · rw [if_pos shorter, if_pos shorter]
          refine ⟨_, rfl, ?_, rfl, ?_⟩
          · unfold View.Inside at bodyInside ⊢
            dsimp only
            omega
          · rw [View.shows, View.shows, List.take_take, Nat.min_eq_left (Nat.le_of_lt shorter)]
        · rw [if_neg shorter, if_neg shorter]
          exact ⟨_, rfl, bodyInside, rfl, rfl⟩

/-- Views into the buffer, of which the body starts behind the first blank line. -/
def ResponseView.Good (raw : Bytes) (r : ResponseView) : Prop :=
  r.Inside raw ∧
    ∀ boundary, Search.search (crlf ++ crlf) raw = some boundary → r.body.start = boundary + 4

theorem parseViews_agrees (raw : Bytes) :
    Agrees (ResponseView.Good raw) (ResponseView.shows · raw) (parseViews raw)
      (parseResponse raw) := by
  have whole := View.whole_inside raw
  have find (pattern : Bytes) : (View.whole raw).find raw pattern 0 =
      some (Search.find raw pattern 0) := by
    rw [View.find_inside whole pattern (Nat.zero_le _), View.whole_shows]
  unfold parseViews parseResponse
  simp only [find, Option.bind_eq_bind, Option.bind_some]
  cases found : Search.find raw (crlf ++ crlf) 0 with
  | none => exact .error _
  | some boundary =>
      dsimp only
      have search := found
      rw [find_zero] at search
      have fits : boundary + 4 ≤ raw.length := (Search.search_some search).1
      generalize (Search.find raw crlf 0).getD raw.length = lineStop
      have status := View.parseStatusLine_agrees (View.substr_inside whole 0 lineStop)
      rw [View.substr_shows whole, View.whole_shows, List.drop_zero] at status
      generalize ((View.whole raw).substr 0 lineStop).parseStatusLine raw = viewed at status ⊢
      generalize Http.parseStatusLine (raw.take lineStop) = plain at status ⊢
      cases status with
      | error e => exact .error e
      | @ok parsed reasonInside =>
          simp only [Option.bind_some]
          have loop := View.headerLoop_agrees (Nat.le_trans (Nat.le_add_right _ 4) fits)
            (lineStop + 2) [] (fun h impossible => (List.not_mem_nil impossible).elim)
          rw [List.map_nil] at loop
          generalize (View.whole raw).headerLoop raw boundary (lineStop + 2) [] = viewed at loop ⊢
          generalize Http.headerLoop raw boundary (lineStop + 2) [] = plain at loop ⊢
          cases loop with
          | error e => exact .error e
          | @ok headers headersInside =>
              let body : View := { start := boundary + 4, size := raw.length - (boundary + 4) }
              have bodyInside : body.Inside raw := by
                change boundary + 4 + (raw.length - (boundary + 4)) ≤ raw.length
                omega
              have bodyShows : body.shows raw = raw.drop (boundary + 4) := by
                rw [View.shows, List.take_of_length_le (Nat.le_of_eq List.length_drop)]
              obtain ⟨cl, got, clInside, clShows⟩ :=
                getHeaderView_eq headers headersInside contentLengthName
              obtain ⟨framed, cut, framedInside, starts, shown⟩ :=
                View.frame_eq clInside bodyInside
              rw [clShows, bodyShows] at shown
              simp only [Option.bind_some]
              rw [if_neg (Nat.not_lt.mpr fits), got, Option.bind_some, cut, Option.bind_some,
                ← shown]
              refine .ok ⟨⟨reasonInside, headersInside, framedInside⟩, ?_⟩
              intro other again
              rw [search] at again
              cases again
              exact starts

/-! ### The headers -/

/-- On every message with a blank line and a status line, the headers are the lines with
a colon, cut there and trimmed, in their order; more than sixteen are refused. -/
theorem parseResponse_headers (raw : Bytes) {boundary lineStop : Nat} {before word tail : Bytes}
    (found : Search.search (crlf ++ crlf) raw = some boundary)
    (first : Search.search crlf raw = some lineStop)
    (status : IsStatusLine (raw.take lineStop) before word tail) :
    let lines := splitLines (fieldsFrom raw boundary (lineStop + 2))
    let fields := lines.filter (fun line => colon ∈ line)
    (fields.length ≤ maxHeaders →
      ∃ views, parseViews raw = some (.ok views) ∧ parseResponse raw = .ok (views.shows raw) ∧
        views.headers.map (HeaderView.shows · raw) = fields.map cutAtColon ∧
        views.Inside raw ∧ views.body.start = boundary + 4) ∧
    (maxHeaders < fields.length →
      parseViews raw = some (fail category Code.tooManyHeaders.value "too many headers") ∧
        parseResponse raw = fail category Code.tooManyHeaders.value "too many headers") := by
  intro lines fields
  have headers : headersIn raw lineStop boundary = fields.map cutAtColon := headersOf_filter _
  have size : (headersIn raw lineStop boundary).length = fields.length := by
    rw [headers, List.length_map]
  have agrees := parseViews_agrees raw
  have parsed := parseResponse_fields found first
  rw [status.parse] at parsed
  change _ = if _ then _ else _ at parsed
  rw [parsed, size] at agrees
  constructor
  · intro few
    rw [if_pos few] at agrees
    obtain ⟨views, viewed, good, shown⟩ := agrees.ok_result
    refine ⟨views, viewed, ?_, ?_, good.1, good.2 boundary found⟩
    · rw [parsed, size, if_pos few, shown]
    · rw [← headers]
      exact congrArg Response.headers shown
  · intro many
    rw [if_neg (Nat.not_le.mpr many)] at agrees
    refine ⟨agrees.error_result, ?_⟩
    rw [parsed, size, if_neg (Nat.not_le.mpr many)]

/-- "HTTP/1.1 200 OK" with a header, a line without a colon and another header. -/
def sampleHead : Bytes := ascii "HTTP/1.1 200 OK\r\nA: 1\r\njunk\r\n:b\t\r\n\r\nhi"

theorem parseResponse_headers_sample :
    ∃ views, parseViews sampleHead = some (.ok views) ∧
      views.headers.map (HeaderView.shows · sampleHead) =
        [{ name := ascii "A", value := ascii "1" }, { name := [], value := ascii "b" }] := by
  have status : IsStatusLine (sampleHead.take 15) (ascii "HTTP/1.1") (ascii "200")
      (ascii " OK") :=
    { shape := by decide
      firstSpace := by decide
      oneWord := by decide
      delimited := Or.inr ⟨ascii "OK", by decide⟩
      long := by decide
      digits := by decide +kernel }
  have found : Search.search (crlf ++ crlf) sampleHead = some 32 := by decide +kernel
  have first : Search.search crlf sampleHead = some 15 := by decide +kernel
  obtain ⟨views, parsed, -, headers, -⟩ :=
    (parseResponse_headers sampleHead found first status).1 (by decide +kernel)
  refine ⟨views, parsed, headers.trans ?_⟩
  decide +kernel

end Etlx.Http
