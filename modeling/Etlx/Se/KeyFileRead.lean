/-
What the key file reader accepts.

The line that is taken for a tag and its payload are read off the file alone; the
scan goes through memory. A payload of 32 digits scans to the key it denotes,
whatever the memory holds. A payload that breaks off earlier is refused if no number
begins there, and else the scan goes on with a number that is not written in two
digits. So the reader is right about every file in which no payload breaks off in front
of a number.
-/

import Etlx.Se.KeyFile
import Mathlib.Data.List.TakeWhile
import Mathlib.Data.Nat.Find

namespace Etlx.Se.Scp03Keyfile

open Stdio

/-! ### Proper key lines -/

def payloadKey (p : Bytes) : Option Key :=
  match Hex.decode (p.take 32) with
  | none => none
  | some bytes =>
      if size : bytes.length = 16 then some { bytes := bytes, size := size } else none

/-- The first line with the tag, as `fgets` delivers lines, and the file around it. -/
structure Taken where
  before : Bytes
  line : Bytes
  payload : Bytes
  after : Bytes

def takeFrom (tag before : Bytes) : List Bytes → Option Taken
  | [] => none
  | line :: later =>
      match payload tag line with
      | some p => some { before := before, line := line, payload := p, after := later.flatten }
      | none => takeFrom tag (before ++ line) later

def taken (tag : Tag) (content : Bytes) : Option Taken :=
  takeFrom tag.text [] (lines 254 content)

def StartsLine (before : Bytes) : Prop :=
  before = [] ∨ ∃ front, before = front ++ [Ascii.lineFeed]

/-- The file has a line of blanks, the tag, a space, blanks and 32 digits that denote the key.
What may follow the digits, on this line and behind it, is a parameter. -/
def KeyLine (ending : Bytes → Prop) (tag : Tag) (content : Bytes) (key : Key) : Prop :=
  ∃ before blanks more digits after,
    content = before ++ (blanks ++ (tag.text ++ Ascii.space :: (more ++ (digits ++ after)))) ∧
    StartsLine before ∧ (∀ byte ∈ blanks, isBlank byte = true) ∧
    (∀ byte ∈ more, isBlank byte = true) ∧ Hex.decode digits = some key.bytes ∧ ending after

def Complete (tag : Tag) (content : Bytes) : Prop :=
  ∃ line key, taken tag content = some line ∧ payloadKey line.payload = some key

structure ReadsComplete (ending : Bytes → Prop) (memory : Tag → Bytes) (dekMemory : Bytes)
    (content : Bytes) : Prop where
  keys : ∀ keys, read (some content) memory = .ok keys → ∀ tag,
    KeyLine ending tag content (keys.key tag) ∧ Complete tag content
  dek : ∀ dek, readDek (some content) dekMemory = .ok dek → Complete .dek content

/-! ### The condition -/

def isDigit (byte : UInt8) : Bool := (Hex.value byte).isSome

def digitPair : Bytes → Bool
  | first :: second :: _ => isDigit first && isDigit second
  | _ => false

/-- Behind white space and before the text ends there is a digit, or a sign in front of one. The
beginning of "0x" is no digit. -/
def beginsNumber (p : Bytes) : Bool :=
  match (text p).dropWhile isSpace with
  | [] => false
  | first :: rest =>
      if first = Ascii.plus ∨ first = Ascii.minus then rest.head?.any isDigit
      else
        isDigit first &&
          !decide (first = Ascii.zero ∧ (rest.head? = some 0x78 ∨ rest.head? = some 0x58))

/-- The first of the sixteen places where a payload does not go on with two digits. -/
structure BreaksAt (p : Bytes) (index : Nat) : Prop where
  early : index < 16
  digits : ∀ earlier < index, digitPair (p.drop (2 * earlier)) = true
  broken : digitPair (p.drop (2 * index)) = false

def Refused (p : Bytes) : Prop :=
  ∃ index, BreaksAt p index ∧ beginsNumber (p.drop (2 * index)) = false

/-- No line has the tag, or the payload taken breaks off where no number begins. -/
def Blocked (tag : Tag) (content : Bytes) : Prop :=
  ∀ line, taken tag content = some line → Refused line.payload

/-- The line taken is a line of the file, not the rest of one that is too long for the buffer. -/
def Placed (ending : Bytes → Prop) (line : Taken) : Prop :=
  StartsLine line.before ∧ ending (line.payload.drop 32 ++ line.after)

/-- The line taken is a line of the file, and its payload is 32 digits. -/
def Proper (ending : Bytes → Prop) (tag : Tag) (content : Bytes) : Prop :=
  ∃ line key, taken tag content = some line ∧ payloadKey line.payload = some key ∧
    Placed ending line

/-- One of the keys is blocked, or all of them are proper. -/
structure Unmistaken (ending : Bytes → Prop) (content : Bytes) : Prop where
  keys : (∃ tag, Blocked tag content) ∨ ∀ tag, Proper ending tag content
  dek : Blocked .dek content ∨ Complete .dek content

/-- Whatever the buffer holds behind the line, the scan finds a number at the place where the
payload breaks off. -/
def Misread (p : Bytes) : Prop :=
  ∃ index, BreaksAt p index ∧
    ∀ behind, (scanHexByte ((p ++ 0 :: behind).drop (2 * index))).isSome = true

/-- A payload is misread, or 32 digits are taken from something that is no line. -/
def Misled (ending : Bytes → Prop) (content : Bytes) : Prop :=
  ∃ tag line, taken tag content = some line ∧
    (Misread line.payload ∨
      (∃ key, payloadKey line.payload = some key) ∧ ¬Placed ending line)

/-! ### Lines in memory -/

theorem skipBlanks_append (line behind : Bytes) :
    skipBlanks (line ++ 0 :: behind) = skipBlanks line ++ 0 :: behind := by
  unfold skipBlanks
  induction line with
  | nil => rfl
  | cons byte line ih =>
      rw [List.cons_append, List.dropWhile_cons, List.dropWhile_cons]
      split
      · exact ih
      · rfl

theorem isPrefixOf_append {word : Bytes} (text : 0 ∉ word) (line behind : Bytes) :
    word.isPrefixOf (line ++ 0 :: behind) = word.isPrefixOf line := by
  induction word generalizing line with
  | nil => simp
  | cons first word ih =>
      obtain ⟨nonzero, rest⟩ := not_or.mp (fun either => text (List.mem_cons.mpr either))
      cases line with
      | nil => simp [List.isPrefixOf, Ne.symm nonzero]
      | cons byte line =>
          simp only [List.cons_append, List.isPrefixOf]
          rw [ih rest]

theorem payload_store {tag : Bytes} (text : 0 ∉ tag) (line memory : Bytes) :
    payload tag (store line memory) =
      (payload tag line).map (fun p => p ++ 0 :: memory.drop (line.length + 1)) := by
  have word : (0 : UInt8) ∉ tag ++ [Ascii.space] := by
    intro member
    rcases List.mem_append.mp member with inTag | isSpace
    · exact text inTag
    · cases List.mem_singleton.mp isSpace
  unfold payload store
  rw [skipBlanks_append, isPrefixOf_append word]
  split
  · next starts =>
      have long := (List.isPrefixOf_iff_prefix.mp starts).length_le
      rw [List.length_append, List.length_singleton] at long
      rw [Option.map_some, List.drop_append_of_le_length long, skipBlanks_append]
  · rfl

theorem payload_inv {tag line p : Bytes} (found : payload tag line = some p) :
    ∃ blanks more, line = blanks ++ (tag ++ Ascii.space :: (more ++ p)) ∧
      (∀ byte ∈ blanks, isBlank byte = true) ∧ ∀ byte ∈ more, isBlank byte = true := by
  unfold payload at found
  split at found
  · next starts =>
      obtain ⟨rest, split⟩ := List.isPrefixOf_iff_prefix.mp starts
      have behind : (skipBlanks line).drop (tag.length + 1) = rest := by
        have size : (tag ++ [Ascii.space]).length = tag.length + 1 := by simp
        rw [← split, ← size, List.drop_left]
      rw [behind] at found
      cases found
      refine ⟨line.takeWhile isBlank, rest.takeWhile isBlank, ?_, ?_, ?_⟩
      · unfold skipBlanks at split ⊢
        rw [List.takeWhile_append_dropWhile]
        have whole := List.takeWhile_append_dropWhile (p := isBlank) (l := line)
        rw [← split, List.append_assoc] at whole
        exact whole.symm
      · intro byte member
        exact List.mem_takeWhile_imp member
      · intro byte member
        exact List.mem_takeWhile_imp member
  · cases found

theorem tag_text (tag : Tag) : (0 : UInt8) ∉ tag.text := by
  cases tag <;> decide

theorem findLine_eq {tag : Bytes} (text : 0 ∉ tag) (before memory : Bytes) (pieces : List Bytes) :
    match takeFrom tag before pieces with
    | none => findLine tag memory pieces = none
    | some line => ∃ behind, findLine tag memory pieces = some (line.payload ++ 0 :: behind) := by
  induction pieces generalizing before memory with
  | nil => rfl
  | cons line later ih =>
      unfold takeFrom findLine
      rw [payload_store text]
      cases payload tag line with
      | none => exact ih (before ++ line) (store line memory)
      | some p => exact ⟨_, rfl⟩

theorem takeFrom_inv {tag before : Bytes} {pieces : List Bytes} {line : Taken}
    (found : takeFrom tag before pieces = some line) :
    before ++ pieces.flatten = line.before ++ (line.line ++ line.after) ∧
      payload tag line.line = some line.payload := by
  induction pieces generalizing before with
  | nil => cases found
  | cons piece later ih =>
      unfold takeFrom at found
      cases has : payload tag piece with
      | some p =>
          rw [has] at found
          cases found
          exact ⟨by rw [List.flatten_cons], has⟩
      | none =>
          rw [has] at found
          obtain ⟨split, same⟩ := ih found
          refine ⟨?_, same⟩
          rw [List.flatten_cons, ← List.append_assoc, split]

/-! ### Digits in memory -/

theorem value_plain {digit : UInt8} {number : Nat} (isDigit : Hex.value digit = some number) :
    digit ≠ 0 ∧ isSpace digit = false ∧ digit ≠ Ascii.plus ∧ digit ≠ Ascii.minus ∧
      digit ≠ 0x78 ∧ digit ≠ 0x58 := by
  have notIn : ∀ other : UInt8, Hex.value other = none → digit ≠ other := by
    intro other noDigit same
    rw [same, noDigit] at isDigit
    cases isDigit
  refine ⟨notIn _ rfl, ?_, notIn _ rfl, notIn _ rfl, notIn _ rfl, notIn _ rfl⟩
  have large : 0x30 ≤ digit.toNat := by
    unfold Hex.value at isDigit
    simp only [UInt8.le_iff_toNat_le] at isDigit
    split at isDigit
    · next range => exact range.1
    · split at isDigit
      · next range => exact Nat.le_trans (by decide) range.1
      · split at isDigit
        · next range => exact Nat.le_trans (by decide) range.1
        · cases isDigit
  rw [isSpace, Bool.or_eq_false_iff, Bool.and_eq_false_iff]
  refine ⟨decide_eq_false (notIn _ rfl), Or.inr (decide_eq_false ?_)⟩
  rw [UInt8.le_iff_toNat_le]
  exact Nat.not_le.mpr (Nat.lt_of_lt_of_le (by decide) large)

theorem scanHexByte_digits {first second : UInt8} {high low : Nat} (rest : Bytes)
    (firstValue : Hex.value first = some high) (secondValue : Hex.value second = some low) :
    scanHexByte (first :: second :: rest) = some (UInt8.ofNat (16 * high + low)) := by
  obtain ⟨nonzero, noSpace, noPlus, noMinus, _, _⟩ := value_plain firstValue
  obtain ⟨nonzero', _, _, _, noX, noUpperX⟩ := value_plain secondValue
  unfold scanHexByte text
  rw [List.takeWhile_cons_of_pos (by simpa using nonzero),
    List.takeWhile_cons_of_pos (by simpa using nonzero'),
    List.dropWhile_cons_of_neg (by rw [noSpace]; decide)]
  unfold scanNumber
  dsimp only
  rw [if_neg noPlus, if_neg noMinus, firstValue]
  dsimp only
  rw [if_neg (by rintro ⟨-, isX | isUpperX⟩; exacts [noX isX, noUpperX isUpperX]), secondValue]

theorem parseBytes_of_decode {digits bytes : Bytes} (rest : Bytes)
    (decoded : Hex.decode digits = some bytes) :
    parseBytes bytes.length (digits ++ rest) = some bytes := by
  fun_induction Hex.decode digits generalizing bytes with
  | case1 =>
      cases decoded
      rfl
  | case2 => cases decoded
  | case3 first second others low high secondValue firstValue ih =>
      obtain ⟨tail, inner, same⟩ := Option.map_eq_some_iff.mp decoded
      rw [← same, List.length_cons, List.cons_append, List.cons_append, parseBytes,
        scanHexByte_digits _ firstValue secondValue]
      change (parseBytes tail.length (others ++ rest)).map _ = _
      rw [ih inner]
      rfl
  | case4 => cases decoded

theorem parse16_eq {p : Bytes} {key : Key} : parse16 p = some key ↔
    parseBytes 16 p = some key.bytes := by
  unfold parse16
  split
  · next failed =>
      rw [failed]
      exact ⟨fun impossible => (by cases impossible), fun impossible => (by cases impossible)⟩
  · next bytes parsed =>
      constructor
      · intro same
        cases same
        exact parsed
      · intro same
        exact congrArg some (Key.ext (Option.some.inj (parsed.symm.trans same)))

theorem payloadKey_eq {p : Bytes} {key : Key} : payloadKey p = some key ↔
    Hex.decode (p.take 32) = some key.bytes := by
  unfold payloadKey
  cases Hex.decode (p.take 32) with
  | none => exact ⟨fun impossible => (by cases impossible), fun impossible => (by cases impossible)⟩
  | some bytes =>
      dsimp only
      split
      · next size =>
          constructor
          · intro same
            cases same
            rfl
          · intro same
            exact congrArg some (Key.ext (Option.some.inj same))
      · next size =>
          constructor
          · intro impossible
            cases impossible
          · intro same
            cases same
            exact absurd key.size size

theorem parse16_of_payloadKey {p : Bytes} {key : Key} (complete : payloadKey p = some key)
    (behind : Bytes) : parse16 (p ++ behind) = some key := by
  have decoded := payloadKey_eq.mp complete
  have parsed := parseBytes_of_decode (p.drop 32 ++ behind) decoded
  rw [key.size, ← List.append_assoc, List.take_append_drop] at parsed
  exact parse16_eq.mpr parsed

theorem parseBytes_isSome_iff (count : Nat) (p : Bytes) :
    (parseBytes count p).isSome = true ↔
      ∀ index < count, (scanHexByte (p.drop (2 * index))).isSome = true := by
  induction count generalizing p with
  | zero => exact ⟨fun _ index none => absurd none (Nat.not_lt_zero index), fun _ => rfl⟩
  | succ count ih =>
      have next : ∀ index, (p.drop 2).drop (2 * index) = p.drop (2 * (index + 1)) := by
        intro index
        rw [List.drop_drop]
        congr 1
        omega
      unfold parseBytes
      constructor
      · intro parsed index bound
        cases scanned : scanHexByte p with
        | none =>
            rw [scanned] at parsed
            cases parsed
        | some byte =>
            rw [scanned, Option.isSome_map] at parsed
            cases index with
            | zero =>
                rw [Nat.mul_zero, List.drop_zero, scanned]
                rfl
            | succ index =>
                rw [← next index]
                exact (ih (p.drop 2)).mp parsed index (by omega)
      · intro scans
        have first := scans 0 (Nat.succ_pos count)
        rw [Nat.mul_zero, List.drop_zero] at first
        obtain ⟨byte, scanned⟩ := Option.isSome_iff_exists.mp first
        rw [scanned, Option.isSome_map]
        apply (ih (p.drop 2)).mpr
        intro index bound
        rw [next index]
        exact scans (index + 1) (by omega)

/-! ### Where a payload breaks off -/

theorem text_append (q behind : Bytes) : text (q ++ 0 :: behind) = text q := by
  induction q with
  | nil => rfl
  | cons byte q ih =>
      unfold text at ih ⊢
      rw [List.cons_append, List.takeWhile_cons, List.takeWhile_cons]
      split
      · rw [ih]
      · rfl

theorem scanHexByte_isSome (p : Bytes) : (scanHexByte p).isSome = beginsNumber p := by
  unfold scanHexByte beginsNumber
  cases (text p).dropWhile isSpace with
  | nil => rfl
  | cons first rest =>
      dsimp only
      unfold scanNumber
      dsimp only
      by_cases plus : first = Ascii.plus
      · rw [if_pos plus, if_pos (.inl plus), Option.isSome_map]
        cases rest <;> rfl
      · rw [if_neg plus]
        by_cases minus : first = Ascii.minus
        · rw [if_pos minus, if_pos (.inr minus), Option.isSome_map]
          cases rest <;> rfl
        · rw [if_neg minus, if_neg (not_or.mpr ⟨plus, minus⟩), isDigit]
          cases Hex.value first with
          | none => rfl
          | some high =>
              cases rest with
              | nil => simp
              | cons second rest =>
                  simp only [List.head?_cons, Option.some.injEq]
                  split
                  · next hexadecimal => rw [decide_eq_true hexadecimal]; rfl
                  · next decimal =>
                      rw [decide_eq_false decimal]
                      cases Hex.value second <;> rfl

/-- The line goes on at least to the place where it breaks off, so what the buffer holds behind
it plays no part there. -/
theorem BreaksAt.scans {p : Bytes} {index : Nat} (breaks : BreaksAt p index) (behind : Bytes) :
    (scanHexByte ((p ++ 0 :: behind).drop (2 * index))).isSome =
      beginsNumber (p.drop (2 * index)) := by
  have long : 2 * index ≤ p.length := by
    cases index with
    | zero => exact Nat.zero_le _
    | succ index =>
        have pair := breaks.digits index (Nat.lt_succ_self index)
        have some : 2 ≤ (p.drop (2 * index)).length := by
          unfold digitPair at pair
          split at pair
          · next shape =>
              rw [shape]
              exact Nat.le_add_left 2 _
          · cases pair
        rw [List.length_drop] at some
        omega
  rw [scanHexByte_isSome, List.drop_append_of_le_length long]
  unfold beginsNumber
  rw [text_append]

theorem Refused.parse16 {p : Bytes} (refused : Refused p) (behind : Bytes) :
    parse16 (p ++ 0 :: behind) = none := by
  obtain ⟨index, breaks, stops⟩ := refused
  cases parsed : Scp03Keyfile.parse16 (p ++ 0 :: behind) with
  | none => rfl
  | some key =>
      have all := (parseBytes_isSome_iff 16 (p ++ 0 :: behind)).mp
        (by rw [parse16_eq.mp parsed]; rfl) index breaks.early
      rw [breaks.scans behind, stops] at all
      cases all

theorem decode_of_pairs {count : Nat} {p : Bytes}
    (pairs : ∀ index < count, digitPair (p.drop (2 * index)) = true) :
    ∃ bytes, Hex.decode (p.take (2 * count)) = some bytes ∧ bytes.length = count := by
  induction count generalizing p with
  | zero => exact ⟨[], rfl, rfl⟩
  | succ count ih =>
      have here := pairs 0 (Nat.succ_pos count)
      match p with
      | [] => cases here
      | [_] => cases here
      | first :: second :: rest =>
          obtain ⟨isHigh, isLow⟩ := (Bool.and_eq_true _ _).mp here
          obtain ⟨high, highValue⟩ := Option.isSome_iff_exists.mp isHigh
          obtain ⟨low, lowValue⟩ := Option.isSome_iff_exists.mp isLow
          obtain ⟨bytes, decoded, length⟩ := @ih rest fun index below =>
            pairs (index + 1) (Nat.succ_lt_succ below)
          refine ⟨UInt8.ofNat (16 * high + low) :: bytes, ?_, congrArg Nat.succ length⟩
          change Hex.decode (first :: second :: rest.take (2 * count)) = _
          rw [Hex.decode, highValue, lowValue, decoded]
          rfl

theorem payload_cases (p : Bytes) :
    (∃ key, payloadKey p = some key) ∨ ∃ index, BreaksAt p index := by
  by_cases broken : ∃ index, index < 16 ∧ digitPair (p.drop (2 * index)) = false
  · obtain ⟨early, here⟩ := Nat.find_spec broken
    refine .inr ⟨Nat.find broken, early, ?_, here⟩
    intro earlier before
    have notThere := Nat.find_min broken before
    exact Bool.of_not_eq_false fun broke => notThere ⟨Nat.lt_trans before early, broke⟩
  · have pairs : ∀ index < 16, digitPair (p.drop (2 * index)) = true :=
      fun index below => Bool.of_not_eq_false fun broke => broken ⟨index, below, broke⟩
    obtain ⟨bytes, decoded, length⟩ := decode_of_pairs pairs
    exact .inl ⟨⟨bytes, length⟩, payloadKey_eq.mpr decoded⟩

/-! ### The reader -/

theorem findKey_of_taken {content : Bytes} {tag : Tag} {line : Taken} {key : Key}
    (found : taken tag content = some line) (complete : payloadKey line.payload = some key)
    (memory : Bytes) : findKey (some content) memory tag = some key := by
  have located := findLine_eq (tag_text tag) [] memory (lines 254 content)
  unfold taken at found
  rw [found] at located
  obtain ⟨behind, stored⟩ := located
  unfold findKey
  dsimp only
  rw [stored, Option.bind_some, parse16_of_payloadKey complete]

theorem keyLine_of_taken {ending : Bytes → Prop} {content : Bytes} {tag : Tag} {line : Taken}
    {key : Key} (found : taken tag content = some line)
    (complete : payloadKey line.payload = some key) (starts : StartsLine line.before)
    (ends : ending (line.payload.drop 32 ++ line.after)) : KeyLine ending tag content key := by
  obtain ⟨split, has⟩ := takeFrom_inv found
  obtain ⟨blanks, more, shape, blank, blankMore⟩ := payload_inv has
  rw [List.nil_append, lines_flatten, shape] at split
  refine ⟨line.before, blanks, more, line.payload.take 32, line.payload.drop 32 ++ line.after,
    ?_, starts, blank, blankMore, payloadKey_eq.mp complete, ends⟩
  rw [split, ← List.append_assoc (line.payload.take 32), List.take_append_drop]
  simp only [List.append_assoc, List.cons_append]

theorem read_ok_iff (content : Bytes) (memory : Tag → Bytes) (keys : Scp03KeySet) :
    read (some content) memory = .ok keys ↔
      ∀ tag, findKey (some content) (memory tag) tag = some (keys.key tag) := by
  unfold read
  constructor
  · intro ok tag
    split at ok
    · next enc mac dek hasEnc hasMac hasDek =>
        cases ok
        cases tag
        · exact hasEnc
        · exact hasMac
        · exact hasDek
    · cases ok
  · intro every
    rw [every .enc, every .mac, every .dek]
    rfl

theorem readDek_ok_iff (content memory : Bytes) (dek : Key) :
    readDek (some content) memory = .ok dek ↔ findKey (some content) memory .dek = some dek := by
  unfold readDek
  constructor
  · intro ok
    split at ok
    · cases ok
    · next found =>
        cases ok
        exact found
  · intro found
    rw [found]

theorem Blocked.findKey {tag : Tag} {content : Bytes} (blocked : Blocked tag content)
    (memory : Bytes) : findKey (some content) memory tag = none := by
  have located := findLine_eq (tag_text tag) [] memory (lines 254 content)
  unfold Scp03Keyfile.findKey
  dsimp only
  cases found : takeFrom tag.text [] (lines 254 content) with
  | none =>
      rw [found] at located
      rw [located, Option.bind_none]
  | some line =>
      rw [found] at located
      obtain ⟨behind, stored⟩ := located
      rw [stored, Option.bind_some]
      exact (blocked line found).parse16 behind

theorem Proper.keyLine {ending : Bytes → Prop} {tag : Tag} {content memory : Bytes} {key : Key}
    (proper : Proper ending tag content) (found : findKey (some content) memory tag = some key) :
    KeyLine ending tag content key ∧ Complete tag content := by
  obtain ⟨line, denoted, takes, complete, starts, ends⟩ := proper
  have same := findKey_of_taken takes complete memory
  rw [found] at same
  cases same
  exact ⟨keyLine_of_taken takes complete starts ends, line, key, takes, complete⟩

theorem misread_or_complete {tag : Tag} {content : Bytes} (unblocked : ¬Blocked tag content) :
    ∃ line, taken tag content = some line ∧
      (Misread line.payload ∨ ∃ key, payloadKey line.payload = some key) := by
  obtain ⟨line, unrefused⟩ := not_forall.mp unblocked
  obtain ⟨takes, unrefused⟩ := Classical.not_imp.mp unrefused
  refine ⟨line, takes, ?_⟩
  rcases payload_cases line.payload with complete | ⟨index, breaks⟩
  · exact .inr complete
  · left
    refine ⟨index, breaks, fun behind => ?_⟩
    rw [breaks.scans behind]
    by_contra stops
    exact unrefused ⟨index, breaks, Bool.eq_false_iff.mpr stops⟩

/-- On a file without mistakes the reader returns complete keys only, whatever its buffer held
before; on any other file it is misled. -/
theorem keyfile_read_complete (ending : Bytes → Prop) (content : Bytes) :
    (Unmistaken ending content →
      ∀ memory dekMemory, ReadsComplete ending memory dekMemory content) ∧
    (¬Unmistaken ending content → Misled ending content) := by
  constructor
  · rintro ⟨keys, dek⟩ memory dekMemory
    refine ⟨?_, ?_⟩
    · intro found ok tag
      have each := (read_ok_iff content memory found).mp ok
      rcases keys with ⟨blockedTag, blocked⟩ | proper
      · have nothing := blocked.findKey (memory blockedTag)
        rw [each blockedTag] at nothing
        cases nothing
      · exact (proper tag).keyLine (each tag)
    · intro found ok
      rcases dek with blocked | complete
      · have nothing := blocked.findKey dekMemory
        rw [(readDek_ok_iff content dekMemory found).mp ok] at nothing
        cases nothing
      · exact complete
  · intro mistaken
    by_cases keys : (∃ tag, Blocked tag content) ∨ ∀ tag, Proper ending tag content
    · -- Then it is `ReadDek` that goes wrong.
      have dek : ¬(Blocked .dek content ∨ Complete .dek content) :=
        fun dek => mistaken ⟨keys, dek⟩
      obtain ⟨unblocked, incomplete⟩ := not_or.mp dek
      obtain ⟨line, takes, either⟩ := misread_or_complete unblocked
      rcases either with misread | ⟨key, complete⟩
      · exact ⟨.dek, line, takes, .inl misread⟩
      · exact absurd ⟨line, key, takes, complete⟩ incomplete
    · obtain ⟨noneBlocked, notProper⟩ := not_or.mp keys
      obtain ⟨tag, improper⟩ := not_forall.mp notProper
      obtain ⟨line, takes, either⟩ :=
        misread_or_complete (not_exists.mp noneBlocked tag)
      refine ⟨tag, line, takes, either.imp id ?_⟩
      rintro ⟨key, complete⟩
      exact ⟨⟨key, complete⟩, fun placed => improper ⟨line, key, takes, complete, placed⟩⟩

def spacedFile : Bytes :=
  ascii "ENC 0 1 2 3 4 5 6 7 8 9 a b c d e f \n" ++
    (ascii "MAC 000102030405060708090a0b0c0d0e0f\n" ++
      ascii "DEK 101112131415161718191a1b1c1d1e1f\n")

/-- Sixteen single digits between blanks are read as the key 00 01 … 0f. -/
theorem keyfile_read_spaced :
    ((read (some spacedFile) (fun _ => [])).toOption.map (fun keys => keys.enc.bytes) =
      some [0, 1, 2, 3, 4, 5, 6, 7, 8, 9, 10, 11, 12, 13, 14, 15]) ∧
    ∀ ending, ¬ReadsComplete ending (fun _ => []) [] spacedFile := by
  have scanned : (read (some spacedFile) (fun _ => [])).toOption.map (fun keys => keys.enc.bytes) =
      some [0, 1, 2, 3, 4, 5, 6, 7, 8, 9, 10, 11, 12, 13, 14, 15] := by
    decide +kernel
  have incomplete : (taken .enc spacedFile).bind (fun line => payloadKey line.payload) = none := by
    decide +kernel
  refine ⟨scanned, ?_⟩
  intro ending complete
  cases ok : read (some spacedFile) (fun _ => []) with
  | error e =>
      rw [ok] at scanned
      cases scanned
  | ok keys =>
      obtain ⟨line, key, found, digits⟩ := (complete.keys keys ok .enc).2
      rw [found, Option.bind_some, digits] at incomplete
      cases incomplete

end Etlx.Se.Scp03Keyfile
