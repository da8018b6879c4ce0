/-
Writing the SCP03 key file, call by call.

`Write` fills a temporary file, moves the old file away and moves the temporary one
to its place. Every call may fail as `Faults` says, and the process may stop after
any call, so the model returns the disk after each of them. The old file is gone
between the two renames, and the result of `fclose`, which decides what the new
file holds, is not looked at.
-/

import Etlx.Se.KeyFileRead
import Mathlib.Data.List.GetD

namespace Etlx.Se.Scp03Keyfile

open Stdio

/-- The key file, the temporary file and the backup. -/
structure Disk where
  path : Option Bytes
  tmp : Option Bytes
  bak : Option Bytes
deriving DecidableEq, Repr

/-- How the calls of one `Write` turn out. A `fprintf` that fails has taken some of its bytes;
how much of the printed text is on the disk before `fclose` is up to the stream; a `fclose`
that fails keeps only the first bytes. -/
structure Faults where
  opens : Bool
  prints : Nat → Option Nat
  flushed : Nat → Nat
  keeps : Option Nat
  removesTmp : Bool
  removesBak : Bool
  backsUp : Bool
  replaces : Bool

def keyTexts (tag : Tag) (key : Key) : List Bytes :=
  (tag.text ++ [Ascii.space]) :: (key.bytes.map (fun byte => Hex.encode [byte]) ++
    [[Ascii.lineFeed]])

def fileTexts (keys : Scp03KeySet) : List Bytes :=
  keyTexts .enc keys.enc ++ (keyTexts .mac keys.mac ++ keyTexts .dek keys.dek)

/-- The calls of `fprintf` from the `index`-th on: whether all succeed, what is printed, and
the disk after each. -/
def printAll (faults : Faults) (disk : Disk) :
    Nat → Bytes → List Bytes → Bool × Bytes × List Disk
  | _, printed, [] => (true, printed, [])
  | index, printed, text :: texts =>
      match faults.prints index with
      | some count =>
          (false, printed ++ text.take count,
            [{ disk with tmp := some ((printed ++ text.take count).take (faults.flushed index)) }])
      | none =>
          let rest := printAll faults disk (index + 1) (printed ++ text) texts
          (rest.1, rest.2.1,
            { disk with tmp := some ((printed ++ text).take (faults.flushed index)) } :: rest.2.2)

def Disk.removeTmp (disk : Disk) (succeeds : Bool) : Disk :=
  if succeeds then { disk with tmp := none } else disk

def Disk.removeBak (disk : Disk) (succeeds : Bool) : Disk :=
  if succeeds then { disk with bak := none } else disk

def Disk.backUp (disk : Disk) (succeeds : Bool) : Disk :=
  if succeeds then { disk with path := none, bak := disk.path } else disk

def Disk.replace (disk : Disk) (succeeds : Bool) : Disk :=
  if succeeds then { disk with path := disk.tmp, tmp := none } else disk

@[simp]
theorem removeTmp_path (disk : Disk) (succeeds : Bool) :
    (disk.removeTmp succeeds).path = disk.path := by
  cases succeeds <;> rfl

@[simp]
theorem removeBak_path (disk : Disk) (succeeds : Bool) :
    (disk.removeBak succeeds).path = disk.path := by
  cases succeeds <;> rfl

@[simp]
theorem removeBak_tmp (disk : Disk) (succeeds : Bool) :
    (disk.removeBak succeeds).tmp = disk.tmp := by
  cases succeeds <;> rfl

theorem backUp_path (disk : Disk) (succeeds : Bool) :
    (disk.backUp succeeds).path = if succeeds then none else disk.path := by
  cases succeeds <;> rfl

@[simp]
theorem backUp_tmp (disk : Disk) (succeeds : Bool) : (disk.backUp succeeds).tmp = disk.tmp := by
  cases succeeds <;> rfl

theorem replace_path (disk : Disk) (succeeds : Bool) :
    (disk.replace succeeds).path = if succeeds then disk.tmp else disk.path := by
  cases succeeds <;> rfl

def Faults.closed (faults : Faults) (printed : Bytes) : Bytes :=
  match faults.keeps with
  | none => printed
  | some count => printed.take count

/-- `Write`, with the disk after each of its calls. The name of the backup is as long as that
of the temporary file, so the second length test always passes. -/
def write (faults : Faults) (pathLength : Nat) (keys : Scp03KeySet) (disk : Disk) :
    Status × List Disk :=
  if 256 ≤ pathLength + 4 then (seFail .writeFailed "scp03_keyfile: path too long", [])
  else if faults.opens then
    let opened := { disk with tmp := some [] }
    let printed := printAll faults disk 0 [] (fileTexts keys)
    let closed := { disk with tmp := some (faults.closed printed.2.1) }
    if printed.1 then
      let cleared := closed.removeBak faults.removesBak
      let saved := cleared.backUp faults.backsUp
      let replaced := saved.replace faults.replaces
      if faults.replaces then
        (.ok (), opened :: (printed.2.2 ++ [closed, cleared, saved, replaced]))
      else
        (seFail .writeFailed "scp03_keyfile: rename tmp -> path failed",
          opened :: (printed.2.2 ++
            [closed, cleared, saved, replaced, replaced.removeTmp faults.removesTmp]))
    else
      (seFail .writeFailed "scp03_keyfile: write error",
        opened :: (printed.2.2 ++ [closed, closed.removeTmp faults.removesTmp]))
  else (seFail .writeFailed "scp03_keyfile: cannot open tmp file for writing", [disk])

/-- What is found on the disk after a crash behind so many calls, or after `Write` returned. -/
def diskAfter (disk : Disk) (states : List Disk) : Option Nat → Disk
  | none => states.getLastD disk
  | some calls => (disk :: states).getD calls (states.getLastD disk)

/-- Each key of the set stands on the first line with its tag, in 32 digits. -/
def Holds (keys : Scp03KeySet) (content : Bytes) : Prop :=
  ∀ tag, ∃ line, taken tag content = some line ∧ StartsLine line.before ∧
    payloadKey line.payload = some (keys.key tag)

/-- A complete key file with the old or the new keys is left, and with the new ones if `Write`
returned `Ok`. -/
structure WritesAtomically (old new : Scp03KeySet) (disk : Disk) (outcome : Status × List Disk)
    (crash : Option Nat) : Prop where
  leaves : ∃ content, (diskAfter disk outcome.2 crash).path = some content ∧
    (Holds old content ∨ Holds new content)
  ok : crash = none → outcome.1 = .ok () →
    ∃ content, (diskAfter disk outcome.2 crash).path = some content ∧ Holds new content

def Prints (faults : Faults) (pathLength : Nat) : Prop :=
  pathLength + 4 < 256 ∧ faults.opens = true ∧ ∀ index < 54, faults.prints index = none

/-- The crash falls between the two renames and the first one succeeded; or the second one is
made and fails after the first succeeded; or it succeeds with a file that `fclose` cut before
the last digit. -/
def Tears (faults : Faults) (pathLength : Nat) (crash : Option Nat) : Prop :=
  Prints faults pathLength ∧
    (crash = some 58 ∧ faults.backsUp = true ∨
      (∀ calls, crash = some calls → 59 ≤ calls) ∧
        (faults.replaces = false ∧ faults.backsUp = true ∨
          faults.replaces = true ∧ ∃ count, faults.keeps = some count ∧ count < 110))

/-! ### The text -/

theorem keyTexts_flatten (tag : Tag) (key : Key) :
    (keyTexts tag key).flatten = keyLine tag key := by
  have digits : ∀ bytes : Bytes,
      (bytes.map (fun byte => Hex.encode [byte])).flatten = Hex.encode bytes := by
    intro bytes
    induction bytes with
    | nil => rfl
    | cons byte bytes ih =>
        rw [List.map_cons, List.flatten_cons, ih]
        rfl
  unfold keyTexts keyLine
  rw [List.flatten_cons, List.flatten_append, digits]
  simp

theorem fileTexts_flatten (keys : Scp03KeySet) : (fileTexts keys).flatten = fileText keys := by
  unfold fileTexts fileText
  rw [List.flatten_append, List.flatten_append, keyTexts_flatten, keyTexts_flatten,
    keyTexts_flatten]

theorem fileTexts_length (keys : Scp03KeySet) : (fileTexts keys).length = 54 := by
  simp [fileTexts, keyTexts, keys.enc.size, keys.mac.size, keys.dek.size]

def keyBody (tag : Tag) (key : Key) : Bytes :=
  tag.text ++ Ascii.space :: Hex.encode key.bytes

theorem keyLine_eq (tag : Tag) (key : Key) :
    keyLine tag key = keyBody tag key ++ [Ascii.lineFeed] := by
  simp [keyLine, keyBody]

theorem text_length (tag : Tag) : tag.text.length = 3 := by
  cases tag <;> rfl

theorem keyBody_length (tag : Tag) (key : Key) : (keyBody tag key).length = 36 := by
  rw [keyBody, List.length_append, List.length_cons, Hex.encode_length, key.size, text_length]

theorem mem_keyBody {tag : Tag} {key : Key} {byte : UInt8} (noDigit : Hex.value byte = none)
    (member : byte ∈ keyBody tag key) : byte ∈ tag.text ++ [Ascii.space] := by
  rw [keyBody, List.append_cons] at member
  rcases List.mem_append.mp member with front | digit
  · exact front
  · have isDigit := Hex.mem_encode digit
    rw [noDigit] at isDigit
    cases isDigit

theorem keyBody_plain (tag : Tag) (key : Key) : Ascii.lineFeed ∉ keyBody tag key := by
  intro member
  have front := mem_keyBody rfl member
  cases tag <;> revert front <;> decide

theorem isBlank_of_value {byte : UInt8} (isDigit : (Hex.value byte).isSome = true) :
    isBlank byte = false := by
  obtain ⟨number, read⟩ := Option.isSome_iff_exists.mp isDigit
  have noSpace := (value_plain read).2.1
  rw [isSpace, Bool.or_eq_false_iff, Bool.and_eq_false_iff] at noSpace
  rw [isBlank, Bool.or_eq_false_iff]
  refine ⟨noSpace.1, decide_eq_false ?_⟩
  intro isTab
  rw [isTab] at isDigit
  cases isDigit

theorem skipBlanks_digits (key : Key) (rest : Bytes) :
    skipBlanks (Hex.encode key.bytes ++ rest) = Hex.encode key.bytes ++ rest := by
  have size := Hex.encode_length key.bytes
  rw [key.size] at size
  cases digits : Hex.encode key.bytes with
  | nil =>
      rw [digits] at size
      cases size
  | cons first others =>
      have isDigit : (Hex.value first).isSome = true :=
        Hex.mem_encode (by rw [digits]; exact List.mem_cons_self)
      rw [List.cons_append, skipBlanks, List.dropWhile_cons_of_neg]
      rw [isBlank_of_value isDigit]
      decide

theorem payload_keyBody (tag other : Tag) (key : Key) (rest : Bytes) :
    payload tag.text (keyBody other key ++ rest) =
      if tag = other then some (Hex.encode key.bytes ++ rest) else none := by
  have behind := skipBlanks_digits key rest
  have front : skipBlanks (keyBody other key ++ rest) =
      (other.text ++ [Ascii.space]) ++ (Hex.encode key.bytes ++ rest) := by
    rw [keyBody, List.append_assoc, List.cons_append, List.append_cons]
    cases other <;> rfl
  unfold payload
  rw [front]
  by_cases same : tag = other
  · have starts : (tag.text ++ [Ascii.space]).isPrefixOf
        ((other.text ++ [Ascii.space]) ++ (Hex.encode key.bytes ++ rest)) = true := by
      rw [same]
      exact List.isPrefixOf_iff_prefix.mpr (List.prefix_append _ _)
    have size : (tag.text ++ [Ascii.space]).length = tag.text.length + 1 := by simp
    rw [if_pos starts, if_pos same, ← size, same, List.drop_left, behind]
  · rw [if_neg same, if_neg]
    cases tag <;> cases other <;>
      first
        | exact absurd rfl same
        | (intro impossible; cases impossible)

theorem payloadKey_digits (key : Key) (rest : Bytes) :
    payloadKey (Hex.encode key.bytes ++ rest) = some key := by
  have size : (Hex.encode key.bytes).length = 32 := by
    rw [Hex.encode_length, key.size]
  rw [payloadKey_eq, ← size, List.take_left, Hex.decode_encode]

/-! ### What the written text holds -/

theorem takeFrom_keyBody (tag other : Tag) (key : Key) (before tail : Bytes) (later : List Bytes) :
    takeFrom tag.text before ((keyBody other key ++ tail) :: later) =
      if tag = other then
        some
          { before := before
            line := keyBody other key ++ tail
            payload := Hex.encode key.bytes ++ tail
            after := later.flatten }
      else takeFrom tag.text (before ++ (keyBody other key ++ tail)) later := by
  rw [takeFrom, payload_keyBody]
  by_cases same : tag = other
  · rw [if_pos same, if_pos same]
  · rw [if_neg same, if_neg same]

theorem holds_text (keys : Scp03KeySet) (tail : Bytes)
    (ending : tail = [] ∨ tail = [Ascii.lineFeed]) :
    Holds keys (keyLine .enc keys.enc ++
      (keyLine .mac keys.mac ++ (keyBody .dek keys.dek ++ tail))) := by
  have short : ∀ tag key, (keyBody tag key).length ≤ 254 := by
    intro tag key
    rw [keyBody_length]
    decide
  have last : lines 254 (keyBody .dek keys.dek ++ tail) = [keyBody .dek keys.dek ++ tail] := by
    rcases ending with none | feed
    · rw [none, List.append_nil]
      apply lines_end _ (short _ _) (keyBody_plain _ _)
      intro empty
      have size := keyBody_length .dek keys.dek
      rw [empty] at size
      cases size
    · rw [feed, lines_line [] (short _ _) (keyBody_plain _ _), lines]
  have pieces : lines 254 (keyLine .enc keys.enc ++
      (keyLine .mac keys.mac ++ (keyBody .dek keys.dek ++ tail))) =
        [keyBody .enc keys.enc ++ [Ascii.lineFeed], keyBody .mac keys.mac ++ [Ascii.lineFeed],
          keyBody .dek keys.dek ++ tail] := by
    rw [keyLine_eq, keyLine_eq, List.append_assoc, List.append_assoc, List.singleton_append,
      List.singleton_append, lines_line _ (short _ _) (keyBody_plain _ _),
      lines_line _ (short _ _) (keyBody_plain _ _), last]
  have behind : ∀ (before : Bytes) (tag : Tag) (key : Key),
      StartsLine (before ++ (keyBody tag key ++ [Ascii.lineFeed])) := by
    intro before tag key
    exact Or.inr ⟨before ++ keyBody tag key, (List.append_assoc _ _ _).symm⟩
  intro tag
  unfold taken
  rw [pieces, takeFrom_keyBody, takeFrom_keyBody, takeFrom_keyBody]
  cases tag with
  | enc => exact ⟨_, rfl, Or.inl rfl, payloadKey_digits keys.enc _⟩
  | mac => exact ⟨_, rfl, behind _ _ _, payloadKey_digits keys.mac _⟩
  | dek => exact ⟨_, rfl, behind _ _ _, payloadKey_digits keys.dek _⟩

theorem fileText_split (keys : Scp03KeySet) :
    ∃ front back, fileText keys = front ++ 0x4b :: back ∧ front.length = 76 ∧
      0x4b ∉ front ∧ 0x4b ∉ back := by
  have absent : ∀ tag key, tag ≠ .dek → (0x4b : UInt8) ∉ keyLine tag key := by
    intro tag key other member
    rw [keyLine_eq] at member
    rcases List.mem_append.mp member with body | feed
    · have front := mem_keyBody rfl body
      cases tag with
      | enc => revert front; decide
      | mac => revert front; decide
      | dek => exact other rfl
    · revert feed
      decide
  refine ⟨keyLine .enc keys.enc ++ (keyLine .mac keys.mac ++ [0x44, 0x45]),
    Ascii.space :: (Hex.encode keys.dek.bytes ++ [Ascii.lineFeed]), ?_, ?_, ?_, ?_⟩
  · simp [fileText, keyLine, Tag.text, ascii]
  · simp [keyLine_eq, keyBody_length]
  · intro member
    rcases List.mem_append.mp member with enc | member
    · exact absent _ _ (by decide) enc
    · rcases List.mem_append.mp member with mac | rest
      · exact absent _ _ (by decide) mac
      · revert rest
        decide
  · intro member
    rcases List.mem_cons.mp member with space | member
    · revert space
      decide
    · rcases List.mem_append.mp member with digit | feed
      · have isDigit := Hex.mem_encode digit
        cases isDigit
      · revert feed
        decide

theorem Holds.dek_split {keys : Scp03KeySet} {content : Bytes} (holds : Holds keys content) :
    ∃ front back, content = front ++ 0x4b :: back ∧ 33 ≤ back.length := by
  obtain ⟨line, found, _, complete⟩ := holds .dek
  obtain ⟨split, has⟩ := takeFrom_inv found
  obtain ⟨blanks, more, shape, _, _⟩ := payload_inv has
  have digits := Hex.decode_length (payloadKey_eq.mp complete)
  rw [Key.size, List.length_take] at digits
  rw [List.nil_append, lines_flatten] at split
  refine ⟨line.before ++ (blanks ++ [0x44, 0x45]),
    Ascii.space :: (more ++ (line.payload ++ line.after)), ?_, ?_⟩
  · rw [split, shape]
    simp [Tag.text, ascii]
  · simp only [List.length_cons, List.length_append]
    omega

theorem count_of_holds {keys other : Scp03KeySet} {count : Nat}
    (holds : Holds other ((fileText keys).take count)) : 110 ≤ count := by
  obtain ⟨front, back, whole, place, notBefore, notBehind⟩ := fileText_split keys
  obtain ⟨left, right, split, long⟩ := holds.dek_split
  have joined : front ++ 0x4b :: back = left ++ 0x4b :: (right ++ (fileText keys).drop count) := by
    rw [← whole, ← List.cons_append, ← List.append_assoc, ← split, List.take_append_drop]
  obtain ⟨same, _, _⟩ := (List.append_cons_inj_of_notMem notBefore notBehind).mp joined
  have size := congrArg List.length split
  rw [List.length_take, List.length_append, List.length_cons, ← same] at size
  omega

theorem fileText_length (keys : Scp03KeySet) : (fileText keys).length = 111 := by
  simp [fileText, keyLine_eq, keyBody_length]

theorem holds_fileText (keys : Scp03KeySet) : Holds keys (fileText keys) := by
  rw [fileText, keyLine_eq .dek]
  exact holds_text keys [Ascii.lineFeed] (Or.inr rfl)

theorem findKey_of_holds {keys : Scp03KeySet} {content : Bytes} (holds : Holds keys content)
    (memory : Bytes) (tag : Tag) : findKey (some content) memory tag = some (keys.key tag) := by
  obtain ⟨line, found, -, complete⟩ := holds tag
  exact findKey_of_taken found complete memory

theorem read_fileText (keys : Scp03KeySet) (memory : Tag → Bytes) :
    read (some (fileText keys)) memory = .ok keys := by
  rw [read_ok_iff]
  intro tag
  exact findKey_of_holds (holds_fileText keys) (memory tag) tag

theorem readDek_fileText (keys : Scp03KeySet) (memory : Bytes) :
    readDek (some (fileText keys)) memory = .ok keys.dek := by
  rw [readDek_ok_iff]
  exact findKey_of_holds (holds_fileText keys) memory .dek

theorem holds_take (keys : Scp03KeySet) {count : Nat} (enough : 110 ≤ count) :
    Holds keys ((fileText keys).take count) := by
  have split : fileText keys = (keyLine .enc keys.enc ++
      (keyLine .mac keys.mac ++ keyBody .dek keys.dek)) ++ [Ascii.lineFeed] := by
    rw [fileText, keyLine_eq .dek]
    simp only [List.append_assoc]
  have size : (keyLine .enc keys.enc ++
      (keyLine .mac keys.mac ++ keyBody .dek keys.dek)).length = 110 := by
    simp [keyLine_eq, keyBody_length]
  by_cases all : 111 ≤ count
  · rw [List.take_of_length_le (by rw [fileText_length]; exact all)]
    exact holds_fileText keys
  · have exact110 : count = 110 := by omega
    rw [exact110, split, ← size, List.take_left]
    have bare := holds_text keys [] (Or.inl rfl)
    rw [List.append_nil] at bare
    exact bare

/-! ### The calls -/

theorem printAll_path (faults : Faults) (disk : Disk) (index : Nat) (printed : Bytes)
    (texts : List Bytes) :
    ∀ state ∈ (printAll faults disk index printed texts).2.2, state.path = disk.path := by
  induction texts generalizing index printed with
  | nil =>
      intro state member
      cases member
  | cons text texts ih =>
      intro state member
      unfold printAll at member
      cases here : faults.prints index with
      | some count =>
          rw [here] at member
          rw [List.mem_singleton.mp member]
      | none =>
          rw [here] at member
          rcases List.mem_cons.mp member with first | later
          · rw [first]
          · exact ih (index + 1) (printed ++ text) state later

theorem printAll_ok (faults : Faults) (disk : Disk) (index : Nat) (printed : Bytes)
    (texts : List Bytes)
    (prints : ∀ place, index ≤ place → place < index + texts.length → faults.prints place = none) :
    (printAll faults disk index printed texts).1 = true ∧
      (printAll faults disk index printed texts).2.1 = printed ++ texts.flatten ∧
      (printAll faults disk index printed texts).2.2.length = texts.length := by
  induction texts generalizing index printed with
  | nil => exact ⟨rfl, (List.append_nil _).symm, rfl⟩
  | cons text texts ih =>
      rw [List.length_cons] at prints
      obtain ⟨ok, all, count⟩ := ih (index + 1) (printed ++ text)
        (fun place low high => prints place (by omega) (by omega))
      unfold printAll
      rw [prints index (Nat.le_refl _) (by omega)]
      refine ⟨ok, ?_, ?_⟩
      · rw [List.flatten_cons, ← List.append_assoc]
        exact all
      · rw [List.length_cons, List.length_cons, count]

theorem printAll_failed (faults : Faults) (disk : Disk) (index : Nat) (printed : Bytes)
    (texts : List Bytes)
    (fails : ∃ place, index ≤ place ∧ place < index + texts.length ∧ faults.prints place ≠ none) :
    (printAll faults disk index printed texts).1 = false := by
  induction texts generalizing index printed with
  | nil =>
      obtain ⟨place, low, high, _⟩ := fails
      rw [List.length_nil] at high
      omega
  | cons text texts ih =>
      obtain ⟨place, low, high, failed⟩ := fails
      rw [List.length_cons] at high
      unfold printAll
      cases here : faults.prints index with
      | some count => rfl
      | none =>
          have later : index + 1 ≤ place := by
            rcases Nat.lt_or_ge index place with after | before
            · exact after
            · have same : place = index := by omega
              rw [same] at failed
              exact absurd here failed
          exact ih (index + 1) (printed ++ text) ⟨place, later, by omega, failed⟩

theorem write_unprinted {faults : Faults} {pathLength : Nat} (unprinted : ¬Prints faults pathLength)
    (keys : Scp03KeySet) (disk : Disk) :
    (∀ state ∈ (write faults pathLength keys disk).2, state.path = disk.path) ∧
      (write faults pathLength keys disk).1 ≠ .ok () := by
  unfold write
  by_cases long : 256 ≤ pathLength + 4
  · rw [if_pos long]
    exact ⟨fun state member => absurd member List.not_mem_nil, by simp [seFail, fail]⟩
  · rw [if_neg long]
    by_cases opens : faults.opens = true
    · rw [if_pos opens]
      have fails : ∃ place, 0 ≤ place ∧ place < 0 + (fileTexts keys).length ∧
          faults.prints place ≠ none := by
        by_contra every
        refine unprinted ⟨Nat.not_le.mp long, opens, ?_⟩
        intro index bound
        by_contra failed
        exact every ⟨index, Nat.zero_le _, by rw [fileTexts_length]; omega, failed⟩
      have failed := printAll_failed faults disk 0 [] (fileTexts keys) fails
      have kept := printAll_path faults disk 0 [] (fileTexts keys)
      dsimp only
      rw [failed]
      refine ⟨?_, by simp [seFail, fail]⟩
      intro state member
      rcases List.mem_cons.mp member with opened | member
      · rw [opened]
      · rcases List.mem_append.mp member with printed | late
        · exact kept state printed
        · rcases List.mem_cons.mp late with closed | removed
          · rw [closed]
          · rw [List.mem_singleton.mp removed, removeTmp_path]
    · rw [if_neg opens]
      refine ⟨?_, by simp [seFail, fail]⟩
      intro state member
      rw [List.mem_singleton.mp member]

/-- The calls of a `Write` that prints the whole text: the key file is what it was for 57 of
them, then come the two renames. -/
theorem write_printed {faults : Faults} {pathLength : Nat} (prints : Prints faults pathLength)
    (keys : Scp03KeySet) (disk : Disk) :
    ∃ early saved replaced final,
      (write faults pathLength keys disk).2 = early ++ saved :: replaced :: final ∧
      early.length = 57 ∧ (∀ state ∈ early, state.path = disk.path) ∧
      saved.path = (if faults.backsUp then none else disk.path) ∧
      replaced.path =
        (if faults.replaces then some (faults.closed (fileText keys)) else saved.path) ∧
      (∀ state ∈ final, state.path = replaced.path) ∧
      ((write faults pathLength keys disk).1 = .ok () ↔ faults.replaces = true) := by
  obtain ⟨short, opens, every⟩ := prints
  obtain ⟨ok, all, count⟩ := printAll_ok faults disk 0 [] (fileTexts keys)
    (fun place _ high => every place (by rw [fileTexts_length] at high; omega))
  have kept := printAll_path faults disk 0 [] (fileTexts keys)
  rw [List.nil_append, fileTexts_flatten] at all
  rw [fileTexts_length] at count
  unfold write
  rw [if_neg (Nat.not_le.mpr short), if_pos opens]
  dsimp only
  rw [ok, all, if_pos rfl]
  generalize (printAll faults disk 0 [] (fileTexts keys)).2.2 = printed at count kept
  have cleared : ∀ disk : Disk, ∀ state ∈ [disk, disk.removeBak faults.removesBak],
      state.path = disk.path := by
    intro disk state member
    rcases List.mem_cons.mp member with closed | removed
    · rw [closed]
    · rw [List.mem_singleton.mp removed, removeBak_path]
  generalize closed : ({ disk with tmp := some (faults.closed (fileText keys)) } : Disk) = last
  have path : last.path = disk.path := by rw [← closed]
  have tmp : last.tmp = some (faults.closed (fileText keys)) := by rw [← closed]
  have early : ∀ state ∈ ({ disk with tmp := some [] } : Disk) ::
      (printed ++ [last, last.removeBak faults.removesBak]), state.path = disk.path := by
    intro state member
    rcases List.mem_cons.mp member with opened | member
    · rw [opened]
    · rcases List.mem_append.mp member with inPrint | late
      · exact kept state inPrint
      · rw [cleared last state late, path]
  refine ⟨_ :: (printed ++ [last, last.removeBak faults.removesBak]),
    (last.removeBak faults.removesBak).backUp faults.backsUp,
    ((last.removeBak faults.removesBak).backUp faults.backsUp).replace faults.replaces,
    if faults.replaces then [] else
      [(((last.removeBak faults.removesBak).backUp faults.backsUp).replace
        faults.replaces).removeTmp faults.removesTmp], ?_, ?_, early, ?_, ?_, ?_, ?_⟩
  · cases faults.replaces <;> simp
  · simp [count]
  · rw [backUp_path, removeBak_path, path]
  · rw [replace_path, backUp_tmp, removeBak_tmp, tmp]
  · intro state member
    split at member
    · cases member
    · rw [List.mem_singleton.mp member, removeTmp_path]
  · cases faults.replaces <;> simp [seFail, fail]

/-! ### The disk that is found -/

theorem diskAfter_kept {disk : Disk} {states : List Disk}
    (kept : ∀ state ∈ states, state.path = disk.path) (crash : Option Nat) :
    (diskAfter disk states crash).path = disk.path := by
  have last : (states.getLastD disk).path = disk.path := by
    rw [List.getLastD_eq_getLast?]
    cases found : states.getLast? with
    | none => rfl
    | some state => exact kept state (List.mem_of_getLast? found)
  cases crash with
  | none => exact last
  | some calls =>
      change ((disk :: states).getD calls (states.getLastD disk)).path = disk.path
      rw [List.getD_eq_getElem?_getD]
      cases found : (disk :: states)[calls]? with
      | none => exact last
      | some state =>
          rcases List.mem_cons.mp (List.mem_of_getElem? found) with first | later
          · rw [first]
            rfl
          · exact kept state later

section

variable {disk saved replaced : Disk} {early final : List Disk}

theorem diskAfter_early (size : early.length = 57)
    (kept : ∀ state ∈ early, state.path = disk.path) {calls : Nat} (bound : calls < 58) :
    (diskAfter disk (early ++ saved :: replaced :: final) (some calls)).path = disk.path := by
  have inside : calls < (disk :: early).length := by
    rw [List.length_cons, size]
    exact bound
  change ((disk :: early ++ saved :: replaced :: final).getD calls _).path = disk.path
  rw [List.getD_append _ _ _ _ inside, List.getD_eq_getElem _ _ inside]
  rcases List.mem_cons.mp (List.getElem_mem inside) with first | later
  · rw [first]
  · exact kept _ later

theorem diskAfter_between (size : early.length = 57) :
    diskAfter disk (early ++ saved :: replaced :: final) (some 58) = saved := by
  change (disk :: early ++ saved :: replaced :: final).getD 58 _ = saved
  rw [List.getD_append_right _ _ _ _ (by rw [List.length_cons, size]), List.length_cons, size]
  rfl

theorem diskAfter_late (size : early.length = 57)
    (same : ∀ state ∈ final, state.path = replaced.path) {crash : Option Nat}
    (late : ∀ calls, crash = some calls → 59 ≤ calls) :
    (diskAfter disk (early ++ saved :: replaced :: final) crash).path = replaced.path := by
  have atEnd : ∀ state ∈ replaced :: final, state.path = replaced.path := by
    intro state member
    rcases List.mem_cons.mp member with first | later
    · rw [first]
    · exact same state later
  have last : ((early ++ saved :: replaced :: final).getLastD disk).path = replaced.path := by
    rw [List.getLastD_eq_getLast?, List.getLast?_append_cons, List.getLast?_cons_cons]
    cases found : (replaced :: final).getLast? with
    | none => cases (List.getLast?_eq_none_iff.mp found)
    | some state => exact atEnd state (List.mem_of_getLast? found)
  cases crash with
  | none => exact last
  | some calls =>
      have bound := late calls rfl
      have behind : (disk :: early ++ [saved]).length ≤ calls := by
        rw [List.length_append, List.length_cons, size]
        exact bound
      have split : disk :: (early ++ saved :: replaced :: final) =
          (disk :: early ++ [saved]) ++ (replaced :: final) := by simp
      change ((disk :: (early ++ saved :: replaced :: final)).getD calls _).path = replaced.path
      rw [split, List.getD_append_right _ _ _ _ behind, List.getD_eq_getElem?_getD]
      cases found : (replaced :: final)[calls - (disk :: early ++ [saved]).length]? with
      | none => exact last
      | some state => exact atEnd state (List.mem_of_getElem? found)

end

/-! ### Atomicity -/

theorem holds_closed {faults : Faults} (new : Scp03KeySet)
    (kept : ¬∃ count, faults.keeps = some count ∧ count < 110) :
    Holds new (faults.closed (fileText new)) := by
  unfold Faults.closed
  cases keeps : faults.keeps with
  | none => exact holds_fileText new
  | some count =>
      apply holds_take
      by_contra few
      exact kept ⟨count, keeps, Nat.not_le.mp few⟩

theorem not_holds_closed {faults : Faults} {count : Nat} (keeps : faults.keeps = some count)
    (few : count < 110) (keys new : Scp03KeySet) : ¬Holds keys (faults.closed (fileText new)) := by
  intro holds
  unfold Faults.closed at holds
  rw [keeps] at holds
  exact Nat.not_le.mpr few (count_of_holds holds)

theorem writesAtomically_of_path {old new : Scp03KeySet} {disk : Disk}
    {outcome : Status × List Disk} {crash : Option Nat} {content : Bytes}
    (found : (diskAfter disk outcome.2 crash).path = some content) :
    WritesAtomically old new disk outcome crash ↔
      (Holds old content ∨ Holds new content) ∧
        (crash = none → outcome.1 = .ok () → Holds new content) := by
  constructor
  · rintro ⟨⟨left, there, either⟩, ok⟩
    rw [found] at there
    cases there
    refine ⟨either, ?_⟩
    intro returned succeeded
    obtain ⟨final, there, holds⟩ := ok returned succeeded
    rw [found] at there
    cases there
    exact holds
  · rintro ⟨either, ok⟩
    exact ⟨⟨content, found, either⟩,
      fun returned succeeded => ⟨content, found, ok returned succeeded⟩⟩

theorem not_writesAtomically_of_missing {old new : Scp03KeySet} {disk : Disk}
    {outcome : Status × List Disk} {crash : Option Nat}
    (missing : (diskAfter disk outcome.2 crash).path = none) :
    ¬WritesAtomically old new disk outcome crash := by
  rintro ⟨⟨content, there, _⟩, _⟩
  rw [missing] at there
  cases there

theorem atomic_late_iff {faults : Faults} {pathLength : Nat} {crash : Option Nat}
    {old new : Scp03KeySet} {disk : Disk} {content : Bytes} (present : disk.path = some content)
    (holds : Holds old content) (prints : Prints faults pathLength)
    (late : ∀ calls, crash = some calls → 59 ≤ calls) :
    WritesAtomically old new disk (write faults pathLength new disk) crash ↔
      ¬(faults.replaces = false ∧ faults.backsUp = true ∨
        faults.replaces = true ∧ ∃ count, faults.keeps = some count ∧ count < 110) := by
  obtain ⟨early, saved, replaced, final, calls, size, kept, savedPath, replacedPath, same, ok⟩ :=
    write_printed prints new disk
  have found : (diskAfter disk (early ++ saved :: replaced :: final) crash).path = replaced.path :=
    diskAfter_late size same late
  rw [← calls, replacedPath, savedPath, present] at found
  cases replaces : faults.replaces with
  | false =>
      rw [replaces] at found ok
      cases backsUp : faults.backsUp with
      | true =>
          rw [backsUp] at found
          exact ⟨fun atomic => absurd atomic (not_writesAtomically_of_missing found),
            fun impossible => absurd (Or.inl ⟨rfl, rfl⟩) impossible⟩
      | false =>
          rw [backsUp] at found
          rw [writesAtomically_of_path found]
          constructor
          · rintro - (⟨-, impossible⟩ | ⟨impossible, -⟩)
            · cases impossible
            · cases impossible
          · intro _
            refine ⟨Or.inl holds, ?_⟩
            intro _ succeeded
            cases ok.mp succeeded
  | true =>
      rw [replaces] at found
      rw [writesAtomically_of_path found]
      constructor
      · rintro ⟨either, -⟩ (⟨impossible, -⟩ | ⟨-, count, keeps, few⟩)
        · cases impossible
        · rcases either with holdsOld | holdsNew
          · exact not_holds_closed keeps few old new holdsOld
          · exact not_holds_closed keeps few new new holdsNew
      · intro whole
        have holdsNew := holds_closed new (fun cut => whole (Or.inr ⟨rfl, cut⟩))
        exact ⟨Or.inr holdsNew, fun _ _ => holdsNew⟩

/-- `Write` is atomic exactly when it does not tear: for every key file that was there, every
new key set, every way the calls turn out and every place of a crash. -/
theorem keyfile_write_atomic_iff (faults : Faults) (pathLength : Nat) (crash : Option Nat)
    (old new : Scp03KeySet) (disk : Disk) (content : Bytes) (present : disk.path = some content)
    (holds : Holds old content) :
    WritesAtomically old new disk (write faults pathLength new disk) crash ↔
      ¬Tears faults pathLength crash := by
  unfold Tears
  by_cases prints : Prints faults pathLength
  · rw [and_iff_right prints]
    by_cases late : ∀ calls, crash = some calls → 59 ≤ calls
    · have notBetween : ¬(crash = some 58 ∧ faults.backsUp = true) := by
        rintro ⟨between, -⟩
        have impossible := late 58 between
        omega
      rw [atomic_late_iff present holds prints late, and_iff_right late, or_iff_right notBetween]
    · rw [or_iff_left (fun both => late both.1)]
      obtain ⟨early, saved, replaced, final, calls, size, kept, savedPath, -, -, -⟩ :=
        write_printed prints new disk
      by_cases between : crash = some 58
      · have found : (diskAfter disk (write faults pathLength new disk).2 crash).path =
            saved.path := by
          rw [between, calls, diskAfter_between size]
        rw [savedPath, present] at found
        cases backsUp : faults.backsUp with
        | true =>
            rw [backsUp] at found
            exact ⟨fun atomic => absurd atomic (not_writesAtomically_of_missing found),
              fun impossible => absurd ⟨between, rfl⟩ impossible⟩
        | false =>
            rw [backsUp] at found
            rw [writesAtomically_of_path found, between]
            refine ⟨fun _ both => (by cases both.2), fun _ => ⟨Or.inl holds, ?_⟩⟩
            intro impossible
            cases impossible
      · obtain ⟨before, crashed, bound⟩ : ∃ before, crash = some before ∧ before < 58 := by
          obtain ⟨before, missed⟩ := not_forall.mp late
          obtain ⟨crashed, bound⟩ := Classical.not_imp.mp missed
          refine ⟨before, crashed, ?_⟩
          have different : before ≠ 58 := fun same => between (by rw [crashed, same])
          omega
        have found : (diskAfter disk (write faults pathLength new disk).2 crash).path =
            some content := by
          rw [crashed, calls, diskAfter_early size kept bound, present]
        rw [writesAtomically_of_path found, crashed]
        refine ⟨fun _ both => between (crashed.trans both.1), fun _ => ⟨Or.inl holds, ?_⟩⟩
        intro impossible
        cases impossible
  · obtain ⟨kept, failed⟩ := write_unprinted prints new disk
    have found : (diskAfter disk (write faults pathLength new disk).2 crash).path =
        some content := by
      rw [diskAfter_kept kept, present]
    rw [writesAtomically_of_path found]
    exact ⟨fun _ tears => prints tears.1,
      fun _ => ⟨Or.inl holds, fun _ succeeded => absurd succeeded failed⟩⟩

def Faults.healthy : Faults :=
  { opens := true
    prints := fun _ => none
    flushed := fun _ => 0
    keeps := none
    removesTmp := true
    removesBak := true
    backsUp := true
    replaces := true }

def uniformKeys (byte : UInt8) : Scp03KeySet :=
  { enc := Key.filled byte, mac := Key.filled byte, dek := Key.filled byte }

def Disk.withKeys (keys : Scp03KeySet) : Disk :=
  { path := some (fileText keys), tmp := none, bak := none }

theorem keyfile_write_atomic_healthy :
    WritesAtomically (uniformKeys 1) (uniformKeys 2) (Disk.withKeys (uniformKeys 1))
      (write Faults.healthy 20 (uniformKeys 2) (Disk.withKeys (uniformKeys 1))) none := by
  refine (keyfile_write_atomic_iff Faults.healthy 20 none (uniformKeys 1) (uniformKeys 2)
    (Disk.withKeys (uniformKeys 1)) (fileText (uniformKeys 1)) rfl (holds_fileText _)).mpr ?_
  rintro ⟨-, ⟨impossible, -⟩ | ⟨-, ⟨impossible, -⟩ | ⟨-, count, impossible, -⟩⟩⟩
  · cases impossible
  · cases impossible
  · cases impossible

/-- A crash between the two renames leaves no key file. -/
theorem keyfile_write_crash :
    (diskAfter (Disk.withKeys (uniformKeys 1))
      (write Faults.healthy 20 (uniformKeys 2) (Disk.withKeys (uniformKeys 1))).2 (some 58)).path =
        none ∧
    ¬WritesAtomically (uniformKeys 1) (uniformKeys 2) (Disk.withKeys (uniformKeys 1))
      (write Faults.healthy 20 (uniformKeys 2) (Disk.withKeys (uniformKeys 1))) (some 58) := by
  have missing : (diskAfter (Disk.withKeys (uniformKeys 1))
      (write Faults.healthy 20 (uniformKeys 2) (Disk.withKeys (uniformKeys 1))).2 (some 58)).path =
        none := by
    decide +kernel
  exact ⟨missing, not_writesAtomically_of_missing missing⟩

/-! ### Round trip -/

/-- Every call that the new file depends on succeeds: the names are formatted whole, the
temporary file is opened, printed and closed, and renamed at the end. What becomes of the
backup is left open. -/
structure StdioSucceeds (faults : Faults) (pathLength : Nat) : Prop where
  prints : Prints faults pathLength
  closes : faults.keeps = none
  replaces : faults.replaces = true

theorem keyfile_roundtrip {faults : Faults} {pathLength : Nat}
    (succeeds : StdioSucceeds faults pathLength) (keys : Scp03KeySet) (disk : Disk)
    (memory : Tag → Bytes) (dekMemory : Bytes) :
    let outcome := write faults pathLength keys disk
    let file := (diskAfter disk outcome.2 none).path
    outcome.1 = .ok () ∧ read file memory = .ok keys ∧ readDek file dekMemory = .ok keys.dek := by
  intro outcome file
  obtain ⟨early, saved, replaced, final, calls, size, -, -, replacedPath, same, ok⟩ :=
    write_printed succeeds.prints keys disk
  have closed : faults.closed (fileText keys) = fileText keys := by
    rw [Faults.closed, succeeds.closes]
  rw [if_pos succeeds.replaces, closed] at replacedPath
  have found : file = some (fileText keys) := by
    rw [← replacedPath]
    change (diskAfter disk (write faults pathLength keys disk).2 none).path = _
    rw [calls]
    exact diskAfter_late size same (fun calls impossible => by cases impossible)
  rw [found]
  exact ⟨ok.mpr succeeds.replaces, read_fileText keys memory, readDek_fileText keys dekMemory⟩

/-- Keys of zero bytes over a longer file that holds no key at all. -/
theorem keyfile_roundtrip_zeros :
    let disk : Disk := { path := some (List.replicate 300 0x41), tmp := none, bak := none }
    read (diskAfter disk (write Faults.healthy 20 (uniformKeys 0) disk).2 none).path (fun _ => []) =
      .ok (uniformKeys 0) := by
  have prints : Prints Faults.healthy 20 := ⟨by decide, rfl, fun _ _ => rfl⟩
  exact (keyfile_roundtrip { prints := prints, closes := rfl, replaces := rfl } (uniformKeys 0)
    { path := some (List.replicate 300 0x41), tmp := none, bak := none } (fun _ => []) []).2.1

end Etlx.Se.Scp03Keyfile
