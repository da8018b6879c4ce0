/-
The calls of C's standard input that read text into a buffer.

Memory is a list of bytes from the place of interest on; what lies behind its end
reads as a terminator. `fgets` writes its line and a terminator over the front of
the buffer and leaves what was behind them. `sscanf` sees the bytes up to the
first terminator.
-/

import Etlx.Lib.Hex

namespace Etlx.Stdio

/-- One `fgets` with room for `limit` bytes: what it reads and what it leaves unread. -/
def fgets : Nat → Bytes → Bytes × Bytes
  | 0, content => ([], content)
  | _ + 1, [] => ([], [])
  | limit + 1, byte :: content =>
      if byte = Ascii.lineFeed then ([byte], content)
      else (byte :: (fgets limit content).1, (fgets limit content).2)

theorem fgets_append (limit : Nat) (content : Bytes) :
    (fgets limit content).1 ++ (fgets limit content).2 = content := by
  fun_induction fgets limit content with
  | case1 content => rfl
  | case2 limit => rfl
  | case3 limit content => rfl
  | case4 limit byte content _ ih => rw [List.cons_append, ih]

/-- The lines that `fgets` delivers, call after call, until the end of the file. -/
def lines (limit : Nat) (content : Bytes) : List Bytes :=
  match content with
  | [] => []
  | byte :: more =>
      (fgets (limit + 1) (byte :: more)).1 :: lines limit (fgets (limit + 1) (byte :: more)).2
termination_by content.length
decreasing_by
  rw [fgets]
  split
  · exact Nat.lt_succ_self _
  · have whole := congrArg List.length (fgets_append limit more)
    rw [List.length_append] at whole
    dsimp only
    rw [List.length_cons]
    omega

theorem lines_flatten (limit : Nat) (content : Bytes) :
    (lines limit content).flatten = content := by
  fun_induction lines limit content with
  | case1 => rfl
  | case2 byte more ih => rw [List.flatten_cons, ih, fgets_append]

theorem fgets_line {limit : Nat} {line : Bytes} (rest : Bytes) (short : line.length < limit)
    (plain : Ascii.lineFeed ∉ line) :
    fgets limit (line ++ Ascii.lineFeed :: rest) = (line ++ [Ascii.lineFeed], rest) := by
  induction line generalizing limit with
  | nil =>
      obtain ⟨limit, rfl⟩ := Nat.exists_eq_succ_of_ne_zero (Nat.ne_of_gt short)
      simp [fgets]
  | cons byte line ih =>
      obtain ⟨different, later⟩ := not_or.mp (fun either => plain (List.mem_cons.mpr either))
      obtain ⟨limit, rfl⟩ := Nat.exists_eq_succ_of_ne_zero (Nat.ne_of_gt (Nat.zero_lt_of_lt short))
      rw [List.cons_append, Nat.succ_eq_add_one, fgets, if_neg (Ne.symm different),
        ih (Nat.lt_of_succ_lt_succ short) later]
      rfl

theorem fgets_end {limit : Nat} {line : Bytes} (short : line.length ≤ limit)
    (plain : Ascii.lineFeed ∉ line) : fgets limit line = (line, []) := by
  induction line generalizing limit with
  | nil => cases limit <;> rfl
  | cons byte line ih =>
      obtain ⟨different, later⟩ := not_or.mp (fun either => plain (List.mem_cons.mpr either))
      obtain ⟨limit, rfl⟩ := Nat.exists_eq_succ_of_ne_zero
        (Nat.ne_of_gt (Nat.lt_of_lt_of_le (Nat.succ_pos _) short))
      rw [Nat.succ_eq_add_one, fgets, if_neg (Ne.symm different),
        ih (Nat.le_of_succ_le_succ short) later]

theorem lines_line {limit : Nat} {line : Bytes} (rest : Bytes) (short : line.length ≤ limit)
    (plain : Ascii.lineFeed ∉ line) :
    lines limit (line ++ Ascii.lineFeed :: rest) =
      (line ++ [Ascii.lineFeed]) :: lines limit rest := by
  have read := fgets_line rest (Nat.lt_succ_of_le short) plain
  cases line with
  | nil => rw [List.nil_append, lines, ← List.nil_append (Ascii.lineFeed :: rest), read]
  | cons byte line => rw [List.cons_append, lines, ← List.cons_append, read]

theorem lines_end {limit : Nat} {line : Bytes} (nonempty : line ≠ []) (short : line.length ≤ limit)
    (plain : Ascii.lineFeed ∉ line) : lines limit line = [line] := by
  have read := fgets_end (Nat.le_succ_of_le short) plain
  cases line with
  | nil => exact absurd rfl nonempty
  | cons byte line => rw [lines, read, lines]

def store (line memory : Bytes) : Bytes :=
  line ++ 0 :: memory.drop (line.length + 1)

def isSpace (byte : UInt8) : Bool := byte = 0x20 || (0x09 ≤ byte && byte ≤ 0x0d)

def text (memory : Bytes) : Bytes := memory.takeWhile (· ≠ 0)

/-- A number of at most two characters: a sign and a digit, or one or two digits. A lone sign
and "0x" are the beginning of a number that is longer. -/
def scanNumber : Bytes → Option UInt8
  | [] => none
  | first :: rest =>
      if first = Ascii.plus then (rest.head?.bind Hex.value).map UInt8.ofNat
      else if first = Ascii.minus then
        (rest.head?.bind Hex.value).map (fun digit => UInt8.ofNat (2 ^ 32 - digit))
      else
        match Hex.value first, rest with
        | none, _ => none
        | some high, [] => some (UInt8.ofNat high)
        | some high, second :: _ =>
            if first = Ascii.zero ∧ (second = 0x78 ∨ second = 0x58) then none
            else
              match Hex.value second with
              | none => some (UInt8.ofNat high)
              | some low => some (UInt8.ofNat (16 * high + low))

/-- `sscanf(memory, "%02x", &b)` and the cast of `b` to a byte. -/
def scanHexByte (memory : Bytes) : Option UInt8 :=
  scanNumber ((text memory).dropWhile isSpace)

end Etlx.Stdio
