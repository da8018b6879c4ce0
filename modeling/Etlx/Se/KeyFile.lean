/-
The SCP03 key file: the reader and the text that is written.

A key file has one line for each key: a tag, a space and 32 hexadecimal digits. The
reader looks at the first line with the tag, as `fgets` delivers lines, and scans
sixteen numbers at a fixed stride from the memory behind the tag, which goes on
behind the end of the line.
-/

import Etlx.Lib.Stdio

namespace Etlx.Se

def category : Category := { name := "etlx::se" }

inductive Code
  | openFailed
  | storeFailed
  | rngFailed
  | keyFailed
  | signFailed
  | writeFailed
  | readFailed
deriving DecidableEq, Repr

def Code.value : Code → Int
  | .openFailed => 1
  | .storeFailed => 2
  | .rngFailed => 3
  | .keyFailed => 4
  | .signFailed => 5
  | .writeFailed => 6
  | .readFailed => 7

def seFail {α : Type} (code : Code) (message : String) : Result α :=
  fail category code.value message

/-- A 128-bit key, which is also a block of the cipher. -/
@[ext]
structure Key where
  bytes : Bytes
  size : bytes.length = 16
deriving DecidableEq, Repr

/-- A block of equal bytes, as `memset` and `= {}` make it. -/
def Key.filled (byte : UInt8) : Key :=
  { bytes := List.replicate 16 byte, size := List.length_replicate }

structure Scp03KeySet where
  enc : Key
  mac : Key
  dek : Key
deriving DecidableEq, Repr

inductive Tag
  | enc
  | mac
  | dek
deriving DecidableEq, Repr

def Tag.text : Tag → Bytes
  | .enc => ascii "ENC"
  | .mac => ascii "MAC"
  | .dek => ascii "DEK"

def Scp03KeySet.key (keys : Scp03KeySet) : Tag → Key
  | .enc => keys.enc
  | .mac => keys.mac
  | .dek => keys.dek

namespace Scp03Keyfile

open Stdio

/-! ### Reading -/

def parseBytes : Nat → Bytes → Option Bytes
  | 0, _ => some []
  | count + 1, p =>
      match scanHexByte p with
      | none => none
      | some byte => (parseBytes count (p.drop 2)).map (fun bytes => byte :: bytes)

theorem parseBytes_length {count : Nat} {p bytes : Bytes}
    (parsed : parseBytes count p = some bytes) : bytes.length = count := by
  induction count generalizing p bytes with
  | zero =>
      cases parsed
      rfl
  | succ count ih =>
      unfold parseBytes at parsed
      cases scanned : scanHexByte p with
      | none =>
          rw [scanned] at parsed
          cases parsed
      | some byte =>
          rw [scanned] at parsed
          obtain ⟨tail, rest, same⟩ := Option.map_eq_some_iff.mp parsed
          rw [← same, List.length_cons, ih rest]

def parse16 (p : Bytes) : Option Key :=
  match parsed : parseBytes 16 p with
  | none => none
  | some bytes => some { bytes := bytes, size := parseBytes_length parsed }

def isBlank (byte : UInt8) : Bool := byte = Ascii.space || byte = Ascii.tab

def skipBlanks (p : Bytes) : Bytes := p.dropWhile isBlank

/-- The place behind the tag, its space and the blanks that follow, if the line has the tag. -/
def payload (tag line : Bytes) : Option Bytes :=
  if (tag ++ [Ascii.space]).isPrefixOf (skipBlanks line) then
    some (skipBlanks ((skipBlanks line).drop (tag.length + 1)))
  else none

/-- `while (std::fgets(...))`: the memory behind the tag of the first line that has it. The
buffer keeps what earlier lines left in it. -/
def findLine (tag : Bytes) : Bytes → List Bytes → Option Bytes
  | _, [] => none
  | memory, line :: later =>
      match payload tag (store line memory) with
      | some p => some p
      | none => findLine tag (store line memory) later

/-- `FindKey`, over the file if it can be opened and the memory that `line` is found with. -/
def findKey (file : Option Bytes) (memory : Bytes) (tag : Tag) : Option Key :=
  match file with
  | none => none
  | some content => (findLine tag.text memory (lines 254 content)).bind parse16

def readDek (file : Option Bytes) (memory : Bytes) : Result Key :=
  match findKey file memory .dek with
  | none => seFail .readFailed "SCP03 key file: DEK line missing or malformed"
  | some dek => .ok dek

/-- `Read`; each of the calls of `FindKey` finds its own memory. -/
def read (file : Option Bytes) (memory : Tag → Bytes) : Result Scp03KeySet :=
  match findKey file (memory .enc) .enc, findKey file (memory .mac) .mac,
    findKey file (memory .dek) .dek with
  | some enc, some mac, some dek => .ok { enc := enc, mac := mac, dek := dek }
  | _, _, _ => seFail .readFailed "SCP03 key file: missing or malformed ENC/MAC/DEK line"

/-! ### The text of a key file -/

def keyLine (tag : Tag) (key : Key) : Bytes :=
  tag.text ++ Ascii.space :: (Hex.encode key.bytes ++ [Ascii.lineFeed])

def fileText (keys : Scp03KeySet) : Bytes :=
  keyLine .enc keys.enc ++ (keyLine .mac keys.mac ++ keyLine .dek keys.dek)

end Scp03Keyfile

end Etlx.Se
