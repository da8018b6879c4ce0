/-
The value-based error model shared by every module.

An error is a category, a code inside that category and a message. The messages
that are literals of the source are shorter than `ETLX_ERROR_MESSAGE_CAPACITY`, so
the truncating copy of `error::Make` shows only where input becomes a message,
which is what `messageOf` is for.
-/

import Mathlib.Algebra.Group.Int.Defs
import Mathlib.Algebra.GroupWithZero.Nat
import Mathlib.Data.List.Basic

namespace Etlx

/-- `error::Category`, identified by the name it is declared with. -/
structure Category where
  name : String
deriving DecidableEq, Repr

structure Error where
  category : Category
  code : Int
  message : String
deriving DecidableEq, Repr

abbrev Result (α : Type) := Except Error α

abbrev Status := Result Unit

def fail {α : Type} (category : Category) (code : Int) (message : String) : Result α :=
  .error { category := category, code := code, message := message }

/-- The contents of a `ConstByteSpan` or of an `etl::string_view`. -/
abbrev Bytes := List UInt8

def messageCapacity : Nat := 64

/-- Input as a message, byte by byte and cut to the capacity. -/
def messageOf (text : Bytes) : String :=
  String.ofList ((text.take messageCapacity).map (fun byte => Char.ofNat byte.toNat))

def ascii (text : String) : Bytes := text.toList.map (fun c => UInt8.ofNat c.toNat)

namespace Ascii

abbrev tab : UInt8 := 0x09
abbrev lineFeed : UInt8 := 0x0a
abbrev carriageReturn : UInt8 := 0x0d
abbrev space : UInt8 := 0x20
abbrev quote : UInt8 := 0x22
abbrev plus : UInt8 := 0x2b
abbrev comma : UInt8 := 0x2c
abbrev minus : UInt8 := 0x2d
abbrev dot : UInt8 := 0x2e
abbrev slash : UInt8 := 0x2f
abbrev zero : UInt8 := 0x30
abbrev nine : UInt8 := 0x39
abbrev colon : UInt8 := 0x3a
abbrev equals : UInt8 := 0x3d
abbrev openBracket : UInt8 := 0x5b
abbrev backslash : UInt8 := 0x5c
abbrev closeBracket : UInt8 := 0x5d
abbrev openBrace : UInt8 := 0x7b
abbrev closeBrace : UInt8 := 0x7d

end Ascii

end Etlx
