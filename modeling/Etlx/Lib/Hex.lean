/-
Bytes as pairs of hexadecimal digits.

Digits of both cases are read, small ones are written; what was written reads
back as the bytes it came from.
-/

import Etlx.Core.Result

namespace Etlx.Hex

def value (digit : UInt8) : Option Nat :=
  if 0x30 ≤ digit ∧ digit ≤ 0x39 then some (digit.toNat - 0x30)
  else if 0x41 ≤ digit ∧ digit ≤ 0x46 then some (digit.toNat - 0x37)
  else if 0x61 ≤ digit ∧ digit ≤ 0x66 then some (digit.toNat - 0x57)
  else none

/-- The bytes that a sequence of digits denotes, two digits a byte. -/
def decode : Bytes → Option Bytes
  | [] => some []
  | [_] => none
  | first :: second :: rest =>
      match value first, value second with
      | some high, some low =>
          (decode rest).map (fun bytes => UInt8.ofNat (16 * high + low) :: bytes)
      | _, _ => none

def digit (value : Nat) : UInt8 :=
  if value < 10 then UInt8.ofNat (0x30 + value) else UInt8.ofNat (0x57 + value)

def encode : Bytes → Bytes
  | [] => []
  | byte :: bytes => digit (byte.toNat / 16) :: digit (byte.toNat % 16) :: encode bytes

theorem value_digit {number : Nat} (small : number < 16) : value (digit number) = some number := by
  rcases number with _ | _ | _ | _ | _ | _ | _ | _ | _ | _ | _ | _ | _ | _ | _ | _ | number
  all_goals first | rfl | omega

theorem decode_encode (bytes : Bytes) : decode (encode bytes) = some bytes := by
  induction bytes with
  | nil => rfl
  | cons byte bytes ih =>
      have bound : byte.toNat < 256 := byte.toNat_lt
      have halves : 16 * (byte.toNat / 16) + byte.toNat % 16 = byte.toNat := by omega
      rw [encode, decode, value_digit (by omega), value_digit (by omega), ih]
      simp [halves]

theorem encode_length (bytes : Bytes) : (encode bytes).length = 2 * bytes.length := by
  induction bytes with
  | nil => rfl
  | cons byte bytes ih =>
      rw [encode, List.length_cons, List.length_cons, List.length_cons, ih]
      omega

theorem mem_encode {bytes : Bytes} {item : UInt8} (member : item ∈ encode bytes) :
    (value item).isSome = true := by
  induction bytes with
  | nil => cases member
  | cons byte bytes ih =>
      have bound : byte.toNat < 256 := byte.toNat_lt
      rcases List.mem_cons.mp member with first | member
      · rw [first, value_digit (by omega)]
        rfl
      · rcases List.mem_cons.mp member with second | later
        · rw [second, value_digit (by omega)]
          rfl
        · exact ih later

theorem decode_length {digits bytes : Bytes} (decoded : decode digits = some bytes) :
    digits.length = 2 * bytes.length := by
  fun_induction decode digits generalizing bytes with
  | case1 =>
      cases decoded
      rfl
  | case2 => cases decoded
  | case3 first second rest high low firstValue secondValue ih =>
      obtain ⟨tail, rest, same⟩ := Option.map_eq_some_iff.mp decoded
      rw [← same, List.length_cons, List.length_cons, List.length_cons, ih rest]
      omega
  | case4 => cases decoded

end Etlx.Hex
