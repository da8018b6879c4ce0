/-
Tagged encodings of definite length, and buffers that are filled from their end.

An encoding is a tag, a length and that many bytes; what was encoded is read back with
what follows it. A length is known only behind its contents, so encodings are often
written backwards: a writer puts its text in front of what has been written, or says
that there is no room. Writers in a row put their texts in the opposite order.
-/

import Mathlib.Algebra.Group.Int.Defs
import Mathlib.Algebra.GroupWithZero.Nat
import Mathlib.Data.Nat.Digits.Lemmas

namespace Etlx.Der

/-! ### Encodings -/

def digits (n : Nat) : List UInt8 := ((Nat.digits 256 n).map UInt8.ofNat).reverse

def valueOf (bytes : List UInt8) : Nat := Nat.ofDigits 256 (bytes.reverse.map UInt8.toNat)

def lengthBytes (n : Nat) : List UInt8 :=
  if n < 128 then [UInt8.ofNat n]
  else UInt8.ofNat (128 + (digits n).length) :: digits n

def tlv (tag : UInt8) (content : List UInt8) : List UInt8 :=
  tag :: lengthBytes content.length ++ content

/-- An arc of an object identifier in base 128, with a mark on every byte but the last. -/
def arc (n : Nat) : List UInt8 :=
  (Nat.digits 128 (n / 128)).reverse.map (fun digit => UInt8.ofNat (128 + digit)) ++
    [UInt8.ofNat (n % 128)]

def oid : List Nat → List UInt8
  | first :: second :: arcs => arc (40 * first + second) ++ arcs.flatMap arc
  | _ => []

def readLength : List UInt8 → Option (Nat × List UInt8)
  | [] => none
  | first :: rest =>
      if first < 128 then some (first.toNat, rest)
      else
        let count := first.toNat - 128
        if 0 < count ∧ count ≤ rest.length then
          some (valueOf (rest.take count), rest.drop count)
        else none

/-- The tag and the contents of the encoding in front, and what follows it. -/
def readTlv : List UInt8 → Option (UInt8 × List UInt8 × List UInt8)
  | [] => none
  | tag :: rest =>
      match readLength rest with
      | none => none
      | some (length, behind) =>
          if length ≤ behind.length then some (tag, behind.take length, behind.drop length)
          else none

theorem tlv_cons (tag : UInt8) (content : List UInt8) :
    tlv tag content = tag :: lengthBytes content.length ++ content := rfl

theorem valueOf_digits (n : Nat) : valueOf (digits n) = n := by
  have same : ((Nat.digits 256 n).map UInt8.ofNat).map UInt8.toNat = Nat.digits 256 n := by
    rw [List.map_map]
    refine (List.map_congr_left ?_).trans (List.map_id _)
    intro digit member
    have small : digit < 256 := Nat.digits_lt_base (by decide) member
    change (UInt8.ofNat digit).toNat = digit
    rw [UInt8.toNat_ofNat', Nat.mod_eq_of_lt small]
  rw [valueOf, digits, List.reverse_reverse, same, Nat.ofDigits_digits]

theorem digits_length_le {n count : Nat} (small : n < 256 ^ count) :
    (digits n).length ≤ count := by
  rw [digits, List.length_reverse, List.length_map]
  exact (Nat.digits_length_le_iff (by decide) n).mpr small

theorem digits_ne_nil {n : Nat} (positive : 0 < n) : digits n ≠ [] := by
  intro empty
  have value := valueOf_digits n
  rw [empty] at value
  change 0 = n at value
  omega

theorem readLength_lengthBytes {n : Nat} (small : n < 2 ^ 32) (rest : List UInt8) :
    readLength (lengthBytes n ++ rest) = some (n, rest) := by
  unfold lengthBytes
  by_cases short : n < 128
  · have first : (UInt8.ofNat n).toNat = n := by
      rw [UInt8.toNat_ofNat']
      omega
    have below : UInt8.ofNat n < 128 := by
      rw [UInt8.lt_iff_toNat_lt, first]
      exact short
    rw [if_pos short, List.singleton_append, readLength, if_pos below, first]
  · have few : (digits n).length ≤ 4 := digits_length_le small
    have some' : 0 < (digits n).length := List.length_pos_iff.mpr (digits_ne_nil (by omega))
    have first : (UInt8.ofNat (128 + (digits n).length)).toNat = 128 + (digits n).length := by
      rw [UInt8.toNat_ofNat']
      omega
    have above : ¬UInt8.ofNat (128 + (digits n).length) < 128 := by
      rw [UInt8.lt_iff_toNat_lt, first]
      exact Nat.not_lt.mpr (Nat.le_add_right _ _)
    rw [if_neg short, List.cons_append, readLength, if_neg above, first, Nat.add_sub_cancel_left]
    dsimp only
    rw [if_pos ⟨some', by rw [List.length_append]; omega⟩, List.take_left, List.drop_left,
      valueOf_digits]

theorem readTlv_tlv (tag : UInt8) {content : List UInt8} (small : content.length < 2 ^ 32)
    (rest : List UInt8) : readTlv (tlv tag content ++ rest) = some (tag, content, rest) := by
  rw [tlv, List.cons_append, List.cons_append, List.append_assoc, readTlv,
    readLength_lengthBytes small]
  dsimp only
  rw [if_pos (by rw [List.length_append]; omega), List.take_left, List.drop_left]

theorem length_le_tlv (tag : UInt8) (content : List UInt8) :
    content.length < (tlv tag content).length := by
  rw [tlv, List.cons_append, List.length_cons, List.length_append]
  omega

/-! ### Buffers filled from the end -/

/-- The part in front that has not been written, and what has been. -/
structure Tail where
  front : List UInt8
  written : List UInt8
deriving DecidableEq, Repr

def Tail.room (tail : Tail) : Nat := tail.front.length

def Tail.start (memory : List UInt8) : Tail := { front := memory, written := [] }

def Tail.buffer (tail : Tail) : List UInt8 := tail.front ++ tail.written

def Tail.put (tail : Tail) (text : List UInt8) : Tail :=
  { front := tail.front.take (tail.room - text.length), written := text ++ tail.written }

/-- What a writer returns, a count or a negative number, and the buffer. -/
abbrev Writer := Tail → Int × Tail

structure Writes (writer : Writer) (text : List UInt8) : Prop where
  fits : ∀ tail, text.length ≤ tail.room → writer tail = ((text.length : Int), tail.put text)
  full : ∀ tail, tail.room < text.length → (writer tail).1 < 0

def writer (code : Int) (text : List UInt8) : Writer := fun tail =>
  if text.length ≤ tail.room then ((text.length : Int), tail.put text) else (code, tail)

theorem writer_writes {code : Int} (negative : code < 0) (text : List UInt8) :
    Writes (writer code text) text where
  fits := fun _ fits => if_pos fits
  full := by
    intro tail full
    rw [writer, if_neg (Nat.not_le.mpr full)]
    exact negative

theorem Tail.put_room (tail : Tail) (text : List UInt8) :
    (tail.put text).room = tail.room - text.length := by
  rw [Tail.put, Tail.room, List.length_take_of_le]
  exact Nat.sub_le _ _

theorem Tail.put_put (tail : Tail) (first second : List UInt8) :
    (tail.put first).put second = tail.put (second ++ first) := by
  have room : (tail.put first).room - second.length = tail.room - (second ++ first).length := by
    rw [tail.put_room, List.length_append]
    omega
  rw [Tail.put, room]
  unfold Tail.put
  dsimp only
  rw [List.take_take, List.append_assoc, Nat.min_eq_left]
  rw [List.length_append]
  omega

theorem Tail.start_put_drop (memory text : List UInt8) :
    ((Tail.start memory).put text).buffer.drop (memory.length - text.length) = text := by
  have front : (memory.take (memory.length - text.length)).length =
      memory.length - text.length := List.length_take_of_le (Nat.sub_le _ _)
  unfold Tail.buffer Tail.put Tail.start Tail.room
  dsimp only
  rw [List.append_nil]
  exact List.drop_left' front

/-! ### Writers in a row -/

/-- One writer, and what comes after it with the count of the bytes so far; a writer that fails
ends the row. -/
def andThen (first : Writer) (next : Int → Writer) (count : Int) : Writer := fun tail =>
  let (returned, tail) := first tail
  if returned < 0 then (returned, tail) else next (count + returned) tail

/-- A row that puts this text in front, if there is room, and counts its bytes. What is counted
and what is left together are within the bound. -/
structure Lays (bound : Nat) (row : Int → Writer) (count : Nat) (text : List UInt8) : Prop where
  fits : ∀ tail, count + tail.room ≤ bound → text.length ≤ tail.room →
    row count tail = (((count + text.length : Nat) : Int), tail.put text)
  full : ∀ tail, count + tail.room ≤ bound → tail.room < text.length → (row count tail).1 < 0

theorem Tail.put_nil (tail : Tail) : tail.put [] = tail := by
  rw [Tail.put, List.length_nil, Nat.sub_zero, Tail.room, List.take_length, List.nil_append]

theorem lays_end (bound count : Nat) : Lays bound (fun count tail => (count, tail)) count [] where
  fits := by
    intro tail _ _
    rw [tail.put_nil]
    rfl
  full := fun _ _ impossible => absurd impossible (Nat.not_lt_zero _)

theorem Lays.andThen {bound count : Nat} {first : Writer} {next : Int → Writer}
    {text later : List UInt8} (writes : Writes first text)
    (lays : Lays bound next (count + text.length) later) :
    Lays bound (andThen first next) count (later ++ text) where
  fits := by
    intro tail within room
    rw [List.length_append] at room
    have here := writes.fits tail (by omega)
    have rest := lays.fits (tail.put text) (by rw [tail.put_room]; omega)
      (by rw [tail.put_room]; omega)
    rw [Der.andThen, here]
    dsimp only
    rw [if_neg (Int.not_lt.mpr (Int.natCast_nonneg _)), ← Int.natCast_add, rest, tail.put_put,
      List.length_append]
    congr 2
    omega
  full := by
    intro tail within short
    rw [List.length_append] at short
    rw [Der.andThen]
    by_cases room : text.length ≤ tail.room
    · have here := writes.fits tail room
      have rest := lays.full (tail.put text) (by rw [tail.put_room]; omega)
        (by rw [tail.put_room]; omega)
      rw [here]
      dsimp only
      rw [if_neg (Int.not_lt.mpr (Int.natCast_nonneg _)), ← Int.natCast_add]
      exact rest
    · have negative := writes.full tail (Nat.not_le.mp room)
      dsimp only
      rw [if_pos negative]
      exact negative

/-! ### Reading what was written -/

def expect (tag : UInt8) (bytes : List UInt8) :
    Option (List UInt8 × List UInt8 × List UInt8) :=
  match readTlv bytes with
  | none => none
  | some (found, content, rest) =>
      if found = tag then some (bytes.take (bytes.length - rest.length), content, rest) else none

theorem expect_tlv (tag : UInt8) {content : List UInt8} (small : content.length < 2 ^ 32)
    (rest : List UInt8) :
    expect tag (tlv tag content ++ rest) = some (tlv tag content, content, rest) := by
  rw [expect, readTlv_tlv tag small]
  dsimp only
  rw [if_pos rfl, List.length_append, Nat.add_sub_cancel, List.take_left]

end Etlx.Der
