/-
SHA-256 as its standard defines it.

The constants are the leading fractional bits of roots of primes, the message
schedule is a recurrence, and the digest of a message folds the compression
function over the blocks of the padded message. Nothing here follows the
implementation.
-/

import Etlx.Core.Result
import Mathlib.Data.Nat.NthRoot.Defs
import Mathlib.Data.Nat.Prime.Basic

namespace Etlx.Sha2

abbrev Word := UInt32

def primes : List Nat := (List.range 312).filter (fun n => Nat.Prime n)

/-- The first thirty-two bits of the fractional part of the root of `p`. -/
def rootBits (degree p : Nat) : Word := UInt32.ofNat (Nat.nthRoot degree (p * 2 ^ (32 * degree)))

def constants : List Word := primes.map (rootBits 3)

/-- The initial hash value, from the square roots of the first eight primes. -/
def initial : List Word := (primes.take 8).map (rootBits 2)

def rotr (n : Nat) (x : Word) : Word := ⟨x.toBitVec.rotateRight n⟩

def shr (n : Nat) (x : Word) : Word := ⟨x.toBitVec >>> n⟩

def ch (x y z : Word) : Word := (x &&& y) ^^^ (~~~x &&& z)

def maj (x y z : Word) : Word := (x &&& y) ^^^ (x &&& z) ^^^ (y &&& z)

def bigSigma0 (x : Word) : Word := rotr 2 x ^^^ rotr 13 x ^^^ rotr 22 x

def bigSigma1 (x : Word) : Word := rotr 6 x ^^^ rotr 11 x ^^^ rotr 25 x

def smallSigma0 (x : Word) : Word := rotr 7 x ^^^ rotr 18 x ^^^ shr 3 x

def smallSigma1 (x : Word) : Word := rotr 17 x ^^^ rotr 19 x ^^^ shr 10 x

def bigEndian (bytes : Bytes) : Nat := bytes.foldl (fun value byte => 256 * value + byte.toNat) 0

def bytesOf (count value : Nat) : Bytes :=
  (List.range count).map (fun i => UInt8.ofNat (value / 256 ^ (count - 1 - i)))

def schedule (block : Bytes) (t : Nat) : Word :=
  if t < 16 then UInt32.ofNat (bigEndian ((block.drop (4 * t)).take 4))
  else
    smallSigma1 (schedule block (t - 2)) + schedule block (t - 7) +
      smallSigma0 (schedule block (t - 15)) + schedule block (t - 16)

structure Registers where
  a : Word
  b : Word
  c : Word
  d : Word
  e : Word
  f : Word
  g : Word
  h : Word
deriving DecidableEq, Repr

def Registers.of (words : List Word) : Registers :=
  { a := words.getD 0 0, b := words.getD 1 0, c := words.getD 2 0, d := words.getD 3 0,
    e := words.getD 4 0, f := words.getD 5 0, g := words.getD 6 0, h := words.getD 7 0 }

def Registers.words (r : Registers) : List Word := [r.a, r.b, r.c, r.d, r.e, r.f, r.g, r.h]

def round (r : Registers) (constant word : Word) : Registers :=
  let first := r.h + bigSigma1 r.e + ch r.e r.f r.g + constant + word
  let second := bigSigma0 r.a + maj r.a r.b r.c
  { a := first + second, b := r.a, c := r.b, d := r.c,
    e := r.d + first, f := r.e, g := r.f, h := r.g }

def compress (hash : List Word) (block : Bytes) : List Word :=
  let working := (List.range 64).foldl
    (fun r t => round r (constants.getD t 0) (schedule block t)) (Registers.of hash)
  List.zipWith (· + ·) working.words hash

/-- The number of zero bytes between the marker and the length: the least that
brings the message to 56 bytes modulo 64. -/
def zeros (length : Nat) : Nat := (119 - length % 64) % 64

def pad (message : Bytes) : Bytes :=
  message ++ 0x80 :: List.replicate (zeros message.length) 0 ++ bytesOf 8 (8 * message.length)

theorem pad_length (message : Bytes) : (pad message).length % 64 = 0 := by
  simp only [pad, bytesOf, zeros, List.length_append, List.length_cons, List.length_replicate,
    List.length_map, List.length_range]
  omega

def digest (message : Bytes) : Bytes :=
  let hash := (List.range ((pad message).length / 64)).foldl
    (fun hash i => compress hash (((pad message).drop (64 * i)).take 64)) initial
  (hash.map (fun word => bytesOf 4 word.toNat)).flatten

theorem bytesOf_length (count value : Nat) : (bytesOf count value).length = count := by
  rw [bytesOf, List.length_map, List.length_range]

theorem compress_length {hash : List Word} (block : Bytes) (eight : hash.length = 8) :
    (compress hash block).length = 8 := by
  simp [compress, Registers.words, eight]

theorem digest_length (message : Bytes) : (digest message).length = 32 := by
  have eight (indices : List Nat) (hash : List Word) (start : hash.length = 8) :
      (indices.foldl (fun hash i => compress hash (((pad message).drop (64 * i)).take 64))
        hash).length = 8 := by
    induction indices generalizing hash with
    | nil => exact start
    | cons i indices ih => exact ih _ (compress_length _ start)
  have initialLength : initial.length = 8 := by
    decide +kernel
  unfold digest
  simp only [List.length_flatten, List.map_map, Function.comp_def, bytesOf_length]
  rw [List.map_const', eight _ _ initialLength]
  rfl

end Etlx.Sha2
