/-
The streaming SHA-256 hasher.

`Work` holds the fields that the loops of `Update` change. Between calls less
than one block is pending, which the hasher carries as a field, so the padding
loop of `Final` is total. The pending bytes are the first `buffered` bytes of
the buffer; what the others hold is left over from earlier blocks.
-/

import Etlx.Core.Result
import Etlx.Crypto.Sha2

namespace Etlx.Crypto

open Sha2 (Registers)

def category : Category := { name := "crypto" }

inductive Code
  | none
  | badState
  | verifyFailed
  | randomFailed
deriving DecidableEq, Repr

def Code.value : Code → Int
  | .none => 0
  | .badState => 1
  | .verifyFailed => 2
  | .randomFailed => 3

def roundConstants : List UInt32 :=
  [0x428a2f98, 0x71374491, 0xb5c0fbcf, 0xe9b5dba5, 0x3956c25b, 0x59f111f1,
    0x923f82a4, 0xab1c5ed5, 0xd807aa98, 0x12835b01, 0x243185be, 0x550c7dc3,
    0x72be5d74, 0x80deb1fe, 0x9bdc06a7, 0xc19bf174, 0xe49b69c1, 0xefbe4786,
    0x0fc19dc6, 0x240ca1cc, 0x2de92c6f, 0x4a7484aa, 0x5cb0a9dc, 0x76f988da,
    0x983e5152, 0xa831c66d, 0xb00327c8, 0xbf597fc7, 0xc6e00bf3, 0xd5a79147,
    0x06ca6351, 0x14292967, 0x27b70a85, 0x2e1b2138, 0x4d2c6dfc, 0x53380d13,
    0x650a7354, 0x766a0abb, 0x81c2c92e, 0x92722c85, 0xa2bfe8a1, 0xa81a664b,
    0xc24b8b70, 0xc76c51a3, 0xd192e819, 0xd6990624, 0xf40e3585, 0x106aa070,
    0x19a4c116, 0x1e376c08, 0x2748774c, 0x34b0bcb5, 0x391c0cb3, 0x4ed8aa4a,
    0x5b9cca4f, 0x682e6ff3, 0x748f82ee, 0x78a5636f, 0x84c87814, 0x8cc70208,
    0x90befffa, 0xa4506ceb, 0xbef9a3f7, 0xc67178f2]

def ror (x n : UInt32) : UInt32 := (x >>> n) ||| (x <<< (32 - n))

/-! ### Compress -/

def inputWord (block : Bytes) (i : Nat) : UInt32 :=
  ((block.getD (i * 4) 0).toUInt32 <<< 24) ||| ((block.getD (i * 4 + 1) 0).toUInt32 <<< 16) |||
    ((block.getD (i * 4 + 2) 0).toUInt32 <<< 8) ||| (block.getD (i * 4 + 3) 0).toUInt32

/-- The word that the second loop appends to the words so far. -/
def nextWord (w : List UInt32) : UInt32 :=
  let i := w.length
  let s0 := ror (w.getD (i - 15) 0) 7 ^^^ ror (w.getD (i - 15) 0) 18 ^^^ (w.getD (i - 15) 0 >>> 3)
  let s1 := ror (w.getD (i - 2) 0) 17 ^^^ ror (w.getD (i - 2) 0) 19 ^^^ (w.getD (i - 2) 0 >>> 10)
  w.getD (i - 16) 0 + s0 + w.getD (i - 7) 0 + s1

def extendWords : Nat → List UInt32 → List UInt32
  | 0, w => w
  | count + 1, w => extendWords count (w ++ [nextWord w])

def scheduleWords (block : Bytes) : List UInt32 :=
  extendWords 48 ((List.range 16).map (inputWord block))

def compressRound (r : Registers) (k w : UInt32) : Registers :=
  let S1 := ror r.e 6 ^^^ ror r.e 11 ^^^ ror r.e 25
  let ch := (r.e &&& r.f) ^^^ (~~~r.e &&& r.g)
  let temp1 := r.h + S1 + ch + k + w
  let S0 := ror r.a 2 ^^^ ror r.a 13 ^^^ ror r.a 22
  let maj := (r.a &&& r.b) ^^^ (r.a &&& r.c) ^^^ (r.b &&& r.c)
  let temp2 := S0 + maj
  { h := r.g, g := r.f, f := r.e, e := r.d + temp1,
    d := r.c, c := r.b, b := r.a, a := temp1 + temp2 }

def compress (state : Vector UInt32 8) (block : Bytes) : Vector UInt32 8 :=
  let w := scheduleWords block
  let r := (List.range 64).foldl
    (fun r i => compressRound r (roundConstants.getD i 0) (w.getD i 0))
    { a := state[0], b := state[1], c := state[2], d := state[3],
      e := state[4], f := state[5], g := state[6], h := state[7] }
  #v[state[0] + r.a, state[1] + r.b, state[2] + r.c, state[3] + r.d,
    state[4] + r.e, state[5] + r.f, state[6] + r.g, state[7] + r.h]

theorem toList_eight {α : Type} (v : Vector α 8) :
    v.toList = [v[0], v[1], v[2], v[3], v[4], v[5], v[6], v[7]] := by
  obtain ⟨⟨items⟩, size⟩ := v
  match items, size with
  | [_, _, _, _, _, _, _, _], _ => rfl

/-! ### Update -/

structure Work where
  state : Vector UInt32 8
  buffer : Vector UInt8 64
  buffered : Nat

/-- `buffer_[buffered_++] = *p++`. -/
def Work.push (w : Work) (byte : UInt8) : Work :=
  { w with
    buffer := w.buffer.setIfInBounds w.buffered byte
    buffered := w.buffered + 1 }

/-- `while (n > 0 && buffered_ < 64)`. -/
def Work.fill : Work → Bytes → Work × Bytes
  | w, [] => (w, [])
  | w, byte :: p => if w.buffered < 64 then (w.push byte).fill p else (w, byte :: p)

def Work.flush (w : Work) : Work :=
  if w.buffered = 64 then { w with state := compress w.state w.buffer.toList, buffered := 0 }
  else w

def Work.drain (w : Work) (p : Bytes) : Work × Bytes :=
  if 0 < w.buffered then ((w.fill p).1.flush, (w.fill p).2) else (w, p)

/-- `while (n >= 64)`. -/
def Work.blocks (w : Work) (p : Bytes) : Work × Bytes :=
  if 64 ≤ p.length then
    Work.blocks { w with state := compress w.state (p.take 64) } (p.drop 64)
  else (w, p)
termination_by p.length
decreasing_by
  rw [List.length_drop]
  omega

/-- `while (n > 0)`: the tail of the input goes into the buffer. -/
def Work.tail (w : Work) (p : Bytes) : Work := p.foldl Work.push w

def Work.absorb (w : Work) (data : Bytes) : Work :=
  ((w.drain data).1.blocks (w.drain data).2).1.tail ((w.drain data).1.blocks (w.drain data).2).2

theorem Work.tail_buffered (w : Work) (p : Bytes) :
    (w.tail p).buffered = w.buffered + p.length := by
  induction p generalizing w with
  | nil => rfl
  | cons byte p ih =>
      change ((w.push byte).tail p).buffered = w.buffered + (p.length + 1)
      rw [ih]
      change w.buffered + 1 + p.length = w.buffered + (p.length + 1)
      omega

theorem Work.fill_buffered (w : Work) (p : Bytes) (fits : w.buffered ≤ 64) :
    (w.fill p).1.buffered ≤ 64 ∧ ((w.fill p).1.buffered = 64 ∨ (w.fill p).2 = []) ∧
      (w.fill p).1.buffered + (w.fill p).2.length = w.buffered + p.length := by
  induction p generalizing w with
  | nil => exact ⟨fits, Or.inr rfl, rfl⟩
  | cons byte p ih =>
      unfold Work.fill
      by_cases room : w.buffered < 64
      · rw [if_pos room]
        obtain ⟨bound, ended, count⟩ := ih (w.push byte) room
        change _ = w.buffered + 1 + p.length at count
        refine ⟨bound, ended, ?_⟩
        rw [List.length_cons]
        omega
      · rw [if_neg room]
        exact ⟨fits, Or.inl (by change w.buffered = 64; omega), rfl⟩

theorem Work.blocks_buffered (w : Work) (p : Bytes) :
    (w.blocks p).1.buffered = w.buffered ∧ (w.blocks p).2.length = p.length % 64 := by
  fun_induction w.blocks p with
  | case1 w p whole ih =>
      refine ⟨ih.1, ?_⟩
      rw [ih.2, List.length_drop]
      omega
  | case2 w p short =>
      refine ⟨rfl, ?_⟩
      change p.length = p.length % 64
      omega

theorem Work.drain_buffered (w : Work) (p : Bytes) (fits : w.buffered < 64) :
    (w.drain p).1.buffered < 64 ∧ ((w.drain p).1.buffered = 0 ∨ (w.drain p).2 = []) ∧
      ((w.drain p).1.buffered + (w.drain p).2.length) % 64 = (w.buffered + p.length) % 64 := by
  unfold Work.drain
  by_cases pending : 0 < w.buffered
  · rw [if_pos pending]
    obtain ⟨bound, ended, count⟩ := w.fill_buffered p (by omega)
    change (w.fill p).1.flush.buffered < 64 ∧
      ((w.fill p).1.flush.buffered = 0 ∨ (w.fill p).2 = []) ∧
      ((w.fill p).1.flush.buffered + (w.fill p).2.length) % 64 = (w.buffered + p.length) % 64
    unfold Work.flush
    by_cases full : (w.fill p).1.buffered = 64
    · rw [if_pos full]
      refine ⟨by change 0 < 64; omega, Or.inl rfl, ?_⟩
      change (0 + (w.fill p).2.length) % 64 = (w.buffered + p.length) % 64
      omega
    · rw [if_neg full]
      refine ⟨by omega, Or.inr (ended.resolve_left full), ?_⟩
      rw [count]
  · rw [if_neg pending]
    exact ⟨fits, Or.inl (by change w.buffered = 0; omega), rfl⟩

theorem Work.absorb_buffered (w : Work) (data : Bytes) (fits : w.buffered < 64) :
    (w.absorb data).buffered = (w.buffered + data.length) % 64 := by
  obtain ⟨bound, ended, count⟩ := w.drain_buffered data fits
  obtain ⟨kept, rest⟩ := (w.drain data).1.blocks_buffered (w.drain data).2
  unfold Work.absorb
  rw [Work.tail_buffered, kept, rest]
  rcases ended with empty | consumed
  · omega
  · rw [consumed, List.length_nil] at count ⊢
    omega

structure Sha256 extends Work where
  bitlen : UInt64
  finalized : Bool
  fits : buffered < 64

/-- `Sha256::Reset`; the buffer keeps its bytes. -/
def Sha256.reset (s : Sha256) : Sha256 :=
  { state := #v[0x6a09e667, 0xbb67ae85, 0x3c6ef372, 0xa54ff53a,
      0x510e527f, 0x9b05688c, 0x1f83d9ab, 0x5be0cd19]
    buffer := s.buffer
    buffered := 0
    bitlen := 0
    finalized := false
    fits := by decide }

def Sha256.start : Vector UInt32 8 :=
  #v[0x6a09e667, 0xbb67ae85, 0x3c6ef372, 0xa54ff53a,
    0x510e527f, 0x9b05688c, 0x1f83d9ab, 0x5be0cd19]

/-- A constructed hasher. The constructor leaves the buffer as the memory was. -/
def Sha256.construct (memory : Vector UInt8 64) : Sha256 :=
  Sha256.reset
    { state := Vector.replicate 8 0, buffer := memory, buffered := 0, bitlen := 0,
      finalized := false, fits := by decide }

def Sha256.update (s : Sha256) (data : Bytes) : Status × Sha256 :=
  if s.finalized then (fail category Code.badState.value "Update after Final", s)
  else
    (.ok (),
      { s.toWork.absorb data with
        bitlen := s.bitlen + UInt64.ofNat data.length * 8
        finalized := s.finalized
        fits := by
          rw [s.toWork.absorb_buffered data s.fits]
          exact Nat.mod_lt _ (by decide) })

theorem Sha256.update_live {s : Sha256} (live : s.finalized = false) (data : Bytes) :
    (s.update data).2.finalized = false ∧
      (s.update data).2.buffered = (s.buffered + data.length) % 64 := by
  unfold Sha256.update
  rw [live]
  exact ⟨rfl, s.toWork.absorb_buffered data s.fits⟩

/-! ### Final -/

/-- `while (buffered_ != 56)`: zero bytes up to the place of the length. -/
def Sha256.padZeros (s : Sha256) (live : s.finalized = false) : Sha256 :=
  if s.buffered = 56 then s
  else (s.update [0]).2.padZeros (s.update_live live [0]).1
termination_by (120 - s.buffered) % 64
decreasing_by
  have moved := (s.update_live live [0]).2
  have bound := s.fits
  rw [List.length_singleton] at moved
  omega

def lengthBytes (bits : UInt64) : Bytes :=
  (List.range 8).map (fun i => ((bits >>> UInt64.ofNat (56 - 8 * i)) &&& 0xFF).toUInt8)

def digestBytes (state : Vector UInt32 8) : Bytes :=
  state.toList.flatMap (fun word : UInt32 =>
    [((word >>> 24) &&& 0xFF).toUInt8, ((word >>> 16) &&& 0xFF).toUInt8,
      ((word >>> 8) &&& 0xFF).toUInt8, (word &&& 0xFF).toUInt8])

def Sha256.final (s : Sha256) : Result Bytes × Sha256 :=
  if live : s.finalized = false then
    let bits := s.bitlen
    let padded := (s.update [0x80]).2.padZeros (s.update_live live [0x80]).1
    let last := padded.toWork.tail (lengthBytes bits)
    let state := compress last.state last.buffer.toList
    (.ok (digestBytes state),
      { state := state, buffer := last.buffer, buffered := 0, bitlen := padded.bitlen,
        finalized := true, fits := by decide })
  else (fail category Code.badState.value "already finalized", s)

/-- `Sha256::Hash`; `.value()` of an error would abort, so the error stays visible. -/
def Sha256.hash (memory : Vector UInt8 64) (data : Bytes) : Result Bytes :=
  ((Sha256.construct memory).update data).2.final.1

end Etlx.Crypto
