/-
HMAC-SHA256 over the streaming hasher, and the verifier built on it.

Each local `Sha256` starts from a buffer that its constructor does not clear;
`Memory` names those buffers. A call of `.value()` on an error would abort, so
the functions that make one keep the error.
-/

import Etlx.Crypto.Sha256

namespace Etlx.Crypto

def constTimeEqual (a b : Bytes) : Bool :=
  if a.length ≠ b.length then false
  else (a.zip b).foldl (fun diff pair => diff ||| (pair.1 ^^^ pair.2)) 0 == 0

structure Memory where
  key : Vector UInt8 64
  inner : Vector UInt8 64
  outer : Vector UInt8 64

structure HmacSha256 where
  inner : Sha256
  okey : Bytes

def copyInto (block source : Bytes) : Bytes := source ++ block.drop source.length

/-- The block `k[kBlock]` of `Init`: long keys are hashed down, shorter ones are
zero-padded. -/
def keyBlock (memory : Vector UInt8 64) (key : Bytes) : Result Bytes :=
  if 64 < key.length then
    match Sha256.hash memory key with
    | .error e => .error e
    | .ok kh => .ok (copyInto (List.replicate 64 0) kh)
  else if key ≠ [] then .ok (copyInto (List.replicate 64 0) key)
  else .ok (List.replicate 64 0)

def HmacSha256.init (memory : Memory) (key : Bytes) : Result HmacSha256 :=
  match keyBlock memory.key key with
  | .error e => .error e
  | .ok k =>
      .ok
        { inner := ((Sha256.construct memory.inner).reset.update (k.map (· ^^^ 0x36))).2
          okey := k.map (· ^^^ 0x5c) }

def HmacSha256.update (h : HmacSha256) (data : Bytes) : Status × HmacSha256 :=
  ((h.inner.update data).1, { h with inner := (h.inner.update data).2 })

def HmacSha256.final (memory : Memory) (h : HmacSha256) : Result Bytes × HmacSha256 :=
  match h.inner.final.1 with
  | .error e => (.error e, { h with inner := h.inner.final.2 })
  | .ok inner =>
      ((((Sha256.construct memory.outer).update h.okey).2.update inner).2.final.1,
        { h with inner := h.inner.final.2 })

def HmacSha256.tag (memory : Memory) (key data : Bytes) : Result Bytes :=
  match HmacSha256.init memory key with
  | .error e => .error e
  | .ok h => ((h.update data).2.final memory).1

def HmacVerifier.verify (memory : Memory) (key data sig : Bytes) : Status :=
  match HmacSha256.tag memory key data with
  | .error e => .error e
  | .ok tag =>
      if constTimeEqual tag sig then .ok ()
      else fail category Code.verifyFailed.value "HMAC mismatch"

end Etlx.Crypto
