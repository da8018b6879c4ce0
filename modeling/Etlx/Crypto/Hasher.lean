/-
What a hasher is for: it remembers the message until the digest is taken.

The machine is parameterised by the digest, so every incremental hash of the
library is compared with the same one.
-/

import Etlx.Crypto.Sha256
import Etlx.Lib.Machine

namespace Etlx.Crypto

inductive Hasher
  | absorbing (message : Bytes)
  | finalized
deriving DecidableEq, Repr

inductive Call
  | update (data : Bytes)
  | final
  | reset
deriving DecidableEq, Repr

inductive Reply
  | updated (status : Status)
  | digest (result : Result Bytes)
  | reset
deriving DecidableEq

def Hasher.call (digest : Bytes → Bytes) : Hasher → Call → Reply × Hasher
  | .absorbing message, .update data => (.updated (.ok ()), .absorbing (message ++ data))
  | .absorbing message, .final => (.digest (.ok (digest message)), .finalized)
  | .finalized, .update _ =>
      (.updated (fail category Code.badState.value "Update after Final"), .finalized)
  | .finalized, .final =>
      (.digest (fail category Code.badState.value "already finalized"), .finalized)
  | _, .reset => (.reset, .absorbing [])

def Hasher.Below (limit : Nat) : Hasher → Prop
  | .absorbing message => message.length < limit
  | .finalized => True

def Sha256.call (s : Sha256) : Call → Reply × Sha256
  | .update data => (.updated (s.update data).1, (s.update data).2)
  | .final => (.digest s.final.1, s.final.2)
  | .reset => (.reset, s.reset)

theorem Hasher.run_chunks (digest : Bytes → Bytes) (message : Bytes) (chunks : List Bytes) :
    Machine.run (Hasher.call digest) (.absorbing message) (chunks.map Call.update ++ [.final]) =
      (chunks.map (fun _ => Reply.updated (.ok ())) ++
        [.digest (.ok (digest (message ++ chunks.flatten)))], .finalized) := by
  induction chunks generalizing message with
  | nil =>
      rw [List.flatten_nil, List.append_nil]
      rfl
  | cons chunk chunks ih =>
      rw [List.flatten_cons, ← List.append_assoc]
      simp only [List.map_cons, List.cons_append, Machine.run, Hasher.call, ih]

theorem Hasher.along_chunks (digest : Bytes → Bytes) {limit : Nat} (chunks : List Bytes)
    (message : Bytes) (below : (message ++ chunks.flatten).length < limit) :
    Machine.Along (Hasher.call digest) (Hasher.Below limit) (.absorbing message)
      (chunks.map Call.update ++ [.final]) := by
  induction chunks generalizing message with
  | nil =>
      rw [List.flatten_nil, List.append_nil] at below
      exact ⟨below, trivial⟩
  | cons chunk chunks ih =>
      rw [List.flatten_cons, ← List.append_assoc] at below
      have smaller : message.length < limit := by
        simp only [List.length_append] at below
        omega
      exact ⟨smaller, ih (message ++ chunk) below⟩

end Etlx.Crypto
