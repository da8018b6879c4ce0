/-
`Sha256` over whole runs of calls.

In a state that represents the message `m`, the words and the pending bytes are
what absorbing `m` leaves, and the bit counter is that of `m`. `Final` goes
through `Update` for its padding, which disturbs the counter but not the bits
saved before. The counter wraps at 2^61 bytes, where the standard ends, and keeps
the bits that the padding needs.
-/

import Etlx.Crypto.Sha256Correct
import Etlx.Crypto.Hasher

namespace Etlx.Crypto

theorem Sha256.start_eq : Sha256.start.toList = Sha2.initial := by
  decide +kernel

theorem stream_append (state : Vector UInt32 8) (front back : Bytes) :
    stream state (front ++ back) = stream (stream state front).1 ((stream state front).2 ++ back) :=
  BlockStream.absorb_append state front back

/-- The hasher has taken in exactly the bytes of `message`. -/
def Sha256.Absorbed (s : Sha256) (message : Bytes) : Prop :=
  s.finalized = false ∧ stream Sha256.start message = (s.state, s.toWork.pending)

theorem Sha256.Absorbed.buffered {s : Sha256} {message : Bytes} (absorbed : s.Absorbed message) :
    s.buffered = message.length % 64 := by
  have rest : (stream Sha256.start message).2.length = message.length % 64 :=
    BlockStream.absorb_mod (by decide) Sha256.start message
  rw [absorbed.2] at rest
  rw [← rest]
  exact (Work.pending_length (Nat.le_of_lt s.fits)).symm

theorem Sha256.Absorbed.update {s : Sha256} {message : Bytes} (absorbed : s.Absorbed message)
    (data : Bytes) : (s.update data).2.Absorbed (message ++ data) := by
  obtain ⟨live, streamed⟩ := absorbed
  refine ⟨(s.update_live live data).1, ?_⟩
  rw [stream_append, streamed]
  unfold Sha256.update
  rw [live]
  exact s.toWork.absorb_spec data s.fits

theorem Sha256.Absorbed.padZeros {s : Sha256} {message : Bytes} (absorbed : s.Absorbed message)
    (live : s.finalized = false) :
    (s.padZeros live).buffered = 56 ∧
      (s.padZeros live).Absorbed
        (message ++ List.replicate ((120 - message.length % 64) % 64) 0) := by
  fun_induction s.padZeros live generalizing message with
  | case1 s live reached =>
      have level := absorbed.buffered
      have done : (120 - message.length % 64) % 64 = 0 := by omega
      refine ⟨reached, ?_⟩
      rw [done, List.replicate_zero, List.append_nil]
      exact absorbed
  | case2 s live notYet ih =>
      have level := absorbed.buffered
      obtain ⟨reached, padded⟩ := ih (absorbed.update [0])
      refine ⟨reached, ?_⟩
      rw [List.length_append, List.length_singleton] at padded
      have fewer : (120 - message.length % 64) % 64 =
          (120 - (message.length + 1) % 64) % 64 + 1 := by omega
      rw [fewer, List.replicate_succ]
      rw [List.append_assoc] at padded
      exact padded

theorem foldl_compress_eq {ι : Type} (block : ι → Bytes) (indices : List ι)
    (whole : ∀ i ∈ indices, (block i).length = 64) (state : Vector UInt32 8) :
    (indices.foldl (fun state i => compress state (block i)) state).toList =
      indices.foldl (fun hash i => Sha2.compress hash (block i)) state.toList := by
  induction indices generalizing state with
  | nil => rfl
  | cons i indices ih =>
      rw [List.foldl_cons, List.foldl_cons,
        ih (fun j member => whole j (List.mem_cons_of_mem _ member)),
        compress_eq state (whole i List.mem_cons_self)]

theorem digest_eq (message : Bytes) :
    Sha2.digest message = digestBytes (stream Sha256.start (Sha2.pad message)).1 := by
  have length := Sha2.pad_length message
  have blocks : stream Sha256.start (Sha2.pad message) =
      ((List.range ((Sha2.pad message).length / 64)).foldl
        (fun state i => compress state (((Sha2.pad message).drop (64 * i)).take 64))
        Sha256.start, []) :=
    BlockStream.absorb_blocks (by decide) _ _ _ (by omega)
  rw [digestBytes_eq, blocks, foldl_compress_eq, Sha256.start_eq]
  · rfl
  · intro i member
    rw [List.mem_range] at member
    rw [List.length_take, List.length_drop]
    omega

theorem Sha256.Absorbed.final {s : Sha256} {message : Bytes} (absorbed : s.Absorbed message)
    (counted : s.bitlen = UInt64.ofNat (8 * message.length)) :
    s.final.1 = .ok (Sha2.digest message) ∧ s.final.2.finalized = true := by
  have live := absorbed.1
  obtain ⟨reached, padded⟩ := (absorbed.update [0x80]).padZeros (s.update_live live [0x80]).1
  unfold Sha256.final
  rw [dif_pos live]
  refine ⟨?_, rfl⟩
  dsimp only
  generalize (s.update [0x80]).2.padZeros (s.update_live live [0x80]).1 = p at reached padded ⊢
  have length : (lengthBytes s.bitlen).length = 8 := by
    simp [lengthBytes]
  obtain ⟨state, pending⟩ := p.toWork.tail_spec (lengthBytes s.bitlen) (by rw [length, reached])
  have full : (p.toWork.tail (lengthBytes s.bitlen)).buffered = 64 := by
    rw [Work.tail_buffered, length, reached]
  have block : (p.toWork.tail (lengthBytes s.bitlen)).pending =
      (p.toWork.tail (lengthBytes s.bitlen)).buffer.toList := by
    rw [Work.pending, full, List.take_of_length_le (by simp)]
  have zeros : (120 - (message ++ [0x80]).length % 64) % 64 = Sha2.zeros message.length := by
    rw [List.length_append, List.length_singleton, Sha2.zeros]
    omega
  have shape : Sha2.pad message =
      message ++ [0x80] ++ List.replicate (Sha2.zeros message.length) 0 ++
        lengthBytes s.bitlen := by
    rw [counted, lengthBytes_eq, Sha2.pad]
    simp only [List.append_assoc, List.cons_append, List.nil_append]
  rw [zeros] at padded
  rw [digest_eq, shape, stream_append, padded.2, ← pending, block, ← state]
  generalize p.toWork.tail (lengthBytes s.bitlen) = last
  have single : stream last.state (last.buffer.toList ++ []) =
      stream (compress last.state last.buffer.toList) [] :=
    BlockStream.absorb_block (by decide) (by simp)
  rw [List.append_nil] at single
  rw [single, stream, BlockStream.absorb_short (by decide)]

/-! ### The machine -/

def Sha256.Represents (s : Sha256) : Hasher → Prop
  | .absorbing message => s.Absorbed message ∧ s.bitlen = UInt64.ofNat (8 * message.length)
  | .finalized => s.finalized = true

theorem Sha256.represents_reset (s : Sha256) : s.reset.Represents (.absorbing []) := by
  refine ⟨⟨rfl, ?_⟩, rfl⟩
  exact BlockStream.absorb_short (by decide)

theorem Sha256.represents_construct (memory : Vector UInt8 64) :
    (Sha256.construct memory).Represents (.absorbing []) :=
  Sha256.represents_reset _

theorem Sha256.call_refines (s : Sha256) (hasher : Hasher) (call : Call)
    (represents : s.Represents hasher) :
    (s.call call).1 = (hasher.call Sha2.digest call).1 ∧
      (s.call call).2.Represents (hasher.call Sha2.digest call).2 := by
  cases hasher with
  | absorbing message =>
      obtain ⟨absorbed, counted⟩ := represents
      cases call with
      | update data =>
          refine ⟨?_, absorbed.update data, ?_⟩
          · simp only [Sha256.call, Sha256.update, absorbed.1]
            rfl
          · simp only [Sha256.call, Sha256.update, absorbed.1]
            change s.bitlen + UInt64.ofNat data.length * 8 = _
            rw [counted, List.length_append, Nat.mul_add, UInt64.ofNat_add, Nat.mul_comm 8
              data.length, UInt64.ofNat_mul data.length]
            rfl
      | final =>
          obtain ⟨digested, finalized⟩ := absorbed.final counted
          exact ⟨congrArg Reply.digest digested, finalized⟩
      | reset => exact ⟨rfl, s.represents_reset⟩
  | finalized =>
      change s.finalized = true at represents
      cases call with
      | update data =>
          simp only [Sha256.call, Sha256.update, represents]
          exact ⟨rfl, represents⟩
      | final =>
          simp only [Sha256.call, Sha256.final, represents]
          exact ⟨rfl, represents⟩
      | reset => exact ⟨rfl, s.represents_reset⟩

theorem Sha256.run_represents (memory : Vector UInt8 64) (calls : List Call)
    (below : Machine.Along (Hasher.call Sha2.digest) (Hasher.Below (2 ^ 61)) (.absorbing [])
      calls) :
    (Machine.run Sha256.call (Sha256.construct memory) calls).1 =
        (Machine.run (Hasher.call Sha2.digest) (.absorbing []) calls).1 ∧
      (Machine.run Sha256.call (Sha256.construct memory) calls).2.Represents
        (Machine.run (Hasher.call Sha2.digest) (.absorbing []) calls).2 :=
  Machine.run_refines Sha256.Represents (Hasher.Below (2 ^ 61))
    (fun s hasher call represents _ _ => s.call_refines hasher call represents)
    calls _ _ (Sha256.represents_construct memory) below

theorem Sha256.hash_eq (memory : Vector UInt8 64) (message : Bytes) :
    Sha256.hash memory message = .ok (Sha2.digest message) := by
  have fed := (Sha256.call_refines _ _ (.update message) (Sha256.represents_construct memory)).2
  exact (fed.1.final fed.2).1

/-- `Sha256` answers every run of calls as the machine does, a finalized hasher
is left as it is, and a one-shot hash is the digest of any chunking. -/
theorem sha256_refines_hasher (memory : Vector UInt8 64) :
    (∀ calls : List Call,
      Machine.Along (Hasher.call Sha2.digest) (Hasher.Below (2 ^ 61)) (.absorbing []) calls →
        (Machine.run Sha256.call (Sha256.construct memory) calls).1 =
            (Machine.run (Hasher.call Sha2.digest) (.absorbing []) calls).1 ∧
          ((Machine.run (Hasher.call Sha2.digest) (.absorbing []) calls).2 = .finalized →
            ∀ data,
              (((Machine.run Sha256.call (Sha256.construct memory) calls).2.update data).2 =
                (Machine.run Sha256.call (Sha256.construct memory) calls).2) ∧
              ((Machine.run Sha256.call (Sha256.construct memory) calls).2.final.2 =
                (Machine.run Sha256.call (Sha256.construct memory) calls).2))) ∧
    (∀ (chunks : List Bytes) (other : Vector UInt8 64), chunks.flatten.length < 2 ^ 61 →
      Sha256.hash memory chunks.flatten = .ok (Sha2.digest chunks.flatten) ∧
        (Machine.run Sha256.call (Sha256.construct other)
          (chunks.map Call.update ++ [.final])).1.getLast? =
            some (.digest (Sha256.hash memory chunks.flatten))) := by
  constructor
  · intro calls below
    obtain ⟨replies, represents⟩ := Sha256.run_represents memory calls below
    refine ⟨replies, ?_⟩
    intro ended data
    rw [ended] at represents
    change _ = true at represents
    constructor
    · rw [Sha256.update, if_pos represents]
    · rw [Sha256.final, dif_neg (by rw [represents]; decide)]
  · intro chunks other small
    have hashed := Sha256.hash_eq memory chunks.flatten
    refine ⟨hashed, ?_⟩
    obtain ⟨replies, -⟩ := Sha256.run_represents other _
      (Hasher.along_chunks Sha2.digest chunks [] small)
    rw [replies, Hasher.run_chunks, hashed, List.nil_append]
    simp

/-- On "abc" in two chunks and on a run that goes on after the digest. -/
theorem sha256_refines_hasher_abc :
    Sha2.digest [0x61, 0x62, 0x63] =
        [0xba, 0x78, 0x16, 0xbf, 0x8f, 0x01, 0xcf, 0xea, 0x41, 0x41, 0x40, 0xde, 0x5d, 0xae,
          0x22, 0x23, 0xb0, 0x03, 0x61, 0xa3, 0x96, 0x17, 0x7a, 0x9c, 0xb4, 0x10, 0xff, 0x61,
          0xf2, 0x00, 0x15, 0xad] ∧
      (Machine.run Sha256.call (Sha256.construct (Vector.replicate 64 7))
        [.update [0x61], .final, .update [], .reset, .final]).1 =
          [.updated (.ok ()), .digest (.ok (Sha2.digest [0x61])),
            .updated (fail category Code.badState.value "Update after Final"), .reset,
            .digest (.ok (Sha2.digest []))] := by
  have refined := sha256_refines_hasher (Vector.replicate 64 7)
  have hashed := (refined.2 [[0x61], [0x62, 0x63]] (Vector.replicate 64 9) (by decide)).1
  have evaluated : Sha256.hash (Vector.replicate 64 7) [0x61, 0x62, 0x63] =
      .ok [0xba, 0x78, 0x16, 0xbf, 0x8f, 0x01, 0xcf, 0xea, 0x41, 0x41, 0x40, 0xde, 0x5d, 0xae,
          0x22, 0x23, 0xb0, 0x03, 0x61, 0xa3, 0x96, 0x17, 0x7a, 0x9c, 0xb4, 0x10, 0xff, 0x61,
          0xf2, 0x00, 0x15, 0xad] := by
    decide +kernel
  refine ⟨?_, (refined.1 _ (by simp [Machine.Along, Hasher.call, Hasher.Below])).1⟩
  exact Except.ok.inj (hashed.symm.trans evaluated)

end Etlx.Crypto
