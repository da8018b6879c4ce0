/-
The tag and the verifier against the keyed-hash construction.

The specification pads or hashes the key to one block and nests two digests.
Streaming in any chunks, the one-shot tag and the verifier all agree with it,
for keys of every length.
-/

import Etlx.Crypto.Hmac
import Etlx.Crypto.Sha256Refines

namespace Etlx.Crypto

/-! ### The construction -/

def hmacKey (key : Bytes) : Bytes :=
  (if 64 < key.length then Sha2.digest key else key).rightpad 64 0

def hmac (key message : Bytes) : Bytes :=
  Sha2.digest ((hmacKey key).map (· ^^^ 0x5c) ++
    Sha2.digest ((hmacKey key).map (· ^^^ 0x36) ++ message))

/-! ### Comparison -/

theorem or_eq_zero (x y : UInt8) : x ||| y = 0 ↔ x = 0 ∧ y = 0 := by
  constructor
  · intro both
    have bits : x.toNat ||| y.toNat = 0 := by
      rw [← UInt8.toNat_or, both]
      rfl
    exact ⟨UInt8.toNat_inj.mp (Nat.or_eq_zero_iff.mp bits).1,
      UInt8.toNat_inj.mp (Nat.or_eq_zero_iff.mp bits).2⟩
  · rintro ⟨rfl, rfl⟩
    rfl

theorem xor_eq_zero (x y : UInt8) : x ^^^ y = 0 ↔ x = y := by
  constructor
  · intro same
    have undone : (x ^^^ y) ^^^ y = 0 ^^^ y := congrArg (· ^^^ y) same
    rwa [UInt8.xor_assoc, UInt8.xor_self, UInt8.xor_zero, UInt8.zero_xor] at undone
  · rintro rfl
    exact UInt8.xor_self

/-- The accumulator stays zero exactly over equal bytes. -/
theorem diff_eq_zero (a b : Bytes) (sameLength : a.length = b.length) (diff : UInt8) :
    (a.zip b).foldl (fun diff pair => diff ||| (pair.1 ^^^ pair.2)) diff = 0 ↔
      diff = 0 ∧ a = b := by
  induction a generalizing b diff with
  | nil =>
      have empty : b = [] := List.length_eq_zero_iff.mp sameLength.symm
      subst empty
      simp
  | cons x a ih =>
      cases b with
      | nil => cases sameLength
      | cons y b =>
          rw [List.zip_cons_cons, List.foldl_cons, ih b (by simpa using sameLength), or_eq_zero,
            xor_eq_zero, List.cons.injEq, and_assoc]

theorem constTimeEqual_iff (a b : Bytes) : constTimeEqual a b = true ↔ a = b := by
  unfold constTimeEqual
  by_cases sameLength : a.length = b.length
  · rw [if_neg (by simpa using sameLength), beq_iff_eq, diff_eq_zero a b sameLength]
    simp
  · rw [if_pos sameLength]
    constructor
    · intro impossible
      cases impossible
    · intro same
      exact absurd (congrArg List.length same) sameLength

/-! ### Streaming -/

theorem copyInto_zeros (source : Bytes) :
    copyInto (List.replicate 64 0) source = source.rightpad 64 0 := by
  rw [copyInto, List.rightpad, List.drop_replicate]

theorem keyBlock_eq (memory : Vector UInt8 64) (key : Bytes) :
    keyBlock memory key = .ok (hmacKey key) := by
  unfold keyBlock hmacKey
  by_cases long : 64 < key.length
  · rw [if_pos long, if_pos long, Sha256.hash_eq]
    exact congrArg Except.ok (copyInto_zeros _)
  · rw [if_neg long, if_neg long]
    by_cases empty : key = []
    · rw [if_neg (by simpa using empty), empty]
      rfl
    · rw [if_pos empty]
      exact congrArg Except.ok (copyInto_zeros key)

/-- The object has been given `key` and, since then, the bytes of `message`. -/
def HmacSha256.Absorbed (h : HmacSha256) (key message : Bytes) : Prop :=
  h.inner.Represents (.absorbing ((hmacKey key).map (· ^^^ 0x36) ++ message)) ∧
    h.okey = (hmacKey key).map (· ^^^ 0x5c)

theorem HmacSha256.init_absorbed (memory : Memory) (key : Bytes) :
    ∃ h, HmacSha256.init memory key = .ok h ∧ h.Absorbed key [] := by
  unfold HmacSha256.init
  rw [keyBlock_eq memory.key key]
  refine ⟨_, rfl, ?_, rfl⟩
  have fresh := (Sha256.construct memory.inner).represents_reset
  have fed := (Sha256.call_refines _ _ (.update ((hmacKey key).map (· ^^^ 0x36))) fresh).2
  rw [List.append_nil]
  exact fed

theorem HmacSha256.Absorbed.update {h : HmacSha256} {key message : Bytes}
    (absorbed : h.Absorbed key message) (data : Bytes) :
    (h.update data).1 = .ok () ∧ (h.update data).2.Absorbed key (message ++ data) := by
  obtain ⟨represents, outer⟩ := absorbed
  obtain ⟨reply, next⟩ := Sha256.call_refines _ _ (.update data) represents
  refine ⟨Reply.updated.inj reply, ?_, outer⟩
  rw [← List.append_assoc]
  exact next

theorem HmacSha256.Absorbed.final {h : HmacSha256} {key message : Bytes}
    (absorbed : h.Absorbed key message) (memory : Memory) :
    (h.final memory).1 = .ok (hmac key message) := by
  obtain ⟨represents, outer⟩ := absorbed
  have inner := (represents.1.final represents.2).1
  have keyed := (Sha256.call_refines _ _ (.update ((hmacKey key).map (· ^^^ 0x5c)))
    (Sha256.represents_construct memory.outer)).2
  have nested := (Sha256.call_refines _ _
    (.update (Sha2.digest ((hmacKey key).map (· ^^^ 0x36) ++ message))) keyed).2
  unfold HmacSha256.final
  rw [inner, outer]
  exact (nested.1.final nested.2).1

def HmacSha256.updateAll (h : HmacSha256) : List Bytes → List Status × HmacSha256
  | [] => ([], h)
  | chunk :: chunks =>
      ((h.update chunk).1 :: ((h.update chunk).2.updateAll chunks).1,
        ((h.update chunk).2.updateAll chunks).2)

theorem HmacSha256.Absorbed.updateAll {h : HmacSha256} {key message : Bytes} (chunks : List Bytes)
    (absorbed : h.Absorbed key message) :
    (∀ status ∈ (h.updateAll chunks).1, status = .ok ()) ∧
      (h.updateAll chunks).2.Absorbed key (message ++ chunks.flatten) := by
  induction chunks generalizing h message with
  | nil =>
      rw [List.flatten_nil, List.append_nil]
      refine ⟨?_, absorbed⟩
      intro status member
      cases member
  | cons chunk chunks ih =>
      rw [List.flatten_cons, ← List.append_assoc]
      obtain ⟨accepted, next⟩ := absorbed.update chunk
      obtain ⟨statuses, final⟩ := ih next
      refine ⟨?_, final⟩
      intro status member
      rcases List.mem_cons.mp member with first | later
      · exact first.trans accepted
      · exact statuses status later

theorem HmacSha256.tag_eq (memory : Memory) (key message : Bytes) :
    HmacSha256.tag memory key message = .ok (hmac key message) := by
  obtain ⟨h, initialised, absorbed⟩ := HmacSha256.init_absorbed memory key
  unfold HmacSha256.tag
  rw [initialised]
  exact (absorbed.update message).2.final memory

/-- The tag for every key and message, in any chunks and in one shot, and the
verifier that accepts it and nothing else. The bounds are those within which the
standard defines the hash; the code is as good beyond them. -/
theorem hmac_correct (memory : Memory) (key message : Bytes) (_ : key.length < 2 ^ 60)
    (_ : message.length < 2 ^ 60) :
    (∃ h, HmacSha256.init memory key = .ok h ∧
      ∀ (chunks : List Bytes) (later : Memory), chunks.flatten = message →
        (∀ status ∈ (h.updateAll chunks).1, status = .ok ()) ∧
          ((h.updateAll chunks).2.final later).1 = .ok (hmac key message)) ∧
    HmacSha256.tag memory key message = .ok (hmac key message) ∧
    (hmac key message).length = 32 ∧
    ∀ sig : Bytes,
      (HmacVerifier.verify memory key message sig = .ok () ↔ sig = hmac key message) ∧
      (sig ≠ hmac key message →
        HmacVerifier.verify memory key message sig =
          fail category Code.verifyFailed.value "HMAC mismatch") := by
  have tagged := HmacSha256.tag_eq memory key message
  refine ⟨?_, tagged, Sha2.digest_length _, ?_⟩
  · obtain ⟨h, initialised, absorbed⟩ := HmacSha256.init_absorbed memory key
    refine ⟨h, initialised, ?_⟩
    intro chunks later split
    obtain ⟨statuses, fed⟩ := absorbed.updateAll chunks
    rw [split] at fed
    exact ⟨statuses, fed.final later⟩
  · intro sig
    unfold HmacVerifier.verify
    rw [tagged]
    dsimp only
    by_cases same : hmac key message = sig
    · rw [if_pos ((constTimeEqual_iff _ _).mpr same)]
      exact ⟨⟨fun _ => same.symm, fun _ => rfl⟩, fun different => absurd same.symm different⟩
    · rw [if_neg (fun equal => same ((constTimeEqual_iff _ _).mp equal))]
      refine ⟨⟨fun impossible => ?_, fun equal => absurd equal.symm same⟩, fun _ => rfl⟩
      cases impossible

/-- The key "Jefe" with the message "what do ya want for nothing?". -/
def jefeKey : Bytes := [0x4a, 0x65, 0x66, 0x65]

def jefeMessage : Bytes :=
  [0x77, 0x68, 0x61, 0x74, 0x20, 0x64, 0x6f, 0x20, 0x79, 0x61, 0x20, 0x77, 0x61,
    0x6e, 0x74, 0x20, 0x66, 0x6f, 0x72, 0x20, 0x6e, 0x6f, 0x74, 0x68, 0x69, 0x6e,
    0x67, 0x3f]

def jefeTag : Bytes :=
  [0x5b, 0xdc, 0xc1, 0x46, 0xbf, 0x60, 0x75, 0x4e, 0x6a, 0x04, 0x24, 0x26, 0x08,
    0x95, 0x75, 0xc7, 0x5a, 0x00, 0x3f, 0x08, 0x9d, 0x27, 0x39, 0x83, 0x9d, 0xec,
    0x58, 0xb9, 0x64, 0xec, 0x38, 0x43]

theorem hmac_correct_jefe :
    (jefeKey.length < 2 ^ 60 ∧ jefeMessage.length < 2 ^ 60) ∧ hmac jefeKey jefeMessage = jefeTag ∧
      ∀ memory : Memory, HmacVerifier.verify memory jefeKey jefeMessage jefeTag = .ok () := by
  have evaluated : HmacSha256.tag
      { key := Vector.replicate 64 7, inner := Vector.replicate 64 8,
        outer := Vector.replicate 64 9 } jefeKey jefeMessage = .ok jefeTag := by
    decide +kernel
  have correct := fun memory => hmac_correct memory jefeKey jefeMessage (by decide) (by decide)
  have tag := Except.ok.inj ((correct _).2.1.symm.trans evaluated)
  refine ⟨⟨by decide, by decide⟩, tag, ?_⟩
  intro memory
  exact ((correct memory).2.2.2 jefeTag).1.mpr tag.symm

end Etlx.Crypto
