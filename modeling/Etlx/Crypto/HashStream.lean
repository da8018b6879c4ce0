/-
Hashing a stream while it is stored.

A `HasherWriter` feeds everything written to a hasher, so copying a reader through
a tee stores and hashes the same pieces. Whatever the pieces are, a copy that
succeeds leaves the whole stream in the store and its digest in the hasher.
-/

import Etlx.Io.Io
import Etlx.Crypto.Sha256Refines

namespace Etlx.Crypto

structure HasherFunctions (τ : Type) where
  update : τ → Bytes → Status × τ
  final : τ → Result Bytes × τ

def sha256 : HasherFunctions Sha256 := { update := Sha256.update, final := Sha256.final }

def hasherWriter {τ : Type} (hasher : HasherFunctions τ) : Io.Writer τ := hasher.update

def hashStream {σ τ : Type} (src : Io.Reader σ) (hasher : HasherFunctions τ) (s : σ) (h : τ)
    (scratch : Nat) : Result Bytes × σ × τ :=
  match Io.copy src (hasherWriter hasher) s h scratch with
  | (.error e, s', h') => (.error e, s', h')
  | (.ok _, s', h') => ((hasher.final h').1, s', (hasher.final h').2)

theorem hashStream_error {σ τ : Type} {src : Io.Reader σ} {hasher : HasherFunctions τ} {s : σ}
    {h : τ} {scratch : Nat} {e : Error}
    (failed : (Io.copy src (hasherWriter hasher) s h scratch).1 = .error e) :
    (hashStream src hasher s h scratch).1 = .error e := by
  unfold hashStream
  split
  · next other s' h' copied =>
      rw [copied] at failed
      cases failed
      rfl
  · next total s' h' copied =>
      rw [copied] at failed
      cases failed

theorem hashStream_ok {σ τ : Type} {src : Io.Reader σ} {hasher : HasherFunctions τ} {s : σ}
    {h : τ} {scratch total : Nat}
    (copied : (Io.copy src (hasherWriter hasher) s h scratch).1 = .ok total) :
    (hashStream src hasher s h scratch).1 =
      (hasher.final (Io.copy src (hasherWriter hasher) s h scratch).2.2).1 := by
  unfold hashStream
  split
  · next other s' h' failed =>
      rw [failed] at copied
      cases copied
  · next total s' h' done => rw [done]

/-! ### What one write does -/

theorem Sha256.Represents.update {s : Sha256} {message : Bytes}
    (represents : s.Represents (.absorbing message)) (data : Bytes) :
    (s.update data).1 = .ok () ∧ (s.update data).2.Represents (.absorbing (message ++ data)) := by
  obtain ⟨reply, next⟩ := s.call_refines _ (.update data) represents
  exact ⟨Reply.updated.inj reply, next⟩

/-! ### Streams -/

section

variable {σ : Type} {reader : Io.Reader σ} {source : σ} {scratch : Nat}

theorem Sha256.final_represents {s : Sha256} {message : Bytes}
    (represents : s.Represents (.absorbing message)) :
    s.final.1 = .ok (Sha2.digest message) :=
  (represents.1.final represents.2).1

theorem Sha256.represents_moves {hasher h : Sha256} {data : Bytes} {s : σ}
    (moves : Stream.Moves reader (hasherWriter sha256) scratch source hasher.reset data s h) :
    h.Represents (.absorbing data) := by
  refine moves.invariant (fun message (s : Sha256) => s.Represents (.absorbing message)) ?_
    hasher.represents_reset
  intro message now piece _ represents _
  exact (represents.update piece).2

/-- A hasher that is fed never refuses, so only a read can stop the stream. -/
theorem hashStream_reset (nonempty : scratch ≠ 0) (hasher : Sha256)
    (steady : ∀ (data : Bytes) (s : σ) (h : Sha256) (e : Error),
      Stream.Moves reader (hasherWriter sha256) scratch source hasher.reset data s h →
        (reader.read s scratch).1 ≠ .error e) :
    (hashStream reader sha256 source hasher.reset scratch).1 =
      .ok (Sha2.digest (reader.left source)) := by
  cases copied : (Io.copy reader (hasherWriter sha256) source hasher.reset scratch).1 with
  | error e =>
      obtain ⟨data, s', h', moves, fails⟩ := (Io.copy_error_iff nonempty _ _ e).mp copied
      rcases fails with failed | ⟨piece, -, -, refused⟩
      · exact absurd failed (steady data s' h' e moves)
      · have accepted := ((Sha256.represents_moves moves).update piece).1
        change (h'.update piece).1 = .error e at refused
        rw [accepted] at refused
        cases refused
  | ok total =>
      obtain ⟨-, s', moves⟩ := Io.copy_ok nonempty copied
      rw [hashStream_ok copied]
      exact Sha256.final_represents (Sha256.represents_moves moves)

theorem copy_tee (nonempty : scratch ≠ 0) (hasher : Sha256) (store : Io.SpanWriter) {total : Nat}
    (copied : (Io.copy reader (Io.teeWriter Io.SpanWriter.write (hasherWriter sha256)) source
      (store, hasher.reset) scratch).1 = .ok total) :
    total = (reader.left source).length % 2 ^ 64 ∧
      (Io.copy reader (Io.teeWriter Io.SpanWriter.write (hasherWriter sha256)) source
        (store, hasher.reset) scratch).2.2.1.Extends store (reader.left source) ∧
      (Io.copy reader (Io.teeWriter Io.SpanWriter.write (hasherWriter sha256)) source
        (store, hasher.reset) scratch).2.2.2.Represents (.absorbing (reader.left source)) := by
  obtain ⟨count, s', moves⟩ := Io.copy_ok nonempty copied
  have both := moves.invariant
    (fun data (writers : Io.SpanWriter × Sha256) =>
      writers.1.Extends store data ∧ writers.2.Represents (.absorbing data))
    (by
      intro data writers piece _ so written
      obtain ⟨stored, -, next⟩ := Io.teeWriter_ok written
      rw [next]
      exact ⟨Io.SpanWriter.write_extends so.1 stored, (so.2.update piece).2⟩)
    ⟨store.extends_refl, hasher.represents_reset⟩
  exact ⟨count, both⟩

end

/-- The digest of a stream is that of its bytes, a copy through a tee stores what
it hashes, and the first failure of a reader or writer is the result. -/
theorem stored_is_hashed {σ : Type} (reader : Io.Reader σ) (source : σ) (scratch : Nat)
    (nonempty : scratch ≠ 0) (hasher : Sha256) :
    ((∀ (data : Bytes) (s : σ) (h : Sha256) (e : Error),
        Stream.Moves reader (hasherWriter sha256) scratch source hasher.reset data s h →
          (reader.read s scratch).1 ≠ .error e) →
      (hashStream reader sha256 source hasher.reset scratch).1 =
        .ok (Sha2.digest (reader.left source))) ∧
    (∀ (buffer : Bytes) (addressable : buffer.length < 2 ^ 64) (total : Nat)
      (store : Io.SpanWriter) (h : Sha256),
      (Io.copy reader (Io.teeWriter Io.SpanWriter.write (hasherWriter sha256)) source
        (Io.SpanWriter.construct buffer addressable, hasher.reset) scratch).1 = .ok total →
      (Io.copy reader (Io.teeWriter Io.SpanWriter.write (hasherWriter sha256)) source
        (Io.SpanWriter.construct buffer addressable, hasher.reset) scratch).2.2 = (store, h) →
      total = (reader.left source).length ∧ store.pos = total ∧
        store.buffer = reader.left source ++ buffer.drop total ∧
        h.final.1 = .ok (Sha2.digest (store.buffer.take store.pos))) ∧
    (∀ (α β : Type) (a : Io.Writer α) (b : Io.Writer β) (writers : α × β) (e : Error),
      (Io.copy reader (Io.teeWriter a b) source writers scratch).1 = .error e ↔
        ∃ (data : Bytes) (s : σ) (now : α × β),
          Stream.Moves reader (Io.teeWriter a b) scratch source writers data s now ∧
          ((reader.read s scratch).1 = .error e ∨
            ∃ piece, piece ≠ [] ∧ (reader.read s scratch).1 = .ok piece ∧
              ((a now.1 piece).1 = .error e ∨
                (a now.1 piece).1 = .ok () ∧ (b now.2 piece).1 = .error e))) ∧
    (∀ (τ : Type) (any : HasherFunctions τ) (h : τ) (data : Bytes) (s : σ) (now : τ) (e : Error),
      Stream.Moves reader (hasherWriter any) scratch source h data s now →
      ((reader.read s scratch).1 = .error e ∨
        ∃ piece, piece ≠ [] ∧ (reader.read s scratch).1 = .ok piece ∧
          (any.update now piece).1 = .error e) →
      (hashStream reader any source h scratch).1 = .error e) := by
  refine ⟨hashStream_reset nonempty hasher, ?_, ?_, ?_⟩
  · intro buffer addressable total store h copied final
    obtain ⟨count, stored, represents⟩ := copy_tee nonempty hasher _ copied
    rw [final] at stored represents
    have written : store.buffer.take store.pos = reader.left source := stored.text
    have pos := stored.place
    have small := Nat.lt_of_le_of_lt store.inside store.addressable
    have whole : total = (reader.left source).length := by
      rw [count, ← pos, Nat.mod_eq_of_lt small]
    refine ⟨whole, by rw [whole, pos], ?_, ?_⟩
    · rw [whole]
      exact stored.buffer_eq
    · rw [written]
      exact Sha256.final_represents represents
  · intro α β a b writers e
    rw [Io.copy_error_iff nonempty]
    simp only [Stream.Fails, Io.teeWriter_error_iff]
  · intro τ any h data s now e moves fails
    exact hashStream_error ((Io.copy_error_iff nonempty _ _ e).mpr ⟨data, s, now, moves, fails⟩)

/-- "abc" through a scratch buffer of two bytes into a store of four. -/
theorem stored_is_hashed_abc :
    ((Io.copy Io.spanReader (Io.teeWriter Io.SpanWriter.write (hasherWriter sha256))
        (Io.SpanReader.construct [0x61, 0x62, 0x63])
        (Io.SpanWriter.construct [7, 7, 7, 7] (by decide),
          (Sha256.construct (Vector.replicate 64 9)).reset) 2).2.2.2).final.1 =
      .ok (Sha2.digest [0x61, 0x62, 0x63]) ∧
    (hashStream Io.spanReader sha256 (Io.SpanReader.construct [0x61, 0x62, 0x63])
      (Sha256.construct (Vector.replicate 64 9)).reset 2).1 =
      .ok (Sha2.digest [0x61, 0x62, 0x63]) := by
  have both := stored_is_hashed Io.spanReader (Io.SpanReader.construct [0x61, 0x62, 0x63]) 2
    (by decide) (Sha256.construct (Vector.replicate 64 9))
  have copied : (Io.copy Io.spanReader (Io.teeWriter Io.SpanWriter.write (hasherWriter sha256))
      (Io.SpanReader.construct [0x61, 0x62, 0x63])
      (Io.SpanWriter.construct [7, 7, 7, 7] (by decide),
        (Sha256.construct (Vector.replicate 64 9)).reset) 2).1 = .ok 3 := by
    decide +kernel
  obtain ⟨-, pos, stored, digest⟩ := both.2.1 [7, 7, 7, 7] (by decide) 3 _ _ copied rfl
  refine ⟨?_, both.1 (fun data s h e moves failed => by cases failed)⟩
  rw [digest, stored, pos]
  rfl

end Etlx.Crypto
