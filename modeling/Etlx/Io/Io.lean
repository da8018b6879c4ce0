/-
Byte streams: readers, writers and the loop that drains one into the other.

`Read` fills the front of the buffer it is offered; the model returns the bytes it
put there. A writer takes the whole span or answers with an error.
-/

import Etlx.Core.Result
import Etlx.Lib.Stream

namespace Etlx.Io

def category : Category := { name := "io" }

inductive Code
  | none
  | endOfStream
  | shortWrite
  | outOfRange

def Code.value : Code → Int
  | .none => 0
  | .endOfStream => 1
  | .shortWrite => 2
  | .outOfRange => 3

abbrev Reader (σ : Type) := Stream.Source UInt8 Error σ

abbrev Writer (τ : Type) := Stream.Sink UInt8 Error τ

/-! ### The readers and writers of the library -/

structure SpanReader where
  data : Bytes
  pos : Nat
  inside : pos ≤ data.length

def SpanReader.construct (data : Bytes) : SpanReader :=
  { data := data, pos := 0, inside := Nat.zero_le _ }

def SpanReader.remaining (r : SpanReader) : Nat := r.data.length - r.pos

def SpanReader.read (r : SpanReader) (size : Nat) : Result Bytes × SpanReader :=
  (.ok ((r.data.drop r.pos).take (min size r.remaining)),
    { data := r.data
      pos := r.pos + min size r.remaining
      inside := by
        have inside := r.inside
        unfold SpanReader.remaining
        omega })

def spanReader : Reader SpanReader :=
  { read := SpanReader.read
    left := fun r => r.data.drop r.pos
    fits := by
      intro r offered piece read
      rw [← Except.ok.inj read, List.length_take]
      omega
    delivers := by
      intro r offered piece read
      rw [← Except.ok.inj read]
      change _ = _ ++ r.data.drop (r.pos + min offered r.remaining)
      rw [← List.drop_drop, List.take_append_drop]
    ends := by
      intro r offered positive read
      have empty := congrArg List.length (Except.ok.inj read)
      apply List.eq_nil_of_length_eq_zero
      rw [List.length_take, List.length_drop, List.length_nil, SpanReader.remaining] at empty
      rw [List.length_drop]
      omega }

/-- A buffer in memory, which is smaller than the address space. -/
structure SpanWriter where
  buffer : Bytes
  pos : Nat
  inside : pos ≤ buffer.length
  addressable : buffer.length < 2 ^ 64

def SpanWriter.construct (buffer : Bytes) (addressable : buffer.length < 2 ^ 64) : SpanWriter :=
  { buffer := buffer, pos := 0, inside := Nat.zero_le _, addressable := addressable }

def SpanWriter.text (w : SpanWriter) : Bytes := w.buffer.take w.pos

def SpanWriter.write (w : SpanWriter) (src : Bytes) : Status × SpanWriter :=
  if fits : src.length ≤ w.buffer.length - w.pos then
    (.ok (),
      { buffer := w.buffer.take w.pos ++ src ++ w.buffer.drop (w.pos + src.length)
        pos := w.pos + src.length
        inside := by
          have inside := w.inside
          simp only [List.length_append, List.length_take, List.length_drop]
          omega
        addressable := by
          have bound := w.addressable
          have inside := w.inside
          simp only [List.length_append, List.length_take, List.length_drop]
          omega })
  else (fail category Code.shortWrite.value "SpanWriter buffer full", w)

structure CountingWriter where
  count : Nat

/-- `count()`, which is a `size_t` and wraps. -/
def CountingWriter.size (w : CountingWriter) : UInt64 := UInt64.ofNat w.count

theorem CountingWriter.size_toNat {w : CountingWriter} (few : w.count < 2 ^ 64) :
    w.size.toNat = w.count := by
  rw [size, UInt64.toNat_ofNat', Nat.mod_eq_of_lt few]

def CountingWriter.construct : CountingWriter := { count := 0 }

def CountingWriter.write (w : CountingWriter) (src : Bytes) : Status × CountingWriter :=
  (.ok (), { count := w.count + src.length })

/-- `TeeWriter::Write`: the second writer is not reached when the first fails. -/
def teeWriter {σ τ : Type} (a : Writer σ) (b : Writer τ) : Writer (σ × τ) :=
  fun writers src =>
    match a writers.1 src with
    | (.error e, first) => (.error e, (first, writers.2))
    | (.ok (), first) => ((b writers.2 src).1, (first, (b writers.2 src).2))

/-! ### Copy -/

section

variable {σ τ : Type} (src : Reader σ) (dst : Writer τ)

/-- The loop of `Copy`, with `total` bytes copied so far. -/
def copyLoop (scratch : Nat) (total : Nat) (s : σ) (t : τ) : Result Nat × σ × τ :=
  match _read : src.read s scratch with
  | (.error e, s') => (.error e, s', t)
  | (.ok [], s') => (.ok total, s', t)
  | (.ok (byte :: bytes), s') =>
      match dst t (byte :: bytes) with
      | (.error e, t') => (.error e, s', t')
      | (.ok (), t') => copyLoop scratch ((total + (byte :: bytes).length) % 2 ^ 64) s' t'
termination_by (src.left s).length
decreasing_by
  have shrinks := src.shrinks (congrArg Prod.fst _read) (List.cons_ne_nil byte bytes)
  rw [_read] at shrinks
  exact shrinks

def copy (s : σ) (t : τ) (scratch : Nat) : Result Nat × σ × τ :=
  if scratch = 0 then
    (fail category Code.outOfRange.value "Copy needs a non-empty scratch buffer", s, t)
  else copyLoop src dst scratch 0 s t

end

/-! ### What Copy does -/

section

variable {σ τ : Type} {src : Reader σ} {dst : Writer τ} {scratch : Nat}

theorem copyLoop_moves {s s' : σ} {t t' : τ} {data : Bytes}
    (moves : Stream.Moves src dst scratch s t data s' t') {total : Nat} (small : total < 2 ^ 64) :
    copyLoop src dst scratch total s t =
      copyLoop src dst scratch ((total + data.length) % 2 ^ 64) s' t' := by
  induction moves generalizing total with
  | here s t =>
      have same : (total + ([] : Bytes).length) % 2 ^ 64 = total := by
        rw [List.length_nil, Nat.add_zero, Nat.mod_eq_of_lt small]
      rw [same]
  | @step s s' s'' t t' t'' piece data read nonempty write rest ih =>
      obtain ⟨byte, bytes, rfl⟩ := List.exists_cons_of_ne_nil nonempty
      rw [copyLoop]
      split
      · next e next failed =>
          rw [read] at failed
          cases failed
      · next next ended =>
          rw [read] at ended
          cases ended
      · next b bs next got =>
          rw [read] at got
          cases got
          rw [write]
          dsimp only
          rw [ih (Nat.mod_lt _ (Nat.two_pow_pos 64)), Nat.mod_add_mod, List.length_append,
            Nat.add_assoc]

theorem copyLoop_refused {s s' : σ} {t t' : τ} {piece : Bytes} {e : Error}
    (nonempty : piece ≠ []) (read : src.read s scratch = (.ok piece, s'))
    (write : dst t piece = (.error e, t')) (total : Nat) :
    copyLoop src dst scratch total s t = (.error e, s', t') := by
  obtain ⟨byte, bytes, rfl⟩ := List.exists_cons_of_ne_nil nonempty
  rw [copyLoop]
  split
  · next other next failed =>
      rw [read] at failed
      cases failed
  · next next ended =>
      rw [read] at ended
      cases ended
  · next b bs next got =>
      rw [read] at got
      cases got
      rw [write]

theorem copyLoop_fails {s : σ} {t : τ} {e : Error} (fails : Stream.Fails src dst scratch s t e)
    (total : Nat) : (copyLoop src dst scratch total s t).1 = .error e := by
  rcases fails with failed | ⟨piece, nonempty, got, refused⟩
  · rw [copyLoop]
    split
    · next other next read =>
        rw [read] at failed
        cases failed
        rfl
    · next next read =>
        rw [read] at failed
        cases failed
    · next b bs next read =>
        rw [read] at failed
        cases failed
  · have read : src.read s scratch = (.ok piece, (src.read s scratch).2) := Prod.ext got rfl
    have write : dst t piece = (.error e, (dst t piece).2) := Prod.ext refused rfl
    rw [copyLoop_refused nonempty read write]

variable (src dst scratch) in
/-- Every run of the loop moves some pieces and then fails or reaches the end. -/
theorem copyLoop_ends (total : Nat) (s : σ) (t : τ) :
    ∃ (data : Bytes) (s' : σ) (t' : τ), Stream.Moves src dst scratch s t data s' t' ∧
      ((∃ e, Stream.Fails src dst scratch s' t' e) ∨ (src.read s' scratch).1 = .ok []) := by
  fun_induction copyLoop src dst scratch total s t with
  | case1 total s t e next read =>
      refine ⟨[], s, t, .here s t, Or.inl ⟨e, Or.inl ?_⟩⟩
      rw [read]
  | case2 total s t next read =>
      refine ⟨[], s, t, .here s t, Or.inr ?_⟩
      rw [read]
  | case3 total s t byte bytes next read e after write =>
      refine ⟨[], s, t, .here s t, Or.inl ⟨e, Or.inr ⟨byte :: bytes, List.cons_ne_nil _ _, ?_⟩⟩⟩
      rw [read, write]
      exact ⟨rfl, rfl⟩
  | case4 total s t byte bytes next read after write ih =>
      obtain ⟨data, s', t', moves, ended⟩ := ih
      exact ⟨_, s', t', .step read (List.cons_ne_nil _ _) write moves, ended⟩

theorem copyLoop_done {s : σ} (t : τ) (total : Nat) (ended : (src.read s scratch).1 = .ok []) :
    copyLoop src dst scratch total s t = (.ok total, (src.read s scratch).2, t) := by
  rw [copyLoop]
  split
  · next e next read =>
      rw [read] at ended
      cases ended
  · next next read => rw [read]
  · next b bs next read =>
      rw [read] at ended
      cases ended

theorem copy_error_iff (positive : scratch ≠ 0) (s : σ) (t : τ) (e : Error) :
    (copy src dst s t scratch).1 = .error e ↔
      ∃ (data : Bytes) (s' : σ) (t' : τ), Stream.Moves src dst scratch s t data s' t' ∧
        Stream.Fails src dst scratch s' t' e := by
  rw [copy, if_neg positive]
  constructor
  · intro failed
    obtain ⟨data, s', t', moves, ⟨other, fails⟩ | ended⟩ :=
      copyLoop_ends src dst scratch 0 s t
    · rw [copyLoop_moves moves (Nat.two_pow_pos 64), copyLoop_fails fails] at failed
      cases failed
      exact ⟨data, s', t', moves, fails⟩
    · rw [copyLoop_moves moves (Nat.two_pow_pos 64), copyLoop_done t' _ ended] at failed
      cases failed
  · rintro ⟨data, s', t', moves, fails⟩
    rw [copyLoop_moves moves (Nat.two_pow_pos 64), copyLoop_fails fails]

theorem copy_ok (positive : scratch ≠ 0) {s : σ} {t : τ} {total : Nat}
    (copied : (copy src dst s t scratch).1 = .ok total) :
    total = (src.left s).length % 2 ^ 64 ∧
      ∃ s', Stream.Moves src dst scratch s t (src.left s) s' (copy src dst s t scratch).2.2 := by
  rw [copy, if_neg positive] at copied ⊢
  obtain ⟨data, s', t', moves, ⟨other, fails⟩ | ended⟩ :=
    copyLoop_ends src dst scratch 0 s t
  · rw [copyLoop_moves moves (Nat.two_pow_pos 64), copyLoop_fails fails] at copied
    cases copied
  · have nothing := src.ends s' scratch (Nat.pos_of_ne_zero positive) ended
    have whole := moves.left
    rw [nothing, List.append_nil] at whole
    rw [copyLoop_moves moves (Nat.two_pow_pos 64), copyLoop_done t' _ ended] at copied ⊢
    rw [whole]
    refine ⟨?_, s', moves⟩
    rw [← Except.ok.inj copied, Nat.zero_add]

end

/-! ### What one write does -/

/-- The writer holds what it held before and `data` behind it, and the rest of the
buffer is as it was. -/
structure SpanWriter.Extends (w before : SpanWriter) (data : Bytes) : Prop where
  text : w.text = before.text ++ data
  pos : w.pos = before.pos + data.length
  behind : w.buffer.drop w.pos = before.buffer.drop w.pos
  size : w.buffer.length = before.buffer.length

theorem SpanWriter.extends_refl (w : SpanWriter) : w.Extends w [] where
  text := (List.append_nil _).symm
  pos := rfl
  behind := rfl
  size := rfl

theorem SpanWriter.text_length (w : SpanWriter) : w.text.length = w.pos :=
  List.length_take_of_le w.inside

section

variable {w : SpanWriter} {buffer data : Bytes} {addressable : buffer.length < 2 ^ 64}

theorem SpanWriter.Extends.place (so : w.Extends (.construct buffer addressable) data) :
    w.pos = data.length := by
  rw [so.pos]
  exact Nat.zero_add _

theorem SpanWriter.Extends.room (so : w.Extends (.construct buffer addressable) data) :
    data.length ≤ buffer.length := by
  have size : w.buffer.length = buffer.length := so.size
  rw [← so.place, ← size]
  exact w.inside

theorem SpanWriter.Extends.buffer_eq (so : w.Extends (.construct buffer addressable) data) :
    w.buffer = data ++ buffer.drop data.length := by
  have front : w.buffer.take w.pos = data := so.text
  rw [← List.take_append_drop w.pos w.buffer, front, so.behind, so.place]
  rfl

end

theorem SpanWriter.write_full {w : SpanWriter} {src : Bytes}
    (full : w.buffer.length < w.pos + src.length) :
    w.write src = (fail category Code.shortWrite.value "SpanWriter buffer full", w) := by
  have inside := w.inside
  unfold SpanWriter.write
  rw [dif_neg (by omega)]

theorem SpanWriter.write_ok_iff (w : SpanWriter) (src : Bytes) :
    (w.write src).1 = .ok () ↔ w.pos + src.length ≤ w.buffer.length := by
  have inside := w.inside
  unfold SpanWriter.write
  split
  · next fits =>
      constructor
      · intro _
        omega
      · intro _
        rfl
  · next full =>
      constructor
      · intro impossible
        cases impossible
      · intro fits
        omega

theorem SpanWriter.write_extends {w before : SpanWriter} {data src : Bytes}
    (so : w.Extends before data) (written : (w.write src).1 = .ok ()) :
    (w.write src).2.Extends before (data ++ src) := by
  unfold SpanWriter.write at written ⊢
  split at written
  · next fits =>
      rw [dif_pos fits]
      have inside := w.inside
      have front : w.text ++ src = (before.text ++ (data ++ src)) := by
        rw [so.text, List.append_assoc]
      have length : (w.text ++ src).length = w.pos + src.length := by
        rw [List.length_append, w.text_length]
      refine ⟨?_, ?_, ?_, ?_⟩
      · change (w.text ++ src ++ _).take (w.pos + src.length) = _
        rw [← length, List.take_left, front]
      · change w.pos + src.length = before.pos + (data ++ src).length
        rw [so.pos, List.length_append, Nat.add_assoc]
      · change (w.text ++ src ++ _).drop (w.pos + src.length) =
          before.buffer.drop (w.pos + src.length)
        conv => lhs; rw [← length, List.drop_left]
        rw [length, ← List.drop_drop, so.behind, List.drop_drop]
      · change (w.text ++ src ++ w.buffer.drop (w.pos + src.length)).length = _
        rw [List.length_append, length, List.length_drop, ← so.size]
        omega
  · cases written

section

variable {σ τ : Type} {a : Writer σ} {b : Writer τ}

theorem teeWriter_ok {writers : σ × τ} {src : Bytes}
    (written : (teeWriter a b writers src).1 = .ok ()) :
    (a writers.1 src).1 = .ok () ∧ (b writers.2 src).1 = .ok () ∧
      (teeWriter a b writers src).2 = ((a writers.1 src).2, (b writers.2 src).2) := by
  unfold teeWriter at written ⊢
  split at written
  · cases written
  · next first wrote =>
      rw [wrote]
      exact ⟨rfl, written, rfl⟩

theorem teeWriter_error_iff (writers : σ × τ) (src : Bytes) (e : Error) :
    (teeWriter a b writers src).1 = .error e ↔
      (a writers.1 src).1 = .error e ∨
        (a writers.1 src).1 = .ok () ∧ (b writers.2 src).1 = .error e := by
  unfold teeWriter
  split
  · next other first wrote =>
      rw [wrote]
      constructor
      · intro failed
        exact Or.inl failed
      · rintro (failed | ⟨impossible, -⟩)
        · exact failed
        · cases impossible
  · next first wrote =>
      rw [wrote]
      constructor
      · intro failed
        exact Or.inr ⟨rfl, failed⟩
      · rintro (impossible | ⟨-, failed⟩)
        · cases impossible
        · exact failed

end

end Etlx.Io
