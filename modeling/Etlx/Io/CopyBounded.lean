/-
Copying from memory into a buffer of bounded size.

The reader gives pieces of the scratch size until its last piece, so a copy that
finds no room for a piece has filled the buffer with whole pieces and no more.
-/

import Etlx.Io.Io

namespace Etlx.Io

theorem spanReader_full : spanReader.Full := by
  intro r offered
  change Except.ok ((r.data.drop r.pos).take (min offered r.remaining)) =
    Except.ok ((r.data.drop r.pos).take offered)
  have remains : r.remaining = (r.data.drop r.pos).length := List.length_drop.symm
  rw [remains, ← List.take_eq_take_min]

theorem spanReader_piece {r : SpanReader} {scratch : Nat} {piece : Bytes}
    (got : (spanReader.read r scratch).1 = .ok piece) :
    piece.length = min scratch (spanReader.left r).length := by
  rw [spanReader_full] at got
  rw [← Except.ok.inj got, List.length_take]

/-- Where a copy from memory stops: at the end, or at a piece that does not fit. -/
inductive Stops (data buffer : Bytes) (scratch : Nat) : Result Nat × SpanReader × SpanWriter → Prop
  | whole {r : SpanReader} {w : SpanWriter} (held : w.buffer = data ++ buffer.drop data.length)
      (place : w.pos = data.length) (fits : data.length ≤ buffer.length) :
      Stops data buffer scratch (.ok data.length, r, w)
  | refused {r : SpanReader} {w : SpanWriter} {front : Bytes}
      (held : w.buffer = front ++ buffer.drop front.length) (place : w.pos = front.length)
      (begins : front <+: data) (pieces : scratch ∣ front.length)
      (inside : front.length ≤ buffer.length) (full : buffer.length < front.length + scratch)
      (more : buffer.length < data.length) :
      Stops data buffer scratch
        (fail category Code.shortWrite.value "SpanWriter buffer full", r, w)

theorem copy_stops (data : Bytes) {scratch : Nat} (positive : scratch ≠ 0) (buffer : Bytes)
    (addressable : buffer.length < 2 ^ 64) :
    Stops data buffer scratch (copy spanReader SpanWriter.write (.construct data)
      (.construct buffer addressable) scratch) := by
  rw [copy, if_neg positive]
  obtain ⟨front, r, w, moves, ended⟩ := copyLoop_ends spanReader SpanWriter.write scratch 0
    (.construct data) (.construct buffer addressable)
  have so : w.Extends (.construct buffer addressable) front :=
    moves.invariant (fun before w => w.Extends (.construct buffer addressable) before)
      (fun _ _ _ _ extended written => SpanWriter.write_extends extended written)
      (SpanWriter.extends_refl _)
  have split : data = front ++ spanReader.left r := moves.left
  have room := so.room
  rw [copyLoop_moves moves (Nat.two_pow_pos 64), Nat.zero_add]
  rcases ended with ⟨e, failed | ⟨piece, nonempty, got, refused⟩⟩ | ended
  · rw [spanReader_full r scratch] at failed
    cases failed
  · have short := spanReader_piece got
    have positivePiece : 0 < piece.length := List.length_pos_iff.mpr nonempty
    have long : data.length = front.length + (spanReader.left r).length := by
      rw [← List.length_append, ← split]
    have left : spanReader.left r ≠ [] := by
      apply List.ne_nil_of_length_pos
      omega
    have full : w.buffer.length < w.pos + piece.length := by
      by_contra fits
      rw [(SpanWriter.write_ok_iff w piece).mpr (Nat.not_lt.mp fits)] at refused
      cases refused
    rw [copyLoop_refused nonempty (Prod.ext got rfl) (SpanWriter.write_full full)]
    have size : w.buffer.length = buffer.length := so.size
    have place := so.place
    exact .refused so.buffer_eq place ⟨_, split.symm⟩ (moves.whole_pieces spanReader_full left)
      room (by omega) (by omega)
  · have nothing := spanReader.ends r scratch (Nat.pos_of_ne_zero positive) ended
    rw [nothing, List.append_nil] at split
    rw [← split] at so room
    rw [copyLoop_done w _ ended, ← split,
      Nat.mod_eq_of_lt (Nat.lt_of_le_of_lt room addressable)]
    exact .whole so.buffer_eq so.place room

theorem pieces_eq {scratch held capacity : Nat} (pieces : scratch ∣ held)
    (inside : held ≤ capacity) (full : capacity < held + scratch) :
    held = scratch * (capacity / scratch) := by
  obtain ⟨count, rfl⟩ := pieces
  rw [Nat.div_eq_of_lt_le (by rw [Nat.mul_comm]; exact inside)
    (by rw [Nat.succ_mul, Nat.mul_comm count]; exact full)]

/-- A copy into a bounded buffer is the whole source where it fits; otherwise it is as
many whole pieces as fit, and the bytes behind them are those of before. -/
theorem copy_bounded (data : Bytes) (scratch : Nat) (buffer : Bytes)
    (addressable : buffer.length < 2 ^ 64) :
    let done := copy spanReader SpanWriter.write (.construct data)
      (.construct buffer addressable) scratch
    let held := scratch * (buffer.length / scratch)
    (0 < scratch →
      (done.1 = .ok data.length ∧ done.2.2.text = data ∧ done.2.2.pos = data.length ↔
        data.length ≤ buffer.length) ∧
      (data.length ≤ buffer.length → done.2.2.buffer = data ++ buffer.drop data.length) ∧
      (¬ data.length ≤ buffer.length →
        done.1 = fail category Code.shortWrite.value "SpanWriter buffer full" ∧
        done.2.2.pos = held ∧ done.2.2.text = data.take held ∧
        done.2.2.buffer = data.take held ++ buffer.drop held)) ∧
    (scratch = 0 → done =
      (fail category Code.outOfRange.value "Copy needs a non-empty scratch buffer",
        .construct data, .construct buffer addressable)) := by
  intro done held
  constructor
  · intro positive
    have stops : Stops data buffer scratch done :=
      copy_stops data (Nat.ne_of_gt positive) buffer addressable
    generalize done = outcome at stops ⊢
    cases stops with
    | @whole r w kept place fits =>
        have text : w.text = data := by
          rw [SpanWriter.text, kept, place, List.take_left]
        refine ⟨?_, ?_, ?_⟩
        · exact iff_of_true ⟨rfl, text, place⟩ fits
        · intro _
          exact kept
        · intro exceeds
          exact absurd fits exceeds
    | @refused r w front kept place begins pieces inside full more =>
        have size : front.length = held := pieces_eq pieces inside full
        have taken : front = data.take held := by
          rw [← size]
          exact List.prefix_iff_eq_take.mp begins
        refine ⟨?_, ?_, ?_⟩
        · constructor
          · intro impossible
            cases impossible.1
          · intro fits
            omega
        · intro fits
          omega
        · intro _
          refine ⟨rfl, place.trans size, ?_, ?_⟩
          · rw [SpanWriter.text, kept, place, List.take_left, taken]
          · rw [kept, size, taken]
  · intro none
    change copy _ _ _ _ scratch = _
    rw [copy, if_pos none]

/-- Three bytes in pieces of two, where there is room for three and where there is not. -/
theorem copy_bounded_three :
    (copy spanReader SpanWriter.write (.construct [1, 2, 3])
        (.construct [7, 7, 7] (by decide)) 2).2.2.buffer = [1, 2, 3] ∧
      (copy spanReader SpanWriter.write (.construct [1, 2, 3, 4])
        (.construct [7, 7, 7] (by decide)) 2).2.2.buffer = [1, 2, 7] := by
  constructor
  · exact ((copy_bounded [1, 2, 3] 2 [7, 7, 7] (by decide)).1 (by decide)).2.1 (by decide)
  · exact (((copy_bounded [1, 2, 3, 4] 2 [7, 7, 7] (by decide)).1 (by decide)).2.2
      (by decide)).2.2.2

end Etlx.Io
