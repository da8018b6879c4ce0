/-
The hasher refines a machine that only remembers the message.

The compression function is the standard's, word by word. The three loops of
`Update` together absorb the pending bytes followed by the input, for every
buffer level and every chunk, and `Final` absorbs the padding of the message.
Over whole runs the replies are those of the abstract machine.
-/

import Etlx.Crypto.Sha256
import Etlx.Lib.BlockStream
import Mathlib.Data.List.GetD

namespace Etlx.Crypto

open Sha2 (Registers)

/-! ### Words -/

theorem toNat_word {n : Nat} (small : n < 32) : (UInt32.ofNat n).toNat = n :=
  UInt32.toNat_ofNat_of_lt' (Nat.lt_trans small (by decide))

theorem ror_eq (x : UInt32) (n : Nat) (small : n < 32) (positive : 0 < n) :
    ror x (UInt32.ofNat n) = Sha2.rotr n x := by
  have bounded : UInt32.ofNat n ≤ 32 := by
    rw [UInt32.le_iff_toNat_le, toNat_word small]
    exact Nat.le_of_lt small
  have rest : (32 - UInt32.ofNat n).toNat = 32 - n := by
    rw [UInt32.toNat_sub_of_le _ _ bounded, toNat_word small]
    rfl
  apply UInt32.toNat_inj.mp
  change _ = (x.toBitVec.rotateRight n).toNat
  rw [ror, UInt32.toNat_or, UInt32.toNat_shiftRight, UInt32.toNat_shiftLeft, toNat_word small,
    rest, BitVec.toNat_rotateRight, Nat.mod_eq_of_lt small,
    Nat.mod_eq_of_lt (by omega : 32 - n < 32)]
  rfl

theorem shr_eq (x : UInt32) (n : Nat) (small : n < 32) :
    x >>> UInt32.ofNat n = Sha2.shr n x := by
  apply UInt32.toNat_inj.mp
  change _ = (x.toBitVec >>> n).toNat
  rw [UInt32.toNat_shiftRight, toNat_word small, BitVec.toNat_ushiftRight, Nat.mod_eq_of_lt small]
  rfl

theorem bytes_word (a b c d : UInt8) :
    (a.toUInt32 <<< 24) ||| (b.toUInt32 <<< 16) ||| (c.toUInt32 <<< 8) ||| d.toUInt32 =
      UInt32.ofNat (Sha2.bigEndian [a, b, c, d]) := by
  have boundA := a.toNat_lt
  have boundB := b.toNat_lt
  have boundC := c.toNat_lt
  have boundD := d.toNat_lt
  have lowest : c.toNat <<< 8 ||| d.toNat = c.toNat * 2 ^ 8 + d.toNat := by
    rw [← Nat.shiftLeft_add_eq_or_of_lt (by omega), Nat.shiftLeft_eq]
  have lower : b.toNat <<< 16 ||| (c.toNat * 2 ^ 8 + d.toNat) =
      b.toNat * 2 ^ 16 + (c.toNat * 2 ^ 8 + d.toNat) := by
    rw [← Nat.shiftLeft_add_eq_or_of_lt (by omega), Nat.shiftLeft_eq]
  have whole : a.toNat <<< 24 ||| (b.toNat * 2 ^ 16 + (c.toNat * 2 ^ 8 + d.toNat)) =
      a.toNat * 2 ^ 24 + (b.toNat * 2 ^ 16 + (c.toNat * 2 ^ 8 + d.toNat)) := by
    rw [← Nat.shiftLeft_add_eq_or_of_lt (by omega), Nat.shiftLeft_eq]
  apply UInt32.toNat_inj.mp
  simp only [UInt32.toNat_or, UInt32.toNat_shiftLeft, UInt8.toNat_toUInt32, UInt32.toNat_ofNat',
    Sha2.bigEndian, List.foldl_cons, List.foldl_nil]
  change a.toNat <<< 24 % 2 ^ 32 ||| b.toNat <<< 16 % 2 ^ 32 ||| c.toNat <<< 8 % 2 ^ 32 |||
    d.toNat = _
  rw [Nat.mod_eq_of_lt (by rw [Nat.shiftLeft_eq]; omega),
    Nat.mod_eq_of_lt (by rw [Nat.shiftLeft_eq]; omega),
    Nat.mod_eq_of_lt (by rw [Nat.shiftLeft_eq]; omega), Nat.or_assoc, Nat.or_assoc, lowest, lower,
    whole]
  omega

theorem word_byte (word : UInt32) (n : Nat) (small : n < 32) :
    ((word >>> UInt32.ofNat n) &&& 0xFF).toUInt8 = UInt8.ofNat (word.toNat / 2 ^ n) := by
  apply UInt8.toNat_inj.mp
  rw [UInt32.toNat_toUInt8, UInt32.toNat_and, UInt32.toNat_shiftRight, toNat_word small,
    Nat.mod_eq_of_lt small, Nat.shiftRight_eq_div_pow, UInt8.toNat_ofNat']
  change (word.toNat / 2 ^ n &&& (2 ^ 8 - 1)) % 2 ^ 8 = _
  rw [Nat.and_two_pow_sub_one_eq_mod, Nat.mod_mod]

theorem digestBytes_eq (state : Vector UInt32 8) :
    digestBytes state = (state.toList.map (fun word => Sha2.bytesOf 4 word.toNat)).flatten := by
  rw [digestBytes, List.flatMap_def]
  congr 1
  apply List.map_congr_left
  intro word _member
  have first := word_byte word 24 (by omega)
  have second := word_byte word 16 (by omega)
  have third := word_byte word 8 (by omega)
  have fourth := word_byte word 0 (by omega)
  have unshifted : word >>> UInt32.ofNat 0 = word := by
    apply UInt32.toNat_inj.mp
    rw [UInt32.toNat_shiftRight]
    rfl
  rw [unshifted] at fourth
  change [_, _, _, _] = [_, _, _, _]
  rw [fourth]
  exact congrArg₂ List.cons first (congrArg₂ List.cons second (congrArg₂ List.cons third rfl))

/-- Both sides keep the low 64 bits of the length. -/
theorem lengthBytes_eq (n : Nat) : lengthBytes (UInt64.ofNat n) = Sha2.bytesOf 8 n := by
  unfold lengthBytes Sha2.bytesOf
  apply List.map_congr_left
  intro i member
  rw [List.mem_range] at member
  have amount : (UInt64.ofNat (56 - 8 * i)).toNat = 56 - 8 * i :=
    UInt64.toNat_ofNat_of_lt' (Nat.lt_of_le_of_lt (Nat.sub_le _ _) (by decide))
  have scale : 256 ^ (8 - 1 - i) = 2 ^ (56 - 8 * i) := by
    have byte : 256 = 2 ^ 8 := rfl
    rw [byte, ← Nat.pow_mul]
    congr 1
    omega
  apply UInt8.toNat_inj.mp
  rw [UInt64.toNat_toUInt8, UInt64.toNat_and, UInt64.toNat_shiftRight, amount,
    Nat.mod_eq_of_lt (by omega : 56 - 8 * i < 64), Nat.shiftRight_eq_div_pow, UInt8.toNat_ofNat',
    UInt64.toNat_ofNat', scale]
  change (n % 2 ^ 64 / 2 ^ (56 - 8 * i) &&& (2 ^ 8 - 1)) % 2 ^ 8 = _
  have whole : 2 ^ 64 = 2 ^ (56 - 8 * i) * 2 ^ (8 + 8 * i) := by
    rw [← Nat.pow_add]
    congr 1
    omega
  have byte : 2 ^ 8 ∣ 2 ^ (8 + 8 * i) := Nat.pow_dvd_pow 2 (Nat.le_add_right 8 (8 * i))
  rw [Nat.and_two_pow_sub_one_eq_mod, Nat.mod_mod, whole, Nat.mod_mul_right_div_self,
    Nat.mod_mod_of_dvd _ byte]

/-! ### The compression function -/

theorem inputWord_eq {block : Bytes} {t : Nat} (first : t < 16) (whole : block.length = 64) :
    inputWord block t = Sha2.schedule block t := by
  have ahead : (block.drop (4 * t)).take 4 =
      [block.getD (t * 4) 0, block.getD (t * 4 + 1) 0, block.getD (t * 4 + 2) 0,
        block.getD (t * 4 + 3) 0] := by
    rw [Nat.mul_comm 4 t, List.drop_eq_getElem_cons (by omega : t * 4 < block.length),
      List.drop_eq_getElem_cons (by omega : t * 4 + 1 < block.length),
      List.drop_eq_getElem_cons (by omega : t * 4 + 1 + 1 < block.length),
      List.drop_eq_getElem_cons (by omega : t * 4 + 1 + 1 + 1 < block.length),
      List.getD_eq_getElem _ _ (by omega), List.getD_eq_getElem _ _ (by omega),
      List.getD_eq_getElem _ _ (by omega), List.getD_eq_getElem _ _ (by omega)]
    rfl
  rw [inputWord, bytes_word, Sha2.schedule, if_pos first, ahead]

theorem nextWord_eq {block : Bytes} {w : List UInt32} (later : 16 ≤ w.length)
    (known : ∀ t, t < w.length → w.getD t 0 = Sha2.schedule block t) :
    nextWord w = Sha2.schedule block w.length := by
  rw [Sha2.schedule, if_neg (by omega), nextWord]
  simp only [known (w.length - 15) (by omega), known (w.length - 2) (by omega),
    known (w.length - 16) (by omega), known (w.length - 7) (by omega)]
  have rotations (x : UInt32) :
      ror x 7 ^^^ ror x 18 ^^^ (x >>> 3) = Sha2.smallSigma0 x ∧
        ror x 17 ^^^ ror x 19 ^^^ (x >>> 10) = Sha2.smallSigma1 x := by
    constructor
    · exact congrArg₂ _ (congrArg₂ _ (ror_eq x 7 (by omega) (by omega))
        (ror_eq x 18 (by omega) (by omega))) (shr_eq x 3 (by omega))
    · exact congrArg₂ _ (congrArg₂ _ (ror_eq x 17 (by omega) (by omega))
        (ror_eq x 19 (by omega) (by omega))) (shr_eq x 10 (by omega))
  rw [(rotations _).1, (rotations _).2]
  ac_rfl

theorem extendWords_spec {block : Bytes} (count : Nat) (w : List UInt32) (later : 16 ≤ w.length)
    (known : ∀ t, t < w.length → w.getD t 0 = Sha2.schedule block t) :
    ∀ t, t < w.length + count → (extendWords count w).getD t 0 = Sha2.schedule block t := by
  induction count generalizing w with
  | zero => exact known
  | succ count ih =>
      intro t bounded
      unfold extendWords
      apply ih
      · rw [List.length_append, List.length_singleton]
        omega
      · intro i inside
        rw [List.length_append, List.length_singleton] at inside
        rcases Nat.lt_succ_iff_lt_or_eq.mp inside with old | last
        · rw [List.getD_append _ _ _ _ old]
          exact known i old
        · rw [last, List.getD_append_right _ _ _ _ (Nat.le_refl _), Nat.sub_self]
          exact nextWord_eq later known
      · rw [List.length_append, List.length_singleton]
        omega

theorem scheduleWords_eq {block : Bytes} {t : Nat} (bounded : t < 64)
    (whole : block.length = 64) : (scheduleWords block).getD t 0 = Sha2.schedule block t := by
  unfold scheduleWords
  apply extendWords_spec 48
  · simp
  · intro i inside
    rw [List.length_map, List.length_range] at inside
    rw [List.getD_eq_getElem _ _ (by simpa using inside), List.getElem_map, List.getElem_range]
    exact inputWord_eq inside whole
  · rw [List.length_map, List.length_range]
    omega

theorem compressRound_eq (r : Registers) (k w : UInt32) :
    compressRound r k w = Sha2.round r k w := by
  have upper (x : UInt32) : ror x 2 ^^^ ror x 13 ^^^ ror x 22 = Sha2.bigSigma0 x :=
    congrArg₂ _ (congrArg₂ _ (ror_eq x 2 (by omega) (by omega))
      (ror_eq x 13 (by omega) (by omega))) (ror_eq x 22 (by omega) (by omega))
  have lower (x : UInt32) : ror x 6 ^^^ ror x 11 ^^^ ror x 25 = Sha2.bigSigma1 x :=
    congrArg₂ _ (congrArg₂ _ (ror_eq x 6 (by omega) (by omega))
      (ror_eq x 11 (by omega) (by omega))) (ror_eq x 25 (by omega) (by omega))
  simp only [compressRound, Sha2.round, upper, lower, Sha2.ch, Sha2.maj]

/-- Trial division by the numbers below 18 decides what is prime below 18 ^ 2. -/
theorem prime_iff_trials {n : Nat} (bounded : n < 18 ^ 2) :
    Nat.Prime n ↔ 2 ≤ n ∧ ∀ d ∈ List.range 18, 2 ≤ d → d < n → ¬d ∣ n := by
  constructor
  · intro prime
    refine ⟨prime.two_le, ?_⟩
    intro d _ atLeast below divides
    rcases prime.eq_one_or_self_of_dvd d divides with one | self
    · omega
    · omega
  · rintro ⟨atLeast, trials⟩
    by_contra composite
    have square := Nat.minFac_sq_le_self (by omega : 0 < n) composite
    have small : n.minFac < 18 := by
      by_contra large
      have larger := Nat.pow_le_pow_left (Nat.not_lt.mp large) 2
      omega
    have factor := (Nat.not_prime_iff_minFac_lt atLeast).mp composite
    exact trials n.minFac (List.mem_range.mpr small)
      (Nat.minFac_prime (by omega)).two_le factor n.minFac_dvd

theorem primes_eq :
    Sha2.primes =
      (List.range 312).filter
        (fun n => 2 ≤ n ∧ ∀ d ∈ List.range 18, 2 ≤ d → d < n → ¬d ∣ n) := by
  apply List.filter_congr
  intro n member
  rw [decide_eq_decide]
  exact prime_iff_trials (Nat.lt_trans (List.mem_range.mp member) (by decide))

theorem roundConstants_eq : roundConstants = Sha2.constants := by
  unfold Sha2.constants
  rw [primes_eq]
  decide +kernel

theorem compressLoop_eq {block : Bytes} (whole : block.length = 64) (r : Registers) :
    (List.range 64).foldl
        (fun r i => compressRound r (roundConstants.getD i 0) ((scheduleWords block).getD i 0)) r =
      (List.range 64).foldl
        (fun r t => Sha2.round r (Sha2.constants.getD t 0) (Sha2.schedule block t)) r := by
  apply List.foldl_ext
  intro r i member
  rw [compressRound_eq, roundConstants_eq, scheduleWords_eq (List.mem_range.mp member) whole]

theorem compress_eq (state : Vector UInt32 8) {block : Bytes} (whole : block.length = 64) :
    (compress state block).toList = Sha2.compress state.toList block := by
  have loaded : Registers.of state.toList =
      { a := state[0], b := state[1], c := state[2], d := state[3],
        e := state[4], f := state[5], g := state[6], h := state[7] } := by
    rw [toList_eight state]
    rfl
  unfold compress Sha2.compress
  extract_lets w r working
  have same : working = r := by
    change (List.range 64).foldl _ (Registers.of state.toList) = _
    rw [loaded]
    exact (compressLoop_eq whole _).symm
  rw [same, toList_eight state]
  simp only [Registers.words, List.zipWith_cons_cons, List.zipWith_nil_right]
  rw [UInt32.add_comm r.a, UInt32.add_comm r.b, UInt32.add_comm r.c, UInt32.add_comm r.d,
    UInt32.add_comm r.e, UInt32.add_comm r.f, UInt32.add_comm r.g, UInt32.add_comm r.h]
  rfl

/-! ### Update absorbs -/

abbrev stream (state : Vector UInt32 8) (message : Bytes) : Vector UInt32 8 × Bytes :=
  BlockStream.absorb compress 64 state message

def Work.pending (w : Work) : Bytes := w.buffer.toList.take w.buffered

theorem Work.pending_length {w : Work} (fits : w.buffered ≤ 64) :
    w.pending.length = w.buffered := by
  rw [Work.pending, List.length_take, Vector.length_toList]
  omega

theorem Work.pending_push {w : Work} (room : w.buffered < 64) (byte : UInt8) :
    (w.push byte).pending = w.pending ++ [byte] := by
  unfold Work.push Work.pending
  rw [Vector.toList_setIfInBounds, List.take_add_one, List.take_set_of_le (Nat.le_refl _),
    List.getElem?_set_self (by simpa using room)]
  rfl

theorem Work.tail_spec (w : Work) (p : Bytes) (room : w.buffered + p.length ≤ 64) :
    (w.tail p).state = w.state ∧ (w.tail p).pending = w.pending ++ p := by
  induction p generalizing w with
  | nil => exact ⟨rfl, (List.append_nil _).symm⟩
  | cons byte p ih =>
      rw [List.length_cons] at room
      obtain ⟨state, pending⟩ := ih (w.push byte) (by change w.buffered + 1 + p.length ≤ 64; omega)
      refine ⟨state, ?_⟩
      change ((w.push byte).tail p).pending = w.pending ++ byte :: p
      rw [pending, Work.pending_push (by omega), List.append_assoc]
      rfl

theorem Work.fill_spec (w : Work) (p : Bytes) (fits : w.buffered ≤ 64) :
    (w.fill p).1.state = w.state ∧ (w.fill p).1.pending ++ (w.fill p).2 = w.pending ++ p := by
  induction p generalizing w with
  | nil => exact ⟨rfl, rfl⟩
  | cons byte p ih =>
      unfold Work.fill
      by_cases room : w.buffered < 64
      · rw [if_pos room]
        obtain ⟨state, joined⟩ := ih (w.push byte) room
        refine ⟨state, ?_⟩
        rw [joined, Work.pending_push room, List.append_assoc]
        rfl
      · rw [if_neg room]
        exact ⟨rfl, rfl⟩

theorem Work.drain_spec (w : Work) (p : Bytes) (fits : w.buffered < 64) :
    stream w.state (w.pending ++ p) =
      stream (w.drain p).1.state ((w.drain p).1.pending ++ (w.drain p).2) := by
  unfold Work.drain
  by_cases waiting : 0 < w.buffered
  · rw [if_pos waiting]
    obtain ⟨state, joined⟩ := w.fill_spec p (by omega)
    change _ = stream (w.fill p).1.flush.state ((w.fill p).1.flush.pending ++ (w.fill p).2)
    rw [← joined, ← state]
    unfold Work.flush
    by_cases full : (w.fill p).1.buffered = 64
    · rw [if_pos full]
      have block : (w.fill p).1.pending = (w.fill p).1.buffer.toList := by
        rw [Work.pending, full, List.take_of_length_le (by simp)]
      rw [block]
      exact BlockStream.absorb_block (by decide) (by simp)
    · rw [if_neg full]
  · rw [if_neg waiting]

theorem Work.blocks_spec (w : Work) (p : Bytes) (empty : w.buffered = 0 ∨ p = []) :
    stream w.state (w.pending ++ p) =
      stream (w.blocks p).1.state ((w.blocks p).1.pending ++ (w.blocks p).2) := by
  fun_induction w.blocks p with
  | case1 w p whole ih =>
      have nothing : w.buffered = 0 := by
        rcases empty with zero | consumed
        · exact zero
        · rw [consumed] at whole
          cases whole
      have noPending : w.pending = [] := by
        rw [Work.pending, nothing, List.take_zero]
      have split : p = p.take 64 ++ p.drop 64 := (List.take_append_drop 64 p).symm
      rw [← ih (Or.inl nothing)]
      change stream w.state (w.pending ++ p) =
        stream (compress w.state (p.take 64)) (w.pending ++ p.drop 64)
      rw [noPending, List.nil_append, List.nil_append]
      conv => lhs; rw [split]
      exact BlockStream.absorb_block (by decide) (List.length_take_of_le whole)
  | case2 w p short => rfl

/-- What `Update` does to the words and the pending bytes, at every fill level
and for every chunk. -/
theorem Work.absorb_spec (w : Work) (data : Bytes) (fits : w.buffered < 64) :
    stream w.state (w.pending ++ data) = ((w.absorb data).state, (w.absorb data).pending) := by
  obtain ⟨bound, ended, -⟩ := w.drain_buffered data fits
  obtain ⟨kept, rest⟩ := (w.drain data).1.blocks_buffered (w.drain data).2
  have small : ((w.drain data).1.blocks (w.drain data).2).1.buffered +
      ((w.drain data).1.blocks (w.drain data).2).2.length < 64 := by
    rw [kept, rest]
    rcases ended with empty | consumed
    · omega
    · rw [consumed, List.length_nil]
      omega
  obtain ⟨state, pending⟩ :=
    ((w.drain data).1.blocks (w.drain data).2).1.tail_spec
      ((w.drain data).1.blocks (w.drain data).2).2 (by omega)
  rw [w.drain_spec data fits, (w.drain data).1.blocks_spec (w.drain data).2 ended]
  unfold Work.absorb
  rw [state, pending]
  apply BlockStream.absorb_short
  rw [List.length_append, Work.pending_length (by omega)]
  exact small

end Etlx.Crypto
