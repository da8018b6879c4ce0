/-
Integers out of primitive tokens.

`AsInt` multiplies and adds in an `int64_t` without a check, and negates at the end.
So it is exact as long as the number in front of the first other character stays
below 2^63, and undefined otherwise; the least number of the type, which would fit
behind a minus, is among the undefined ones.
-/

import Etlx.Json.View
import Mathlib.Data.List.TakeWhile

namespace Etlx.Json

open Ascii

/-! ### Numbers -/

/-- The number that digits continue from the number in front of them. -/
def continued (v : Nat) (digits : Bytes) : Nat :=
  digits.foldl (fun value c => value * 10 + (c - zero).toNat) v

theorem le_continued (v : Nat) (digits : Bytes) : v ≤ continued v digits := by
  induction digits generalizing v with
  | nil => exact Nat.le_refl v
  | cons c digits ih =>
      have later := ih (v * 10 + (c - zero).toNat)
      change v ≤ continued (v * 10 + (c - zero).toNat) digits
      omega

/-- An optional minus and digits, which denote `z`. -/
inductive IntText : Bytes → Int → Prop
  | positive {digits : Bytes} (nonempty : digits ≠ []) (all : ∀ c ∈ digits, isDigit c = true) :
      IntText digits (continued 0 digits)
  | negative {digits : Bytes} (nonempty : digits ≠ []) (all : ∀ c ∈ digits, isDigit c = true) :
      IntText (minus :: digits) (-(continued 0 digits : Nat))

def unsigned (text : Bytes) : Bytes := if text.head? = some minus then text.tail else text

def signed (text : Bytes) (n : Nat) : Int := if text.head? = some minus then -(n : Int) else n

def leadingDigits (text : Bytes) : Bytes := (unsigned text).takeWhile isDigit

/-- What `AsInt` should do on a primitive: the integer where there is one that fits, an
error in every other case, and no overflow on the way. -/
structure View.AsIntExact (view : View) : Prop where
  fits : ∀ z, IntText view.raw z → inInt64 z = true → view.asInt = some (.ok z)
  exceeds : ∀ z, IntText view.raw z → inInt64 z = false → ∃ e, view.asInt = some (.error e)
  other : (¬∃ z, IntText view.raw z) → ∃ e, view.asInt = some (.error e)

/-! ### The loop -/

theorem inInt64_natCast (v : Nat) : inInt64 v = true ↔ v < 2 ^ 63 := by
  simp only [inInt64, Bool.and_eq_true, decide_eq_true_eq]
  omega

theorem asIntLoop_digit {c : UInt8} (digit : isDigit c = true) (text : Bytes) (v : Nat) :
    asIntLoop (c :: text) v =
      if v * 10 + (c - zero).toNat < 2 ^ 63 then
        asIntLoop text ((v * 10 + (c - zero).toNat : Nat) : Int)
      else none := by
  have product : (v : Int) * 10 = ((v * 10 : Nat) : Int) := by omega
  have sum : ((v * 10 : Nat) : Int) + (c - zero).toNat =
      ((v * 10 + (c - zero).toNat : Nat) : Int) := by omega
  conv => lhs; unfold asIntLoop
  rw [if_pos digit, product, sum]
  by_cases small : v * 10 + (c - zero).toNat < 2 ^ 63
  · rw [if_pos ((inInt64_natCast _).mpr (by omega)), if_pos ((inInt64_natCast _).mpr small),
      if_pos small]
  · rw [if_neg small]
    split
    · rw [if_neg (fun fits => small ((inInt64_natCast _).mp fits))]
    · rfl

/-- The loop overflows exactly where the digits reach 2^63, whatever follows them. -/
theorem asIntLoop_eq (text : Bytes) {v : Nat} (small : v < 2 ^ 63) :
    asIntLoop text v =
      if continued v (text.takeWhile isDigit) < 2 ^ 63 then
        if text.all isDigit then some (.ok ((continued v text : Nat) : Int))
        else some (fail category Code.wrongType.value "not an integer")
      else none := by
  induction text generalizing v with
  | nil =>
      rw [List.takeWhile_nil, if_pos (show continued v [] < 2 ^ 63 from small)]
      rfl
  | cons c text ih =>
      by_cases digit : isDigit c = true
      · have ahead : continued v ((c :: text).takeWhile isDigit) =
            continued (v * 10 + (c - zero).toNat) (text.takeWhile isDigit) := by
          rw [List.takeWhile_cons_of_pos digit]
          rfl
        rw [asIntLoop_digit digit, ahead, List.all_cons, digit, Bool.true_and]
        by_cases next : v * 10 + (c - zero).toNat < 2 ^ 63
        · rw [if_pos next, ih next]
          rfl
        · have larger := le_continued (v * 10 + (c - zero).toNat) (text.takeWhile isDigit)
          rw [if_neg next, if_neg (by omega)]
      · rw [List.takeWhile_cons_of_neg digit, if_pos (show continued v [] < 2 ^ 63 from small),
          List.all_cons, Bool.eq_false_iff.mpr digit, Bool.false_and]
        conv => lhs; unfold asIntLoop
        rw [if_neg digit]
        rfl

/-! ### The whole function -/

theorem intText_iff (text : Bytes) (z : Int) :
    IntText text z ↔
      unsigned text ≠ [] ∧ (unsigned text).all isDigit = true ∧
        z = signed text (continued 0 (unsigned text)) := by
  constructor
  · intro isInt
    cases isInt with
    | positive nonempty all =>
        have noMinus : text.head? ≠ some minus := by
          intro first
          have digit := all minus (List.mem_of_mem_head? first)
          revert digit
          decide
        rw [unsigned, signed, if_neg noMinus, if_neg noMinus, List.all_eq_true]
        exact ⟨nonempty, all, rfl⟩
    | @negative digits nonempty all =>
        have behind : unsigned (minus :: digits) = digits := rfl
        rw [behind, List.all_eq_true]
        exact ⟨nonempty, all, rfl⟩
  · rintro ⟨nonempty, all, rfl⟩
    rw [List.all_eq_true] at all
    by_cases negative : text.head? = some minus
    · obtain ⟨rest, rfl⟩ := List.head?_eq_some_iff.mp negative
      exact .negative nonempty all
    · rw [unsigned, if_neg negative] at nonempty all
      rw [unsigned, signed, if_neg negative, if_neg negative]
      exact .positive nonempty all

theorem signed_fits (text : Bytes) {n : Nat} (small : n < 2 ^ 63) :
    inInt64 (signed text n) = true := by
  unfold signed
  split
  · simp only [inInt64, Bool.and_eq_true, decide_eq_true_eq]
    omega
  · exact (inInt64_natCast n).mpr small

theorem View.asInt_eq {view : View} (primitive : view.type = .primitive) :
    (unsigned view.raw = [] ∧ ∃ e, view.asInt = some (.error e)) ∨
      (unsigned view.raw ≠ [] ∧
        view.asInt =
          if continued 0 (leadingDigits view.raw) < 2 ^ 63 then
            if (unsigned view.raw).all isDigit then
              some (.ok (signed view.raw (continued 0 (unsigned view.raw))))
            else some (fail category Code.wrongType.value "not an integer")
          else none) := by
  unfold View.asInt
  rw [if_neg (not_not_intro primitive)]
  cases text : view.raw with
  | nil => exact Or.inl ⟨rfl, _, rfl⟩
  | cons c rest =>
      dsimp only
      have behind : unsigned (c :: rest) = if c = minus then rest else c :: rest := by
        unfold unsigned
        simp only [List.head?_cons, Option.some.injEq, List.tail_cons]
      rw [← behind]
      by_cases nothing : unsigned (c :: rest) = []
      · rw [if_pos nothing]
        exact Or.inl ⟨nothing, _, rfl⟩
      · right
        refine ⟨nothing, ?_⟩
        rw [if_neg nothing]
        have loop := asIntLoop_eq (unsigned (c :: rest)) (Nat.two_pow_pos 63)
        rw [Int.natCast_zero] at loop
        change _ = if continued 0 ((unsigned (c :: rest)).takeWhile isDigit) < 2 ^ 63 then _ else _
        rw [loop]
        by_cases small : continued 0 ((unsigned (c :: rest)).takeWhile isDigit) < 2 ^ 63
        · rw [if_pos small, if_pos small]
          by_cases all : (unsigned (c :: rest)).all isDigit = true
          · rw [List.takeWhile_eq_self_iff.mpr (List.all_eq_true.mp all)] at small
            have sign : signed (c :: rest) (continued 0 (unsigned (c :: rest))) =
                if c = minus then -(continued 0 (unsigned (c :: rest)) : Int)
                else continued 0 (unsigned (c :: rest)) := by
              unfold signed
              simp only [List.head?_cons, Option.some.injEq]
            have fits := signed_fits (c :: rest) small
            rw [if_pos all, if_pos all]
            dsimp only
            rw [sign] at fits ⊢
            by_cases negative : c = minus
            · rw [if_pos negative] at fits
              rw [if_pos negative, if_pos fits, if_pos negative]
            · rw [if_neg negative, if_neg negative]
          · rw [if_neg all, if_neg all]
            rfl
        · rw [if_neg small, if_neg small]

theorem View.not_asIntExact_of_none {view : View} (overflows : view.asInt = none) :
    ¬view.AsIntExact := by
  intro exact
  by_cases isInt : ∃ z, IntText view.raw z
  · obtain ⟨z, isInt⟩ := isInt
    cases within : inInt64 z with
    | true =>
        have number := exact.fits z isInt within
        rw [overflows] at number
        cases number
    | false =>
        obtain ⟨e, failed⟩ := exact.exceeds z isInt within
        rw [overflows] at failed
        cases failed
  · obtain ⟨e, failed⟩ := exact.other isInt
    rw [overflows] at failed
    cases failed

theorem IntText.inInt64 {text : Bytes} {z : Int} (isInt : IntText text z)
    (small : continued 0 (leadingDigits text) < 2 ^ 63) : inInt64 z = true := by
  obtain ⟨-, all, rfl⟩ := (intText_iff _ z).mp isInt
  rw [leadingDigits, List.takeWhile_eq_self_iff.mpr (List.all_eq_true.mp all)] at small
  exact signed_fits text small

/-- `AsInt` is exact exactly where the digits in front stay below 2^63. -/
theorem asInt_exact_iff (view : View) (primitive : view.type = .primitive) :
    view.AsIntExact ↔ continued 0 (leadingDigits view.raw) < 2 ^ 63 := by
  rcases View.asInt_eq primitive with ⟨nothing, e, failed⟩ | ⟨digits, result⟩
  · have none : ∀ z, ¬IntText view.raw z := by
      intro z isInt
      exact ((intText_iff _ z).mp isInt).1 nothing
    have zero : continued 0 (leadingDigits view.raw) = 0 := by
      rw [leadingDigits, nothing]
      rfl
    apply iff_of_true
    · exact
        { fits := fun z isInt => absurd isInt (none z)
          exceeds := fun z isInt => absurd isInt (none z)
          other := fun _ => ⟨e, failed⟩ }
    · rw [zero]
      exact Nat.two_pow_pos 63
  · by_cases small : continued 0 (leadingDigits view.raw) < 2 ^ 63
    · rw [if_pos small] at result
      refine iff_of_true { fits := ?_, exceeds := ?_, other := ?_ } small
      · intro z isInt _
        obtain ⟨-, all, rfl⟩ := (intText_iff _ z).mp isInt
        rw [result, if_pos all]
      · intro z isInt outside
        rw [isInt.inInt64 small] at outside
        cases outside
      · intro absent
        have others : ¬(unsigned view.raw).all isDigit = true := by
          intro all
          exact absent ⟨_, (intText_iff _ _).mpr ⟨digits, all, rfl⟩⟩
        rw [result, if_neg others]
        exact ⟨_, rfl⟩
    · rw [if_neg small] at result
      exact iff_of_false (View.not_asIntExact_of_none result) small

def numberView (digits : String) : View :=
  { src := ascii digits ++ ascii " "
    tokens := [{ type := .primitive, start := 0, end_ := digits.length }]
    index := 0 }

theorem asInt_exact_negative :
    (numberView "-42").AsIntExact ∧ (numberView "-42").asInt = some (.ok (-42)) := by
  have exact := (asInt_exact_iff (numberView "-42") rfl).mpr (by decide +kernel)
  have isInt : IntText (numberView "-42").raw (-42) :=
    (intText_iff _ _).mpr (by decide +kernel)
  exact ⟨exact, exact.fits (-42) isInt (by decide)⟩

/-- The digits of 2^63 overflow, where an error is due. -/
theorem asInt_overflows :
    parseToView (ascii "9223372036854775808 ") [{}] = .ok (numberView "9223372036854775808") ∧
      (numberView "9223372036854775808").type = .primitive ∧
      IntText (numberView "9223372036854775808").raw (2 ^ 63) ∧
      (numberView "9223372036854775808").asInt = none ∧
      ¬(numberView "9223372036854775808").AsIntExact := by
  have isInt : IntText (numberView "9223372036854775808").raw (2 ^ 63) :=
    (intText_iff _ _).mpr (by decide +kernel)
  have overflows : (numberView "9223372036854775808").asInt = none := by decide +kernel
  exact ⟨by decide +kernel, rfl, isInt, overflows, View.not_asIntExact_of_none overflows⟩

end Etlx.Json
