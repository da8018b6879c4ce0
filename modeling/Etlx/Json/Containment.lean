/-
Lookup and the container it is asked of.

`operator[]` follows parent links and takes the token after a key as its value.
The tokenizer lets ':' name any last token as the next parent, also one inside a
container that has been closed, and lets a key stand without a value. Here it is
settled, for every text the tokenizer accepts, when a member or an element lies
inside its container, by what stands in the text.
-/

import Etlx.Json.Nesting
import Etlx.Json.View

namespace Etlx.Json

open Ascii Cursor

/-! ### Parents are never outside an open container -/

/-- A container open when a token is created is no later than its parent. -/
structure Inward (f : Frame) : Prop where
  super : ∀ (c : Nat) (a : Token), f.tokens[c]? = some a → a.end_ = -1 → (c : Int) ≤ f.super
  parent : ∀ (c j : Nat) (a b : Token), c < j → f.tokens[c]? = some a → f.tokens[j]? = some b →
    a.IsContainer → (a.end_ = -1 ∨ b.start < a.end_) → (c : Int) ≤ b.parent

theorem Inward.concat {f : Frame} (ranges : Ranges f) (inward : Inward f) (token : Token)
    (next : Nat) (super : Int) (child : token.parent = f.super)
    (after : (f.pos : Int) ≤ token.start)
    (receiver : f.super ≤ super)
    (receives : token.end_ = -1 → (f.tokens.length : Int) ≤ super) :
    Inward { tokens := f.tokens ++ [token], pos := next, super := super } := by
  constructor
  · intro c a found isOpen
    rcases getElem?_concat_some found with old | ⟨last, rfl⟩
    · exact Int.le_trans (inward.super c a old isOpen) receiver
    · rw [last]
      exact receives isOpen
  · intro c j a b less foundA foundB kind enclosing
    rcases getElem?_concat_some foundA with oldA | ⟨lastA, rfl⟩
    · rcases getElem?_concat_some foundB with oldB | ⟨lastB, rfl⟩
      · exact inward.parent c j a b less oldA oldB kind enclosing
      · rw [child]
        apply inward.super c a oldA
        have behind := ranges.end_le oldA
        omega
    · have inside := (List.getElem?_eq_some_iff.mp foundB).1
      rw [List.length_append, List.length_singleton] at inside
      omega

theorem Inward.advance {f : Frame} (inward : Inward f) (super : Int)
    (receiver : ∀ (c : Nat) (a : Token), f.tokens[c]? = some a → a.end_ = -1 → (c : Int) ≤ super) :
    Inward { f with pos := f.pos + 1, super := super } :=
  ⟨receiver, inward.parent⟩

theorem Inward.close {f : Frame} (ranges : Ranges f) (inward : Inward f) {i : Nat} {a : Token}
    (found : f.tokens[i]? = some a) (isOpen : a.end_ = -1)
    (innermost : ∀ (j : Nat) (b : Token), i < j → f.tokens[j]? = some b → b.end_ ≠ -1) :
    Inward
      { tokens := f.tokens.modify i (Token.close · (f.pos + 1 : Nat))
        pos := f.pos + 1
        super := a.parent } := by
  constructor
  · intro c b foundB isOpenB
    obtain ⟨old, before, -, -, -, ended⟩ := getElem?_close_some foundB
    rcases ended with ⟨-, stop⟩ | ⟨different, rfl⟩
    · omega
    · have notLater : ¬ i < c := fun later => innermost c b later before isOpenB
      exact inward.parent c i b a (by omega) before found (ranges.isOpen before isOpenB)
        (Or.inl isOpenB)
  · intro c j b d less foundB foundD kind enclosing
    obtain ⟨oldB, beforeB, type, -, -, ended⟩ := getElem?_close_some foundB
    obtain ⟨oldD, beforeD, -, start, parent, -⟩ := getElem?_close_some foundD
    rw [parent]
    have oldKind : oldB.IsContainer := by
      rwa [Token.IsContainer, ← type]
    apply inward.parent c j oldB oldD less beforeB beforeD oldKind
    rcases ended with ⟨here, -⟩ | ⟨-, rfl⟩
    · subst here
      have same : oldB = a := Option.some.inj (beforeB.symm.trans found)
      exact Or.inl (same ▸ isOpen)
    · rwa [← start]

theorem Inward.move {js : Bytes} {f g : Frame} (ranges : Ranges f) (inward : Inward f)
    (move : Move js f g) : Inward g := by
  have bounds := ranges.super
  cases move with
  | opened c kind reading starts container =>
      apply inward.concat ranges _ (f.pos + 1) f.tokens.length rfl (Int.le_refl _)
      · omega
      · intro isOpen
        exact Int.le_refl _
  | closed c i a reading closer found container isOpen innermost =>
      exact inward.close ranges found isOpen innermost
  | scalar c token next reading starts plain child after range behind forward quoted =>
      apply inward.concat ranges token next f.super child after (Int.le_refl _)
      intro isOpen
      omega
  | blank c reading skipped => exact inward.advance f.super inward.super
  | colon reading =>
      apply inward.advance
      intro c a found isOpen
      have inside := (List.getElem?_eq_some_iff.mp found).1
      omega
  | released i b reading receives found plain =>
      apply inward.advance
      intro c a foundA isOpen
      have below := inward.super c a foundA isOpen
      have kind := ranges.isOpen foundA isOpen
      have different : c ≠ i := by
        intro same
        subst same
        exact plain (Option.some.inj (foundA.symm.trans found) ▸ kind)
      exact inward.parent c i a b (by omega) foundA found kind (Or.inl isOpen)
  | kept reading receives => exact inward.advance f.super inward.super

/-! ### Only a ':' reaches back into a closed container -/

/-- A ':' stands in the text from `low` up to `high`. -/
def ColonBetween (js : Bytes) (low high : Int) : Prop :=
  ∃ i : Nat, low ≤ i ∧ (i : Int) < high ∧ js[i]? = some colon

theorem ColonBetween.mono {js : Bytes} {low high higher : Int} (between : ColonBetween js low high)
    (later : high ≤ higher) : ColonBetween js low higher := by
  obtain ⟨i, above, below, here⟩ := between
  exact ⟨i, above, by omega, here⟩

/-- A closed container, or a token inside one, receives a value only behind a
':' that stands after the closing bracket. -/
structure Reopened (js : Bytes) (f : Frame) : Prop where
  super : ∀ (c q : Nat) (a s : Token), f.tokens[c]? = some a → a.IsContainer → a.end_ ≠ -1 →
    f.super = q → c ≤ q → f.tokens[q]? = some s → s.start < a.end_ →
    ColonBetween js a.end_ f.pos
  parent : ∀ (c q j : Nat) (a s b : Token), f.tokens[c]? = some a → a.IsContainer → a.end_ ≠ -1 →
    f.tokens[j]? = some b → b.parent = q → c ≤ q → f.tokens[q]? = some s → s.start < a.end_ →
    a.end_ ≤ b.start → ColonBetween js a.end_ b.start

theorem Reopened.concat {js : Bytes} {f : Frame} (ranges : Ranges f) (reopened : Reopened js f)
    (token : Token) (next : Nat) (super : Int) (child : token.parent = f.super)
    (after : (f.pos : Int) ≤ token.start) (forward : token.start < next)
    (container : token.IsContainer → token.end_ = -1)
    (receiver : super = f.super ∨ super = f.tokens.length) :
    Reopened js { tokens := f.tokens ++ [token], pos := next, super := super } := by
  have bounds := ranges.super
  have shutIsOld : ∀ (c : Nat) (a : Token), (f.tokens ++ [token])[c]? = some a → a.IsContainer →
      a.end_ ≠ -1 → f.tokens[c]? = some a := by
    intro c a found kind shut
    rcases getElem?_concat_some found with old | ⟨-, rfl⟩
    · exact old
    · exact absurd (container kind) shut
  constructor
  · intro c q a s foundA kind shut receives reaches foundS inside
    have oldA := shutIsOld c a foundA kind shut
    have behind := ranges.end_le oldA
    rcases getElem?_concat_some foundS with oldS | ⟨last, rfl⟩
    · rcases receiver with same | fresh
      · have between := reopened.super c q a s oldA kind shut (same.symm.trans receives) reaches
          oldS inside
        apply between.mono
        change (f.pos : Int) ≤ next
        omega
      · have below := (List.getElem?_eq_some_iff.mp oldS).1
        change super = q at receives
        omega
    · omega
  · intro c q j a s b foundA kind shut foundB parent reaches foundS inside outside
    have oldA := shutIsOld c a foundA kind shut
    rcases getElem?_concat_some foundS with oldS | ⟨last, rfl⟩
    · rcases getElem?_concat_some foundB with oldB | ⟨-, rfl⟩
      · exact reopened.parent c q j a s b oldA kind shut oldB parent reaches oldS inside outside
      · have between := reopened.super c q a s oldA kind shut (child.symm.trans parent) reaches
          oldS inside
        exact between.mono after
    · have behind := ranges.end_le oldA
      omega

theorem Reopened.advance {js : Bytes} {f : Frame} (reopened : Reopened js f) (super : Int)
    (receiver : ∀ (c q : Nat) (a s : Token), f.tokens[c]? = some a → a.IsContainer →
      a.end_ ≠ -1 → super = q → c ≤ q → f.tokens[q]? = some s → s.start < a.end_ →
      ColonBetween js a.end_ (f.pos + 1 : Nat)) :
    Reopened js { f with pos := f.pos + 1, super := super } :=
  ⟨receiver, reopened.parent⟩

theorem Reopened.close {js : Bytes} {f : Frame} (ranges : Ranges f) (reopened : Reopened js f)
    {i : Nat} {a : Token} (found : f.tokens[i]? = some a) (isOpen : a.end_ = -1) :
    Reopened js
      { tokens := f.tokens.modify i (Token.close · (f.pos + 1 : Nat))
        pos := f.pos + 1
        super := a.parent } := by
  constructor
  · intro c q b s foundB kind shut receives reaches foundS inside
    change a.parent = q at receives
    have above := (ranges.parent i a found).2
    obtain ⟨oldB, beforeB, -, -, -, ended⟩ := getElem?_close_some foundB
    obtain ⟨oldS, beforeS, -, start, -, -⟩ := getElem?_close_some foundS
    rcases ended with ⟨here, -⟩ | ⟨-, rfl⟩
    · omega
    · rw [start] at inside
      have position := ranges.nested c i b a (by omega) beforeB found kind
      have behind : b.end_ ≤ a.start := by omega
      have between := reopened.parent c q i b oldS a beforeB kind shut found receives reaches
        beforeS inside behind
      have early := (ranges.start i a found).2
      apply between.mono
      change a.start ≤ ((f.pos + 1 : Nat) : Int)
      omega
  · intro c q j b s d foundB kind shut foundD parent reaches foundS inside outside
    obtain ⟨oldB, beforeB, -, -, -, ended⟩ := getElem?_close_some foundB
    obtain ⟨oldD, beforeD, -, startD, parentD, -⟩ := getElem?_close_some foundD
    obtain ⟨oldS, beforeS, -, startS, -, -⟩ := getElem?_close_some foundS
    rcases ended with ⟨-, stop⟩ | ⟨-, rfl⟩
    · have early := (ranges.start j oldD beforeD).2
      omega
    · rw [startS] at inside
      rw [startD] at outside ⊢
      exact reopened.parent c q j b oldS oldD beforeB kind shut beforeD (parentD.symm.trans parent)
        reaches beforeS inside outside

theorem Reopened.move {js : Bytes} {f g : Frame} (ranges : Ranges f) (reopened : Reopened js f)
    (move : Move js f g) : Reopened js g := by
  have waits : ∀ (c q : Nat) (a s : Token), f.tokens[c]? = some a → a.IsContainer →
      a.end_ ≠ -1 → f.super = q → c ≤ q → f.tokens[q]? = some s → s.start < a.end_ →
      ColonBetween js a.end_ (f.pos + 1 : Nat) := by
    intro c q a s foundA kind shut receives reaches foundS inside
    apply (reopened.super c q a s foundA kind shut receives reaches foundS inside).mono
    omega
  cases move with
  | opened c kind reading starts container =>
      apply reopened.concat ranges _ (f.pos + 1) f.tokens.length rfl (Int.le_refl _)
      · change (f.pos : Int) < ((f.pos + 1 : Nat) : Int)
        omega
      · intro kind
        rfl
      · exact Or.inr rfl
  | closed c i a reading closer found container isOpen innermost =>
      exact reopened.close ranges found isOpen
  | scalar c token next reading starts plain child after range behind forward quoted =>
      apply reopened.concat ranges token next f.super child after forward
      · intro kind
        exact absurd kind plain
      · exact Or.inl rfl
  | blank c reading skipped => exact reopened.advance f.super waits
  | colon reading =>
      apply reopened.advance
      intro c q a s foundA kind shut receives reaches foundS inside
      have behind := ranges.end_le foundA
      exact ⟨f.pos, behind, by omega, reading⟩
  | released i b reading receives found plain =>
      apply reopened.advance
      intro c q a s foundA kind shut received reaches foundS inside
      have above := (ranges.parent i b found).2
      by_cases within : b.start < a.end_
      · exact waits c i a b foundA kind shut receives (by omega) found within
      · have early := (ranges.start i b found).2
        apply (reopened.parent c q i a s b foundA kind shut found received reaches foundS inside
          (by omega)).mono
        omega
  | kept reading receives => exact reopened.advance f.super waits

/-! ### The text between a key and the next value -/

def isSeparator (c : UInt8) : Bool := isBlank c || c == comma || c == colon

/-- The characters between a key and the value that follows it are whitespace,
',' and ':', and the last of them that is not whitespace is a ':'. -/
def pairs (gap : Bytes) : Bool :=
  gap.all isSeparator && (gap.reverse.dropWhile isBlank).head? == some colon

theorem pairs_blank {gap : Bytes} {c : UInt8} (skipped : isBlank c = true) :
    pairs (gap ++ [c]) = pairs gap := by
  simp [pairs, isSeparator, skipped]

theorem pairs_colon {gap : Bytes} (separators : gap.all isSeparator = true) :
    pairs (gap ++ [colon]) = true := by
  have notBlank : isBlank colon = false := by decide
  have separates : isSeparator colon = true := by decide
  simp only [pairs, List.all_append, separators, List.all_cons, separates, List.reverse_append,
    List.reverse_cons, List.reverse_nil, List.nil_append, List.cons_append, List.dropWhile_cons,
    notBlank]
  rfl

theorem pairs_comma (gap : Bytes) : pairs (gap ++ [comma]) = false := by
  have notBlank : isBlank comma = false := by decide
  have different : (some comma == some colon) = false := by decide
  simp only [pairs, List.reverse_append, List.reverse_cons, List.reverse_nil, List.nil_append,
    List.cons_append, List.dropWhile_cons, notBlank]
  simp [different]

theorem pairs_of_closer {gap : Bytes} {c : UInt8} (closer : c = closeBrace ∨ c = closeBracket)
    (member : c ∈ gap) : pairs gap = false := by
  have foreign : isSeparator c = false := by
    rcases closer with rfl | rfl
    · decide
    · decide
  have some : gap.all isSeparator = false := by
    rw [List.all_eq_false]
    exact ⟨c, member, by simp [foreign]⟩
  simp [pairs, some]

/-- Which token receives the next value, when the last token is a key of the
container `a` and `gap` is the text behind it. -/
def KeyState (a : Token) (super : Int) (key parent : Nat) (gap : Bytes) : Prop :=
  (a.end_ = -1 ∧ gap.all isSeparator = true ∧
    super = if pairs gap then (key : Int) else (parent : Int)) ∨
  (a.end_ ≠ -1 ∧ ∃ c ∈ gap, c = closeBrace ∨ c = closeBracket)

structure KeyOf (f : Frame) (k o : Nat) (b a : Token) : Prop where
  key : f.tokens[k]? = some b
  string : b.type = .string
  parent : b.parent = o
  object : f.tokens[o]? = some a
  container : a.IsContainer
  enclosed : a.end_ = -1 ∨ b.start < a.end_

def textAfter (js : Bytes) (b : Token) : Bytes := js.drop (b.end_ + 1).toNat

structure Pairing (js : Bytes) (f : Frame) : Prop where
  last : ∀ (k : Nat) (b : Token), f.tokens[k]? = some b → b.type = .string →
    k + 1 = f.tokens.length →
    ∃ gap, textAfter js b = gap ++ js.drop f.pos ∧ gap.all isTerminator = true ∧
      ∀ o a, KeyOf f k o b a → KeyState a f.super k o gap
  before : ∀ (k : Nat) (b t : Token), f.tokens[k]? = some b → b.type = .string →
    f.tokens[k + 1]? = some t →
    ∃ gap c rest, textAfter js b = gap ++ c :: rest ∧ gap.all isTerminator = true ∧
      isTerminator c = false ∧
      ∀ o a, KeyOf f k o b a →
        ((t.parent = k ∧ (a.end_ = -1 ∨ t.start < a.end_)) ↔ pairs gap = true)

theorem KeyOf.of_concat {f : Frame} {token b a : Token} {next : Nat} {super : Int} {k o : Nat}
    (ranges : Ranges f)
    (link : KeyOf { tokens := f.tokens ++ [token], pos := next, super := super } k o b a)
    (old : k < f.tokens.length) : KeyOf f k o b a := by
  have key : f.tokens[k]? = some b := by
    have found := link.key
    rwa [List.getElem?_append_left old] at found
  have below := (ranges.parent k b key).2
  have parent := link.parent
  have object : f.tokens[o]? = some a := by
    have found := link.object
    rwa [List.getElem?_append_left (by omega)] at found
  exact ⟨key, link.string, link.parent, object, link.container, link.enclosed⟩

theorem Pairing.concat {js : Bytes} {f : Frame} (ranges : Ranges f) (pairing : Pairing js f)
    {c : UInt8} (reading : js[f.pos]? = some c) (starts : isTerminator c = false)
    (token : Token) (next : Nat) (super : Int) (child : token.parent = f.super)
    (after : (f.pos : Int) ≤ token.start)
    (string : token.type = .string → token.end_ + 1 = next ∧ super = f.super) :
    Pairing js { tokens := f.tokens ++ [token], pos := next, super := super } := by
  constructor
  · intro k b found isString isLast
    simp only [List.length_append, List.length_singleton] at isLast
    rcases getElem?_concat_some found with old | ⟨-, rfl⟩
    · have inside := (List.getElem?_eq_some_iff.mp old).1
      omega
    · obtain ⟨stops, same⟩ := string isString
      refine ⟨[], ?_, rfl, ?_⟩
      · unfold textAfter
        rw [stops]
        rfl
      · intro o a link
        left
        have parent := link.parent
        have low := (ranges.super).2
        have object : f.tokens[o]? = some a := by
          have here := link.object
          rwa [List.getElem?_append_left (by omega)] at here
        have behind := ranges.end_le object
        have enclosed := link.enclosed
        refine ⟨by omega, rfl, ?_⟩
        change super = (o : Int)
        omega
  · intro k b t foundB isString foundT
    rcases getElem?_concat_some foundT with oldT | ⟨last, rfl⟩
    · have inside := (List.getElem?_eq_some_iff.mp oldT).1
      have oldB : f.tokens[k]? = some b := by
        rwa [List.getElem?_append_left (by omega)] at foundB
      obtain ⟨gap, d, rest, text, terminators, value, decided⟩ :=
        pairing.before k b t oldB isString oldT
      exact ⟨gap, d, rest, text, terminators, value,
        fun o a link => decided o a (link.of_concat ranges (by omega))⟩
    · have oldB : f.tokens[k]? = some b := by
        rwa [List.getElem?_append_left (by omega)] at foundB
      obtain ⟨gap, text, terminators, decided⟩ := pairing.last k b oldB isString last
      refine ⟨gap, c, js.drop (f.pos + 1), ?_, terminators, starts, ?_⟩
      · rw [text, ahead_of_reading reading]
      · intro o a link
        have oldLink := link.of_concat ranges (by omega)
        have below := (ranges.parent k b oldB).2
        have parent := link.parent
        have behind := ranges.end_le oldLink.object
        rw [child]
        rcases decided o a oldLink with ⟨isOpen, -, receives⟩ | ⟨shut, d, member, closer⟩
        · rw [receives]
          by_cases paired : pairs gap = true
          · simp [paired, isOpen]
          · have different : ¬ ((o : Int) = k) := by omega
            simp [paired, different]
        · rw [pairs_of_closer closer member]
          simp only [Bool.false_eq_true, iff_false, not_and]
          intro receives
          omega

theorem KeyOf.of_advance {f : Frame} {k o next : Nat} {b a : Token} {super : Int}
    (link : KeyOf { f with pos := next, super := super } k o b a) : KeyOf f k o b a :=
  ⟨link.key, link.string, link.parent, link.object, link.container, link.enclosed⟩

theorem Pairing.advance {js : Bytes} {f : Frame} (pairing : Pairing js f) {c : UInt8}
    (reading : js[f.pos]? = some c) (terminates : isTerminator c = true) (super : Int)
    (step : ∀ k o b a gap, k + 1 = f.tokens.length → KeyOf f k o b a →
      KeyState a f.super k o gap → KeyState a super k o (gap ++ [c])) :
    Pairing js { f with pos := f.pos + 1, super := super } := by
  constructor
  · intro k b found isString isLast
    obtain ⟨gap, text, terminators, state⟩ := pairing.last k b found isString isLast
    refine ⟨gap ++ [c], ?_, ?_, ?_⟩
    · rw [text, ahead_of_reading reading, List.append_assoc]
      rfl
    · simp [terminators, terminates]
    · intro o a link
      have before : KeyOf f k o b a := link.of_advance
      exact step k o b a gap isLast before (state o a before)
  · intro k b t foundB isString foundT
    obtain ⟨gap, d, rest, text, terminators, value, decided⟩ :=
      pairing.before k b t foundB isString foundT
    exact ⟨gap, d, rest, text, terminators, value, fun o a link => decided o a (link.of_advance)⟩

theorem Ranges.string_of_close {f : Frame} (ranges : Ranges f) {i k : Nat} {stop : Int} {b : Token}
    (innermost : ∀ (t : Token), f.tokens[i]? = some t → t.end_ = -1)
    (found : (f.tokens.modify i (Token.close · stop))[k]? = some b) (isString : b.type = .string) :
    f.tokens[k]? = some b := by
  obtain ⟨old, before, type, -, -, ended⟩ := getElem?_close_some found
  rcases ended with ⟨here, -⟩ | ⟨-, rfl⟩
  · have isOpen := innermost old (here ▸ before)
    exact absurd (ranges.isOpen before isOpen) (Token.plain_of_string (type ▸ isString))
  · exact before

theorem KeyOf.of_close {f : Frame} {i k o : Nat} {stop super : Int} {next : Nat} {b a : Token}
    (ranges : Ranges f) (innermost : ∀ (t : Token), f.tokens[i]? = some t → t.end_ = -1)
    (link : KeyOf { tokens := f.tokens.modify i (Token.close · stop), pos := next, super := super }
      k o b a) :
    ∃ old, KeyOf f k o b old ∧ (o = i ∧ a.end_ = stop ∨ o ≠ i ∧ a = old) := by
  have beforeB := ranges.string_of_close innermost link.key link.string
  obtain ⟨old, before, type, -, -, ended⟩ := getElem?_close_some link.object
  have container : old.IsContainer := by
    have kind := link.container
    rwa [Token.IsContainer, type] at kind
  rcases ended with ⟨here, stops⟩ | ⟨different, same⟩
  · refine ⟨old, ⟨beforeB, link.string, link.parent, before, container, Or.inl ?_⟩,
      Or.inl ⟨here, stops⟩⟩
    exact innermost old (here ▸ before)
  · subst same
    exact ⟨a, ⟨beforeB, link.string, link.parent, before, container, link.enclosed⟩,
      Or.inr ⟨different, rfl⟩⟩

theorem Pairing.close {js : Bytes} {f : Frame} (ranges : Ranges f) (inward : Inward f)
    (pairing : Pairing js f) {c : UInt8} {i : Nat} {a : Token} (reading : js[f.pos]? = some c)
    (closer : c = closeBrace ∨ c = closeBracket) (found : f.tokens[i]? = some a)
    (isOpen : a.end_ = -1)
    (innermost : ∀ (j : Nat) (b : Token), i < j → f.tokens[j]? = some b → b.end_ ≠ -1) :
    Pairing js
      { tokens := f.tokens.modify i (Token.close · (f.pos + 1 : Nat))
        pos := f.pos + 1
        super := a.parent } := by
  have terminates : isTerminator c = true := by
    rcases closer with rfl | rfl
    · decide
    · decide
  have early : ∀ (j : Nat) (t : Token), f.tokens[j]? = some t →
      t.start < ((f.pos + 1 : Nat) : Int) := by
    intro j t foundT
    have behind := (ranges.start j t foundT).2
    omega
  have wasOpen : ∀ (t : Token), f.tokens[i]? = some t → t.end_ = -1 := by
    intro t foundT
    rw [Option.some.inj (foundT.symm.trans found)]
    exact isOpen
  have container := ranges.isOpen found isOpen
  constructor
  · intro k b foundB isString isLast
    simp only [List.length_modify] at isLast
    obtain ⟨gap, text, terminators, state⟩ :=
      pairing.last k b (ranges.string_of_close wasOpen foundB isString) isString isLast
    refine ⟨gap ++ [c], ?_, ?_, ?_⟩
    · rw [text, ahead_of_reading reading, List.append_assoc]
      rfl
    · simp [terminators, terminates]
    · intro o d link
      right
      refine ⟨?_, c, by simp, closer⟩
      obtain ⟨old, oldLink, changed⟩ := link.of_close ranges wasOpen
      rcases changed with ⟨-, stops⟩ | ⟨different, rfl⟩
      · omega
      · intro stillOpen
        have inside := (List.getElem?_eq_some_iff.mp found).1
        have lower : i < k := by
          rcases Nat.lt_trichotomy i k with below | same | above
          · exact below
          · subst same
            have same : a = b := Option.some.inj (found.symm.trans oldLink.key)
            exact absurd container (Token.plain_of_string (same ▸ isString))
          · omega
        have reaches := inward.parent i k a b lower found oldLink.key container (Or.inl isOpen)
        have parent := oldLink.parent
        exact innermost o d (by omega) oldLink.object stillOpen
  · intro k b t foundB isString foundT
    obtain ⟨oldT, beforeT, -, startT, parentT, -⟩ := getElem?_close_some foundT
    obtain ⟨gap, d, rest, text, terminators, value, decided⟩ :=
      pairing.before k b oldT (ranges.string_of_close wasOpen foundB isString) isString beforeT
    refine ⟨gap, d, rest, text, terminators, value, ?_⟩
    intro o e link
    obtain ⟨old, oldLink, changed⟩ := link.of_close ranges wasOpen
    rw [← decided o old oldLink, parentT, startT]
    rcases changed with ⟨here, stops⟩ | ⟨-, rfl⟩
    · have wasOpenOld := wasOpen old (here ▸ oldLink.object)
      have earlyT := early (k + 1) oldT beforeT
      constructor
      · rintro ⟨receives, -⟩
        exact ⟨receives, Or.inl wasOpenOld⟩
      · rintro ⟨receives, -⟩
        exact ⟨receives, Or.inr (by omega)⟩
    · exact Iff.rfl

theorem Pairing.move {js : Bytes} {f g : Frame} (ranges : Ranges f) (inward : Inward f)
    (pairing : Pairing js f) (move : Move js f g) : Pairing js g := by
  cases move with
  | opened c kind reading starts container =>
      apply pairing.concat ranges reading starts _ (f.pos + 1) f.tokens.length rfl (Int.le_refl _)
      intro isString
      exact absurd container (Token.plain_of_string isString)
  | closed c i a reading closer found container isOpen innermost =>
      exact pairing.close ranges inward reading closer found isOpen innermost
  | scalar c token next reading starts plain child after range behind forward quoted =>
      apply pairing.concat ranges reading starts token next f.super child after
      intro isString
      exact ⟨quoted isString, rfl⟩
  | blank c reading skipped =>
      apply pairing.advance reading (by simp [isTerminator, skipped]) f.super
      intro k o b a gap isLast link state
      rcases state with ⟨isOpen, separators, receives⟩ | ⟨shut, d, member, closer⟩
      · left
        refine ⟨isOpen, ?_, ?_⟩
        · simp [separators, isSeparator, skipped]
        · rw [pairs_blank skipped]
          exact receives
      · right
        exact ⟨shut, d, List.mem_append_left _ member, closer⟩
  | colon reading =>
      apply pairing.advance reading (by decide)
      intro k o b a gap isLast link state
      rcases state with ⟨isOpen, separators, receives⟩ | ⟨shut, d, member, closer⟩
      · left
        refine ⟨isOpen, ?_, ?_⟩
        · rw [List.all_append, separators]
          decide
        · rw [pairs_colon separators, if_pos rfl]
          omega
      · right
        exact ⟨shut, d, List.mem_append_left _ member, closer⟩
  | released i b reading receives found plain =>
      apply pairing.advance reading (by decide)
      intro k o d a gap isLast link state
      rcases state with ⟨isOpen, separators, receiver⟩ | ⟨shut, e, member, closer⟩
      · left
        refine ⟨isOpen, ?_, ?_⟩
        · rw [List.all_append, separators]
          decide
        · rw [pairs_comma, if_neg (by decide)]
          by_cases paired : pairs gap = true
          · rw [if_pos paired, receives] at receiver
            have same : i = k := by omega
            subst same
            rw [Option.some.inj (found.symm.trans link.key)]
            exact link.parent
          · rw [if_neg paired, receives] at receiver
            have same : i = o := by omega
            subst same
            exact absurd (Option.some.inj (found.symm.trans link.object) ▸ link.container) plain
      · right
        exact ⟨shut, e, List.mem_append_left _ member, closer⟩
  | kept reading receives =>
      apply pairing.advance reading (by decide)
      intro k o b a gap isLast link state
      rcases state with ⟨isOpen, separators, receiver⟩ | ⟨shut, d, member, closer⟩
      · left
        refine ⟨isOpen, ?_, ?_⟩
        · rw [List.all_append, separators]
          decide
        · rw [pairs_comma, if_neg (by decide)]
          by_cases paired : pairs gap = true
          · rw [if_pos paired] at receiver
            exact absurd (receives k b receiver link.key) (Token.plain_of_string link.string)
          · rw [if_neg paired] at receiver
            exact receiver
      · right
        exact ⟨shut, d, List.mem_append_left _ member, closer⟩

end Etlx.Json
