/-
What every accepted text does to the token array, well formed or not.

A frame is a parser without its child counts and without the slots it has not
allocated. Each round of `Parse` is one move of the frame, and the facts about
ranges, nesting and parents are invariants of the moves. The tokenizer checks
brackets only, so none of them may assume that keys, colons and commas stand
where JSON puts them.
-/

import Etlx.Json.Tokenizer
import Etlx.Lib.Cursor

namespace Etlx.Json

open Ascii

def Token.IsContainer (token : Token) : Prop :=
  token.type = .object ∨ token.type = .array

theorem Token.plain_of_string {token : Token} (string : token.type = .string) :
    ¬ token.IsContainer := by
  simp [Token.IsContainer, string]

def Token.shape (token : Token) : Token := { token with size := 0 }

def Token.close (token : Token) (stop : Int) : Token := { token with end_ := stop }

structure Frame where
  tokens : List Token
  pos : Nat
  super : Int

def Parser.frame (p : Parser) : Frame :=
  { tokens := (p.tokens.take p.toknext).map Token.shape
    pos := p.pos
    super := p.toksuper }

/-- The token indices that a parser holds stay inside its allocated slots. -/
structure Parser.Fits (p : Parser) : Prop where
  allocated : p.toknext ≤ p.tokens.length
  superLow : -1 ≤ p.toksuper
  superHigh : p.toksuper < p.toknext

/-! ### Moves -/

/-- One round of `Parse` on a frame. A value starts at a character that ends no
primitive. -/
inductive Move (js : Bytes) (f : Frame) : Frame → Prop
  | opened (c : UInt8) (kind : Kind) (reading : js[f.pos]? = some c)
      (starts : isTerminator c = false) (container : kind = .object ∨ kind = .array) :
      Move js f
        { tokens := f.tokens ++ [{ type := kind, start := f.pos, parent := f.super }]
          pos := f.pos + 1
          super := f.tokens.length }
  | closed (c : UInt8) (i : Nat) (a : Token) (reading : js[f.pos]? = some c)
      (closer : c = closeBrace ∨ c = closeBracket) (found : f.tokens[i]? = some a)
      (container : a.IsContainer) (isOpen : a.end_ = -1)
      (innermost : ∀ j b, i < j → f.tokens[j]? = some b → b.end_ ≠ -1) :
      Move js f
        { tokens := f.tokens.modify i (Token.close · (f.pos + 1 : Nat))
          pos := f.pos + 1
          super := a.parent }
  | scalar (c : UInt8) (token : Token) (next : Nat) (reading : js[f.pos]? = some c)
      (starts : isTerminator c = false) (plain : ¬ token.IsContainer)
      (child : token.parent = f.super) (after : (f.pos : Int) ≤ token.start)
      (range : token.start ≤ token.end_) (behind : token.end_ ≤ next)
      (forward : token.start < next) (quoted : token.type = .string → token.end_ + 1 = next) :
      Move js f { f with tokens := f.tokens ++ [token], pos := next }
  | blank (c : UInt8) (reading : js[f.pos]? = some c) (skipped : isBlank c = true) :
      Move js f { f with pos := f.pos + 1 }
  | colon (reading : js[f.pos]? = some colon) :
      Move js f { f with pos := f.pos + 1, super := (f.tokens.length : Int) - 1 }
  | released (i : Nat) (b : Token) (reading : js[f.pos]? = some comma) (receives : f.super = i)
      (found : f.tokens[i]? = some b) (plain : ¬ b.IsContainer) :
      Move js f { f with pos := f.pos + 1, super := b.parent }
  | kept (reading : js[f.pos]? = some comma)
      (receives : ∀ i b, f.super = (i : Nat) → f.tokens[i]? = some b → b.IsContainer) :
      Move js f { f with pos := f.pos + 1 }

/-! ### The frame of a parser -/

theorem Parser.frame_length {p : Parser} (fits : p.Fits) : p.frame.tokens.length = p.toknext := by
  have room := fits.allocated
  simp only [Parser.frame, List.length_map, List.length_take]
  omega

theorem Parser.frame_getElem? {p : Parser} {i : Nat} (fits : p.Fits) (below : i < p.toknext) :
    p.frame.tokens[i]? = some (tokenAt p.tokens i).shape := by
  have inside : i < p.tokens.length := Nat.lt_of_lt_of_le below fits.allocated
  simp only [Parser.frame, List.getElem?_map, List.getElem?_take, if_pos below, tokenAt,
    Int.toNat_natCast, List.getD_eq_getElem?_getD, List.getElem?_eq_getElem inside,
    Option.map_some, Option.getD_some]

theorem Parser.frame_of_getElem? {p : Parser} {i : Nat} {a : Token} (fits : p.Fits)
    (found : p.frame.tokens[i]? = some a) :
    i < p.toknext ∧ a = (tokenAt p.tokens i).shape := by
  have below : i < p.toknext := by
    have inside := (List.getElem?_eq_some_iff.mp found).1
    rwa [Parser.frame_length fits] at inside
  rw [Parser.frame_getElem? fits below] at found
  exact ⟨below, (Option.some.inj found).symm⟩

theorem Parser.frame_countChild (p : Parser) : p.countChild.frame = p.frame := by
  unfold Parser.countChild
  split
  · rfl
  · simp only [Parser.frame, Frame.mk.injEq, and_true]
    apply List.ext_getElem?
    intro i
    simp only [List.getElem?_map, List.getElem?_take, List.getElem?_modify]
    split
    · split
      · cases p.tokens[i]? <;> rfl
      · cases p.tokens[i]? <;> rfl
    · rfl

theorem Parser.frame_alloc (p : Parser) (token : Token) (room : p.toknext < p.tokens.length) :
    ({ p with tokens := p.tokens.set p.toknext token, toknext := p.toknext + 1 } : Parser).frame =
      { p.frame with tokens := p.frame.tokens ++ [token.shape] } := by
  simp only [Parser.frame, Frame.mk.injEq, and_true]
  rw [List.take_add_one, List.take_set_of_le (Nat.le_refl _), List.getElem?_set_self room,
    List.map_append]
  rfl

theorem Parser.frame_close (p : Parser) (i : Nat) (stop : Int) :
    ({ p with tokens := p.tokens.modify i (Token.close · stop) } : Parser).frame =
      { p.frame with tokens := p.frame.tokens.modify i (Token.close · stop) } := by
  simp only [Parser.frame, Frame.mk.injEq, and_true]
  apply List.ext_getElem?
  intro j
  simp only [List.getElem?_map, List.getElem?_take, List.getElem?_modify]
  split
  · cases p.tokens[j]? with
    | none => rfl
    | some token =>
        by_cases same : i = j
        · simp [same, Token.shape, Token.close]
        · simp [same]
  · by_cases same : i = j
    · simp [same]
    · simp [same]

theorem findOpen_some {tokens : List Token} {below i : Nat}
    (found : findOpen tokens below = some i) :
    i < below ∧ (tokenAt tokens i).isOpen = true ∧
      ∀ j, i < j → j < below → (tokenAt tokens j).isOpen = false := by
  induction below with
  | zero => cases found
  | succ below ih =>
      unfold findOpen at found
      split at found
      · next isOpen =>
          cases found
          exact ⟨Nat.lt_succ_self _, isOpen, fun j after before => absurd before (by omega)⟩
      · next shut =>
          obtain ⟨before, isOpen, later⟩ := ih found
          refine ⟨by omega, isOpen, ?_⟩
          intro j after bounded
          rcases Nat.lt_succ_iff_lt_or_eq.mp bounded with smaller | same
          · exact later j after smaller
          · rw [same]
            simpa [tokenAt] using shut

theorem findOpen_none_all {tokens : List Token} {below : Nat}
    (absent : findOpen tokens below = none) :
    ∀ j, j < below → (tokenAt tokens j).isOpen = false := by
  induction below with
  | zero =>
      intro j before
      omega
  | succ below ih =>
      unfold findOpen at absent
      split at absent
      · cases absent
      · next shut =>
          intro j bounded
          rcases Nat.lt_succ_iff_lt_or_eq.mp bounded with smaller | same
          · exact ih absent j smaller
          · rw [same]
            simpa [tokenAt] using shut

/-! ### Ranges -/

/-- Starts grow with the index, and a later token starts behind a closed
container or ends inside it. -/
structure Ranges (f : Frame) : Prop where
  super : -1 ≤ f.super ∧ f.super < f.tokens.length
  parent : ∀ (j : Nat) (b : Token), f.tokens[j]? = some b → -1 ≤ b.parent ∧ b.parent < j
  start : ∀ (j : Nat) (b : Token), f.tokens[j]? = some b → 0 ≤ b.start ∧ b.start < f.pos
  plain : ∀ (j : Nat) (b : Token), f.tokens[j]? = some b → ¬ b.IsContainer →
    b.start ≤ b.end_ ∧ b.end_ ≤ f.pos
  container : ∀ (j : Nat) (b : Token), f.tokens[j]? = some b → b.IsContainer →
    b.end_ = -1 ∨ (b.start < b.end_ ∧ b.end_ ≤ f.pos)
  ordered : ∀ (i j : Nat) (a b : Token), i < j → f.tokens[i]? = some a →
    f.tokens[j]? = some b → a.start < b.start
  nested : ∀ (i j : Nat) (a b : Token), i < j → f.tokens[i]? = some a →
    f.tokens[j]? = some b → a.IsContainer →
    a.end_ = -1 ∨ a.end_ ≤ b.start ∨ (b.end_ ≠ -1 ∧ b.end_ < a.end_)

theorem Ranges.isOpen {f : Frame} (ranges : Ranges f) {j : Nat} {b : Token}
    (found : f.tokens[j]? = some b) (isOpen : b.end_ = -1) : b.IsContainer := by
  apply Classical.byContradiction
  intro plain
  have low := (ranges.start j b found).1
  have range := (ranges.plain j b found plain).1
  omega

theorem Ranges.end_le {f : Frame} (ranges : Ranges f) {j : Nat} {b : Token}
    (found : f.tokens[j]? = some b) : b.end_ ≤ f.pos := by
  by_cases kind : b.IsContainer
  · rcases ranges.container j b found kind with isOpen | shut
    · omega
    · exact shut.2
  · exact (ranges.plain j b found kind).2

theorem getElem?_concat_some {tokens : List Token} {token b : Token} {j : Nat}
    (found : (tokens ++ [token])[j]? = some b) :
    tokens[j]? = some b ∨ (j = tokens.length ∧ b = token) := by
  rcases Nat.lt_trichotomy j tokens.length with below | same | above
  · left
    rwa [List.getElem?_append_left below] at found
  · right
    rw [same, List.getElem?_concat_length] at found
    exact ⟨same, (Option.some.inj found).symm⟩
  · rw [List.getElem?_eq_none (by simp; omega)] at found
    cases found

theorem getElem?_close_some {tokens : List Token} {i j : Nat} {stop : Int} {b : Token}
    (found : (tokens.modify i (Token.close · stop))[j]? = some b) :
    ∃ a, tokens[j]? = some a ∧ b.type = a.type ∧ b.start = a.start ∧ b.parent = a.parent ∧
      ((j = i ∧ b.end_ = stop) ∨ (j ≠ i ∧ b = a)) := by
  rw [List.getElem?_modify] at found
  obtain ⟨a, before, changed⟩ := Option.map_eq_some_iff.mp found
  by_cases same : i = j
  · rw [if_pos same] at changed
    subst changed
    exact ⟨a, before, rfl, rfl, rfl, Or.inl ⟨same.symm, rfl⟩⟩
  · rw [if_neg same] at changed
    subst changed
    exact ⟨a, before, rfl, rfl, rfl, Or.inr ⟨fun equal => same equal.symm, rfl⟩⟩

theorem Ranges.concat {f : Frame} (ranges : Ranges f) (token : Token) (next : Nat) (super : Int)
    (child : token.parent = f.super) (after : (f.pos : Int) ≤ token.start)
    (forward : token.start < next)
    (plain : ¬ token.IsContainer → token.start ≤ token.end_ ∧ token.end_ ≤ next)
    (container : token.IsContainer → token.end_ = -1)
    (receiver : -1 ≤ super ∧ super < (f.tokens.length : Int) + 1) :
    Ranges { tokens := f.tokens ++ [token], pos := next, super := super } := by
  have bounds := ranges.super
  refine ⟨?_, ?_, ?_, ?_, ?_, ?_, ?_⟩
  · simp only [List.length_append, List.length_singleton]
    omega
  · intro j b found
    rcases getElem?_concat_some found with old | ⟨last, rfl⟩
    · exact ranges.parent j b old
    · omega
  · intro j b found
    change 0 ≤ b.start ∧ b.start < (next : Int)
    rcases getElem?_concat_some found with old | ⟨last, rfl⟩
    · have earlier := ranges.start j b old
      omega
    · omega
  · intro j b found scalar
    change b.start ≤ b.end_ ∧ b.end_ ≤ (next : Int)
    rcases getElem?_concat_some found with old | ⟨last, rfl⟩
    · have earlier := ranges.plain j b old scalar
      omega
    · exact plain scalar
  · intro j b found kind
    change b.end_ = -1 ∨ (b.start < b.end_ ∧ b.end_ ≤ (next : Int))
    rcases getElem?_concat_some found with old | ⟨last, rfl⟩
    · have earlier := ranges.container j b old kind
      omega
    · exact Or.inl (container kind)
  · intro i j a b less foundA foundB
    rcases getElem?_concat_some foundB with oldB | ⟨lastB, rfl⟩
    · rcases getElem?_concat_some foundA with oldA | ⟨lastA, rfl⟩
      · exact ranges.ordered i j a b less oldA oldB
      · have inside := (List.getElem?_eq_some_iff.mp oldB).1
        omega
    · rcases getElem?_concat_some foundA with oldA | ⟨lastA, rfl⟩
      · have earlier := (ranges.start i a oldA).2
        omega
      · omega
  · intro i j a b less foundA foundB kind
    rcases getElem?_concat_some foundB with oldB | ⟨lastB, rfl⟩
    · rcases getElem?_concat_some foundA with oldA | ⟨lastA, rfl⟩
      · exact ranges.nested i j a b less oldA oldB kind
      · have inside := (List.getElem?_eq_some_iff.mp oldB).1
        omega
    · rcases getElem?_concat_some foundA with oldA | ⟨lastA, rfl⟩
      · have behind := ranges.end_le oldA
        omega
      · omega

theorem Ranges.advance {f : Frame} (ranges : Ranges f) (super : Int)
    (receiver : -1 ≤ super ∧ super < f.tokens.length) :
    Ranges { f with pos := f.pos + 1, super := super } := by
  refine ⟨receiver, ranges.parent, ?_, ?_, ?_, ranges.ordered, ranges.nested⟩
  · intro j b found
    have earlier := ranges.start j b found
    change 0 ≤ b.start ∧ b.start < ((f.pos + 1 : Nat) : Int)
    omega
  · intro j b found scalar
    have earlier := ranges.plain j b found scalar
    change b.start ≤ b.end_ ∧ b.end_ ≤ ((f.pos + 1 : Nat) : Int)
    omega
  · intro j b found kind
    have earlier := ranges.container j b found kind
    change b.end_ = -1 ∨ (b.start < b.end_ ∧ b.end_ ≤ ((f.pos + 1 : Nat) : Int))
    omega

theorem Ranges.close {f : Frame} (ranges : Ranges f) {i : Nat} {a : Token}
    (found : f.tokens[i]? = some a) (isOpen : a.end_ = -1)
    (innermost : ∀ (j : Nat) (b : Token), i < j → f.tokens[j]? = some b → b.end_ ≠ -1) :
    Ranges
      { tokens := f.tokens.modify i (Token.close · (f.pos + 1 : Nat))
        pos := f.pos + 1
        super := a.parent } := by
  have inside := (List.getElem?_eq_some_iff.mp found).1
  have above := ranges.parent i a found
  refine ⟨?_, ?_, ?_, ?_, ?_, ?_, ?_⟩
  · simp only [List.length_modify]
    omega
  · intro j b foundB
    obtain ⟨old, before, -, -, parent, -⟩ := getElem?_close_some foundB
    rw [parent]
    exact ranges.parent j old before
  · intro j b foundB
    obtain ⟨old, before, -, start, -, -⟩ := getElem?_close_some foundB
    have earlier := ranges.start j old before
    change 0 ≤ b.start ∧ b.start < ((f.pos + 1 : Nat) : Int)
    omega
  · intro j b foundB scalar
    obtain ⟨old, before, type, start, -, ended⟩ := getElem?_close_some foundB
    have plain : ¬ old.IsContainer := by
      rwa [Token.IsContainer, ← type]
    have earlier := ranges.plain j old before plain
    change b.start ≤ b.end_ ∧ b.end_ ≤ ((f.pos + 1 : Nat) : Int)
    rcases ended with ⟨-, stop⟩ | ⟨-, same⟩
    · have early := (ranges.start j old before).2
      omega
    · subst same
      omega
  · intro j b foundB kind
    obtain ⟨old, before, type, start, -, ended⟩ := getElem?_close_some foundB
    have early := (ranges.start j old before).2
    change b.end_ = -1 ∨ (b.start < b.end_ ∧ b.end_ ≤ ((f.pos + 1 : Nat) : Int))
    rcases ended with ⟨-, stop⟩ | ⟨-, same⟩
    · omega
    · subst same
      have earlier := ranges.container j b before kind
      omega
  · intro j k b d less foundB foundD
    obtain ⟨oldB, beforeB, -, startB, -, -⟩ := getElem?_close_some foundB
    obtain ⟨oldD, beforeD, -, startD, -, -⟩ := getElem?_close_some foundD
    have earlier := ranges.ordered j k oldB oldD less beforeB beforeD
    omega
  · intro j k b d less foundB foundD kind
    obtain ⟨oldB, beforeB, type, -, -, endedB⟩ := getElem?_close_some foundB
    obtain ⟨oldD, beforeD, -, startD, -, endedD⟩ := getElem?_close_some foundD
    have oldKind : oldB.IsContainer := by
      rwa [Token.IsContainer, ← type]
    have earlier := ranges.nested j k oldB oldD less beforeB beforeD oldKind
    rcases endedB with ⟨atB, stopB⟩ | ⟨-, sameB⟩
    · rcases endedD with ⟨atD, -⟩ | ⟨-, sameD⟩
      · omega
      · subst sameD
        subst atB
        have shut := innermost k d less beforeD
        have behind := ranges.end_le beforeD
        omega
    · subst sameB
      rcases endedD with ⟨atD, stopD⟩ | ⟨-, sameD⟩
      · subst atD
        have same : oldD = a := Option.some.inj (beforeD.symm.trans found)
        rw [same] at earlier startD
        omega
      · subst sameD
        exact earlier

theorem Ranges.move {js : Bytes} {f g : Frame} (ranges : Ranges f) (move : Move js f g) :
    Ranges g := by
  have bounds := ranges.super
  cases move with
  | opened c kind reading starts container =>
      apply ranges.concat _ (f.pos + 1) f.tokens.length rfl (Int.le_refl _)
      · change (f.pos : Int) < ((f.pos + 1 : Nat) : Int)
        omega
      · intro plain
        exact absurd container plain
      · intro kind
        rfl
      · omega
  | closed c i a reading closer found container isOpen innermost =>
      exact ranges.close found isOpen innermost
  | scalar c token next reading starts plain child after range behind forward quoted =>
      apply ranges.concat token next f.super child after forward
      · intro scalar
        exact ⟨range, behind⟩
      · intro kind
        exact absurd kind plain
      · omega
  | blank c reading skipped => exact ranges.advance f.super bounds
  | colon reading => exact ranges.advance _ (by omega)
  | released i b reading receives found plain =>
      have inside := (List.getElem?_eq_some_iff.mp found).1
      have above := ranges.parent i b found
      exact ranges.advance b.parent (by omega)
  | kept reading receives => exact ranges.advance f.super bounds

/-! ### Every round is a move -/

theorem Parser.countChild_length (p : Parser) :
    p.countChild.tokens.length = p.tokens.length := by
  unfold Parser.countChild
  split
  · rfl
  · exact List.length_modify _ _ _

theorem Token.isOpen_iff {token : Token} (low : 0 ≤ token.start) :
    token.isOpen = true ↔ token.end_ = -1 := by
  have different : token.start ≠ -1 := by omega
  simp [Token.isOpen, different]

theorem Parser.frame_isOpen {p : Parser} {j : Nat} {b : Token} (fits : p.Fits)
    (ranges : Ranges p.frame) (found : p.frame.tokens[j]? = some b) :
    j < p.toknext ∧ ((tokenAt p.tokens j).isOpen = true ↔ b.end_ = -1) := by
  obtain ⟨below, rfl⟩ := Parser.frame_of_getElem? fits found
  have low : 0 ≤ (tokenAt p.tokens j).start := (ranges.start j _ found).1
  exact ⟨below, Token.isOpen_iff low⟩

theorem Parser.frame_value (p : Parser) (token : Token) (stop next : Nat)
    (room : p.toknext < p.tokens.length) :
    { ({ p with
          tokens := p.tokens.set p.toknext token
          toknext := p.toknext + 1
          pos := stop } : Parser).countChild with
      pos := next }.frame =
      { p.frame with tokens := p.frame.tokens ++ [token.shape], pos := next } := by
  have counted := Parser.frame_countChild
    { p with tokens := p.tokens.set p.toknext token, toknext := p.toknext + 1, pos := stop }
  have added := Parser.frame_alloc p token room
  simp only [Parser.frame, Frame.mk.injEq, Parser.countChild_toksuper, Parser.countChild_toknext,
    and_true] at counted added ⊢
  exact counted.1.trans added

theorem backToContainer_move {js : Bytes} {p : Parser} (fits : p.Fits)
    (reading : js[p.pos]? = some comma) :
    Move js p.frame { backToContainer p with pos := p.pos + 1 }.frame := by
  unfold backToContainer
  by_cases released : p.toksuper ≠ -1 ∧ (tokenAt p.tokens p.toksuper).type ≠ .array ∧
      (tokenAt p.tokens p.toksuper).type ≠ .object
  · rw [if_pos released]
    have low := fits.superLow
    have high := fits.superHigh
    have receives : p.toksuper = (p.toksuper.toNat : Int) := by omega
    have found := Parser.frame_getElem? (i := p.toksuper.toNat) fits (by omega)
    rw [← receives] at found
    apply Move.released p.toksuper.toNat _ reading receives found
    rintro (isObject | isArray)
    · exact released.2.2 isObject
    · exact released.2.1 isArray
  · rw [if_neg released]
    apply Move.kept reading
    intro i b receives found
    obtain ⟨below, rfl⟩ := Parser.frame_of_getElem? fits found
    change p.toksuper = (i : Int) at receives
    rw [receives] at released
    apply Classical.byContradiction
    intro plain
    apply released
    refine ⟨by omega, fun isArray => plain (Or.inr isArray),
      fun isObject => plain (Or.inl isObject)⟩

theorem closed_move {js : Bytes} {p : Parser} {c : UInt8} {i : Nat} (fits : p.Fits)
    (ranges : Ranges p.frame) (reading : js[p.pos]? = some c)
    (closer : c = closeBrace ∨ c = closeBracket)
    (innermost : findOpen p.tokens p.toknext = some i)
    (matching : (tokenAt p.tokens i).type = closerKind c) (small : p.pos + 1 < 2 ^ 31) :
    Move js p.frame
      ({ p with
          tokens := p.tokens.modify i (fun token => { token with end_ := toInt32 (p.pos + 1) })
          pos := p.pos + 1
          toksuper := (tokenAt p.tokens i).parent } : Parser).frame := by
  obtain ⟨below, isOpen, later⟩ := findOpen_some innermost
  have found := Parser.frame_getElem? fits below
  have shown := (Parser.frame_isOpen fits ranges found).2.mp isOpen
  have move :
      Move js p.frame
        { tokens := p.frame.tokens.modify i (Token.close · (p.frame.pos + 1 : Nat))
          pos := p.frame.pos + 1
          super := (tokenAt p.tokens i).shape.parent } := by
    apply Move.closed c i _ reading closer found _ shown
    · intro j b after foundB
      obtain ⟨bounded, same⟩ := Parser.frame_isOpen fits ranges foundB
      have shut := later j after bounded
      intro isOpenB
      rw [same.mpr isOpenB] at shut
      cases shut
    · change (tokenAt p.tokens i).type = .object ∨ (tokenAt p.tokens i).type = .array
      rw [matching, closerKind]
      split
      · exact Or.inl rfl
      · exact Or.inr rfl
  rw [toInt32_eq small]
  have closes := Parser.frame_close p i (p.pos + 1 : Nat)
  simp only [Parser.frame, Frame.mk.injEq, and_true] at closes
  simp only [Parser.frame] at move ⊢
  rw [← closes] at move
  exact move

/-- A text below 2 GiB keeps every offset exact, so each round that `Parse`
completes is a move of its frame. -/
theorem Round.move {js : Bytes} {p q : Parser} {c : UInt8} (round : Round js p c q)
    (fits : p.Fits) (ranges : Ranges p.frame) (reading : js[p.pos]? = some c)
    (small : js.length < 2 ^ 31) :
    Move js p.frame { q with pos := q.pos + 1 }.frame := by
  have inside := (List.getElem?_eq_some_iff.mp reading).1
  cases round with
  | opened opener room =>
      have framed := Parser.frame_value p
        { type := openerKind c, start := toInt32 p.pos, parent := p.toksuper }
        p.pos (p.pos + 1) room
      have tokens := congrArg Frame.tokens framed
      rw [toInt32_eq (by omega)] at tokens
      dsimp only at tokens
      have move :
          Move js p.frame
            { tokens := p.frame.tokens ++
                [({ type := openerKind c, start := p.pos, parent := p.toksuper } : Token).shape]
              pos := p.pos + 1
              super := p.frame.tokens.length } := by
        apply Move.opened c (openerKind c) reading
        · rcases opener with rfl | rfl
          · decide
          · decide
        · unfold openerKind
          split
          · exact Or.inl rfl
          · exact Or.inr rfl
      rw [Parser.frame_length fits] at move
      have here : p.pos < 2 ^ 31 := by omega
      simp only [Parser.countChild_pos, toInt32_eq here]
      rw [← tokens] at move
      exact move
  | closed i closer innermost matching =>
      exact closed_move fits ranges reading closer innermost matching (by omega)
  | string stop opens after closes room =>
      have bounded := (List.getElem?_eq_some_iff.mp closes).1
      have first : p.pos + 1 < 2 ^ 31 := by omega
      have last : stop < 2 ^ 31 := by omega
      simp only [Parser.countChild_pos, toInt32_eq first, toInt32_eq last]
      rw [Parser.frame_value p _ stop (stop + 1) room]
      subst opens
      apply Move.scalar quote _ (stop + 1) reading (by decide)
      · simp [Token.IsContainer, Token.shape]
      · rfl
      · change (p.pos : Int) ≤ ((p.pos + 1 : Nat) : Int)
        omega
      · change ((p.pos + 1 : Nat) : Int) ≤ (stop : Int)
        omega
      · change (stop : Int) ≤ ((stop + 1 : Nat) : Int)
        omega
      · change ((p.pos + 1 : Nat) : Int) < ((stop + 1 : Nat) : Int)
        omega
      · exact fun _ => rfl
  | blank skipped => exact Move.blank c reading skipped
  | colon keyed =>
      subst keyed
      have move := Move.colon (f := p.frame) reading
      rw [Parser.frame_length fits] at move
      exact move
  | comma separates =>
      subst separates
      have move := backToContainer_move fits reading
      rwa [← backToContainer_pos p] at move
  | primitive stop d after ends terminator between room =>
      have bounded := (List.getElem?_eq_some_iff.mp ends).1
      obtain ⟨first, here, starts, -⟩ := between p.pos (Nat.le_refl _) after
      rw [reading] at here
      cases here
      have here : p.pos < 2 ^ 31 := by omega
      have last : stop < 2 ^ 31 := by omega
      simp only [Parser.countChild_pos, toInt32_eq here, toInt32_eq last]
      rw [Parser.frame_value p _ (stop - 1) (stop - 1 + 1) room, Nat.sub_add_cancel (by omega)]
      apply Move.scalar c _ stop reading starts
      · simp [Token.IsContainer, Token.shape]
      · rfl
      · exact Int.le_refl _
      · change (p.pos : Int) ≤ (stop : Int)
        omega
      · exact Int.le_refl _
      · change (p.pos : Int) < (stop : Int)
        omega
      · intro isString
        cases isString

theorem Round.allocated {js : Bytes} {p q : Parser} {c : UInt8} (round : Round js p c q)
    (room : p.toknext ≤ p.tokens.length) : q.toknext ≤ q.tokens.length := by
  cases round with
  | opened opener free => simpa [Parser.countChild_length, Nat.succ_le_iff] using free
  | closed i closer innermost matching => simpa using room
  | string stop opens after closes free =>
      simpa [Parser.countChild_length, Nat.succ_le_iff] using free
  | blank skipped => exact room
  | colon keyed => exact room
  | comma separates =>
      unfold backToContainer
      split
      · exact room
      · exact room
  | primitive stop d after ends terminator between free =>
      simpa [Parser.countChild_length, Nat.succ_le_iff] using free

theorem Parser.fits_of_ranges {p : Parser} (room : p.toknext ≤ p.tokens.length)
    (ranges : Ranges p.frame) : p.Fits := by
  obtain ⟨low, high⟩ := ranges.super
  refine ⟨room, low, ?_⟩
  simp only [Parser.frame, List.length_map, List.length_take] at high
  omega

theorem parseLoop_keeps {js : Bytes} (small : js.length < 2 ^ 31) (Inv : Parser → Prop)
    (keeps : ∀ p q c, p.Fits → Ranges p.frame → Inv p → js[p.pos]? = some c → Round js p c q →
      Inv { q with pos := q.pos + 1 })
    (p q : Parser) (room : p.toknext ≤ p.tokens.length) (ranges : Ranges p.frame) (holds : Inv p)
    (looped : parseLoop js p = .ok q) :
    q.Fits ∧ Ranges q.frame ∧ Inv q ∧ js.length ≤ q.pos := by
  fun_induction parseLoop js p with
  | case1 p reading =>
      cases looped
      exact ⟨Parser.fits_of_ranges room ranges, ranges, holds, List.getElem?_eq_none_iff.mp reading⟩
  | case2 p c reading e stepped => cases looped
  | case3 p c reading r stepped ih =>
      have fits := Parser.fits_of_ranges room ranges
      have round := parseStep_round reading stepped
      have move := round.move fits ranges reading small
      exact ih (round.allocated room) (ranges.move move)
        (keeps p r c fits ranges holds reading round) looped

theorem initial_ranges : Ranges { tokens := [], pos := 0, super := -1 } := by
  refine ⟨by decide, ?_, ?_, ?_, ?_, ?_, ?_⟩
  · intro j b found
    cases found
  · intro j b found
    cases found
  · intro j b found
    cases found
  · intro j b found
    cases found
  · intro i j a b less found
    cases found
  · intro i j a b less found
    cases found

/-- What an accepted text leaves: the array of a parser that satisfies every invariant of
the rounds, with no container open. -/
theorem parse_keeps {js : Bytes} {tokens filled : List Token} {n : Nat}
    (small : js.length < 2 ^ 31) (Inv : Parser → Prop)
    (keeps : ∀ p q c, p.Fits → Ranges p.frame → Inv p → js[p.pos]? = some c → Round js p c q →
      Inv { q with pos := q.pos + 1 })
    (initial : Inv { tokens := tokens }) (parsed : parse js tokens = .ok (n, filled)) :
    ∃ p : Parser, p.Fits ∧ Ranges p.frame ∧ Inv p ∧ js.length ≤ p.pos ∧ p.toknext = n ∧
      p.tokens = filled ∧
      ∀ (j : Nat) (b : Token), p.frame.tokens[j]? = some b → b.end_ ≠ -1 := by
  unfold parse at parsed
  split at parsed
  · cases parsed
  · next p looped =>
      split at parsed
      · cases parsed
      · next absent =>
          cases parsed
          obtain ⟨fits, ranges, holds, finished⟩ := parseLoop_keeps small Inv keeps
            { tokens := tokens } p (Nat.zero_le _) initial_ranges initial looped
          refine ⟨p, fits, ranges, holds, finished, rfl, rfl, ?_⟩
          intro j b found isOpen
          obtain ⟨below, same⟩ := Parser.frame_isOpen fits ranges found
          have shut := findOpen_none_all absent j below
          rw [same.mpr isOpen] at shut
          cases shut

theorem parse_invariant {js : Bytes} {tokens filled : List Token} {n : Nat}
    (small : js.length < 2 ^ 31) (Inv : Frame → Prop)
    (keeps : ∀ f g, Ranges f → Inv f → Move js f g → Inv g)
    (initial : Inv { tokens := [], pos := 0, super := -1 })
    (parsed : parse js tokens = .ok (n, filled)) :
    ∃ f, Ranges f ∧ Inv f ∧ js.length ≤ f.pos ∧ n ≤ filled.length ∧
      f.tokens = (filled.take n).map Token.shape ∧
      ∀ (j : Nat) (b : Token), f.tokens[j]? = some b → b.end_ ≠ -1 := by
  obtain ⟨p, fits, ranges, holds, finished, rfl, rfl, shut⟩ :=
    parse_keeps small (fun p => Inv p.frame)
      (fun p q c fits ranges holds reading round =>
        keeps _ _ ranges holds (round.move fits ranges reading small))
      initial parsed
  exact ⟨p.frame, ranges, holds, finished, fits.allocated, rfl, shut⟩

end Etlx.Json
