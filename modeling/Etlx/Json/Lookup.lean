/-
When lookup stays inside the container it is asked of.

Both lookups are run on the tokens of any accepted text below 2 GiB. A member
lies in its object, with the key as its parent, exactly when the key stands in
the object and the text behind it runs over whitespace, ',' and ':' to a value,
the last separator being a ':'. An array has elements outside its brackets
exactly when a ':' written behind the closing bracket leads to one of them.
-/

import Etlx.Json.Containment

namespace Etlx.Json

open Ascii

def Token.Inside (token outer : Token) : Prop :=
  outer.start < token.start ∧ token.end_ < outer.end_

/-- The key that `operator[]` matches: the first string child with its text. -/
structure View.FirstKey (view : View) (key : Bytes) (k : Nat) : Prop where
  after : view.index < k
  bound : k < view.tokens.length
  matched : view.isKey key k = true
  first : ∀ j : Nat, view.index < j → j < k → view.isKey key j = false

def View.MemberContained (view : View) (key : Bytes) : Prop :=
  (view.member key).valid = true →
    (view.member key).token.Inside view.token ∧
      ∃ k : Nat, view.FirstKey key k ∧ (view.member key).token.parent = k

def View.ElementContained (view : View) (i : Nat) : Prop :=
  (view.element i).valid = true → (view.element i).token.Inside view.token

/-- The string token `k` is the last value of the text, or it stands in the
container of the view and is followed there by its value. -/
def View.PairedAt (view : View) (k : Nat) : Prop :=
  (textAfter view.src (tokenAt view.tokens k)).all isTerminator = true ∨
    ((tokenAt view.tokens k).start < view.token.end_ ∧
      pairs ((textAfter view.src (tokenAt view.tokens k)).takeWhile isTerminator) = true)

def View.KeyPaired (view : View) (key : Bytes) : Prop :=
  ∀ k : Nat, view.FirstKey key k → view.PairedAt k

/-- No ':' leads from behind the closing bracket to a token that names the array
as its parent. -/
def View.NotReopened (view : View) : Prop :=
  ∀ j : Nat, j < view.tokens.length → (tokenAt view.tokens j).parent = view.index →
    ¬ ColonBetween view.src view.token.end_ (tokenAt view.tokens j).start

/-! ### What the loops return -/

theorem View.memberLoop_spec (view : View) (key : Bytes) (i : Nat) (low : view.index < i)
    (passed : ∀ j : Nat, view.index < j → j < i → view.isKey key j = false) :
    (∃ k, view.FirstKey key k ∧ view.memberLoop key i = { view with index := (k : Int) + 1 }) ∨
      ((∀ k, ¬ view.FirstKey key k) ∧ view.memberLoop key i = {}) := by
  fun_induction view.memberLoop key i with
  | case1 i inside matched =>
      left
      exact ⟨i, ⟨low, inside, matched, passed⟩, rfl⟩
  | case2 i inside unmatched ih =>
      apply ih (by omega)
      intro j after before
      rcases Nat.lt_succ_iff_lt_or_eq.mp before with smaller | same
      · exact passed j after smaller
      · rw [same]
        simpa using unmatched
  | case3 i outside =>
      right
      refine ⟨?_, rfl⟩
      intro k key
      have missed := passed k key.after (by have bound := key.bound; omega)
      rw [key.matched] at missed
      cases missed

theorem View.FirstKey.unique {view : View} {key : Bytes} {k l : Nat}
    (one : view.FirstKey key k) (other : view.FirstKey key l) : k = l := by
  rcases Nat.lt_trichotomy k l with less | same | greater
  · have missed := other.first k one.after less
    rw [one.matched] at missed
    cases missed
  · exact same
  · have missed := one.first l other.after greater
    rw [other.matched] at missed
    cases missed

theorem View.elementLoop_spec (view : View) (i seen j : Nat)
    (valid : (view.elementLoop i seen j).valid = true) :
    ∃ k, j ≤ k ∧ k < view.tokens.length ∧ (tokenAt view.tokens k).parent = view.index ∧
      view.elementLoop i seen j = { view with index := k } := by
  fun_induction view.elementLoop i seen j with
  | case1 j inside child => exact ⟨j, Nat.le_refl _, inside, child, rfl⟩
  | case2 seen j inside child different ih =>
      obtain ⟨k, later, bound, kept, found⟩ := ih valid
      exact ⟨k, by omega, bound, kept, found⟩
  | case3 seen j inside foreign ih =>
      obtain ⟨k, later, bound, kept, found⟩ := ih valid
      exact ⟨k, by omega, bound, kept, found⟩
  | case4 seen j outside => cases valid

theorem View.elementLoop_reaches (view : View) (k : Nat) (bound : k < view.tokens.length)
    (child : (tokenAt view.tokens k).parent = view.index) (seen j : Nat) (before : j ≤ k) :
    ∃ more, view.elementLoop (seen + more) seen j = { view with index := k } := by
  induction distance : k - j generalizing seen j with
  | zero =>
      have same : j = k := by omega
      subst same
      refine ⟨0, ?_⟩
      rw [View.elementLoop, if_pos bound, if_pos child, if_pos (Nat.add_zero seen).symm]
  | succ distance ih =>
      by_cases here : (tokenAt view.tokens j).parent = view.index
      · obtain ⟨more, found⟩ := ih (seen + 1) (j + 1) (by omega) (by omega)
        have moved : seen + (more + 1) = seen + 1 + more := by omega
        refine ⟨more + 1, ?_⟩
        rw [View.elementLoop, if_pos (by omega), if_pos here, if_neg (by omega), moved]
        exact found
      · obtain ⟨more, found⟩ := ih seen (j + 1) (by omega) (by omega)
        refine ⟨more, ?_⟩
        rw [View.elementLoop, if_pos (by omega), if_neg here]
        exact found

/-! ### The accepted text behind a view -/

/-- What `Parse` guarantees about the tokens of an accepted text. -/
structure View.Accepted (view : View) (f : Frame) : Prop where
  ranges : Ranges f
  reopened : Reopened view.src f
  pairing : Pairing view.src f
  finished : view.src.length ≤ f.pos
  shapes : f.tokens = view.tokens.map Token.shape
  shut : ∀ (j : Nat) (b : Token), f.tokens[j]? = some b → b.end_ ≠ -1

theorem parse_accepted {js : Bytes} {tokens filled : List Token} {n : Nat} (index : Int)
    (small : js.length < 2 ^ 31) (parsed : parse js tokens = .ok (n, filled)) :
    ∃ f, View.Accepted { src := js, tokens := filled.take n, index := index } f := by
  obtain ⟨f, ranges, ⟨-, reopened, pairing⟩, finished, -, shapes, shut⟩ := parse_invariant small
    (fun f => Inward f ∧ Reopened js f ∧ Pairing js f)
    (fun f g ranges holds move =>
      ⟨holds.1.move ranges move, holds.2.1.move ranges move, holds.2.2.move ranges holds.1 move⟩)
    ⟨⟨by simp, by simp⟩, ⟨by simp, by simp⟩, ⟨by simp, by simp⟩⟩ parsed
  exact ⟨f, ranges, reopened, pairing, finished, shapes, shut⟩

section Accepted

variable {view : View} {f : Frame}

theorem View.Accepted.token (accepted : view.Accepted f) {i : Nat}
    (inside : i < view.tokens.length) : f.tokens[i]? = some (tokenAt view.tokens i).shape := by
  rw [accepted.shapes, List.getElem?_map, List.getElem?_eq_getElem inside, tokenAt,
    Int.toNat_natCast, List.getD_eq_getElem?_getD, List.getElem?_eq_getElem inside]
  rfl

theorem View.Accepted.length (accepted : view.Accepted f) :
    f.tokens.length = view.tokens.length := by
  rw [accepted.shapes, List.length_map]

theorem View.Accepted.inside_iff (accepted : view.Accepted f) {c j : Nat} (less : c < j)
    (bound : j < view.tokens.length) (container : (tokenAt view.tokens c).IsContainer) :
    (tokenAt view.tokens j).Inside (tokenAt view.tokens c) ↔
      (tokenAt view.tokens j).start < (tokenAt view.tokens c).end_ := by
  have boundC : c < view.tokens.length := by omega
  have foundC := accepted.token boundC
  have foundJ := accepted.token bound
  have shutC := accepted.shut c _ foundC
  have shutJ := accepted.shut j _ foundJ
  have order := accepted.ranges.ordered c j _ _ less foundC foundJ
  have nested := accepted.ranges.nested c j _ _ less foundC foundJ container
  simp only [Token.shape] at shutC shutJ order nested
  constructor
  · rintro ⟨-, ends⟩
    by_cases kind : (tokenAt view.tokens j).IsContainer
    · have range := accepted.ranges.container j _ foundJ kind
      simp only [Token.shape] at range
      omega
    · have range := accepted.ranges.plain j _ foundJ kind
      simp only [Token.shape] at range
      omega
  · intro starts
    exact ⟨order, by omega⟩

theorem View.type_eq {kind : Kind} (typed : view.type = kind) (known : kind ≠ .undefined) :
    ∃ o : Nat, view.index = o ∧ o < view.tokens.length ∧ (tokenAt view.tokens o).type = kind := by
  unfold View.type at typed
  split at typed
  · next valid =>
      simp only [View.valid, Bool.and_eq_true, decide_eq_true_eq] at valid
      have natural : ((view.index.toNat : Nat) : Int) = view.index := by omega
      refine ⟨view.index.toNat, natural.symm, by omega, ?_⟩
      rw [natural]
      exact typed
  · exact absurd typed.symm known

theorem View.Accepted.paired_iff (accepted : view.Accepted f) {o k : Nat} (index : view.index = o)
    (isObject : (tokenAt view.tokens o).type = .object) (after : o < k)
    (next : k + 1 < view.tokens.length) (string : (tokenAt view.tokens k).type = .string)
    (parent : (tokenAt view.tokens k).parent = o) :
    ((tokenAt view.tokens (k + 1 : Nat)).Inside (tokenAt view.tokens o) ∧
        (tokenAt view.tokens (k + 1 : Nat)).parent = k) ↔
      view.PairedAt k := by
  have container : (tokenAt view.tokens o).IsContainer := Or.inl isObject
  have boundO : o < view.tokens.length := by omega
  have boundK : k < view.tokens.length := by omega
  have foundO := accepted.token boundO
  have foundK := accepted.token boundK
  have foundNext := accepted.token next
  have order := accepted.ranges.ordered k (k + 1) _ _ (Nat.lt_succ_self k) foundK foundNext
  have shutO := accepted.shut o _ foundO
  obtain ⟨gap, c, rest, text, terminators, value, decided⟩ :=
    accepted.pairing.before k _ _ foundK string foundNext
  simp only [Token.shape] at order shutO
  change textAfter view.src (tokenAt view.tokens k) = gap ++ c :: rest at text
  have valueFollows : (gap ++ c :: rest).all isTerminator = false := by
    rw [List.all_eq_false]
    exact ⟨c, by simp, by simp [value]⟩
  have gapOnly : (gap ++ c :: rest).takeWhile isTerminator = gap := by
    rw [List.takeWhile_append_of_pos (List.all_eq_true.mp terminators), List.takeWhile_cons,
      value]
    simp
  rw [View.PairedAt, View.token, index, text, valueFollows, gapOnly,
    accepted.inside_iff (by omega) next container]
  by_cases enclosed : (tokenAt view.tokens k).start < (tokenAt view.tokens o).end_
  · have link : KeyOf f k o (tokenAt view.tokens k).shape (tokenAt view.tokens o).shape :=
      ⟨foundK, string, parent, foundO, container, Or.inr enclosed⟩
    have result := decided o _ link
    simp only [Token.shape] at result
    constructor
    · rintro ⟨starts, receives⟩
      exact Or.inr ⟨enclosed, result.mp ⟨receives, Or.inr starts⟩⟩
    · rintro (impossible | ⟨-, paired⟩)
      · cases impossible
      · obtain ⟨receives, starts⟩ := result.mpr paired
        exact ⟨starts.resolve_left shutO, receives⟩
  · constructor
    · rintro ⟨starts, -⟩
      omega
    · rintro (impossible | ⟨starts, -⟩)
      · cases impossible
      · exact absurd starts enclosed

theorem View.Accepted.member_iff (accepted : view.Accepted f) (isObject : view.isObject = true)
    (key : Bytes) : view.MemberContained key ↔ view.KeyPaired key := by
  obtain ⟨o, index, inside, kind⟩ := View.type_eq (eq_of_beq isObject) (by decide)
  have token : view.token = tokenAt view.tokens o := by
    rw [View.token, index]
  have start : view.index.toNat = o := by omega
  unfold View.MemberContained
  rw [View.member, if_pos isObject]
  rcases view.memberLoop_spec key (view.index.toNat + 1) (by omega)
    (fun j after before => absurd before (by omega)) with ⟨k, first, found⟩ | ⟨absent, found⟩
  · rw [found]
    have matched := first.matched
    have after := first.after
    have bound := first.bound
    simp only [View.isKey, Bool.and_eq_true, beq_iff_eq] at matched
    obtain ⟨parent, string, -⟩ := matched
    rw [index] at parent after
    have reduced : view.KeyPaired key ↔ view.PairedAt k := by
      constructor
      · intro all
        exact all k first
      · intro here l other
        rw [← first.unique other]
        exact here
    rw [reduced]
    by_cases next : k + 1 < view.tokens.length
    · rw [token, ← accepted.paired_iff index kind (by omega) next string parent]
      have valid : View.valid { view with index := (k : Int) + 1 } = true := by
        simp only [View.valid, Bool.and_eq_true, decide_eq_true_eq]
        omega
      constructor
      · intro contained
        obtain ⟨within, l, other, receives⟩ := contained valid
        rw [← first.unique other] at receives
        exact ⟨within, receives⟩
      · rintro ⟨within, receives⟩ -
        exact ⟨within, k, first, receives⟩
    · have last : k + 1 = f.tokens.length := by
        rw [accepted.length]
        omega
      obtain ⟨gap, text, terminators, -⟩ :=
        accepted.pairing.last k _ (accepted.token bound) string last
      change textAfter view.src (tokenAt view.tokens k) = gap ++ view.src.drop f.pos at text
      rw [List.drop_eq_nil_of_le accepted.finished, List.append_nil] at text
      rw [View.PairedAt, text]
      constructor
      · intro contained
        exact Or.inl terminators
      · intro condition valid
        simp only [View.valid, Bool.and_eq_true, decide_eq_true_eq] at valid
        omega
  · rw [found]
    constructor
    · intro contained k first
      exact absurd first (absent k)
    · intro condition valid
      cases valid

theorem View.Accepted.element_iff (accepted : view.Accepted f) (isArray : view.isArray = true) :
    (∀ i, view.ElementContained i) ↔ view.NotReopened := by
  obtain ⟨o, index, inside, kind⟩ := View.type_eq (eq_of_beq isArray) (by decide)
  have container : (tokenAt view.tokens o).IsContainer := Or.inr kind
  have token : view.token = tokenAt view.tokens o := by
    rw [View.token, index]
  have start : view.index.toNat = o := by omega
  have foundO := accepted.token inside
  constructor
  · rintro contained j bound child ⟨position, behind, before, -⟩
    have later : o < j := by
      have above := (accepted.ranges.parent j _ (accepted.token bound)).2
      simp only [Token.shape] at above
      omega
    obtain ⟨more, found⟩ := view.elementLoop_reaches j bound child 0 (o + 1) later
    have element : view.element (0 + more) = { view with index := j } := by
      rw [View.element, if_pos isArray, start]
      exact found
    have valid : (view.element (0 + more)).valid = true := by
      rw [element]
      simp only [View.valid, Bool.and_eq_true, decide_eq_true_eq]
      omega
    have within := contained (0 + more) valid
    rw [element, token] at within
    have starts := (accepted.inside_iff later bound container).mp within
    rw [token] at behind
    omega
  · intro condition i valid
    rw [View.element, if_pos isArray, start] at valid
    obtain ⟨j, later, bound, child, found⟩ := view.elementLoop_spec i 0 (o + 1) valid
    rw [View.element, if_pos isArray, start, found, token]
    apply (accepted.inside_iff later bound container).mpr
    by_cases starts : (tokenAt view.tokens j).start < (tokenAt view.tokens o).end_
    · exact starts
    · have notLater := condition j bound child
      rw [token] at notLater
      have range := accepted.ranges.container o _ foundO container
      have shut := accepted.shut o _ foundO
      simp only [Token.shape] at range shut
      exact absurd
        (accepted.reopened.parent o o j _ _ _ foundO container (accepted.shut o _ foundO)
          (accepted.token bound) (child.trans index) (Nat.le_refl o) foundO
          (by simp only [Token.shape]; omega) (by simp only [Token.shape]; omega))
        notLater

end Accepted

/-! ### Every accepted text -/

def View.over (js : Bytes) (filled : List Token) (n : Nat) (index : Int) : View :=
  { src := js, tokens := filled.take n, index := index }

theorem lookup_contained_iff {js : Bytes} {tokens filled : List Token} {n : Nat}
    (small : js.length < 2 ^ 31) (parsed : parse js tokens = .ok (n, filled)) (index : Int) :
    ((View.over js filled n index).isObject = true →
      ∀ key, (View.over js filled n index).MemberContained key ↔
        (View.over js filled n index).KeyPaired key) ∧
    ((View.over js filled n index).isArray = true →
      ((∀ i, (View.over js filled n index).ElementContained i) ↔
        (View.over js filled n index).NotReopened)) := by
  obtain ⟨f, accepted⟩ := parse_accepted index small parsed
  exact ⟨fun isObject key => accepted.member_iff isObject key,
    fun isArray => accepted.element_iff isArray⟩

/-- The text `[{"a"},[]:1]`: the key has no value inside its object, and the ':'
makes the closed empty array the parent of `1`. -/
def escapeText : Bytes :=
  [0x5b, 0x7b, 0x22, 0x61, 0x22, 0x7d, 0x2c, 0x5b, 0x5d, 0x3a, 0x31, 0x5d]

def escapeTokens : List Token :=
  [{ type := .array, start := 0, end_ := 12, size := 2, parent := -1 },
    { type := .object, start := 1, end_ := 6, size := 1, parent := 0 },
    { type := .string, start := 3, end_ := 4, size := 0, parent := 1 },
    { type := .array, start := 7, end_ := 9, size := 1, parent := 0 },
    { type := .primitive, start := 10, end_ := 11, size := 0, parent := 3 }]

theorem parse_escapeText :
    parse escapeText (List.replicate 5 {}) = .ok (5, escapeTokens) := by
  decide +kernel

theorem lookup_contained_iff_escapeText :
    ((View.over escapeText escapeTokens 5 0).isArray = true ∧
      ∀ i, (View.over escapeText escapeTokens 5 0).ElementContained i) ∧
    (View.over escapeText escapeTokens 5 1).isObject = true ∧
      ((View.over escapeText escapeTokens 5 1).MemberContained [0x61] ↔
        (View.over escapeText escapeTokens 5 1).KeyPaired [0x61]) := by
  have outer := lookup_contained_iff (by decide) parse_escapeText 0
  have inner := lookup_contained_iff (by decide) parse_escapeText 1
  refine ⟨⟨by decide, (outer.2 (by decide)).mpr ?_⟩, by decide, inner.1 (by decide) [0x61]⟩
  rintro j bound child ⟨position, behind, before, reading⟩
  have short : position < 12 := (List.getElem?_eq_some_iff.mp reading).1
  change (12 : Int) ≤ position at behind
  omega

/-- Both lookups can leave their container: the member `a` of the object is the
array behind it, and element 0 of that empty array is the `1` behind it. -/
theorem lookup_escapes :
    parse escapeText (List.replicate 5 {}) = .ok (5, escapeTokens) ∧
      ¬ (View.over escapeText escapeTokens 5 1).MemberContained [0x61] ∧
      ¬ (View.over escapeText escapeTokens 5 3).ElementContained 0 := by
  refine ⟨parse_escapeText, ?_, ?_⟩
  · intro contained
    have escaped := (contained (by decide +kernel)).1
    revert escaped
    unfold Token.Inside
    decide +kernel
  · intro contained
    have escaped := contained (by decide +kernel)
    revert escaped
    unfold Token.Inside
    decide +kernel

end Etlx.Json
