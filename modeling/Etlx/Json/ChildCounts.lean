/-
Child counts and indexing agree on every accepted text.

`size` is counted up while the text is read, and `operator[]` counts parents when it
is asked. A round allocates a token and adds one to the count of its parent in the
same breath, so the two numbers are the same for every token, whatever ':' and ','
have made of the receiver.
-/

import Etlx.Json.Lookup

namespace Etlx.Json

open Ascii

def Parser.children (p : Parser) (k : Nat) : Nat :=
  (p.frame.tokens.map Token.parent).count (k : Int)

/-- What the rounds keep beside the ranges: where the text is read, the slots that are
not allocated, and the child counts. -/
structure Counted (js : Bytes) (before : List Token) (p : Parser) : Prop where
  pos : p.pos ≤ js.length
  length : p.tokens.length = before.length
  untouched : p.tokens.drop p.toknext = before.drop p.toknext
  sizes : ∀ k < p.toknext, (tokenAt p.tokens k).size = p.children k

/-! ### One token -/

theorem tokenAt_getElem? {tokens : List Token} {k : Nat} (inside : k < tokens.length) :
    tokens[k]? = some (tokenAt tokens k) := by
  rw [tokenAt, Int.toNat_natCast, List.getD_eq_getElem?_getD, List.getElem?_eq_getElem inside,
    Option.getD_some]

theorem tokenAt_of_getElem? {tokens : List Token} {k : Nat} {token : Token}
    (found : tokens[k]? = some token) : tokenAt tokens k = token := by
  rw [tokenAt, Int.toNat_natCast, List.getD_eq_getElem?_getD, found, Option.getD_some]

theorem Parser.countChild_size {p : Parser} {k : Nat} (inside : k < p.tokens.length)
    (low : -1 ≤ p.toksuper) :
    (tokenAt p.countChild.tokens k).size =
      (tokenAt p.tokens k).size + if p.toksuper = k then 1 else 0 := by
  unfold Parser.countChild
  by_cases none : p.toksuper = -1
  · rw [if_pos none, if_neg (by omega), Int.add_zero]
  · rw [if_neg none]
    by_cases here : p.toksuper = k
    · have counted : (p.tokens.modify p.toksuper.toNat
          (fun token => { token with size := token.size + 1 }))[k]? =
          some { tokenAt p.tokens k with size := (tokenAt p.tokens k).size + 1 } := by
        rw [here, Int.toNat_natCast, List.getElem?_modify_eq, tokenAt_getElem? inside]
        rfl
      rw [tokenAt_of_getElem? counted, if_pos here]
    · have kept : (p.tokens.modify p.toksuper.toNat
          (fun token => { token with size := token.size + 1 }))[k]? =
          some (tokenAt p.tokens k) := by
        have other : p.toksuper.toNat ≠ k := by omega
        rw [List.getElem?_modify_ne _ _ other, tokenAt_getElem? inside]
      rw [tokenAt_of_getElem? kept, if_neg here, Int.add_zero]

theorem Parser.countChild_untouched {p : Parser} {n : Nat} (low : -1 ≤ p.toksuper)
    (high : p.toksuper < n) : p.countChild.tokens.drop n = p.tokens.drop n := by
  unfold Parser.countChild
  split
  · rfl
  · exact List.drop_modify_of_lt _ _ _ _ (by omega)

/-! ### One round -/

section

variable {js : Bytes} {before : List Token} {p : Parser}

theorem Parser.children_fresh (fits : p.Fits) (ranges : Ranges p.frame) :
    p.children p.toknext = 0 := by
  apply List.count_eq_zero.mpr
  intro member
  obtain ⟨b, inFrame, same⟩ := List.mem_map.mp member
  obtain ⟨j, found⟩ := List.mem_iff_getElem?.mp inFrame
  have above := (ranges.parent j b found).2
  have below := (Parser.frame_of_getElem? fits found).1
  omega

theorem Parser.children_value (room : p.toknext < p.tokens.length) (token : Token)
    (child : token.parent = p.toksuper) (stop next : Nat) (super : Int) (k : Nat) :
    Parser.children
      { ({ p with
            tokens := p.tokens.set p.toknext token
            toknext := p.toknext + 1
            pos := stop } : Parser).countChild with
        pos := next
        toksuper := super } k =
      p.children k + if p.toksuper = k then 1 else 0 := by
  have framed := congrArg Frame.tokens (Parser.frame_value p token stop next room)
  have listed : (Parser.frame
      { ({ p with
            tokens := p.tokens.set p.toknext token
            toknext := p.toknext + 1
            pos := stop } : Parser).countChild with
        pos := next
        toksuper := super }).tokens = p.frame.tokens ++ [token.shape] := framed
  unfold Parser.children
  rw [listed, List.map_append, List.count_append, List.map_singleton, List.count_singleton]
  change _ + (if (token.parent == (k : Int)) = true then 1 else 0) = _
  rw [child]
  simp only [beq_iff_eq]

theorem Counted.value (counted : Counted js before p) (fits : p.Fits) (ranges : Ranges p.frame)
    (room : p.toknext < p.tokens.length) (token : Token) (child : token.parent = p.toksuper)
    (fresh : token.size = 0) (stop : Nat) {next : Nat} (within : next ≤ js.length) (super : Int) :
    Counted js before
      { ({ p with
            tokens := p.tokens.set p.toknext token
            toknext := p.toknext + 1
            pos := stop } : Parser).countChild with
        pos := next
        toksuper := super } := by
  have low := fits.superLow
  have high := fits.superHigh
  have parents := Parser.children_value room token child stop next super
  generalize added : ({ p with
    tokens := p.tokens.set p.toknext token
    toknext := p.toknext + 1
    pos := stop } : Parser) = q at parents ⊢
  have tokens : q.tokens = p.tokens.set p.toknext token := by rw [← added]
  have toknext : q.toknext = p.toknext + 1 := by rw [← added]
  have toksuper : q.toksuper = p.toksuper := by rw [← added]
  have length : q.tokens.length = p.tokens.length := by rw [tokens, List.length_set]
  refine { pos := within, length := ?_, untouched := ?_, sizes := ?_ }
  · change q.countChild.tokens.length = _
    rw [Parser.countChild_length, length, counted.length]
  · change q.countChild.tokens.drop q.countChild.toknext = before.drop q.countChild.toknext
    rw [Parser.countChild_toknext, Parser.countChild_untouched (by omega) (by omega), toknext,
      tokens, List.drop_set_of_lt (by omega), ← List.drop_drop, ← List.drop_drop,
      counted.untouched]
  · intro k below
    change k < q.countChild.toknext at below
    rw [Parser.countChild_toknext, toknext] at below
    change (tokenAt q.countChild.tokens k).size = _
    rw [Parser.countChild_size (by omega) (by omega), parents, toksuper, tokens]
    rcases Nat.lt_succ_iff_lt_or_eq.mp below with earlier | last
    · have kept : tokenAt (p.tokens.set p.toknext token) k = tokenAt p.tokens k := by
        apply tokenAt_of_getElem?
        rw [List.getElem?_set_ne (by omega), tokenAt_getElem? (by omega)]
      rw [kept, counted.sizes k earlier]
      by_cases receives : p.toksuper = k
      · rw [if_pos receives, if_pos receives]
        rfl
      · rw [if_neg receives, if_neg receives]
        rfl
    · have placed : tokenAt (p.tokens.set p.toknext token) k = token := by
        apply tokenAt_of_getElem?
        rw [last, List.getElem?_set_self room]
      rw [placed, fresh, if_neg (by omega), if_neg (by omega), last,
        Parser.children_fresh fits ranges]
      rfl

theorem Counted.advance (counted : Counted js before p) {next : Nat} (within : next ≤ js.length)
    (super : Int) : Counted js before { p with pos := next, toksuper := super } :=
  { pos := within
    length := counted.length
    untouched := counted.untouched
    sizes := counted.sizes }

theorem Counted.close (counted : Counted js before p) (fits : p.Fits) {i : Nat}
    (inside : i < p.toknext) (stop : Int) {next : Nat} (within : next ≤ js.length) (super : Int) :
    Counted js before
      { p with
        tokens := p.tokens.modify i (Token.close · stop)
        pos := next
        toksuper := super } := by
  have room := fits.allocated
  have parents (k : Nat) : Parser.children
      { p with tokens := p.tokens.modify i (Token.close · stop), pos := next, toksuper := super }
        k = p.children k := by
    have framed := congrArg Frame.tokens (Parser.frame_close p i stop)
    have listed : (Parser.frame { p with
        tokens := p.tokens.modify i (Token.close · stop), pos := next, toksuper := super }).tokens =
        p.frame.tokens.modify i (Token.close · stop) := framed
    unfold Parser.children
    rw [listed]
    apply congrArg (List.count (k : Int))
    apply List.ext_getElem?
    intro j
    rw [List.getElem?_map, List.getElem?_map, List.getElem?_modify]
    cases p.frame.tokens[j]? with
    | none => rfl
    | some token =>
        by_cases same : i = j
        · simp [same, Token.close]
        · simp [same]
  refine { pos := within, length := ?_, untouched := ?_, sizes := ?_ }
  · exact (List.length_modify _ _ _).trans counted.length
  · exact (List.drop_modify_of_lt _ _ _ _ inside).trans counted.untouched
  · intro k below
    have bounded : k < p.tokens.length := Nat.lt_of_lt_of_le below room
    have closed : (p.tokens.modify i (Token.close · stop))[k]? =
        some (if i = k then (tokenAt p.tokens k).close stop else tokenAt p.tokens k) := by
      rw [List.getElem?_modify, tokenAt_getElem? bounded]
      rfl
    rw [parents, ← counted.sizes k below]
    change (tokenAt (p.tokens.modify i (Token.close · stop)) k).size = _
    rw [tokenAt_of_getElem? closed]
    split
    · rfl
    · rfl

theorem Counted.round {c : UInt8} {q : Parser} (counted : Counted js before p) (fits : p.Fits)
    (ranges : Ranges p.frame) (reading : js[p.pos]? = some c) (round : Round js p c q) :
    Counted js before { q with pos := q.pos + 1 } := by
  have inside := (List.getElem?_eq_some_iff.mp reading).1
  cases round with
  | opened opener room =>
      simp only [Parser.countChild_pos]
      exact counted.value fits ranges room
        { type := openerKind c, start := toInt32 p.pos, parent := p.toksuper }
        rfl rfl p.pos inside p.toknext
  | closed i closer innermost matching =>
      exact counted.close fits (findOpen_some innermost).1 _ inside _
  | string stop opens after closes room =>
      have bounded := (List.getElem?_eq_some_iff.mp closes).1
      simp only [Parser.countChild_pos]
      exact counted.value fits ranges room _ rfl rfl stop bounded _
  | blank skipped => exact counted.advance inside p.toksuper
  | colon keyed => exact counted.advance inside _
  | comma separates =>
      unfold backToContainer
      split
      · exact counted.advance inside _
      · exact counted.advance inside p.toksuper
  | primitive stop d after ends terminator between room =>
      have bounded := (List.getElem?_eq_some_iff.mp ends).1
      simp only [Parser.countChild_pos]
      exact counted.value fits ranges room _ rfl rfl (stop - 1) (by omega) _

end

/-! ### Elements -/

section

variable (view : View)

def View.elementsFrom (j : Nat) : Nat :=
  (view.tokens.drop j).countP (fun token => token.parent = view.index)

theorem View.elementsFrom_step {j : Nat} (inside : j < view.tokens.length) :
    view.elementsFrom j = view.elementsFrom (j + 1) +
      if (tokenAt view.tokens j).parent = view.index then 1 else 0 := by
  have ahead : view.tokens.drop j = tokenAt view.tokens j :: view.tokens.drop (j + 1) := by
    have here := tokenAt_getElem? inside
    rw [List.drop_eq_getElem_cons inside]
    rw [List.getElem?_eq_getElem inside] at here
    rw [Option.some.inj here]
  unfold View.elementsFrom
  rw [ahead, List.countP_cons]
  simp only [decide_eq_true_eq]

theorem View.elementLoop_valid_iff {i seen j : Nat} (pending : seen ≤ i) :
    (view.elementLoop i seen j).valid = true ↔ i < seen + view.elementsFrom j := by
  fun_induction view.elementLoop i seen j with
  | case1 j inside child =>
      have count := view.elementsFrom_step inside
      rw [if_pos child] at count
      apply iff_of_true
      · simp only [View.valid, Bool.and_eq_true, decide_eq_true_eq]
        omega
      · omega
  | case2 seen j inside child different ih =>
      have count := view.elementsFrom_step inside
      rw [if_pos child] at count
      rw [ih (by omega), count]
      omega
  | case3 seen j inside foreign ih =>
      have count := view.elementsFrom_step inside
      rw [if_neg foreign] at count
      rw [ih pending, count]
      omega
  | case4 seen j outside =>
      have none : view.elementsFrom j = 0 := by
        rw [View.elementsFrom, List.drop_eq_nil_of_le (by omega), List.countP_nil]
      rw [none]
      apply iff_of_false
      · decide
      · omega

theorem View.elementLoop_ordered {i k seen j : Nat} (pending : seen ≤ i) (less : i < k)
    (valid : (view.elementLoop k seen j).valid = true) :
    (view.elementLoop i seen j).index < (view.elementLoop k seen j).index := by
  fun_induction view.elementLoop i seen j with
  | case1 j inside child =>
      rw [View.elementLoop, if_pos inside, if_pos child, if_neg (by omega)] at valid ⊢
      obtain ⟨found, later, -, -, result⟩ := view.elementLoop_spec k (i + 1) (j + 1) valid
      rw [result]
      change (j : Int) < (found : Int)
      omega
  | case2 seen j inside child different ih =>
      have step : view.elementLoop k seen j = view.elementLoop k (seen + 1) (j + 1) := by
        rw [View.elementLoop, if_pos inside, if_pos child, if_neg (by omega)]
      rw [step] at valid ⊢
      exact ih (by omega) valid
  | case3 seen j inside foreign ih =>
      have step : view.elementLoop k seen j = view.elementLoop k seen (j + 1) := by
        rw [View.elementLoop, if_pos inside, if_neg foreign]
      rw [step] at valid ⊢
      exact ih pending valid
  | case4 seen j outside =>
      rw [View.elementLoop, if_neg outside] at valid
      cases valid

end

/-! ### The array that is left -/

/-- The first `n` tokens of an array describe ranges of the text, in its order, and carry
the number of their children. -/
structure Represents (js : Bytes) (tokens : List Token) (n : Nat) : Prop where
  range : ∀ k < n, 0 ≤ (tokenAt tokens k).start ∧
    (tokenAt tokens k).start ≤ (tokenAt tokens k).end_ ∧ (tokenAt tokens k).end_ ≤ js.length
  parent : ∀ k < n, -1 ≤ (tokenAt tokens k).parent ∧ (tokenAt tokens k).parent < k
  ordered : ∀ j k : Nat, j < k → k < n → (tokenAt tokens j).start < (tokenAt tokens k).start
  counted : ∀ k < n, (tokenAt tokens k).size =
    ((tokens.take n).countP (fun token => token.parent = (k : Int)) : Nat)

theorem Parser.children_eq (p : Parser) (k : Nat) :
    p.children k =
      (p.tokens.take p.toknext).countP (fun token => token.parent = (k : Int)) := by
  unfold Parser.children Parser.frame
  rw [List.count, List.countP_map, List.countP_map]
  rfl

theorem Counted.represents {js : Bytes} {before : List Token} {p : Parser}
    (counted : Counted js before p) (fits : p.Fits) (ranges : Ranges p.frame)
    (shut : ∀ (j : Nat) (b : Token), p.frame.tokens[j]? = some b → b.end_ ≠ -1) :
    Represents js p.tokens p.toknext := by
  have within := counted.pos
  refine { range := ?_, parent := ?_, ordered := ?_, counted := ?_ }
  · intro k below
    have found := Parser.frame_getElem? fits below
    have low := (ranges.start k _ found).1
    have high := ranges.end_le found
    have closed := shut k _ found
    have order : (tokenAt p.tokens k).shape.start ≤ (tokenAt p.tokens k).shape.end_ := by
      by_cases kind : (tokenAt p.tokens k).shape.IsContainer
      · have range := ranges.container k _ found kind
        omega
      · exact (ranges.plain k _ found kind).1
    change 0 ≤ (tokenAt p.tokens k).start at low
    change (tokenAt p.tokens k).end_ ≤ (p.pos : Int) at high
    exact ⟨low, order, by omega⟩
  · intro k below
    have found := Parser.frame_getElem? fits below
    have above := ranges.parent k _ found
    exact above
  · intro j k less below
    have foundJ := Parser.frame_getElem? fits (Nat.lt_trans less below)
    have foundK := Parser.frame_getElem? fits below
    have order := ranges.ordered j k _ _ less foundJ foundK
    exact order
  · intro k below
    rw [counted.sizes k below, p.children_eq]

theorem tokenAt_take {tokens : List Token} {n k : Nat} (below : k < n)
    (inside : n ≤ tokens.length) :
    tokenAt (tokens.take n) k = tokenAt tokens k := by
  apply tokenAt_of_getElem?
  rw [List.getElem?_take_of_lt below, tokenAt_getElem? (by omega)]

section

variable {js : Bytes} {tokens : List Token} {n : Nat}

theorem Represents.no_child_before (represents : Represents js tokens n)
    (bounded : n ≤ tokens.length) (k : Nat) :
    ((tokens.take n).take (k + 1)).countP (fun token => token.parent = (k : Int)) = 0 := by
  apply List.countP_eq_zero.mpr
  intro token member
  obtain ⟨j, found⟩ := List.mem_iff_getElem?.mp member
  have inside := (List.getElem?_eq_some_iff.mp found).1
  rw [List.length_take, List.length_take] at inside
  rw [List.getElem?_take_of_lt (by omega), List.getElem?_take_of_lt (by omega)] at found
  have above := (represents.parent j (by omega)).2
  rw [tokenAt_of_getElem? found] at above
  simp only [decide_eq_true_eq]
  omega

theorem Represents.size_eq (represents : Represents js tokens n) (bounded : n ≤ tokens.length)
    {xs : View} (viewed : xs.tokens = tokens.take n) (isArray : xs.isArray = true) :
    xs.size = xs.elementsFrom (xs.index.toNat + 1) := by
  obtain ⟨o, index, inside, kind⟩ := View.type_eq (eq_of_beq isArray) (by decide)
  rw [viewed, List.length_take] at inside
  have below : o < n := by omega
  have token : tokenAt xs.tokens o = tokenAt tokens o := by
    rw [viewed, tokenAt_take below bounded]
  have valid : xs.valid = true := by
    simp only [View.valid, Bool.and_eq_true, decide_eq_true_eq, viewed, List.length_take]
    omega
  have size : xs.size = (tokenAt tokens o).size.toNat := by
    unfold View.size
    rw [if_pos valid, View.token, index, if_pos (Or.inr kind), token]
  have split : (tokens.take n).countP (fun token => token.parent = (o : Int)) =
      ((tokens.take n).drop (o + 1)).countP (fun token => token.parent = (o : Int)) := by
    conv => lhs; rw [← List.take_append_drop (o + 1) (tokens.take n), List.countP_append]
    rw [represents.no_child_before bounded, Nat.zero_add]
  rw [size, represents.counted o below, Int.toNat_natCast, split, View.elementsFrom, viewed, index,
    Int.toNat_natCast]

end

/-- Every accepted text leaves an array whose tokens are ranges of the text in its order,
with their children counted, and in which indexing an array finds as many elements as its
size says, one behind the other. -/
theorem parse_represents {js : Bytes} {before tokens : List Token} {n : Nat}
    (small : js.length < 2 ^ 31) (parsed : parse js before = .ok (n, tokens)) :
    Represents js tokens n ∧ n ≤ tokens.length ∧ tokens.length = before.length ∧
      tokens.drop n = before.drop n ∧
      ∀ xs : View, xs.src = js → xs.tokens = tokens.take n → xs.isArray = true →
        (∀ i, (xs.element i).valid = true ↔ i < xs.size) ∧
        ∀ i k, i < k → k < xs.size →
          (xs.element i).index < (xs.element k).index ∧
            (xs.element i).token.start < (xs.element k).token.start := by
  obtain ⟨p, fits, ranges, counted, -, rfl, rfl, shut⟩ :=
    parse_keeps small (Counted js before)
      (fun p q c fits ranges counted reading round => counted.round fits ranges reading round)
      { pos := Nat.zero_le _
        length := rfl
        untouched := rfl
        sizes := fun k below => absurd below (Nat.not_lt_zero k) }
      parsed
  have represents := counted.represents fits ranges shut
  have bounded := fits.allocated
  refine ⟨represents, bounded, counted.length, counted.untouched, ?_⟩
  intro xs _ viewed isArray
  have size := represents.size_eq bounded viewed isArray
  have valid_iff (i : Nat) : (xs.element i).valid = true ↔ i < xs.size := by
    rw [View.element, if_pos isArray, xs.elementLoop_valid_iff (Nat.zero_le i), Nat.zero_add, size]
  refine ⟨valid_iff, ?_⟩
  intro i k less below
  have validI := (valid_iff i).mpr (Nat.lt_trans less below)
  have validK := (valid_iff k).mpr below
  rw [View.element, if_pos isArray] at validI validK
  rw [View.element, View.element, if_pos isArray, if_pos isArray]
  have order := xs.elementLoop_ordered (Nat.zero_le i) less validK
  refine ⟨order, ?_⟩
  obtain ⟨a, -, boundA, -, resultA⟩ := xs.elementLoop_spec i 0 _ validI
  obtain ⟨b, -, boundB, -, resultB⟩ := xs.elementLoop_spec k 0 _ validK
  rw [resultA, resultB] at order ⊢
  change (a : Int) < (b : Int) at order
  change (tokenAt xs.tokens a).start < (tokenAt xs.tokens b).start
  rw [viewed, List.length_take] at boundA boundB
  rw [viewed, tokenAt_take (by omega) bounded, tokenAt_take (by omega) bounded]
  exact represents.ordered a b (by omega) (by omega)

/-- The text "[1]:2 ", in which the second value goes to the first one. -/
theorem parse_represents_reopened :
    ∃ tokens, parse (ascii "[1]:2 ") (List.replicate 4 { type := .array, size := 7 }) =
        .ok (3, tokens) ∧ Represents (ascii "[1]:2 ") tokens 3 ∧ (tokenAt tokens 1).size = 1 := by
  have parsed : parse (ascii "[1]:2 ") (List.replicate 4 { type := .array, size := 7 }) =
      .ok (3,
        [{ type := .array, start := 0, end_ := 3, size := 1, parent := -1 },
          { type := .primitive, start := 1, end_ := 2, size := 1, parent := 0 },
          { type := .primitive, start := 4, end_ := 5, size := 0, parent := 1 },
          { type := .array, size := 7 }]) := by
    decide +kernel
  have represents := (parse_represents (by decide) parsed).1
  exact ⟨_, parsed, represents, represents.counted 1 (by decide)⟩

end Etlx.Json
