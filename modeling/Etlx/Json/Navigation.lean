/-
Navigation of every well-formed document.

A path of keys and indices leads to a place: a value, the offset of its text
and its number in the pre-order listing. The lookup loops scan the whole token
array after a container; they find the right child because every token after
a subtree has its parent outside that subtree.
-/

import Etlx.Json.TokenizerCorrect
import Etlx.Json.View

namespace Etlx.Json

open Cursor

/-! ### Paths in a document -/

inductive PathStep
  | key (key : Bytes)
  | index (i : Nat)

def View.step (view : View) : PathStep → View
  | .key key => view.member key
  | .index i => view.element i

def View.navigate (view : View) (path : List PathStep) : View :=
  path.foldl View.step view

/-- The value one step below a value: the first member with that raw key, or
the element with that index. -/
def Doc.child : Doc → PathStep → Option Doc
  | .object _ members, .key key =>
      (members.toList.find? (fun member => member.1.raw == key)).map Prod.snd
  | .array _ elements, .index i => elements.toList[i]?
  | _, _ => none

def Doc.descend (doc : Doc) (path : List PathStep) : Option Doc :=
  path.foldlM Doc.child doc

/-- A value inside a document: where its text begins, and its token number. -/
structure Place where
  doc : Doc
  pos : Nat
  index : Nat

def Elements.locate (pos index : Nat) : Elements → Nat → Option Place
  | .nil, _ => none
  | .cons before value _ _, 0 => some ⟨value, pos + before.text.length, index⟩
  | .cons before value after rest, i + 1 =>
      rest.locate (pos + before.text.length + value.text.length + after.text.length + 1)
        (index + value.nodes) i

def Members.locate (pos index : Nat) : Members → Bytes → Option Place
  | .nil, _ => none
  | .cons before key beforeColon afterColon value after rest, wanted =>
      if key.raw = wanted then
        some ⟨value,
          pos + before.text.length + (quoted key).length + beforeColon.text.length + 1 +
            afterColon.text.length, index + 1⟩
      else
        rest.locate
          (pos + before.text.length + (quoted key).length + beforeColon.text.length + 1 +
            afterColon.text.length + value.text.length + after.text.length + 1)
          (index + 1 + value.nodes) wanted

def Place.step (place : Place) : PathStep → Option Place
  | .key key =>
      match place.doc with
      | .object blank members =>
          members.locate (place.pos + 1 + blank.text.length) (place.index + 1) key
      | _ => none
  | .index i =>
      match place.doc with
      | .array blank elements =>
          elements.locate (place.pos + 1 + blank.text.length) (place.index + 1) i
      | _ => none

def Source.place (source : Source) (path : List PathStep) : Option Place :=
  path.foldlM Place.step ⟨source.root, source.before.text.length, 0⟩

theorem Elements.locate_doc (elements : Elements) (pos index i : Nat) :
    (elements.locate pos index i).map Place.doc = elements.toList[i]? := by
  cases elements with
  | nil => simp [Elements.locate, Elements.toList]
  | cons before value after rest =>
      cases i with
      | zero => rfl
      | succ i => exact rest.locate_doc _ _ i
termination_by structural elements

theorem Members.locate_doc (members : Members) (pos index : Nat) (wanted : Bytes) :
    (members.locate pos index wanted).map Place.doc =
      (members.toList.find? (fun member => member.1.raw == wanted)).map Prod.snd := by
  cases members with
  | nil => rfl
  | cons before key beforeColon afterColon value after rest =>
      rw [Members.locate, Members.toList, List.find?_cons]
      by_cases same : key.raw = wanted
      · rw [if_pos same]
        simp [same]
      · rw [if_neg same, rest.locate_doc, beq_eq_false_iff_ne.mpr same]
termination_by structural members

theorem Place.step_doc (place : Place) (step : PathStep) :
    (place.step step).map Place.doc = place.doc.child step := by
  obtain ⟨doc, pos, index⟩ := place
  cases step with
  | key key =>
      cases doc with
      | object blank members => exact members.locate_doc _ _ key
      | primitive content => rfl
      | string content => rfl
      | array blank elements => rfl
  | index i =>
      cases doc with
      | array blank elements => exact elements.locate_doc _ _ i
      | primitive content => rfl
      | string content => rfl
      | object blank members => rfl

theorem foldlM_step_doc (path : List PathStep) (place : Place) :
    (path.foldlM Place.step place).map Place.doc = place.doc.descend path := by
  induction path generalizing place with
  | nil => rfl
  | cons step path ih =>
      have stepped := place.step_doc step
      simp only [Doc.descend, List.foldlM_cons] at ih ⊢
      rw [← stepped]
      cases reached : place.step step with
      | none => rfl
      | some next => exact ih next

theorem Source.place_doc (source : Source) (path : List PathStep) :
    (source.place path).map Place.doc = source.root.descend path :=
  foldlM_step_doc path _

/-! ### Parents in a listing -/

def Doc.inner (pos index : Nat) : Doc → List Token
  | .primitive _ => []
  | .string _ => []
  | .array blank elements => elements.tokens (pos + 1 + blank.text.length) (index + 1) index
  | .object blank members => members.tokens (pos + 1 + blank.text.length) (index + 1) index

theorem Doc.tokens_cons (doc : Doc) (pos index : Nat) (parent : Int) :
    doc.tokens pos index parent = doc.token pos parent :: doc.inner pos index := by
  cases doc <;> rfl

theorem Doc.inner_length (doc : Doc) (pos index : Nat) :
    (doc.inner pos index).length + 1 = doc.nodes := by
  have whole := doc.tokens_length pos index (-1)
  rw [doc.tokens_cons] at whole
  exact whole

/-- `token`'s parent is one of the `count` tokens from number `index` on. -/
def ParentWithin (index count : Nat) (token : Token) : Prop :=
  (index : Int) ≤ token.parent ∧ token.parent < (index + count : Nat)

theorem ParentWithin.ofChildren {index count : Nat} {token : Token}
    (within : ParentWithin (index + 1) count token) : ParentWithin index (count + 1) token := by
  obtain ⟨lower, upper⟩ := within
  exact ⟨by omega, by omega⟩

mutual

theorem Doc.inner_parent : (doc : Doc) → ∀ pos index,
    ∀ token ∈ doc.inner pos index, ParentWithin index doc.nodes token
  | .primitive _ => by
      intro pos index token member
      cases member
  | .string _ => by
      intro pos index token member
      cases member
  | .array blank elements => by
      intro pos index token member
      rcases elements.tokens_parent _ _ _ token member with direct | ⟨lower, upper⟩
      · simp only [ParentWithin, direct, Doc.nodes]
        omega
      · simp only [ParentWithin, Doc.nodes]
        omega
  | .object blank members => by
      intro pos index token member
      rcases members.tokens_parent _ _ _ token member with direct | ⟨lower, upper⟩
      · simp only [ParentWithin, direct, Doc.nodes]
        omega
      · simp only [ParentWithin, Doc.nodes]
        omega

theorem Elements.tokens_parent : (elements : Elements) → ∀ pos index (container : Int),
    ∀ token ∈ elements.tokens pos index container,
      token.parent = container ∨ ParentWithin index elements.nodes token
  | .nil => by
      intro pos index container token member
      cases member
  | .cons before value after rest => by
      intro pos index container token member
      rcases List.mem_append.mp member with here | later
      · rw [value.tokens_cons] at here
        rcases List.mem_cons.mp here with rfl | inner
        · exact .inl rfl
        · obtain ⟨lower, upper⟩ := value.inner_parent _ _ token inner
          right
          simp only [ParentWithin, Elements.nodes]
          omega
      · rcases rest.tokens_parent _ _ _ token later with direct | ⟨lower, upper⟩
        · exact .inl direct
        · right
          simp only [ParentWithin, Elements.nodes]
          omega

theorem Members.tokens_parent : (members : Members) → ∀ pos index (container : Int),
    ∀ token ∈ members.tokens pos index container,
      token.parent = container ∨ ParentWithin index members.nodes token
  | .nil => by
      intro pos index container token member
      cases member
  | .cons before key beforeColon afterColon value after rest => by
      intro pos index container token member
      rcases List.mem_cons.mp member with rfl | more
      · exact .inl rfl
      · rcases List.mem_append.mp more with here | later
        · right
          rw [value.tokens_cons] at here
          rcases List.mem_cons.mp here with rfl | inner
          · simp only [ParentWithin, Doc.token, Members.nodes]
            omega
          · obtain ⟨lower, upper⟩ := value.inner_parent _ _ token inner
            simp only [ParentWithin, Members.nodes]
            omega
        · rcases rest.tokens_parent _ _ _ token later with direct | ⟨lower, upper⟩
          · exact .inl direct
          · right
            simp only [ParentWithin, Members.nodes]
            omega

end

/-! ### One lookup -/

def View.at (view : View) : Option Place → View
  | some place => { view with index := place.index }
  | none => {}

/-- The element scan over the children of an array finds the wanted one. -/
theorem Elements.lookup (view : View) {container : Nat} (isContainer : view.index = container)
    (target : Nat) : (elements : Elements) → ∀ (pos j seen : Nat) (back : List Token),
    container < j → view.tokens.drop j = elements.tokens pos j container ++ back →
    (∀ token ∈ back, token.parent ≠ view.index) → seen ≤ target →
    view.elementLoop target seen j = view.at (elements.locate pos j (target - seen))
  | .nil => by
      intro pos j seen back inside ahead foreign notYet
      rw [view.elementLoop_foreign target seen j (by rw [ahead]; exact foreign), Elements.locate]
      rfl
  | .cons before value after rest => by
      intro pos j seen back inside ahead foreign notYet
      rw [Elements.tokens, value.tokens_cons, List.append_assoc, List.cons_append] at ahead
      rw [view.elementLoop_hit ahead (isContainer.symm ▸ rfl)]
      by_cases found : seen = target
      · rw [if_pos found, found, Nat.sub_self]
        rfl
      · rw [if_neg found]
        have below := (ahead_cons ahead).2
        rw [view.elementLoop_skip target (seen + 1) _ (j + 1) _ below (by
          intro token member
          obtain ⟨lower, -⟩ := value.inner_parent _ _ token member
          omega)]
        have width := value.inner_length (pos + before.text.length) j
        have further := ahead_append below
        have past : j + 1 + (value.inner (pos + before.text.length) j).length =
            j + value.nodes := by
          omega
        have left : target - seen = target - (seen + 1) + 1 := by omega
        rw [past] at further ⊢
        rw [rest.lookup view isContainer target _ (j + value.nodes) (seen + 1) back (by omega)
          further foreign (by omega), left]
        rfl

theorem Members.lookup (view : View) {container : Nat} (isContainer : view.index = container)
    (wanted : Bytes) : (members : Members) → ∀ (pos i : Nat) (back : List Token) (rest : Bytes),
    container < i → view.tokens.drop i = members.tokens pos i container ++ back →
    view.src.drop pos = members.text ++ rest →
    (∀ token ∈ back, token.parent ≠ view.index) →
    view.memberLoop wanted i = view.at (members.locate pos i wanted)
  | .nil => by
      intro pos i back rest inside ahead text foreign
      rw [view.memberLoop_foreign wanted i (by rw [ahead]; exact foreign)]
      rfl
  | .cons before key beforeColon afterColon value after more => by
      intro pos i back rest inside ahead text foreign
      rw [Members.text_cons] at text
      simp only [List.append_assoc, List.cons_append] at text
      have atKey := ahead_append text
      have atColon := ahead_append (ahead_append atKey)
      have atTail := ahead_append (ahead_append (ahead_append (ahead_cons atColon).2))
      rw [Members.tokens, List.cons_append, List.append_assoc] at ahead
      have room := (List.getElem?_eq_some_iff.mp (ahead_cons ahead).1).1
      have raw : ({ view with index := i } : View).raw = key.raw := by
        refine View.raw_eq ?_ (congrArg Token.start (tokenAt_ahead ahead))
          (congrArg Token.end_ (tokenAt_ahead ahead)) (ahead_quoted atKey)
        simp only [View.valid, Bool.and_eq_true, decide_eq_true_eq]
        omega
      have isKey : view.isKey wanted i = (key.raw == wanted) := by
        simp [View.isKey, tokenAt_ahead ahead, raw, keyToken, isContainer]
      rw [View.memberLoop, if_pos room, isKey, Members.locate]
      by_cases same : key.raw = wanted
      · rw [if_pos (by simpa using same), if_pos same]
        rfl
      · rw [if_neg (by simpa using same), if_neg same]
        have below := (ahead_cons ahead).2
        rw [view.memberLoop_skip wanted _ (i + 1) _ below (by
          intro token member
          rw [value.tokens_cons] at member
          rcases List.mem_cons.mp member with rfl | inner
          · simp only [Doc.token]
            omega
          · obtain ⟨lower, -⟩ := value.inner_parent _ _ token inner
            omega)]
        have further := ahead_append below
        rw [Doc.tokens_length] at further ⊢
        cases more with
        | nil =>
            rw [view.memberLoop_foreign wanted _ (by rw [further]; exact foreign)]
            rfl
        | cons before' key' beforeColon' afterColon' value' after' more' =>
            exact (Members.cons before' key' beforeColon' afterColon' value' after' more').lookup
              view isContainer wanted _ _ back rest (by omega) further (ahead_cons atTail).2 foreign

/-! ### Whole paths -/

/-- The tokens and the text of `view` hold the document of `place` there, and
no token after its listing has its parent inside it. -/
structure Holds (view : View) (place : Place) : Prop where
  listed : ∃ parent back,
    view.tokens.drop place.index = place.doc.tokens place.pos place.index parent ++ back ∧
      ∀ token ∈ back, ¬ ParentWithin place.index place.doc.nodes token
  text : ∃ rest, view.src.drop place.pos = place.doc.text ++ rest

theorem not_parentWithin_of_follows {container : Int} {index count more : Nat}
    {later back : List Token} (inside : container < index)
    (siblings : ∀ token ∈ later,
      token.parent = container ∨ ParentWithin (index + count) more token)
    (outside : ∀ token ∈ back, ¬ ParentWithin index count token) :
    ∀ token ∈ later ++ back, ¬ ParentWithin index count token := by
  intro token member within
  rcases List.mem_append.mp member with follows | beyond
  · obtain ⟨lower, upper⟩ := within
    rcases siblings token follows with direct | ⟨behind, -⟩
    · omega
    · omega
  · exact outside token beyond within

theorem Elements.holds {view : View} (container : Nat) : (elements : Elements) →
    ∀ (pos j i : Nat) (place : Place) (back : List Token) (rest : Bytes),
    elements.locate pos j i = some place → container < j →
    view.tokens.drop j = elements.tokens pos j container ++ back →
    view.src.drop pos = elements.text ++ rest →
    (∀ token ∈ back, ¬ ParentWithin j elements.nodes token) → Holds view place
  | .nil => by
      intro pos j i place back rest located
      rw [Elements.locate] at located
      cases located
  | .cons before value after more => by
      intro pos j i place back rest located inside ahead text outside
      rw [Elements.text_cons] at text
      simp only [List.append_assoc] at text
      have atValue := ahead_append text
      have atTail := ahead_append (ahead_append atValue)
      rw [Elements.tokens, List.append_assoc] at ahead
      simp only [Elements.nodes, ParentWithin] at outside
      cases i with
      | zero =>
          cases located
          refine ⟨⟨container, _, ahead, ?_⟩, ⟨_, atValue⟩⟩
          apply not_parentWithin_of_follows (by omega) (more.tokens_parent _ _ _)
          intro token member within
          obtain ⟨lower, upper⟩ := within
          exact outside token member ⟨lower, by omega⟩
      | succ i =>
          have further := ahead_append ahead
          rw [Doc.tokens_length] at further
          have beyond : ∀ token ∈ back, ¬ ParentWithin (j + value.nodes) more.nodes token := by
            intro token member within
            obtain ⟨lower, upper⟩ := within
            exact outside token member ⟨by omega, by omega⟩
          cases more with
          | nil =>
              rw [Elements.locate, Elements.locate] at located
              cases located
          | cons before' value' after' more' =>
              exact (Elements.cons before' value' after' more').holds container _ _ i place back
                rest located (by omega) further (ahead_cons atTail).2 beyond

theorem Members.holds {view : View} (container : Nat) (wanted : Bytes) : (members : Members) →
    ∀ (pos i : Nat) (place : Place) (back : List Token) (rest : Bytes),
    members.locate pos i wanted = some place → container < i →
    view.tokens.drop i = members.tokens pos i container ++ back →
    view.src.drop pos = members.text ++ rest →
    (∀ token ∈ back, ¬ ParentWithin i members.nodes token) → Holds view place
  | .nil => by
      intro pos i place back rest located
      cases located
  | .cons before key beforeColon afterColon value after more => by
      intro pos i place back rest located inside ahead text outside
      rw [Members.text_cons] at text
      simp only [List.append_assoc, List.cons_append] at text
      have atColon := ahead_append (ahead_append (ahead_append text))
      have atValue := ahead_append (ahead_cons atColon).2
      have atTail := ahead_append (ahead_append atValue)
      rw [Members.tokens, List.cons_append, List.append_assoc] at ahead
      have atTokens := (ahead_cons ahead).2
      simp only [Members.nodes, ParentWithin] at outside
      rw [Members.locate] at located
      split at located
      · cases located
        refine ⟨⟨i, _, atTokens, ?_⟩, ⟨_, atValue⟩⟩
        apply not_parentWithin_of_follows (by omega) (more.tokens_parent _ _ _)
        intro token member within
        obtain ⟨lower, upper⟩ := within
        exact outside token member ⟨by omega, by omega⟩
      · have further := ahead_append atTokens
        rw [Doc.tokens_length] at further
        have beyond : ∀ token ∈ back,
            ¬ ParentWithin (i + 1 + value.nodes) more.nodes token := by
          intro token member within
          obtain ⟨lower, upper⟩ := within
          exact outside token member ⟨by omega, by omega⟩
        cases more with
        | nil => cases located
        | cons before' key' beforeColon' afterColon' value' after' more' =>
            exact (Members.cons before' key' beforeColon' afterColon' value' after' more').holds
              container wanted _ _ place back rest located (by omega) further (ahead_cons atTail).2
              beyond

section Places

variable {view : View} {place : Place}

theorem Holds.atRoot (holds : Holds view place) :
    ∃ parent back,
      view.tokens.drop place.index =
        place.doc.token place.pos parent :: (place.doc.inner place.pos place.index ++ back) ∧
      ∀ token ∈ back, ¬ ParentWithin place.index place.doc.nodes token := by
  obtain ⟨parent, back, listed, outside⟩ := holds.listed
  rw [place.doc.tokens_cons, List.cons_append] at listed
  exact ⟨parent, back, listed, outside⟩

theorem Holds.valid (holds : Holds view place) :
    ({ view with index := place.index } : View).valid = true := by
  obtain ⟨parent, back, listed, -⟩ := holds.atRoot
  have inside := (List.getElem?_eq_some_iff.mp (ahead_cons listed).1).1
  simp only [View.valid, Bool.and_eq_true, decide_eq_true_eq]
  omega

theorem Holds.token (holds : Holds view place) :
    ∃ parent, ({ view with index := place.index } : View).token =
      place.doc.token place.pos parent := by
  obtain ⟨parent, back, listed, -⟩ := holds.atRoot
  exact ⟨parent, tokenAt_ahead listed⟩

theorem Holds.type (holds : Holds view place) :
    ({ view with index := place.index } : View).type = place.doc.kind := by
  obtain ⟨parent, token⟩ := holds.token
  rw [View.type, if_pos holds.valid, token]
  rfl

theorem Holds.size (holds : Holds view place) :
    ({ view with index := place.index } : View).size = place.doc.size := by
  obtain ⟨parent, token⟩ := holds.token
  rw [View.size, if_pos holds.valid, token]
  cases place.doc <;> rfl

theorem Holds.slice (holds : Holds view place) :
    ∃ rest, view.src.drop (place.doc.sliceStart place.pos) = place.doc.slice ++ rest := by
  obtain ⟨rest, text⟩ := holds.text
  obtain ⟨doc, pos, index⟩ := place
  cases doc with
  | string content => exact ⟨_, ahead_quoted text⟩
  | primitive content => exact ⟨rest, text⟩
  | array blank elements => exact ⟨rest, text⟩
  | object blank members => exact ⟨rest, text⟩

theorem Holds.raw (holds : Holds view place) :
    ({ view with index := place.index } : View).raw = place.doc.slice := by
  obtain ⟨parent, token⟩ := holds.token
  obtain ⟨rest, slice⟩ := holds.slice
  exact View.raw_eq holds.valid (congrArg Token.start token) (congrArg Token.end_ token) slice

theorem Holds.beneath (holds : Holds view place) :
    ∃ back, view.tokens.drop (place.index + 1) = place.doc.inner place.pos place.index ++ back ∧
      (∀ token ∈ back, ¬ ParentWithin place.index place.doc.nodes token) ∧
      ∀ token ∈ back, token.parent ≠ (place.index : Int) := by
  obtain ⟨parent, back, listed, outside⟩ := holds.atRoot
  refine ⟨back, (ahead_cons listed).2, outside, ?_⟩
  intro token member same
  have positive := place.doc.inner_length place.pos place.index
  exact outside token member ⟨by omega, by omega⟩

theorem Holds.step_key (holds : Holds view place) (wanted : Bytes) :
    ({ view with index := place.index } : View).step (.key wanted) =
        view.at (place.step (.key wanted)) ∧
      ∀ next, place.step (.key wanted) = some next → Holds view next := by
  have type := holds.type
  obtain ⟨back, below, outside, foreign⟩ := holds.beneath
  obtain ⟨rest, text⟩ := holds.text
  obtain ⟨doc, pos, index⟩ := place
  cases doc with
  | object blank members =>
      have spread : view.src.drop pos =
          Ascii.openBrace :: (blank.text ++ (members.text ++ (Ascii.closeBrace :: rest))) := by
        simpa [Doc.text] using text
      have atMembers := ahead_append (ahead_cons spread).2
      constructor
      · rw [View.step, View.member, View.isObject, type]
        exact members.lookup { view with index := index } rfl wanted _ _ back _
          (by simp) below atMembers foreign
      · intro next located
        refine members.holds index wanted _ _ next back _ located
          (Nat.lt_succ_self _) below atMembers ?_
        exact fun token member within => outside token member within.ofChildren
  | primitive content =>
      rw [View.step, View.member, View.isObject, type]
      exact ⟨rfl, by intro next located; cases located⟩
  | string content =>
      rw [View.step, View.member, View.isObject, type]
      exact ⟨rfl, by intro next located; cases located⟩
  | array blank elements =>
      rw [View.step, View.member, View.isObject, type]
      exact ⟨rfl, by intro next located; cases located⟩

theorem Holds.step_index (holds : Holds view place) (i : Nat) :
    ({ view with index := place.index } : View).step (.index i) =
        view.at (place.step (.index i)) ∧
      ∀ next, place.step (.index i) = some next → Holds view next := by
  have type := holds.type
  obtain ⟨back, below, outside, foreign⟩ := holds.beneath
  obtain ⟨rest, text⟩ := holds.text
  obtain ⟨doc, pos, index⟩ := place
  cases doc with
  | array blank elements =>
      have spread : view.src.drop pos =
          Ascii.openBracket ::
            (blank.text ++ (elements.text ++ (Ascii.closeBracket :: rest))) := by
        simpa [Doc.text] using text
      have atElements := ahead_append (ahead_cons spread).2
      constructor
      · rw [View.step, View.element, View.isArray, type]
        exact elements.lookup { view with index := index } rfl i _ _ 0 back
          (by simp) below foreign (Nat.zero_le i)
      · intro next located
        refine elements.holds index _ _ i next back _ located
          (Nat.lt_succ_self _) below atElements ?_
        exact fun token member within => outside token member within.ofChildren
  | primitive content =>
      rw [View.step, View.element, View.isArray, type]
      exact ⟨rfl, by intro next located; cases located⟩
  | string content =>
      rw [View.step, View.element, View.isArray, type]
      exact ⟨rfl, by intro next located; cases located⟩
  | object blank members =>
      rw [View.step, View.element, View.isArray, type]
      exact ⟨rfl, by intro next located; cases located⟩

theorem Holds.step (holds : Holds view place) (step : PathStep) :
    ({ view with index := place.index } : View).step step = view.at (place.step step) ∧
      ∀ next, place.step step = some next → Holds view next := by
  cases step with
  | key wanted => exact holds.step_key wanted
  | index i => exact holds.step_index i

end Places

theorem View.step_invalid (step : PathStep) : ({} : View).step step = {} := by
  cases step <;> rfl

theorem View.navigate_invalid (path : List PathStep) : ({} : View).navigate path = {} := by
  induction path with
  | nil => rfl
  | cons step path ih =>
      change (({} : View).step step).navigate path = {}
      rw [View.step_invalid, ih]

theorem Holds.navigate (path : List PathStep) {view : View} {place : Place}
    (holds : Holds view place) :
    ({ view with index := place.index } : View).navigate path =
        view.at (path.foldlM Place.step place) ∧
      ∀ target, path.foldlM Place.step place = some target → Holds view target := by
  induction path generalizing place with
  | nil =>
      exact ⟨rfl, by intro target same; cases same; exact holds⟩
  | cons step path ih =>
      obtain ⟨stepped, kept⟩ := holds.step step
      have unfolded : ({ view with index := place.index } : View).navigate (step :: path) =
          (view.at (place.step step)).navigate path := by
        rw [← stepped]
        rfl
      rw [unfolded, List.foldlM_cons]
      cases located : place.step step with
      | none =>
          exact ⟨View.navigate_invalid path, by intro target same; cases same⟩
      | some next => exact ih (kept next located)

/-- What a caller sees through a view of the value at `place`: its own token,
its source slice, its kind and its child count. -/
structure Shows (view : View) (place : Place) : Prop where
  valid : view.valid = true
  index : view.index = place.index
  start : view.token.start = place.doc.sliceStart place.pos
  raw : view.raw = place.doc.slice
  type : view.type = place.doc.kind
  size : view.size = place.doc.size

theorem Holds.shows {view : View} {place : Place} (holds : Holds view place) :
    Shows { view with index := place.index } place := by
  obtain ⟨parent, token⟩ := holds.token
  exact
    { valid := holds.valid
      index := rfl
      start := congrArg Token.start token
      raw := holds.raw
      type := holds.type
      size := holds.size }

theorem parseToView_holds (source : Source) (tokens : List Token)
    (small : source.text.length < 2 ^ 31) (room : source.root.nodes ≤ tokens.length) :
    ∃ root, parseToView source.text tokens = .ok root ∧ root.index = 0 ∧
      Holds root ⟨source.root, source.before.text.length, 0⟩ := by
  have parsed := parse_eq_listing source tokens small room
  have count : source.tokens.length = source.root.nodes := source.root.tokens_length _ _ _
  have positive := source.root.inner_length 0 0
  refine ⟨{ src := source.text, tokens := source.tokens, index := 0 }, ?_, rfl, ?_⟩
  · unfold parseToView
    rw [parsed]
    simp only
    rw [if_neg (by omega), ← count, List.take_left]
  · refine ⟨⟨-1, [], ?_, by intro token member; cases member⟩, ⟨source.after.text, ?_⟩⟩
    · rw [List.append_nil]
      rfl
    · have atStart : source.text.drop 0 =
          source.before.text ++ (source.root.text ++ source.after.text) := rfl
      have atRoot := ahead_append atStart
      rwa [Nat.zero_add] at atRoot

/-- Navigation is exact on every rendering of every document: along any path
the view shows the value the path names, and is invalid where the path names
none. -/
theorem navigate_correct (source : Source) (tokens : List Token)
    (small : source.text.length < 2 ^ 31) (room : source.root.nodes ≤ tokens.length) :
    ∃ root, parseToView source.text tokens = .ok root ∧
      ∀ path : List PathStep,
        (source.place path).map Place.doc = source.root.descend path ∧
        (source.place path = none → (root.navigate path).valid = false) ∧
        ∀ place, source.place path = some place → Shows (root.navigate path) place := by
  obtain ⟨root, parsed, atZero, holds⟩ := parseToView_holds source tokens small room
  refine ⟨root, parsed, ?_⟩
  intro path
  obtain ⟨navigated, kept⟩ := holds.navigate path
  have same : ({ root with index := ((0 : Nat) : Int) } : View) = root := by
    cases root
    simp only at atZero
    rw [atZero]
    rfl
  rw [same] at navigated
  refine ⟨source.place_doc path, ?_, ?_⟩
  · intro missing
    rw [navigated]
    change (root.at (source.place path)).valid = false
    rw [missing]
    rfl
  · intro place located
    rw [navigated]
    change Shows (root.at (source.place path)) place
    rw [located]
    exact (kept place located).shows

theorem navigate_correct_sample :
    sampleSource.text.length < 2 ^ 31 ∧ sampleSource.root.nodes ≤ 5 ∧
      ∃ root, parseToView sampleSource.text (List.replicate 5 {}) = .ok root ∧
        (root.navigate [.key [0x61], .index 0]).raw = [0x6e, 0x75, 0x6c, 0x6c] ∧
        (root.navigate [.key [0x62]]).valid = false := by
  refine ⟨by decide, by decide, ?_⟩
  obtain ⟨root, parsed, exact_⟩ :=
    navigate_correct sampleSource (List.replicate 5 {}) (by decide) (by decide)
  exact ⟨root, parsed, ((exact_ [.key [0x61], .index 0]).2.2 _ rfl).raw,
    (exact_ [.key [0x62]]).2.1 rfl⟩

end Etlx.Json
