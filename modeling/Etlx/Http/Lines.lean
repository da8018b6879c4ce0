/-
Text cut into lines at each CRLF.

A CRLF ends a line whatever is in front of it, so joining lines without a CRLF and
cutting the text again are inverse, and the first CRLFCRLF behind lines that are
not empty is the one behind the last of them.
-/

import Etlx.Http.Response

namespace Etlx.Http

open Ascii

/-! ### Lines -/

def splitLines : Bytes → List Bytes
  | [] => [[]]
  | [c] => [[c]]
  | c :: d :: rest =>
      if c = carriageReturn ∧ d = lineFeed then [] :: splitLines rest
      else
        match splitLines (d :: rest) with
        | [] => [[c]]
        | line :: lines => (c :: line) :: lines

theorem splitLines_ne_nil (text : Bytes) : splitLines text ≠ [] := by
  fun_induction splitLines text with
  | case1 => exact List.cons_ne_nil _ _
  | case2 c => exact List.cons_ne_nil _ _
  | case3 c d rest here ih => exact List.cons_ne_nil _ _
  | case4 c d rest absent nothing ih => exact List.cons_ne_nil _ _
  | case5 c d rest absent line lines split ih => exact List.cons_ne_nil _ _

theorem splitLines_crlf (rest : Bytes) : splitLines (crlf ++ rest) = [] :: splitLines rest := by
  rw [crlf, List.cons_append, List.cons_append, List.nil_append, splitLines, if_pos ⟨rfl, rfl⟩]

theorem splitLines_append (front rest : Bytes) :
    splitLines (front ++ crlf ++ rest) = splitLines front ++ splitLines rest := by
  fun_induction splitLines front with
  | case1 => exact splitLines_crlf rest
  | case2 c =>
      have absent : ¬(c = carriageReturn ∧ carriageReturn = lineFeed) := fun both =>
        absurd both.2 (by decide)
      change splitLines (c :: carriageReturn :: lineFeed :: rest) = _
      rw [splitLines, if_neg absent]
      change (match splitLines (crlf ++ rest) with
        | [] => [[c]]
        | line :: lines => (c :: line) :: lines) = _
      rw [splitLines_crlf]
      rfl
  | case3 c d front here ih =>
      change splitLines (c :: d :: (front ++ crlf ++ rest)) = _
      rw [splitLines, if_pos here, ih]
      rfl
  | case4 c d front absent nothing ih => exact absurd nothing (splitLines_ne_nil _)
  | case5 c d front absent line lines split ih =>
      change splitLines (c :: d :: (front ++ crlf ++ rest)) = _
      have rebuilt : splitLines (d :: (front ++ crlf ++ rest)) =
          line :: (lines ++ splitLines rest) := by
        change splitLines (d :: front ++ crlf ++ rest) = _
        rw [ih, split]
        rfl
      rw [splitLines, if_neg absent, rebuilt]
      rfl

theorem splitLines_pos (text : Bytes) : 0 < (splitLines text).length :=
  List.length_pos_iff.mpr (splitLines_ne_nil text)

theorem splitLines_one_iff (text : Bytes) : (splitLines text).length = 1 ↔ ¬crlf <:+: text := by
  fun_induction splitLines text with
  | case1 => simp [crlf]
  | case2 c => simp [crlf, List.infix_cons_iff]
  | case3 c d rest here ih =>
      have positive := splitLines_pos rest
      obtain ⟨rfl, rfl⟩ := here
      have occurs : crlf <:+: carriageReturn :: lineFeed :: rest := ⟨[], rest, rfl⟩
      rw [List.length_cons]
      constructor
      · intro one
        omega
      · intro absent
        exact absurd occurs absent
  | case4 c d rest absent nothing ih => exact absurd nothing (splitLines_ne_nil _)
  | case5 c d rest absent line lines split ih =>
      have notHere : ¬crlf <+: c :: d :: rest := by
        rintro ⟨behind, same⟩
        apply absent
        rw [crlf, List.cons_append, List.cons_append, List.cons.injEq, List.cons.injEq] at same
        exact ⟨same.1.symm, same.2.1.symm⟩
      rw [split, List.length_cons] at ih
      rw [List.length_cons, ih, List.infix_cons_iff (a := c)]
      constructor
      · intro later both
        exact both.elim notHere later
      · intro neither later
        exact neither (Or.inr later)

theorem splitLines_plain {text : Bytes} (plain : ¬crlf <:+: text) : splitLines text = [text] := by
  fun_induction splitLines text with
  | case1 => rfl
  | case2 c => rfl
  | case3 c d rest here ih =>
      obtain ⟨rfl, rfl⟩ := here
      exact absurd ⟨[], rest, rfl⟩ plain
  | case4 c d rest absent nothing ih => exact absurd nothing (splitLines_ne_nil _)
  | case5 c d rest absent line lines split ih =>
      have later : splitLines (d :: rest) = [d :: rest] :=
        ih (fun occurs => plain (List.infix_cons occurs))
      rw [split] at later
      cases later
      rfl

/-- A CRLF in a text that is put together is in a part or straddles a joint. -/
theorem crlf_append_iff (front back : Bytes) :
    crlf <:+: front ++ back ↔
      crlf <:+: front ∨ crlf <:+: back ∨
        front.getLast? = some carriageReturn ∧ back.head? = some lineFeed := by
  induction front with
  | nil => simp [crlf]
  | cons c front ih =>
      rw [List.cons_append, List.infix_cons_iff, ih, List.infix_cons_iff (a := c)]
      cases front with
      | nil =>
          cases back with
          | nil => simp [crlf]
          | cons d back =>
              simp [crlf]
              tauto
      | cons d front =>
          simp [crlf]
          tauto

/-! ### The head of a message -/

def joinLines (line : Bytes) (lines : List Bytes) : Bytes :=
  line ++ (lines.map (crlf ++ ·)).flatten

theorem joinLines_cons (line other : Bytes) (lines : List Bytes) :
    joinLines line (other :: lines) = line ++ crlf ++ joinLines other lines := by
  simp only [joinLines, List.map_cons, List.flatten_cons, List.append_assoc]

theorem joinLines_end (line : Bytes) (lines : List Bytes) :
    ((line :: lines).map (· ++ crlf)).flatten = joinLines line lines ++ crlf := by
  induction lines generalizing line with
  | nil => simp [joinLines]
  | cons other lines ih =>
      rw [List.map_cons, List.flatten_cons, ih, joinLines_cons]
      simp only [List.append_assoc]

theorem splitLines_join (line : Bytes) (lines : List Bytes) :
    splitLines (joinLines line lines) = (line :: lines).flatMap splitLines := by
  induction lines generalizing line with
  | nil => simp [joinLines]
  | cons other lines ih =>
      rw [joinLines_cons, splitLines_append, ih]
      exact List.flatMap_cons.symm

theorem flatMap_splitLines_iff (lines : List Bytes) :
    (lines.flatMap splitLines).length = lines.length ↔ ∀ line ∈ lines, ¬crlf <:+: line := by
  have least (lines : List Bytes) : lines.length ≤ (lines.flatMap splitLines).length := by
    induction lines with
    | nil => exact Nat.le_refl _
    | cons line lines ih =>
        have positive := splitLines_pos line
        rw [List.flatMap_cons, List.length_append, List.length_cons]
        omega
  induction lines with
  | nil => simp
  | cons line lines ih =>
      have positive := splitLines_pos line
      have rest := least lines
      rw [List.forall_mem_cons, List.flatMap_cons, List.length_append, List.length_cons]
      constructor
      · intro same
        exact ⟨(splitLines_one_iff line).mp (by omega), ih.mp (by omega)⟩
      · rintro ⟨first, others⟩
        have one := (splitLines_one_iff line).mpr first
        have later := ih.mpr others
        omega

theorem search_line {line rest : Bytes} (plain : ¬crlf <:+: line) :
    Search.search (crlf ++ crlf) (line ++ (crlf ++ rest)) =
      (Search.search (crlf ++ crlf) (crlf ++ rest)).map (· + line.length) := by
  induction line with
  | nil => simp
  | cons c line ih =>
      have later : ¬crlf <:+: line := fun occurs => plain (List.infix_cons occurs)
      rw [List.cons_append, Search.search_step, ih later, Option.map_map]
      · rfl
      · intro same
        have first := (List.cons.inj same).1
        have second := (List.cons.inj same).2
        cases line with
        | nil =>
            have impossible := (List.cons.inj second).1
            revert impossible
            decide
        | cons d line =>
            have feed := (List.cons.inj second).1
            exact plain ⟨[], line, by rw [first, feed]; rfl⟩

theorem search_nonblank {rest : Bytes} (nonblank : ¬crlf <+: rest) :
    Search.search (crlf ++ crlf) (crlf ++ rest) =
      (Search.search (crlf ++ crlf) rest).map (· + 2) := by
  change Search.search (crlf ++ crlf) (carriageReturn :: lineFeed :: rest) = _
  rw [Search.search_step, Search.search_step, Option.map_map]
  · rfl
  · intro same
    have impossible := (List.cons.inj same).1
    revert impossible
    decide
  · intro same
    apply nonblank
    have tails := (List.cons.inj (List.cons.inj same).2).2
    change rest.take 2 = crlf at tails
    rw [← tails]
    exact List.take_prefix 2 rest

theorem joinLines_nonblank {line : Bytes} (nonempty : line ≠ []) (plain : ¬crlf <:+: line)
    (lines : List Bytes) (rest : Bytes) : ¬crlf <+: joinLines line lines ++ (crlf ++ rest) := by
  have back : ∃ back,
      joinLines line lines ++ (crlf ++ rest) = line ++ (carriageReturn :: back) := by
    cases lines with
    | nil => exact ⟨lineFeed :: rest, by simp [joinLines, crlf]⟩
    | cons other lines =>
        refine ⟨lineFeed :: (joinLines other lines ++ (crlf ++ rest)), ?_⟩
        simp [joinLines_cons, crlf]
  obtain ⟨back, shape⟩ := back
  rw [shape]
  rintro ⟨behind, same⟩
  match line, nonempty with
  | [c], _ =>
      have impossible := (List.cons.inj (List.cons.inj same).2).1
      revert impossible
      decide
  | c :: d :: line, _ =>
      have first := (List.cons.inj same).1
      have second := (List.cons.inj (List.cons.inj same).2).1
      exact plain ⟨[], line, by rw [← first, ← second]; rfl⟩

/-- The blank line is the one behind the last line. -/
theorem search_head (line : Bytes) (lines : List Bytes) (rest : Bytes)
    (plain : ∀ l ∈ line :: lines, ¬crlf <:+: l) (nonempty : ∀ l ∈ lines, l ≠ []) :
    Search.search (crlf ++ crlf) (joinLines line lines ++ (crlf ++ (crlf ++ rest))) =
      some (joinLines line lines).length := by
  induction lines generalizing line with
  | nil =>
      have alone : joinLines line [] = line := List.append_nil line
      rw [alone, search_line (plain line List.mem_cons_self), ← List.append_assoc crlf,
        Search.search_here, Option.map_some, Nat.zero_add]
  | cons other lines ih =>
      have plainRest : ∀ l ∈ other :: lines, ¬crlf <:+: l := fun l member =>
        plain l (List.mem_cons_of_mem _ member)
      have blank := joinLines_nonblank (nonempty other List.mem_cons_self)
        (plainRest other List.mem_cons_self) lines (crlf ++ rest)
      rw [joinLines_cons, List.append_assoc, List.append_assoc,
        search_line (plain line List.mem_cons_self), search_nonblank blank,
        ih other plainRest (fun l member => nonempty l (List.mem_cons_of_mem _ member))]
      simp only [Option.map_some, List.length_append]
      congr 1
      change _ = line.length + 2 + _
      omega

end Etlx.Http
