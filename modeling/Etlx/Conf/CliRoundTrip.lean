/-
The iterator undoes the rendering of a command line, and every argv that it drains
is the rendering of one.

A `Piece` is a token in the form in which it stands in argv; a command line is a
list of pieces and, after a "--", any texts at all. `next_render` says what one call
does to a rendered piece and `next_cases` that a call that succeeds has found one.
-/

import Etlx.Conf.Cli
import Etlx.Lib.Machine

namespace Etlx.Conf

open Ascii

/-! ### Command lines -/

inductive Piece
  | flag (opt : CliOption)
  | inline (opt : CliOption) (value : Bytes)
  | separate (opt : CliOption) (value : Bytes)
  | positional (text : Bytes)
deriving DecidableEq

def Piece.render : Piece → List Bytes
  | .flag opt => [opt.longOption]
  | .inline opt value => [opt.longOption ++ equals :: value]
  | .separate opt value => [opt.longOption, value]
  | .positional text => [text]

def Piece.token : Piece → OptionValue
  | .flag opt => { option := opt.longOption, value := [], isArgument := false }
  | .inline opt value => { option := opt.longOption, value := value, isArgument := false }
  | .separate opt value => { option := opt.longOption, value := value, isArgument := false }
  | .positional text => .argument text

/-- The piece uses an option of the command as it is declared, or does not look
like an option. -/
def Piece.Fits (command : CliCommand) : Piece → Prop
  | .flag opt => opt ∈ command.options ∧ opt.parameter = []
  | .inline opt _ => opt ∈ command.options ∧ opt.parameter ≠ []
  | .separate opt _ => opt ∈ command.options ∧ opt.parameter ≠ []
  | .positional text => startsWithDashDash text = false

structure CommandLine where
  pieces : List Piece
  final : Option (List Bytes)

def CommandLine.render (line : CommandLine) : List Bytes :=
  line.pieces.flatMap Piece.render ++
    match line.final with
    | none => []
    | some texts => dashDash :: texts

def CommandLine.tokens (line : CommandLine) : List OptionValue :=
  line.pieces.map Piece.token ++ (line.final.getD []).map OptionValue.argument

def CommandLine.Fits (command : CliCommand) (line : CommandLine) : Prop :=
  ∀ piece ∈ line.pieces, piece.Fits command

/-- Distinct option names that start with "--", go on and hold no '='. -/
structure CliCommand.WellNamed (command : CliCommand) : Prop where
  distinct : (command.options.map CliOption.longOption).Nodup
  dashes : ∀ opt ∈ command.options, startsWithDashDash opt.longOption = true
  longer : ∀ opt ∈ command.options, 2 < opt.longOption.length
  plain : ∀ opt ∈ command.options, equals ∉ opt.longOption

/-! ### One call on a rendered piece -/

section

variable {command : CliCommand}

theorem CliCommand.WellNamed.findOption (named : command.WellNamed) {opt : CliOption}
    (member : opt ∈ command.options) : command.findOption opt.longOption = some opt := by
  have general (options : List CliOption) (distinct : (options.map CliOption.longOption).Nodup)
      (member : opt ∈ options) :
      options.find? (fun other => other.longOption == opt.longOption) = some opt := by
    induction options with
    | nil => cases member
    | cons first options ih =>
        rw [List.map_cons, List.nodup_cons] at distinct
        rcases List.mem_cons.mp member with rfl | later
        · rw [List.find?_cons, beq_self_eq_true]
        · have different : (first.longOption == opt.longOption) = false := by
            apply beq_false_of_ne
            intro same
            exact distinct.1 (same ▸ List.mem_map_of_mem later)
          rw [List.find?_cons, different]
          exact ih distinct.2 later
  exact general command.options named.distinct member

theorem find_equals_absent {text : Bytes} (plain : equals ∉ text) :
    Search.find text [equals] 0 = none := by
  have skipped : Search.search [equals] (text ++ []) =
      (Search.search [equals] []).map (· + text.length) := Search.search_avoid plain []
  rw [List.append_nil] at skipped
  unfold Search.find
  rw [List.drop_zero, skipped]
  rfl

theorem find_equals_found {name : Bytes} (plain : equals ∉ name) (value : Bytes) :
    Search.find (name ++ equals :: value) [equals] 0 = some name.length := by
  have found : Search.search [equals] (name ++ [equals] ++ value) = some name.length :=
    Search.search_found plain value
  rw [List.append_assoc] at found
  unfold Search.find
  rw [List.drop_zero]
  change Option.map _ (Search.search [equals] (name ++ ([equals] ++ value))) = _
  rw [found]
  rfl

theorem CliCommand.next_option (command : CliCommand) {tok : Bytes}
    (dashes : startsWithDashDash tok = true) (longer : tok ≠ dashDash) (ahead : List Bytes) :
    command.next { ahead := tok :: ahead, argsOnly := false } =
      ((command.nextOption tok ahead).1,
        { ahead := (command.nextOption tok ahead).2, argsOnly := false }) := by
  unfold CliCommand.next
  dsimp only
  rw [if_neg (fun both => longer both.2), if_neg (by rw [dashes]; decide)]

theorem CliCommand.next_positional (command : CliCommand) {text : Bytes}
    (plain : startsWithDashDash text = false) (ahead : List Bytes) :
    command.next { ahead := text :: ahead, argsOnly := false } =
      (.ok (some (.argument text)), { ahead := ahead, argsOnly := false }) := by
  have other : text ≠ dashDash := by
    rintro rfl
    revert plain
    decide
  unfold CliCommand.next
  dsimp only
  rw [if_neg (fun both => other both.2), if_pos (Or.inr plain)]

theorem CliCommand.WellNamed.ne_dashDash (named : command.WellNamed) {opt : CliOption}
    (member : opt ∈ command.options) (behind : Bytes) : opt.longOption ++ behind ≠ dashDash := by
  intro same
  have longer := named.longer opt member
  have lengths := congrArg List.length same
  rw [List.length_append] at lengths
  change opt.longOption.length + behind.length = 2 at lengths
  omega

theorem startsWithDashDash_append {name : Bytes} (dashes : startsWithDashDash name = true)
    (behind : Bytes) : startsWithDashDash (name ++ behind) = true := by
  obtain ⟨rest, rfl⟩ := List.isPrefixOf_iff_prefix.mp dashes
  apply List.isPrefixOf_iff_prefix.mpr
  rw [List.append_assoc]
  exact ⟨rest ++ behind, rfl⟩

theorem CliCommand.WellNamed.next_name (named : command.WellNamed) {opt : CliOption}
    (member : opt ∈ command.options) (value : Bytes) (rest : List Bytes) :
    (opt.parameter = [] →
      command.next { ahead := opt.longOption :: rest, argsOnly := false } =
        (.ok (some { option := opt.longOption, value := [], isArgument := false }),
          { ahead := rest, argsOnly := false })) ∧
    (opt.parameter ≠ [] →
      command.next { ahead := opt.longOption :: value :: rest, argsOnly := false } =
        (.ok (some { option := opt.longOption, value := value, isArgument := false }),
          { ahead := rest, argsOnly := false })) := by
  have other := named.ne_dashDash member []
  rw [List.append_nil] at other
  have absent := find_equals_absent (named.plain opt member)
  constructor
  · intro isFlag
    rw [command.next_option (named.dashes opt member) other]
    simp only [CliCommand.nextOption, absent, named.findOption member, if_pos isFlag]
  · intro valued
    rw [command.next_option (named.dashes opt member) other]
    simp only [CliCommand.nextOption, absent, named.findOption member, if_neg valued]

theorem next_render (named : command.WellNamed) {piece : Piece} (fits : piece.Fits command)
    (rest : List Bytes) :
    command.next { ahead := piece.render ++ rest, argsOnly := false } =
      (.ok (some piece.token), { ahead := rest, argsOnly := false }) := by
  cases piece with
  | positional text => exact command.next_positional fits rest
  | flag opt =>
      obtain ⟨member, isFlag⟩ := fits
      exact (named.next_name member [] rest).1 isFlag
  | inline opt value =>
      obtain ⟨member, valued⟩ := fits
      change command.next
        { ahead := (opt.longOption ++ equals :: value) :: rest, argsOnly := false } = _
      rw [command.next_option (startsWithDashDash_append (named.dashes opt member) _)
        (named.ne_dashDash member _)]
      unfold CliCommand.nextOption
      rw [find_equals_found (named.plain opt member)]
      dsimp only
      rw [List.take_left, named.findOption member]
      dsimp only
      have behind : (opt.longOption ++ equals :: value).drop (opt.longOption.length + 1) =
          value := by
        rw [← List.drop_drop, List.drop_left]
        rfl
      rw [if_neg valued, behind]
      rfl
  | separate opt value =>
      obtain ⟨member, valued⟩ := fits
      exact (named.next_name member value rest).2 valued

/-! ### What a call that succeeds has found -/

theorem findOption_some {name : Bytes} {opt : CliOption}
    (found : command.findOption name = some opt) :
    opt ∈ command.options ∧ opt.longOption = name := by
  unfold CliCommand.findOption at found
  have same := List.find?_some found
  exact ⟨List.mem_of_find?_eq_some found, beq_iff_eq.mp same⟩

theorem nextOption_cases {tok : Bytes} {ahead rest : List Bytes} {r : Option OptionValue}
    (step : command.nextOption tok ahead = (.ok r, rest)) :
    ∃ piece : Piece, piece.Fits command ∧ tok :: ahead = piece.render ++ rest ∧
      r = some piece.token := by
  unfold CliCommand.nextOption at step
  cases eq : Search.find tok [equals] 0 with
  | none =>
      rw [eq] at step
      dsimp only at step
      split at step
      · cases step
      · next opt found =>
          obtain ⟨member, rfl⟩ := findOption_some found
          split at step
          · next isFlag =>
              cases step
              exact ⟨.flag opt, ⟨member, isFlag⟩, rfl, rfl⟩
          · next valued =>
              split at step
              · cases step
              · next value behind =>
                  cases step
                  exact ⟨.separate opt value, ⟨member, valued⟩, rfl, rfl⟩
  | some e =>
      rw [eq] at step
      dsimp only at step
      split at step
      · cases step
      · next opt found =>
          obtain ⟨member, name⟩ := findOption_some found
          split at step
          · cases step
          · next valued =>
              cases step
              refine ⟨.inline opt (tok.drop (e + 1)), ⟨member, valued⟩, ?_, rfl⟩
              have whole : tok = tok.take e ++ equals :: tok.drop (e + 1) := by
                unfold Search.find at eq
                rw [List.drop_zero] at eq
                obtain ⟨offset, hit, rfl⟩ := Option.map_eq_some_iff.mp eq
                obtain ⟨inside, occurs⟩ := Search.search_some hit
                have behind : tok.drop offset = equals :: tok.drop (offset + 1) := by
                  rw [← List.take_append_drop 1 (tok.drop offset), List.drop_drop]
                  exact congrArg (· ++ tok.drop (offset + 1)) occurs
                conv => lhs; rw [← List.take_append_drop offset tok, behind]
                rfl
              change tok :: ahead = [opt.longOption ++ equals :: tok.drop (e + 1)] ++ ahead
              rw [name, ← whole]
              rfl

theorem next_cases {it it' : CmdlineOptionsIterator} {r : Option OptionValue}
    (step : command.next it = (.ok r, it')) :
    (it.ahead = [] ∧ r = none ∧ it' = it) ∨
    (it.argsOnly = true ∧ ∃ text rest, it.ahead = text :: rest ∧ r = some (.argument text) ∧
      it' = { ahead := rest, argsOnly := true }) ∨
    (it.argsOnly = false ∧ it.ahead = [dashDash] ∧ r = none ∧
      it' = { ahead := [], argsOnly := true }) ∨
    (it.argsOnly = false ∧ ∃ text rest, it.ahead = dashDash :: text :: rest ∧
      r = some (.argument text) ∧ it' = { ahead := rest, argsOnly := true }) ∨
    (it.argsOnly = false ∧ ∃ (piece : Piece) (rest : List Bytes), piece.Fits command ∧
      it.ahead = piece.render ++ rest ∧ r = some piece.token ∧
      it' = { ahead := rest, argsOnly := false }) := by
  obtain ⟨elements, argsOnly⟩ := it
  unfold CliCommand.next at step
  cases elements with
  | nil =>
      cases step
      exact Or.inl ⟨rfl, rfl, rfl⟩
  | cons tok ahead =>
      right
      dsimp only at step
      split at step
      · next both =>
          obtain ⟨rfl, rfl⟩ := both
          right
          split at step
          · cases step
            exact Or.inl ⟨rfl, rfl, rfl, rfl⟩
          · next text behind =>
              cases step
              exact Or.inr (Or.inl ⟨rfl, text, behind, rfl, rfl, rfl⟩)
      · split at step
        · next positional =>
            cases step
            cases argsOnly with
            | true => exact Or.inl ⟨rfl, tok, ahead, rfl, rfl, rfl⟩
            | false =>
                have plain := positional.resolve_left (by decide)
                exact Or.inr (Or.inr (Or.inr
                  ⟨rfl, .positional tok, ahead, plain, rfl, rfl, rfl⟩))
        · next option =>
            have live : argsOnly = false := Bool.eq_false_iff.mpr (fun on => option (Or.inl on))
            subst live
            obtain ⟨answer, moved⟩ := Prod.mk.inj step
            obtain ⟨piece, fits, shape, token⟩ :=
              nextOption_cases (Prod.ext answer rfl : command.nextOption tok ahead = (.ok r, _))
            exact Or.inr (Or.inr (Or.inr ⟨rfl, piece, _, fits, shape, token, moved.symm⟩))

theorem next_shrinks {it it' : CmdlineOptionsIterator} {token : OptionValue}
    (step : command.next it = (.ok (some token), it')) : it'.ahead.length < it.ahead.length := by
  rcases next_cases step with ⟨-, impossible, -⟩ | ⟨-, text, rest, shape, -, rfl⟩ |
    ⟨-, -, impossible, -⟩ | ⟨-, text, rest, shape, -, rfl⟩ | ⟨-, piece, rest, -, shape, -, rfl⟩
  · cases impossible
  · rw [shape, List.length_cons]
    exact Nat.lt_succ_self rest.length
  · cases impossible
  · rw [shape, List.length_cons, List.length_cons]
    change rest.length < _
    omega
  · have positive : 0 < piece.render.length := by
      cases piece <;> exact Nat.succ_pos _
    rw [shape, List.length_append]
    change rest.length < _
    omega

/-! ### Runs of calls -/

def CliCommand.calls (command : CliCommand) (it : CmdlineOptionsIterator) (count : Nat) :
    List (Result (Option OptionValue)) × CmdlineOptionsIterator :=
  Machine.run (fun it (_ : Unit) => command.next it) it (List.replicate count ())

theorem calls_succ (it : CmdlineOptionsIterator) (count : Nat) :
    (command.calls it (count + 1)).1 =
      (command.next it).1 :: (command.calls (command.next it).2 count).1 := rfl

/-- The answers that yield these tokens and then the end again and again. -/
def yields (tokens : List OptionValue) (more : Nat) : List (Result (Option OptionValue)) :=
  tokens.map (fun token => .ok (some token)) ++ List.replicate more (.ok none)

theorem calls_done (argsOnly : Bool) (count : Nat) :
    (command.calls { ahead := [], argsOnly := argsOnly } count).1 = yields [] count := by
  induction count with
  | zero => rfl
  | succ count ih =>
      rw [calls_succ]
      exact congrArg (List.cons _) ih

theorem calls_texts (texts : List Bytes) (more : Nat) :
    (command.calls { ahead := texts, argsOnly := true } (texts.length + more)).1 =
      yields (texts.map .argument) more := by
  induction texts with
  | nil =>
      rw [List.length_nil, Nat.zero_add]
      exact calls_done true more
  | cons text texts ih =>
      rw [List.length_cons, Nat.succ_add, calls_succ]
      exact congrArg (List.cons _) ih

variable (command) in
theorem calls_final (final : Option (List Bytes)) (more : Nat) :
    (command.calls
      { ahead := match final with
          | none => []
          | some texts => dashDash :: texts
        argsOnly := false } ((final.getD []).length + more)).1 =
      yields ((final.getD []).map .argument) more := by
  cases final with
  | none =>
      rw [Option.getD_none, List.length_nil, Nat.zero_add]
      exact calls_done false more
  | some texts =>
      cases texts with
      | nil =>
          rw [Option.getD_some, List.length_nil, Nat.zero_add]
          cases more with
          | zero => rfl
          | succ more =>
              rw [calls_succ]
              exact congrArg (List.cons _) (calls_done true more)
      | cons text texts =>
          rw [Option.getD_some, List.length_cons, Nat.succ_add, calls_succ]
          exact congrArg (List.cons _) (calls_texts texts more)

theorem calls_render (named : command.WellNamed) (line : CommandLine) (fits : line.Fits command)
    (more : Nat) :
    (command.calls (.start line.render) (line.tokens.length + more)).1 =
      yields line.tokens more := by
  obtain ⟨pieces, final⟩ := line
  induction pieces with
  | nil =>
      have rest := calls_final command final more
      unfold CommandLine.tokens CommandLine.render
      rw [List.map_nil, List.nil_append, List.length_map]
      exact rest
  | cons piece pieces ih =>
      have first := next_render named (fits piece List.mem_cons_self)
        (CommandLine.render { pieces := pieces, final := final })
      have rest := ih (fun other member => fits other (List.mem_cons_of_mem _ member))
      have shape : CommandLine.render { pieces := piece :: pieces, final := final } =
          piece.render ++ CommandLine.render { pieces := pieces, final := final } := by
        unfold CommandLine.render
        rw [List.flatMap_cons, List.append_assoc]
      have tokens : CommandLine.tokens { pieces := piece :: pieces, final := final } =
          piece.token :: CommandLine.tokens { pieces := pieces, final := final } := rfl
      rw [shape, tokens, List.length_cons, Nat.succ_add, calls_succ]
      unfold CmdlineOptionsIterator.start
      rw [first]
      exact congrArg (List.cons _) rest

def Drains (command : CliCommand) (it : CmdlineOptionsIterator) (tokens : List OptionValue) :
    Prop :=
  (command.calls it (tokens.length + 1)).1 = yields tokens 1

theorem Drains.nil {it : CmdlineOptionsIterator} (drained : Drains command it []) :
    (command.next it).1 = .ok none := by
  unfold Drains at drained
  rw [List.length_nil, calls_succ] at drained
  exact (List.cons.inj drained).1

theorem Drains.cons {it : CmdlineOptionsIterator} {token : OptionValue} {tokens : List OptionValue}
    (drained : Drains command it (token :: tokens)) :
    (command.next it).1 = .ok (some token) ∧ Drains command (command.next it).2 tokens := by
  unfold Drains at drained
  rw [List.length_cons, calls_succ] at drained
  exact ⟨(List.cons.inj drained).1, (List.cons.inj drained).2⟩

theorem Drains.texts {texts : List Bytes} {tokens : List OptionValue}
    (drained : Drains command { ahead := texts, argsOnly := true } tokens) :
    tokens = texts.map .argument := by
  induction tokens generalizing texts with
  | nil =>
      cases texts with
      | nil => rfl
      | cons text texts => cases drained.nil
  | cons token tokens ih =>
      obtain ⟨answer, rest⟩ := drained.cons
      cases texts with
      | nil => cases answer
      | cons text texts =>
          rw [List.map_cons, ← ih rest]
          exact congrArg (· :: tokens) (Option.some.inj (Except.ok.inj answer)).symm

theorem Drains.line {argv : List Bytes} {tokens : List OptionValue}
    (drained : Drains command (.start argv) tokens) :
    ∃ line : CommandLine, line.Fits command ∧ line.render = argv ∧ line.tokens = tokens := by
  induction tokens generalizing argv with
  | nil =>
      have step : command.next (.start argv) = (.ok none, (command.next (.start argv)).2) :=
        Prod.ext drained.nil rfl
      have nothing : ∀ piece ∈ ([] : List Piece), piece.Fits command := fun piece member => by
        cases member
      rcases next_cases step with ⟨empty, -, -⟩ | ⟨impossible, -⟩ | ⟨-, last, -, -⟩ |
        ⟨-, text, rest, -, impossible, -⟩ | ⟨-, piece, rest, -, -, impossible, -⟩
      · exact ⟨{ pieces := [], final := none }, nothing, empty.symm, rfl⟩
      · cases impossible
      · exact ⟨{ pieces := [], final := some [] }, nothing, last.symm, rfl⟩
      · cases impossible
      · cases impossible
  | cons token tokens ih =>
      obtain ⟨answer, rest⟩ := drained.cons
      have step : command.next (.start argv) = (.ok (some token), (command.next (.start argv)).2) :=
        Prod.ext answer rfl
      rcases next_cases step with ⟨-, impossible, -⟩ | ⟨impossible, -⟩ | ⟨-, -, impossible, -⟩ |
        ⟨-, text, behind, shape, same, next⟩ | ⟨-, piece, behind, fits, shape, same, next⟩
      · cases impossible
      · cases impossible
      · cases impossible
      · rw [next] at rest
        refine ⟨{ pieces := [], final := some (text :: behind) }, ?_, shape.symm, ?_⟩
        · intro piece member
          cases member
        · rw [Option.some.inj same, rest.texts]
          rfl
      · rw [next] at rest
        obtain ⟨line, lineFits, rendered, tokensOf⟩ := ih rest
        refine ⟨{ pieces := piece :: line.pieces, final := line.final }, ?_, ?_, ?_⟩
        · intro other member
          rcases List.mem_cons.mp member with rfl | later
          · exact fits
          · exact lineFits other later
        · change argv = _ at shape
          rw [shape, ← rendered]
          unfold CommandLine.render
          rw [List.flatMap_cons, List.append_assoc]
        · rw [Option.some.inj same, ← tokensOf]
          rfl

end

/-- Draining a rendered command line yields its tokens and then the end for ever,
and an argv that drains is the rendering of its tokens in the forms used. -/
theorem cmdline_roundTrip (command : CliCommand) :
    (command.WellNamed → ∀ line : CommandLine, line.Fits command → ∀ more : Nat,
      (command.calls (.start line.render) (line.tokens.length + more)).1 =
        yields line.tokens more) ∧
    ∀ (argv : List Bytes) (tokens : List OptionValue), Drains command (.start argv) tokens →
      ∃ line : CommandLine, line.Fits command ∧ line.render = argv ∧ line.tokens = tokens :=
  ⟨fun named line fits more => calls_render named line fits more,
    fun _ _ drained => drained.line⟩

def doIt : CliCommand :=
  { name := ascii "do-it"
    description := ascii "do the thing"
    argument := some { name := ascii "target", mandatory := true }
    options :=
      [{ longOption := ascii "--loud", description := ascii "be loud", parameter := [] },
        { longOption := ascii "--name", description := ascii "set a name",
          parameter := ascii "VALUE" }]
    few := by decide }

theorem doIt_named : doIt.WellNamed :=
  ⟨by decide, by decide, by decide, by decide⟩

/-- A flag, the value "--" on its own, the value "a=b" behind an equals sign, a
positional, and a second "--" behind the first. -/
def doItLine : CommandLine :=
  { pieces :=
      [.flag { longOption := ascii "--loud", description := ascii "be loud", parameter := [] },
        .separate
          { longOption := ascii "--name", description := ascii "set a name",
            parameter := ascii "VALUE" } (ascii "--"),
        .inline
          { longOption := ascii "--name", description := ascii "set a name",
            parameter := ascii "VALUE" } (ascii "a=b"),
        .positional (ascii "device0")]
    final := some [ascii "--", ascii "--name"] }

theorem doItLine_fits : doItLine.Fits doIt := by
  intro piece member
  simp only [doItLine, List.mem_cons, List.not_mem_nil, or_false] at member
  rcases member with rfl | rfl | rfl | rfl
  · exact ⟨by decide, by decide⟩
  · exact ⟨by decide, by decide⟩
  · exact ⟨by decide, by decide⟩
  · change startsWithDashDash (ascii "device0") = false
    decide

theorem cmdline_roundTrip_doIt :
    doItLine.render =
        [ascii "--loud", ascii "--name", ascii "--", ascii "--name=a=b", ascii "device0",
          ascii "--", ascii "--", ascii "--name"] ∧
      (doIt.calls (.start doItLine.render) (6 + 2)).1 = yields doItLine.tokens 2 ∧
      ∃ line : CommandLine, line.Fits doIt ∧ line.render = doItLine.render ∧
        line.tokens = doItLine.tokens := by
  have both := cmdline_roundTrip doIt
  refine ⟨by decide, both.1 doIt_named doItLine doItLine_fits 2, ?_⟩
  exact both.2 _ _ (both.1 doIt_named doItLine doItLine_fits 1)

end Etlx.Conf
