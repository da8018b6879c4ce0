/-
What `ParseArguments` makes of an argv.

The loop over the tokens is a fold over what the iterator drains, so a command line
is accepted exactly when it drains and holds at most one positional. `parse_cases`
says everything a call can do; which of its cases applies depends on argv alone.
-/

import Etlx.Democli.Cli

namespace Etlx.Conf

variable {command : CliCommand}

theorem drains_nil {it it' : CmdlineOptionsIterator} (step : command.next it = (.ok none, it')) :
    Drains command it [] := by
  unfold Drains
  rw [List.length_nil, calls_succ, step]
  rfl

theorem drains_cons {it it' : CmdlineOptionsIterator} {token : OptionValue}
    {tokens : List OptionValue} (step : command.next it = (.ok (some token), it'))
    (rest : Drains command it' tokens) : Drains command it (token :: tokens) := by
  unfold Drains
  rw [List.length_cons, calls_succ, step, rest]
  rfl

end Etlx.Conf

namespace Etlx.Democli

open Conf (CliCommand CmdlineOptionsIterator OptionValue Drains)

/-! ### The tokens of a command line -/

def positionals (tokens : List OptionValue) : List Bytes :=
  (tokens.filter (fun ov => ov.isArgument)).map OptionValue.value

def stopBefores (tokens : List OptionValue) : List Bytes :=
  (tokens.filter (fun ov => !ov.isArgument && ov.option == stopBeforeName)).map OptionValue.value

def artifactOf (tokens : List OptionValue) : Bytes := (positionals tokens).headD []

def stopBeforeOf (tokens : List OptionValue) : Bytes := (stopBefores tokens).getLastD []

def Collected.of (tokens : List OptionValue) : Collected :=
  { stopBefore := stopBeforeOf tokens
    argument := artifactOf tokens
    haveArgument := !(positionals tokens).isEmpty }

def tooManyArgs {α : Type} : Result α :=
  fail Conf.category Conf.Code.tooManyArgs.value "unexpected extra argument"

section

variable {ov : OptionValue} {tokens : List OptionValue}

theorem positionals_argument (argument : ov.isArgument = true) :
    positionals (ov :: tokens) = ov.value :: positionals tokens := by
  simp [positionals, argument]

theorem positionals_option (option : ov.isArgument = false) :
    positionals (ov :: tokens) = positionals tokens := by
  simp [positionals, option]

theorem stopBefores_argument (argument : ov.isArgument = true) :
    stopBefores (ov :: tokens) = stopBefores tokens := by
  simp [stopBefores, argument]

theorem stopBefores_stop (option : ov.isArgument = false) (stop : ov.option = stopBeforeName) :
    stopBefores (ov :: tokens) = ov.value :: stopBefores tokens := by
  simp [stopBefores, option, stop]

theorem stopBefores_other (other : ov.option ≠ stopBeforeName) :
    stopBefores (ov :: tokens) = stopBefores tokens := by
  simp [stopBefores, other]

end

def gather (c : Collected) : List OptionValue → Result Collected
  | [] => .ok c
  | ov :: tokens =>
      match c.add ov with
      | .error e => .error e
      | .ok c' => gather c' tokens

theorem gather_taken (c : Collected) (taken : c.haveArgument = true) (tokens : List OptionValue) :
    gather c tokens =
      if positionals tokens = [] then
        .ok { c with stopBefore := (stopBefores tokens).getLastD c.stopBefore }
      else tooManyArgs := by
  induction tokens generalizing c with
  | nil => rfl
  | cons ov tokens ih =>
      unfold gather Collected.add
      cases argument : ov.isArgument with
      | true =>
          rw [if_pos rfl, if_pos taken, positionals_argument argument,
            if_neg (List.cons_ne_nil _ _)]
          rfl
      | false =>
          rw [if_neg (by decide), positionals_option argument]
          by_cases stop : ov.option = stopBeforeName
          · rw [if_pos stop, stopBefores_stop argument stop, List.getLastD_cons]
            exact ih { c with stopBefore := ov.value } taken
          · rw [if_neg stop, stopBefores_other stop]
            exact ih c taken

/-- The loop keeps the first positional and the last stop, and a second positional
is refused. -/
theorem gather_free (c : Collected) (free : c.haveArgument = false) (tokens : List OptionValue) :
    gather c tokens =
      if (positionals tokens).length ≤ 1 then
        .ok
          { stopBefore := (stopBefores tokens).getLastD c.stopBefore
            argument := (positionals tokens).headD c.argument
            haveArgument := !(positionals tokens).isEmpty }
      else tooManyArgs := by
  induction tokens generalizing c with
  | nil =>
      obtain ⟨stopBefore, argument, haveArgument⟩ := c
      cases free
      rfl
  | cons ov tokens ih =>
      unfold gather Collected.add
      cases argument : ov.isArgument with
      | true =>
          rw [if_pos rfl, if_neg (by rw [free]; decide), positionals_argument argument,
            stopBefores_argument argument]
          dsimp only
          rw [gather_taken _ rfl tokens]
          cases rest : positionals tokens with
          | nil => rfl
          | cons text texts =>
              rw [if_neg (List.cons_ne_nil _ _), if_neg (by simp)]
      | false =>
          rw [if_neg (by decide), positionals_option argument]
          by_cases stop : ov.option = stopBeforeName
          · rw [if_pos stop, stopBefores_stop argument stop, List.getLastD_cons]
            exact ih { c with stopBefore := ov.value } free
          · rw [if_neg stop, stopBefores_other stop]
            exact ih c free

theorem gather_start (tokens : List OptionValue) :
    gather .start tokens =
      if (positionals tokens).length ≤ 1 then .ok (.of tokens) else tooManyArgs :=
  gather_free .start rfl tokens

/-! ### The loop -/

theorem collect_drains {command : CliCommand} {it : CmdlineOptionsIterator}
    {tokens : List OptionValue} (drained : Drains command it tokens) (c : Collected) :
    collect command it c = gather c tokens := by
  induction tokens generalizing it c with
  | nil =>
      have ended := drained.nil
      rw [collect]
      split
      · next e it' step =>
          rw [step] at ended
          cases ended
      · rfl
      · next ov it' step =>
          rw [step] at ended
          cases ended
  | cons token tokens ih =>
      obtain ⟨answer, rest⟩ := drained.cons
      rw [collect]
      split
      · next e it' step =>
          rw [step] at answer
          cases answer
      · next it' step =>
          rw [step] at answer
          cases answer
      · next ov it' step =>
          rw [step] at answer rest
          cases answer
          unfold gather
          cases c.add token with
          | error e => rfl
          | ok c' => exact ih rest c'

theorem drains_of_collect {command : CliCommand} {it : CmdlineOptionsIterator} {c c' : Collected}
    (collected : collect command it c = .ok c') : ∃ tokens, Drains command it tokens := by
  fun_induction collect command it c with
  | case1 it c e it' step => cases collected
  | case2 it c it' step => exact ⟨[], Conf.drains_nil step⟩
  | case3 it c ov it' step e refused => cases collected
  | case4 it c ov it' step c' added ih =>
      obtain ⟨tokens, rest⟩ := ih collected
      exact ⟨ov :: tokens, Conf.drains_cons step rest⟩

/-! ### The commands of the table -/

theorem findCommand_declared :
    ∀ command ∈ app.commands, app.findCommand command.name = some command := by
  decide +kernel

theorem declared_plain : ∀ command ∈ app.commands,
    ¬(isHelpFlag command.name = true ∨ command.name = ascii "help") := by
  decide

theorem declared_short : ∀ command ∈ app.commands, command.name.length ≤ 32 := by
  decide

theorem dispatch_other {command : CliCommand} (declared : command ∈ app.commands)
    (other : command ≠ installCommand) :
    ∃ action, action ≠ .help ∧ action ≠ .install ∧
      ∀ pool c, dispatch pool command.name c = (.ok action, pool) := by
  simp only [app, List.mem_cons, List.not_mem_nil, or_false] at declared
  rcases declared with rfl | rfl | rfl | rfl | rfl
  · exact ⟨.showArtifact, by decide, by decide, fun _ _ => rfl⟩
  · exact ⟨.checkUpdate, by decide, by decide, fun _ _ => rfl⟩
  · exact absurd rfl other
  · exact ⟨.commit, by decide, by decide, fun _ _ => rfl⟩
  · exact ⟨.rollback, by decide, by decide, fun _ _ => rfl⟩

theorem dispatch_install (pool : ActionPool) (c : Collected) :
    dispatch pool installCommand.name c = (.ok .install, pool.configureInstall c) := rfl

theorem dispatch_ok {command : CliCommand} (declared : command ∈ app.commands) :
    ∃ action, action ≠ .help ∧ ∀ pool c, (dispatch pool command.name c).1 = .ok action := by
  by_cases install : command = installCommand
  · subst install
    exact ⟨.install, by decide, fun _ _ => rfl⟩
  · obtain ⟨action, notHelp, -, dispatched⟩ := dispatch_other declared install
    exact ⟨action, notHelp, fun pool c => by rw [dispatched]⟩

/-! ### What a call can do -/

/-- No command is named, or help is asked for in its place. -/
def TopHelp : List Bytes → Prop
  | _ :: first :: _ => isHelpFlag first = true ∨ first = ascii "help"
  | _ => True

def helpTarget (argv : List Bytes) : Option Bytes := argv[2]?

/-- argv names a declared command and does not ask for its help. -/
structure Walks (argv : List Bytes) (command : CliCommand) (rest : List Bytes) : Prop where
  declared : command ∈ app.commands
  shape : ∃ prog, argv = prog :: command.name :: rest
  noHelp : rest.any isHelpFlag = false

theorem parse_top {argv : List Bytes} (top : TopHelp argv) (pool : ActionPool) :
    parseArguments pool argv =
      (.ok .help,
        match helpTarget argv with
        | none => pool
        | some name => pool.setCommand name) := by
  match argv, top with
  | [], _ => rfl
  | [_], _ => rfl
  | [_, first], asked =>
      change isHelpFlag first = true ∨ first = ascii "help" at asked
      unfold parseArguments
      dsimp only
      rw [if_pos asked]
      rfl
  | _ :: first :: name :: rest, asked =>
      change isHelpFlag first = true ∨ first = ascii "help" at asked
      unfold parseArguments
      dsimp only
      rw [if_pos asked]
      rfl

theorem parse_walks {argv rest : List Bytes} {command : CliCommand}
    (walks : Walks argv command rest)
    (pool : ActionPool) :
    parseArguments pool argv =
      match collect command (.start rest) .start with
      | .error e => (.error e, pool)
      | .ok c => dispatch pool command.name c := by
  obtain ⟨prog, rfl⟩ := walks.shape
  unfold parseArguments parseCommand
  dsimp only
  rw [if_neg (declared_plain command walks.declared), findCommand_declared command walks.declared]
  dsimp only
  rw [walks.noHelp]
  rfl

theorem parse_drained {argv rest : List Bytes} {command : CliCommand} {tokens : List OptionValue}
    (walks : Walks argv command rest) (drained : Drains command (.start rest) tokens)
    (pool : ActionPool) :
    parseArguments pool argv =
      if (positionals tokens).length ≤ 1 then dispatch pool command.name (.of tokens)
      else (tooManyArgs, pool) := by
  rw [parse_walks walks, collect_drains drained, gather_start]
  by_cases few : (positionals tokens).length ≤ 1
  · rw [if_pos few, if_pos few]
  · rw [if_neg few, if_neg few]
    rfl

/-- Everything a call can do: help at the top level, an error, the help of a
command, or the action of a command line that drains. -/
theorem parse_cases (argv : List Bytes) :
    TopHelp argv ∨
    (¬TopHelp argv ∧ ∃ e, ∀ pool, parseArguments pool argv = (.error e, pool)) ∨
    (¬TopHelp argv ∧ (∀ rest command, ¬Walks argv command rest) ∧
      ∃ prog rest, ∃ command ∈ app.commands, argv = prog :: command.name :: rest ∧
        ∀ pool, parseArguments pool argv = (.ok .help, pool.setCommand command.name)) ∨
    ∃ command rest tokens, Walks argv command rest ∧ Drains command (.start rest) tokens ∧
      (positionals tokens).length ≤ 1 ∧
      ∀ pool, parseArguments pool argv = dispatch pool command.name (.of tokens) := by
  match argv with
  | [] => exact Or.inl trivial
  | [_] => exact Or.inl trivial
  | prog :: first :: rest =>
      by_cases top : isHelpFlag first = true ∨ first = ascii "help"
      · exact Or.inl top
      · right
        have parsed (pool : ActionPool) :
            parseArguments pool (prog :: first :: rest) = parseCommand pool first rest := by
          unfold parseArguments
          dsimp only
          rw [if_neg top]
        cases found : app.findCommand first with
        | none =>
            refine Or.inl ⟨top,
              { category := Conf.category, code := Conf.Code.unknownCommand.value,
                message := messageOf first }, fun pool => ?_⟩
            rw [parsed, parseCommand, found]
            rfl
        | some command =>
            obtain ⟨declared, rfl⟩ := Conf.CliApp.findCommand_some found
            cases help : rest.any isHelpFlag with
            | true =>
                refine Or.inr (Or.inl ⟨top, ?_, prog, rest, command, declared, rfl, ?_⟩)
                · intro other otherCommand walks
                  obtain ⟨otherProg, shape⟩ := walks.shape
                  have same : rest = other := (List.cons.inj (List.cons.inj shape).2).2
                  have noHelp := walks.noHelp
                  rw [← same, help] at noHelp
                  cases noHelp
                · intro pool
                  rw [parsed, parseCommand, found]
                  dsimp only
                  rw [if_pos help]
            | false =>
                have walks : Walks (prog :: command.name :: rest) command rest :=
                  ⟨declared, ⟨prog, rfl⟩, help⟩
                cases collected : collect command (.start rest) .start with
                | error e =>
                    refine Or.inl ⟨top, e, fun pool => ?_⟩
                    rw [parse_walks walks, collected]
                | ok c =>
                    obtain ⟨tokens, drained⟩ := drains_of_collect collected
                    have gathered := collect_drains drained .start
                    rw [gather_start, collected] at gathered
                    have few : (positionals tokens).length ≤ 1 := by
                      by_contra many
                      rw [if_neg many] at gathered
                      cases gathered
                    refine Or.inr (Or.inr ⟨command, rest, tokens, walks, drained, few, ?_⟩)
                    intro pool
                    rw [parse_drained walks drained, if_pos few]

/-! ### Conformance -/

def allowed (command : CliCommand) : Nat := if command.argument = none then 0 else 1

/-- An action comes from a command line that the table allows, and one positional
too many is reported. -/
def Conforms (argv : List Bytes) : Prop :=
  (∀ action, (parseArguments .fresh argv).1 = .ok action → action ≠ .help →
    ∃ prog, ∃ command ∈ app.commands, ∃ line : Conf.CommandLine,
      argv = prog :: command.name :: line.render ∧ line.Fits command ∧
      (positionals line.tokens).length ≤ allowed command) ∧
  ∀ command rest tokens, Walks argv command rest → Drains command (.start rest) tokens →
    allowed command < (positionals tokens).length →
    (parseArguments .fresh argv).1 = tooManyArgs

/-- argv conforms unless it gives one positional to a command that declares none. -/
theorem conforms_iff (argv : List Bytes) :
    Conforms argv ↔
      ¬∃ command rest tokens, Walks argv command rest ∧ command.argument = none ∧
        Drains command (.start rest) tokens ∧ (positionals tokens).length = 1 := by
  constructor
  · rintro ⟨-, surplus⟩ ⟨command, rest, tokens, walks, none, drained, one⟩
    have refused := surplus command rest tokens walks drained (by
      rw [allowed, if_pos none, one]
      decide)
    obtain ⟨action, -, dispatched⟩ := dispatch_ok walks.declared
    rw [parse_drained walks drained, if_pos (by omega), dispatched] at refused
    cases refused
  · intro noSurplus
    refine ⟨?_, ?_⟩
    · intro action answered notHelp
      rcases parse_cases argv with top | ⟨-, e, failed⟩ |
        ⟨-, -, prog, rest, command, -, -, helped⟩ |
        ⟨command, rest, tokens, walks, drained, few, -⟩
      · rw [parse_top top] at answered
        exact absurd (Except.ok.inj answered).symm notHelp
      · rw [failed] at answered
        cases answered
      · rw [helped] at answered
        exact absurd (Except.ok.inj answered).symm notHelp
      · obtain ⟨line, fits, rendered, lineTokens⟩ := drained.line
        obtain ⟨prog, shape⟩ := walks.shape
        refine ⟨prog, command, walks.declared, line, ?_, fits, ?_⟩
        · rw [rendered]
          exact shape
        · rw [lineTokens, allowed]
          by_cases none : command.argument = none
          · rw [if_pos none]
            by_contra some
            exact noSurplus ⟨command, rest, tokens, walks, none, drained, by omega⟩
          · rw [if_neg none]
            exact few
    · intro command rest tokens walks drained more
      have many : ¬(positionals tokens).length ≤ 1 := by
        intro few
        unfold allowed at more
        by_cases none : command.argument = none
        · rw [if_pos none] at more
          exact noSurplus ⟨command, rest, tokens, walks, none, drained, by omega⟩
        · rw [if_neg none] at more
          omega
      rw [parse_drained walks drained, if_neg many]

/-- "show-artifact foo": the positional is dropped. -/
theorem conforms_surplus :
    (parseArguments .fresh [ascii "democli", ascii "show-artifact", ascii "foo"]).1 =
        .ok .showArtifact ∧
      ¬Conforms [ascii "democli", ascii "show-artifact", ascii "foo"] := by
  have answered :
      (parseArguments .fresh [ascii "democli", ascii "show-artifact", ascii "foo"]).1 =
        .ok .showArtifact := by
    decide +kernel
  have walks : Walks [ascii "democli", ascii "show-artifact", ascii "foo"] showArtifactCommand
      [ascii "foo"] := ⟨by decide, ⟨ascii "democli", rfl⟩, by decide⟩
  refine ⟨answered, ?_⟩
  rintro ⟨-, surplus⟩
  have drained : Drains showArtifactCommand (.start [ascii "foo"]) [.argument (ascii "foo")] := by
    unfold Drains
    decide +kernel
  have refused := surplus showArtifactCommand [ascii "foo"] _ walks drained (by decide)
  rw [answered] at refused
  cases refused

end Etlx.Democli
