/-
The declarative command line: commands with their options, the iterator that walks
argv against a command, and the help texts.

Elements of argv are byte strings. The iterator keeps the elements ahead of it and
whether a "--" has been seen; each call of `Next` yields a token, the end, or an
error that carries the offending name.
-/

import Etlx.Io.Io
import Etlx.Lib.Search

namespace Etlx.Conf

open Ascii

def category : Category := { name := "conf" }

inductive Code
  | none
  | unknownCommand
  | unknownOption
  | missingValue
  | unexpectedValue
  | tooManyArgs
deriving DecidableEq, Repr

def Code.value : Code → Int
  | .none => 0
  | .unknownCommand => 1
  | .unknownOption => 2
  | .missingValue => 3
  | .unexpectedValue => 4
  | .tooManyArgs => 5

/-- A long option; an empty `parameter` marks a flag. -/
structure CliOption where
  longOption : Bytes
  description : Bytes
  parameter : Bytes
deriving DecidableEq, Repr

structure CliArgument where
  name : Bytes
  mandatory : Bool
deriving DecidableEq, Repr

def maxOptions : Nat := 8

def maxCommands : Nat := 16

structure CliCommand where
  name : Bytes
  description : Bytes
  argument : Option CliArgument
  options : List CliOption
  few : options.length ≤ maxOptions
deriving DecidableEq

theorem noOptions_few : ([] : List CliOption).length ≤ maxOptions := Nat.zero_le _

structure CliApp where
  name : Bytes
  shortDescription : Bytes
  longDescription : Bytes
  commands : List CliCommand
  few : commands.length ≤ maxCommands

structure OptionValue where
  option : Bytes
  value : Bytes
  isArgument : Bool
deriving DecidableEq, Repr

/-! ### The iterator -/

structure CmdlineOptionsIterator where
  ahead : List Bytes
  argsOnly : Bool
deriving DecidableEq, Repr

def CmdlineOptionsIterator.start (argv : List Bytes) : CmdlineOptionsIterator :=
  { ahead := argv, argsOnly := false }

def dashDash : Bytes := [minus, minus]

def startsWithDashDash (s : Bytes) : Bool := dashDash.isPrefixOf s

def CliCommand.findOption (command : CliCommand) (name : Bytes) : Option CliOption :=
  command.options.find? (fun opt => opt.longOption == name)

def OptionValue.argument (text : Bytes) : OptionValue :=
  { option := [], value := text, isArgument := true }

/-- The part of `Next` behind the test for a positional: `tok` is an option. -/
def CliCommand.nextOption (command : CliCommand) (tok : Bytes) (ahead : List Bytes) :
    Result (Option OptionValue) × List Bytes :=
  let eq := Search.find tok [equals] 0
  let name := match eq with
    | none => tok
    | some e => tok.take e
  match command.findOption name with
  | none => (fail category Code.unknownOption.value (messageOf name), ahead)
  | some opt =>
      if opt.parameter = [] then
        match eq with
        | some _ => (fail category Code.unexpectedValue.value (messageOf name), ahead)
        | none =>
            (.ok (some { option := opt.longOption, value := [], isArgument := false }), ahead)
      else
        match eq with
        | some e =>
            (.ok (some
              { option := opt.longOption, value := tok.drop (e + 1), isArgument := false }), ahead)
        | none =>
            match ahead with
            | [] => (fail category Code.missingValue.value (messageOf name), [])
            | value :: ahead =>
                (.ok (some { option := opt.longOption, value := value, isArgument := false }),
                  ahead)

def CliCommand.next (command : CliCommand) (it : CmdlineOptionsIterator) :
    Result (Option OptionValue) × CmdlineOptionsIterator :=
  match it.ahead with
  | [] => (.ok none, it)
  | tok :: ahead =>
      if it.argsOnly = false ∧ tok = dashDash then
        match ahead with
        | [] => (.ok none, { ahead := [], argsOnly := true })
        | tok :: ahead =>
            (.ok (some (.argument tok)), { ahead := ahead, argsOnly := true })
      else if it.argsOnly ∨ startsWithDashDash tok = false then
        (.ok (some (.argument tok)), { it with ahead := ahead })
      else
        let outcome := command.nextOption tok ahead
        (outcome.1, { it with ahead := outcome.2 })

def CliApp.findCommand (app : CliApp) (name : Bytes) : Option CliCommand :=
  app.commands.find? (fun command => command.name == name)

theorem CliApp.findCommand_some {app : CliApp} {name : Bytes} {command : CliCommand}
    (found : app.findCommand name = some command) :
    command ∈ app.commands ∧ command.name = name := by
  have named : (command.name == name) = true :=
    (List.find?_eq_some_iff_append.mp found).1
  exact ⟨List.mem_of_find?_eq_some found, beq_iff_eq.mp named⟩

/-! ### Help -/

/-- The calls of `Put` up to the first that fails. -/
def putAll {τ : Type} (out : Io.Writer τ) : τ → List Bytes → Status × τ
  | t, [] => (.ok (), t)
  | t, piece :: pieces =>
      match out t piece with
      | (.error e, t') => (.error e, t')
      | (.ok (), t') => putAll out t' pieces

/-- `PutPadded`: the text, then one space at a time. -/
def padded (s : Bytes) (width : Nat) : List Bytes :=
  s :: List.replicate (width - s.length) [space]

/-- What `PrintCliHelp` puts, call by call. -/
def CliApp.helpPieces (app : CliApp) : List Bytes :=
  [app.name] ++
    (if app.shortDescription ≠ [] then [ascii " - ", app.shortDescription] else []) ++
    [ascii "\n\n"] ++
    (if app.longDescription ≠ [] then [app.longDescription, ascii "\n\n"] else []) ++
    [ascii "Usage:\n  ", app.name, ascii " <command> [options] [arguments]\n\nCommands:\n"] ++
    app.commands.flatMap (fun command =>
      [ascii "  "] ++ padded command.name 16 ++ [command.description, ascii "\n"])

def CliOption.helpPieces (opt : CliOption) : List Bytes :=
  [ascii "  ", opt.longOption] ++
    (if opt.parameter ≠ [] then [ascii " ", opt.parameter] else []) ++
    [ascii "\n      ", opt.description, ascii "\n"]

def CliArgument.helpPieces (argument : CliArgument) : List Bytes :=
  [if argument.mandatory then ascii " <" else ascii " [", argument.name,
    if argument.mandatory then ascii ">" else ascii "]"]

def CliCommand.helpPieces (command : CliCommand) (appName : Bytes) : List Bytes :=
  [ascii "Usage:\n  ", appName, ascii " ", command.name] ++
    (if command.options ≠ [] then [ascii " [options]"] else []) ++
    (match command.argument with
      | none => []
      | some argument => argument.helpPieces) ++
    [ascii "\n\n"] ++
    (if command.description ≠ [] then [command.description, ascii "\n"] else []) ++
    (if command.options ≠ [] then
      ascii "\nOptions:\n" :: command.options.flatMap CliOption.helpPieces
    else [])

def printCliHelp {τ : Type} (app : CliApp) (out : Io.Writer τ) (t : τ) : Status × τ :=
  putAll out t app.helpPieces

def printCliCommandHelp {τ : Type} (app : CliApp) (command : Bytes) (out : Io.Writer τ) (t : τ) :
    Status × τ :=
  match app.findCommand command with
  | none => (fail category Code.unknownCommand.value (messageOf command), t)
  | some cmd => putAll out t (cmd.helpPieces app.name)

end Etlx.Conf
