/-
`ParseArguments`: from argv to an action of the pool.
-/

import Etlx.Democli.Actions
import Etlx.Conf.CliRoundTrip

namespace Etlx.Democli

def isHelpFlag (s : Bytes) : Bool := s == ascii "--help" || s == ascii "-h"

structure Collected where
  stopBefore : Bytes
  argument : Bytes
  haveArgument : Bool
deriving DecidableEq

def Collected.start : Collected := { stopBefore := [], argument := [], haveArgument := false }

def Collected.add (c : Collected) (ov : Conf.OptionValue) : Result Collected :=
  if ov.isArgument then
    if c.haveArgument then
      fail Conf.category Conf.Code.tooManyArgs.value "unexpected extra argument"
    else .ok { c with argument := ov.value, haveArgument := true }
  else if ov.option = stopBeforeName then .ok { c with stopBefore := ov.value }
  else .ok c

/-- The loop, until the iterator is done or an error leaves it. -/
def collect (command : Conf.CliCommand) (it : Conf.CmdlineOptionsIterator) (c : Collected) :
    Result Collected :=
  match _step : command.next it with
  | (.error e, _) => .error e
  | (.ok none, _) => .ok c
  | (.ok (some ov), it') =>
      match c.add ov with
      | .error e => .error e
      | .ok c' => collect command it' c'
termination_by it.ahead.length
decreasing_by exact Conf.next_shrinks _step

def ActionPool.setCommand (pool : ActionPool) (name : Bytes) : ActionPool :=
  { pool with command := .assign name }

/-- The setters of the install action, each under its condition. -/
def ActionPool.configureInstall (pool : ActionPool) (c : Collected) : ActionPool :=
  let pool := if c.haveArgument then { pool with artifact := .assign c.argument } else pool
  if c.stopBefore ≠ [] then { pool with stopBefore := .assign c.stopBefore } else pool

def dispatch (pool : ActionPool) (cmdName : Bytes) (c : Collected) : Result Action × ActionPool :=
  if cmdName = ascii "show-artifact" then (.ok .showArtifact, pool)
  else if cmdName = ascii "check-update" then (.ok .checkUpdate, pool)
  else if cmdName = ascii "install" then (.ok .install, pool.configureInstall c)
  else if cmdName = ascii "commit" then (.ok .commit, pool)
  else if cmdName = ascii "rollback" then (.ok .rollback, pool)
  else
    (fail Conf.category Conf.Code.unknownCommand.value (messageOf cmdName), pool)

def parseCommand (pool : ActionPool) (cmdName : Bytes) (rest : List Bytes) :
    Result Action × ActionPool :=
  match app.findCommand cmdName with
  | none => (fail Conf.category Conf.Code.unknownCommand.value (messageOf cmdName), pool)
  | some cmd =>
      if rest.any isHelpFlag then (.ok .help, pool.setCommand cmdName)
      else
        match collect cmd (.start rest) .start with
        | .error e => (.error e, pool)
        | .ok c => dispatch pool cmdName c

def parseArguments (pool : ActionPool) (argv : List Bytes) : Result Action × ActionPool :=
  match argv with
  | [] => (.ok .help, pool)
  | [_] => (.ok .help, pool)
  | _ :: first :: rest =>
      if isHelpFlag first ∨ first = ascii "help" then
        match rest with
        | [] => (.ok .help, pool)
        | name :: _ => (.ok .help, pool.setCommand name)
      else parseCommand pool first rest

/-- The pool after earlier calls in the same process. -/
def ActionPool.after (pool : ActionPool) (history : List (List Bytes)) : ActionPool :=
  history.foldl (fun pool argv => (parseArguments pool argv).2) pool

end Etlx.Democli
