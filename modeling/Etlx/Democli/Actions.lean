/-
The actions of democli and the pool they live in.

There is one object of each action, in static storage. Parsing configures the
object it returns a pointer to, so a field that is not set keeps what an earlier
call left in it.
-/

import Etlx.Conf.Cli
import Etlx.Lib.Bounded
import Etlx.Sm.UpdateFsm

namespace Etlx.Democli

def category : Category := { name := "democli" }

inductive ExitCode
  | ok
  | error
  | noUpdate
  | rebootNeeded

def ExitCode.value : ExitCode → Int
  | .ok => 0
  | .error => 1
  | .noUpdate => 2
  | .rebootNeeded => 4

/-! ### The command table -/

def stopBeforeName : Bytes := ascii "--stop-before"

def showArtifactCommand : Conf.CliCommand :=
  { name := ascii "show-artifact"
    description := ascii "Print the currently installed artifact name"
    argument := none, options := [], few := Conf.noOptions_few }

def checkUpdateCommand : Conf.CliCommand :=
  { name := ascii "check-update"
    description := ascii "Query for a newer artifact and report the result"
    argument := none, options := [], few := Conf.noOptions_few }

def installCommand : Conf.CliCommand :=
  { name := ascii "install"
    description := ascii "Download, verify and install an artifact"
    argument := some { name := ascii "artifact", mandatory := true }
    options :=
      [{ longOption := stopBeforeName, description := ascii "Halt the workflow before STATE"
         parameter := ascii "STATE" }]
    few := by decide }

def commitCommand : Conf.CliCommand :=
  { name := ascii "commit"
    description := ascii "Commit a pending update (exit 2 if none)"
    argument := none
    options :=
      [{ longOption := stopBeforeName, description := ascii "Halt before the given state"
         parameter := ascii "STATE" }]
    few := by decide }

def rollbackCommand : Conf.CliCommand :=
  { name := ascii "rollback"
    description := ascii "Roll back a pending update (exit 2 if none)"
    argument := none
    options :=
      [{ longOption := stopBeforeName, description := ascii "Halt before the given state"
         parameter := ascii "STATE" }]
    few := by decide }

def app : Conf.CliApp :=
  { name := ascii "democli"
    shortDescription := ascii "demo OTA-style CLI built on the etlx template"
    longDescription :=
      ascii "Mirrors the Mender update CLI command model: a declarative command\n" ++
        ascii "table plus polymorphic actions, with no heap or exceptions."
    commands :=
      [showArtifactCommand, checkUpdateCommand, installCommand, commitCommand, rollbackCommand]
    few := by decide }

/-! ### The pool -/

inductive Action
  | showArtifact
  | checkUpdate
  | install
  | commit
  | rollback
  | help
deriving DecidableEq, Repr

/-- The fields of the actions in the pool; the others have none. -/
structure ActionPool where
  artifact : Bounded 128 UInt8
  stopBefore : Bounded 32 UInt8
  command : Bounded 32 UInt8
deriving DecidableEq

def ActionPool.fresh : ActionPool := { artifact := .empty, stopBefore := .empty, command := .empty }

/-! ### Executing -/

section

variable {τ : Type} (out : Io.Writer τ)

/-- Calls of `Put` whose results are ignored. -/
def say (t : τ) (pieces : List Bytes) : τ := pieces.foldl (fun t piece => (out t piece).2) t

def exitWith (code : ExitCode) (message : String) : Option Error :=
  some { category := category, code := code.value, message := message }

def phases : List Bytes := [ascii "download", ascii "verify", ascii "install"]

/-- The loop over the phases, which steps the machine after each of them. -/
def installPhases (stopBefore : Bytes) : List Bytes → τ → Sm.State → Option Error × τ × Sm.State
  | [], t, fsm =>
      (exitWith .rebootNeeded "reboot required",
        say out t [ascii "install complete; reboot required\n"], fsm)
  | phase :: later, t, fsm =>
      if stopBefore ≠ [] ∧ stopBefore = phase then
        (none, say out t [ascii "stopping before ", phase, ascii "\n"], fsm)
      else
        installPhases stopBefore later (say out t [ascii "  ", phase, ascii " ok\n"])
          (fsm.receive .next)

def executeInstall (pool : ActionPool) (t : τ) : Option Error × τ :=
  if pool.artifact.items = [] then
    (exitWith .error "install requires an artifact argument", t)
  else
    let t := say out t [ascii "installing ", pool.artifact.items, ascii "\n"]
    let outcome := installPhases out pool.stopBefore.items phases t (Sm.State.idle.receive .start)
    (outcome.1, outcome.2.1)

def executeHelp (pool : ActionPool) (t : τ) : Option Error × τ :=
  if pool.command.items = [] then
    match Conf.printCliHelp app out t with
    | (.ok (), t') => (none, t')
    | (.error _, t') => (exitWith .error "help failed", t')
  else
    match Conf.printCliCommandHelp app pool.command.items out t with
    | (.ok (), t') => (none, t')
    | (.error e, t') => (some e, t')

def Action.execute (pool : ActionPool) (action : Action) (t : τ) : Option Error × τ :=
  match action with
  | .showArtifact => (none, say out t [ascii "artifact: device-image-1.0.0\n"])
  | .checkUpdate =>
      (none, say out t
        [ascii "current:   device-image-1.0.0\n", ascii "available: device-image-1.1.0\n",
          ascii "update available\n"])
  | .install => executeInstall out pool t
  | .commit =>
      (exitWith .noUpdate "no update to commit", say out t [ascii "no update in progress\n"])
  | .rollback =>
      (exitWith .noUpdate "no update to roll back", say out t [ascii "no update in progress\n"])
  | .help => executeHelp out pool t

end

end Etlx.Democli
