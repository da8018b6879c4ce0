/-
What earlier calls of `ParseArguments` leave behind for a later one.

A setter that is not called keeps the field as it was, and a setter that is called
cuts the value to the capacity of the field. A call behaves as in a fresh process,
with exactly the values of its argv, when it sets every field that its action reads
or finds it empty, and the values fit.
-/

import Etlx.Democli.Parse
import Mathlib.Data.List.TakeDrop

namespace Etlx.Democli

open Conf (Drains)

/-- The command whose help argv asks for, empty when it names none. -/
def namedCommand : List Bytes → Bytes
  | _ :: first :: rest =>
      if isHelpFlag first ∨ first = ascii "help" then rest.headD [] else first
  | _ => []

/-- The call answers as in a fresh process, its action does the same on every
writer, and the action carries what this argv says. -/
structure HistoryFree (history : List (List Bytes)) (argv : List Bytes) : Prop where
  action : (parseArguments (ActionPool.fresh.after history) argv).1 =
    (parseArguments .fresh argv).1
  execution : ∀ action, (parseArguments (ActionPool.fresh.after history) argv).1 = .ok action →
    ∀ (τ : Type) (out : Io.Writer τ) (t : τ),
      action.execute out (parseArguments (ActionPool.fresh.after history) argv).2 t =
        action.execute out (parseArguments .fresh argv).2 t
  install : (parseArguments (ActionPool.fresh.after history) argv).1 = .ok .install →
    ∀ command rest tokens, Walks argv command rest → Drains command (.start rest) tokens →
      (parseArguments (ActionPool.fresh.after history) argv).2.artifact.items =
          artifactOf tokens ∧
        (parseArguments (ActionPool.fresh.after history) argv).2.stopBefore.items =
          stopBeforeOf tokens
  help : (parseArguments (ActionPool.fresh.after history) argv).1 = .ok .help →
    (parseArguments (ActionPool.fresh.after history) argv).2.command.items =
      namedCommand argv

/-- The fields that the action of argv reads and argv does not set are empty in
the pool, and the values that argv gives fit. -/
structure Clean (pool : ActionPool) (argv : List Bytes) : Prop where
  artifact : ∀ rest tokens, Walks argv installCommand rest →
    Drains installCommand (.start rest) tokens → (positionals tokens).length ≤ 1 →
    (positionals tokens = [] → pool.artifact.items = []) ∧ (artifactOf tokens).length ≤ 128
  stopBefore : ∀ rest tokens, Walks argv installCommand rest →
    Drains installCommand (.start rest) tokens → (positionals tokens).length ≤ 1 →
    (stopBeforeOf tokens = [] → pool.stopBefore.items = []) ∧ (stopBeforeOf tokens).length ≤ 32
  command : TopHelp argv →
    (helpTarget argv = none → pool.command.items = []) ∧ ((helpTarget argv).getD []).length ≤ 32

/-! ### Setters -/

theorem assign_items_iff {capacity : Nat} (text : Bytes) :
    (Bounded.assign text : Bounded capacity UInt8).items = text ↔ text.length ≤ capacity :=
  List.take_eq_self_iff text

/-- Each setter works on a field of its own. -/
theorem configureInstall_eq (pool : ActionPool) (c : Collected) :
    pool.configureInstall c =
      { pool with
        artifact := if c.haveArgument = true then .assign c.argument else pool.artifact
        stopBefore := if c.stopBefore ≠ [] then .assign c.stopBefore else pool.stopBefore } := by
  unfold ActionPool.configureInstall
  by_cases have_ : c.haveArgument = true
  · by_cases stop : c.stopBefore ≠ []
    · simp [have_, stop]
    · simp [have_, stop]
  · by_cases stop : c.stopBefore ≠ []
    · simp [have_, stop]
    · simp [have_, stop]

theorem artifact_iff (pool : ActionPool) (tokens : List Conf.OptionValue) :
    (pool.configureInstall (.of tokens)).artifact.items = artifactOf tokens ↔
      (positionals tokens = [] → pool.artifact.items = []) ∧ (artifactOf tokens).length ≤ 128 := by
  rw [configureInstall_eq]
  unfold Collected.of artifactOf
  cases positionals tokens with
  | nil => simp
  | cons text texts =>
      have set : (!(text :: texts).isEmpty) = true := rfl
      dsimp only
      rw [if_pos set, assign_items_iff]
      simp

theorem stopBefore_iff (pool : ActionPool) (tokens : List Conf.OptionValue) :
    (pool.configureInstall (.of tokens)).stopBefore.items = stopBeforeOf tokens ↔
      (stopBeforeOf tokens = [] → pool.stopBefore.items = []) ∧
        (stopBeforeOf tokens).length ≤ 32 := by
  have value : (Collected.of tokens).stopBefore = stopBeforeOf tokens := rfl
  rw [configureInstall_eq, value]
  dsimp only
  by_cases given : stopBeforeOf tokens = []
  · rw [if_neg (by simpa using given), given]
    simp
  · rw [if_pos given, assign_items_iff]
    simp [given]

theorem command_iff (pool : ActionPool) (target : Option Bytes) :
    (match target with
      | none => pool
      | some name => pool.setCommand name).command.items = target.getD [] ↔
      (target = none → pool.command.items = []) ∧ (target.getD []).length ≤ 32 := by
  cases target with
  | none => simp
  | some name =>
      change (Bounded.assign name : Bounded 32 UInt8).items = name ↔ _
      rw [assign_items_iff]
      simp

/-! ### Executing reads nothing else -/

theorem executeInstall_congr {pool other : ActionPool} {τ : Type}
    (artifact : pool.artifact.items = other.artifact.items)
    (stopBefore : pool.stopBefore.items = other.stopBefore.items) (out : Io.Writer τ) (t : τ) :
    Action.install.execute out pool t = Action.install.execute out other t := by
  change executeInstall out pool t = executeInstall out other t
  unfold executeInstall
  rw [artifact, stopBefore]

theorem executeHelp_congr {pool other : ActionPool} {τ : Type}
    (command : pool.command.items = other.command.items) (out : Io.Writer τ) (t : τ) :
    Action.help.execute out pool t = Action.help.execute out other t := by
  change executeHelp out pool t = executeHelp out other t
  unfold executeHelp
  rw [command]

theorem execute_other {action : Action} (notInstall : action ≠ .install) (notHelp : action ≠ .help)
    {τ : Type} (out : Io.Writer τ) (pool other : ActionPool) (t : τ) :
    action.execute out pool t = action.execute out other t := by
  cases action with
  | install => exact absurd rfl notInstall
  | help => exact absurd rfl notHelp
  | showArtifact => rfl
  | checkUpdate => rfl
  | commit => rfl
  | rollback => rfl

/-! ### The cases of a call -/

theorem namedCommand_top {argv : List Bytes} (top : TopHelp argv) :
    namedCommand argv = (helpTarget argv).getD [] := by
  match argv, top with
  | [], _ => rfl
  | [_], _ => rfl
  | [_, first], asked =>
      change isHelpFlag first = true ∨ first = ascii "help" at asked
      rw [namedCommand, if_pos asked]
      rfl
  | _ :: first :: name :: rest, asked =>
      change isHelpFlag first = true ∨ first = ascii "help" at asked
      rw [namedCommand, if_pos asked]
      rfl

theorem namedCommand_command {prog name : Bytes} {rest : List Bytes}
    (notTop : ¬TopHelp (prog :: name :: rest)) : namedCommand (prog :: name :: rest) = name := by
  change ¬(isHelpFlag name = true ∨ name = ascii "help") at notTop
  rw [namedCommand, if_neg notTop]

theorem parse_install {argv rest : List Bytes} {tokens : List Conf.OptionValue}
    (walks : Walks argv installCommand rest) (drained : Drains installCommand (.start rest) tokens)
    (few : (positionals tokens).length ≤ 1) (pool : ActionPool) :
    parseArguments pool argv = (.ok .install, pool.configureInstall (.of tokens)) := by
  rw [parse_drained walks drained, if_pos few, dispatch_install]

theorem Walks.unique {argv rest other : List Bytes} {command another : Conf.CliCommand}
    (walks : Walks argv command rest) (again : Walks argv another other) : command = another := by
  obtain ⟨prog, shape⟩ := walks.shape
  obtain ⟨prog', shape'⟩ := again.shape
  have names : command.name = another.name :=
    (List.cons.inj (List.cons.inj (shape.symm.trans shape')).2).1
  have found := findCommand_declared command walks.declared
  rw [names, findCommand_declared another again.declared] at found
  exact (Option.some.inj found).symm

theorem HistoryFree.clean {history : List (List Bytes)} {argv : List Bytes}
    (free : HistoryFree history argv) : Clean (ActionPool.fresh.after history) argv where
  artifact rest tokens walks drained few := by
    have carried := free.install (by rw [parse_install walks drained few]) installCommand rest
      tokens walks drained
    rw [parse_install walks drained few] at carried
    exact (artifact_iff _ tokens).mp carried.1
  stopBefore rest tokens walks drained few := by
    have carried := free.install (by rw [parse_install walks drained few]) installCommand rest
      tokens walks drained
    rw [parse_install walks drained few] at carried
    exact (stopBefore_iff _ tokens).mp carried.2
  command top := by
    have carried := free.help (by rw [parse_top top])
    rw [parse_top top, namedCommand_top top] at carried
    exact (command_iff _ (helpTarget argv)).mp carried

section

variable {history : List (List Bytes)} {argv : List Bytes}

theorem Clean.free_top (clean : Clean (ActionPool.fresh.after history) argv)
    (top : TopHelp argv) : HistoryFree history argv := by
  have fits := clean.command top
  have now := (command_iff (ActionPool.fresh.after history) (helpTarget argv)).mpr fits
  have fresh := (command_iff .fresh (helpTarget argv)).mpr ⟨fun _ => rfl, fits.2⟩
  refine ⟨?_, ?_, ?_, ?_⟩
  · rw [parse_top top, parse_top top]
  · intro action answered τ out t
    rw [parse_top top] at answered
    cases answered
    rw [parse_top top, parse_top top]
    exact executeHelp_congr (now.trans fresh.symm) out t
  · intro impossible
    rw [parse_top top] at impossible
    cases impossible
  · intro _
    rw [parse_top top, namedCommand_top top]
    exact now

theorem historyFree_error {e : Error}
    (failed : ∀ pool, parseArguments pool argv = (.error e, pool)) : HistoryFree history argv := by
  refine ⟨?_, ?_, ?_, ?_⟩
  · rw [failed, failed]
  · intro action impossible
    rw [failed] at impossible
    cases impossible
  · intro impossible
    rw [failed] at impossible
    cases impossible
  · intro impossible
    rw [failed] at impossible
    cases impossible

theorem historyFree_help {prog : Bytes} {rest : List Bytes} {command : Conf.CliCommand}
    (notTop : ¬TopHelp argv) (declared : command ∈ app.commands)
    (shape : argv = prog :: command.name :: rest)
    (helped : ∀ pool, parseArguments pool argv = (.ok .help, pool.setCommand command.name)) :
    HistoryFree history argv := by
  refine ⟨?_, ?_, ?_, ?_⟩
  · rw [helped, helped]
  · intro action answered τ out t
    rw [helped] at answered
    cases answered
    rw [helped, helped]
    exact executeHelp_congr rfl out t
  · intro impossible
    rw [helped] at impossible
    cases impossible
  · intro _
    rw [helped]
    subst shape
    rw [namedCommand_command notTop]
    exact (assign_items_iff _).mpr (declared_short command declared)

theorem Clean.free_install {rest : List Bytes} {tokens : List Conf.OptionValue}
    (clean : Clean (ActionPool.fresh.after history) argv) (walks : Walks argv installCommand rest)
    (drained : Drains installCommand (.start rest) tokens)
    (few : (positionals tokens).length ≤ 1) : HistoryFree history argv := by
  have parsed := parse_install walks drained few
  have artifact := clean.artifact rest tokens walks drained few
  have stopBefore := clean.stopBefore rest tokens walks drained few
  refine ⟨?_, ?_, ?_, ?_⟩
  · rw [parsed, parsed]
  · intro action answered τ out t
    rw [parsed] at answered
    cases answered
    rw [parsed, parsed]
    apply executeInstall_congr
    · rw [(artifact_iff _ tokens).mpr artifact,
        (artifact_iff .fresh tokens).mpr ⟨fun _ => rfl, artifact.2⟩]
    · rw [(stopBefore_iff _ tokens).mpr stopBefore,
        (stopBefore_iff .fresh tokens).mpr ⟨fun _ => rfl, stopBefore.2⟩]
  · intro answered command other others again drainedAgain
    have same := walks.unique again
    subst same
    have fewAgain : (positionals others).length ≤ 1 := by
      by_contra many
      rw [parse_drained again drainedAgain, if_neg many] at answered
      cases answered
    rw [parse_install again drainedAgain fewAgain]
    exact ⟨(artifact_iff _ others).mpr (clean.artifact other others again drainedAgain fewAgain),
      (stopBefore_iff _ others).mpr (clean.stopBefore other others again drainedAgain fewAgain)⟩
  · intro impossible
    rw [parsed] at impossible
    cases impossible

theorem historyFree_other {action : Action} (notHelp : action ≠ .help)
    (notInstall : action ≠ .install)
    (parsed : ∀ pool, parseArguments pool argv = (.ok action, pool)) :
    HistoryFree history argv := by
  refine ⟨?_, ?_, ?_, ?_⟩
  · rw [parsed, parsed]
  · intro other answered τ out t
    rw [parsed] at answered
    cases answered
    exact execute_other notInstall notHelp out _ _ t
  · intro impossible
    rw [parsed] at impossible
    exact absurd (Except.ok.inj impossible) notInstall
  · intro impossible
    rw [parsed] at impossible
    exact absurd (Except.ok.inj impossible) notHelp

theorem Clean.free (clean : Clean (ActionPool.fresh.after history) argv) :
    HistoryFree history argv := by
  rcases parse_cases argv with top | ⟨-, e, failed⟩ |
    ⟨notTop, -, prog, rest, command, declared, shape, helped⟩ |
    ⟨command, rest, tokens, walks, drained, few, parsed⟩
  · exact clean.free_top top
  · exact historyFree_error failed
  · exact historyFree_help notTop declared shape helped
  · by_cases install : command = installCommand
    · subst install
      exact clean.free_install walks drained few
    · obtain ⟨action, notHelp, notInstall, dispatched⟩ := dispatch_other walks.declared install
      exact historyFree_other notHelp notInstall (fun pool => by rw [parsed, dispatched])

end

/-- After every history, a call is as in a fresh process and carries its own values
exactly when the pool it finds is clean for it. -/
theorem historyFree_iff (history : List (List Bytes)) (argv : List Bytes) :
    HistoryFree history argv ↔ Clean (ActionPool.fresh.after history) argv :=
  ⟨HistoryFree.clean, Clean.free⟩

/-- An install without an artifact, after one with "img": it installs "img". -/
theorem historyFree_leak :
    (parseArguments (ActionPool.fresh.after [[ascii "democli", ascii "install", ascii "img"]])
        [ascii "democli", ascii "install"]).2.artifact.items = ascii "img" ∧
      ¬HistoryFree [[ascii "democli", ascii "install", ascii "img"]]
        [ascii "democli", ascii "install"] := by
  have carried : (parseArguments
      (ActionPool.fresh.after [[ascii "democli", ascii "install", ascii "img"]])
      [ascii "democli", ascii "install"]).2.artifact.items = ascii "img" := by
    decide +kernel
  have answered : (parseArguments
      (ActionPool.fresh.after [[ascii "democli", ascii "install", ascii "img"]])
      [ascii "democli", ascii "install"]).1 = .ok .install := by
    decide +kernel
  have walks : Walks [ascii "democli", ascii "install"] installCommand [] :=
    ⟨by decide, ⟨ascii "democli", rfl⟩, rfl⟩
  refine ⟨carried, ?_⟩
  intro free
  have empty := (free.install answered installCommand [] [] walks rfl).1
  rw [carried] at empty
  revert empty
  decide

end Etlx.Democli
