/-
Asking `se_factory` for help.

The loop over the leading words with two dashes skips a help flag like any other
word. Where no command follows, help is printed all the same; where one does, the
command runs unless a help flag stands behind it too.
-/

import Etlx.Se.Factory
import Etlx.Se.Scp03Correct

namespace Etlx.Se.Factory

/-- argv behind the name of the program, without the operands of a global `--port`. -/
def withoutOperands : List Bytes → List Bytes
  | [] => []
  | [arg] => [arg]
  | arg :: next :: argv =>
      if Conf.startsWithDashDash arg then
        if arg = ascii "--port" then arg :: withoutOperands argv
        else arg :: withoutOperands (next :: argv)
      else arg :: next :: argv

/-- An element of argv other than the operand of a global `--port` is a help flag. -/
def asksHelp (argv : List Bytes) : Bool :=
  (argv.take 1 ++ withoutOperands (argv.drop 1)).any isHelpFlag

def Process.start {τ : Type} (t : τ) (objects : Objects) : Process τ :=
  { out := t, stdout := [], opens := [], objects := objects, generated := [], sent := [],
    disks := [], saved := [] }

def PrintedHelp {τ : Type} (out : Io.Writer τ) (t final : τ) : Prop :=
  final = (Conf.printCliHelp app out t).2 ∨
    ∃ command ∈ app.commands, final = (Conf.printCliCommandHelp app command.name out t).2

/-- No connection was opened, the element is as it was, and help was printed. -/
def OnlyHelps {τ : Type} (out : Io.Writer τ) (t : τ) (objects : Objects) (final : Process τ) :
    Prop :=
  final.opens = [] ∧ final.objects = objects ∧ final.generated = [] ∧ final.sent = [] ∧
    PrintedHelp out t final.out

def HelpIsHarmless (platform : Platform) (argv : List Bytes) : Prop :=
  asksHelp argv = true → ∀ (τ : Type) (out : Io.Writer τ) (t : τ) (objects : Objects),
    OnlyHelps out t objects (main platform out argv (.start t objects)).2

def RunsCommand (argv : List Bytes) : Prop :=
  ∃ port name rest, skipGlobals (ascii "/dev/i2c-3") (argv.drop 1) = (port, name :: rest) ∧
    (app.findCommand name).isSome = true ∧ rest.any isHelpFlag = false

/-! ### What the commands leave alone -/

section

variable {τ : Type} (platform : Platform)

theorem generateKey_opens (bits : RsaBits) (policy : KeyPolicy) (process : Process τ) :
    (generateKey platform bits policy process).2.opens = process.opens := by
  unfold generateKey
  dsimp only
  split
  · split <;> rfl
  · rfl

theorem provisionKey_opens (args : ProvisionArgs) (process : Process τ) :
    (provisionKey platform args process).2.opens = process.opens := by
  have generated := generateKey_opens platform args.bits args.policy process
  unfold provisionKey
  split
  · next ran =>
      rw [ran] at generated
      exact generated
  · next ran =>
      rw [ran] at generated
      split
      · exact generated
      · split
        · exact generated
        · split <;> exact generated

theorem cmdProvision_opens (argv : List Bytes) (process : Process τ) :
    (cmdProvision platform argv process).2.opens = process.opens := by
  unfold cmdProvision
  split
  · rfl
  · split
    · split
      · rfl
      · exact provisionKey_opens platform _ _
    · exact provisionKey_opens platform _ _

theorem cmdWriteCert_opens (path : Bytes) (process : Process τ) :
    (cmdWriteCert platform path process).2.opens = process.opens := by
  unfold cmdWriteCert
  dsimp only
  split
  · rfl
  · split <;> rfl

theorem cmdWriteInfo_opens (path : Bytes) (process : Process τ) :
    (cmdWriteInfo platform path process).2.opens = process.opens := by
  unfold cmdWriteInfo
  dsimp only
  split
  · rfl
  · split <;> rfl

theorem cmdReadInfo_opens (process : Process τ) :
    (cmdReadInfo process).2.opens = process.opens := by
  unfold cmdReadInfo
  split <;> rfl

theorem cmdUid_opens (process : Process τ) :
    (cmdUid platform process).2.opens = process.opens := by
  unfold cmdUid
  split <;> rfl

theorem cmdVerify_opens (path : Bytes) (process : Process τ) :
    (cmdVerify platform path process).2.opens = process.opens := by
  unfold cmdVerify
  dsimp only
  split
  · rfl
  · split <;> rfl

theorem runCommand_opens (out : Io.Writer τ) (command : Conf.CliCommand) (argv : List Bytes)
    (process : Process τ) :
    (runCommand platform out command argv process).2.opens = process.opens := by
  unfold runCommand
  dsimp only
  split
  · exact cmdProvision_opens platform argv process
  · split
    · rfl
    · split
      · exact cmdWriteCert_opens platform _ process
      · split
        · exact cmdWriteInfo_opens platform _ process
        · split
          · exact cmdReadInfo_opens process
          · split
            · exact cmdUid_opens platform process
            · split
              · exact cmdVerify_opens platform _ process
              · rfl

theorem cmdRotateScp03_out (port : Bytes) (argv : List Bytes) (process : Process τ) :
    (cmdRotateScp03 platform port argv process).2.out = process.out := by
  unfold cmdRotateScp03
  split
  · rfl
  · split
    · rfl
    · unfold rotateFrom openConnection
      cases connectionOpen platform.middleware defaultScp03Keys with
      | error e => rfl
      | ok session =>
          dsimp only
          split
          · rfl
          · split <;> rfl

end

/-! ### Help -/

theorem runWords_onlyHelps {τ : Type} (platform : Platform) (out : Io.Writer τ) (t : τ)
    (objects : Objects) (port : Bytes) {words : List Bytes}
    (helps : ∀ name rest, words = name :: rest → (app.findCommand name).isSome = true →
      rest.any isHelpFlag = true) :
    OnlyHelps out t objects (runWords platform out port words (.start t objects)).2 := by
  have general : OnlyHelps out t objects (printHelp out (.start t objects)) :=
    ⟨rfl, rfl, rfl, rfl, Or.inl rfl⟩
  cases words with
  | nil => exact general
  | cons name rest =>
      unfold runWords
      dsimp only
      by_cases asked : name = ascii "--help" ∨ name = ascii "-h" ∨ name = ascii "help"
      · rw [if_pos asked]
        exact general
      · rw [if_neg asked]
        cases found : app.findCommand name with
        | none => exact general
        | some command =>
            have declared : (app.findCommand name).isSome = true := by
              rw [found]
              rfl
            obtain ⟨listed, named⟩ := Conf.CliApp.findCommand_some found
            dsimp only
            rw [if_pos (helps name rest rfl declared)]
            refine ⟨rfl, rfl, rfl, rfl, Or.inr ⟨command, listed, ?_⟩⟩
            rw [named]
            rfl

def recorder : Io.Writer (List Bytes) := fun pieces piece => (.ok (), pieces ++ [piece])

theorem putAll_recorder (kept pieces : List Bytes) :
    Conf.putAll recorder kept pieces = (.ok (), kept ++ pieces) := by
  induction pieces generalizing kept with
  | nil =>
      rw [List.append_nil]
      rfl
  | cons piece pieces ih =>
      change Conf.putAll recorder (kept ++ [piece]) pieces = _
      rw [ih, List.append_assoc, List.singleton_append]

theorem findCommand_isSome {command : Conf.CliCommand} (listed : command ∈ app.commands) :
    (app.findCommand command.name).isSome = true := by
  unfold Conf.CliApp.findCommand
  rw [List.find?_isSome]
  exact ⟨command, listed, beq_self_eq_true command.name⟩

theorem not_printedHelp_nil : ¬PrintedHelp recorder [] [] := by
  rintro (general | ⟨command, listed, ofCommand⟩)
  · unfold Conf.printCliHelp at general
    rw [putAll_recorder] at general
    cases general
  · unfold Conf.printCliCommandHelp at ofCommand
    obtain ⟨found, eq⟩ := Option.isSome_iff_exists.mp (findCommand_isSome listed)
    rw [eq] at ofCommand
    dsimp only at ofCommand
    rw [putAll_recorder] at ofCommand
    cases ofCommand

/-- A command that runs opens a connection or prints nothing. -/
theorem runWords_not_onlyHelps (platform : Platform) (objects : Objects) (port : Bytes)
    {name : Bytes} {rest : List Bytes} (declared : (app.findCommand name).isSome = true)
    (quiet : rest.any isHelpFlag = false) :
    ¬OnlyHelps recorder [] objects
      (runWords platform recorder port (name :: rest) (.start [] objects)).2 := by
  obtain ⟨command, found⟩ := Option.isSome_iff_exists.mp declared
  have notHelp : ¬(name = ascii "--help" ∨ name = ascii "-h" ∨ name = ascii "help") := by
    rintro (rfl | rfl | rfl)
    · exact absurd declared (by decide)
    · exact absurd declared (by decide)
    · exact absurd declared (by decide)
  rintro ⟨opens, -, -, -, printed⟩
  unfold runWords at opens printed
  dsimp only at opens printed
  rw [if_neg notHelp, found] at opens printed
  dsimp only at opens printed
  rw [quiet, if_neg Bool.false_ne_true] at opens printed
  by_cases rotates : name = ascii "rotate-scp03"
  · rw [if_pos rotates, cmdRotateScp03_out] at printed
    exact not_printedHelp_nil printed
  · rw [if_neg rotates] at opens
    unfold openConnection at opens
    cases connected : connectionOpen platform.middleware defaultScp03Keys with
    | error e =>
        rw [connected] at opens
        cases opens
    | ok session =>
        rw [connected] at opens
        dsimp only at opens
        rw [runCommand_opens] at opens
        cases opens

/-- Asking for help is harmless exactly when it is not asked before a command that then runs. -/
theorem help_is_harmless_iff (platform : Platform) (argv : List Bytes) :
    HelpIsHarmless platform argv ↔ ¬(asksHelp argv = true ∧ RunsCommand argv) := by
  constructor
  · rintro harmless ⟨asks, port, name, rest, left, declared, quiet⟩
    have helps := harmless asks (List Bytes) recorder [] (fun _ => none)
    unfold main at helps
    rw [left] at helps
    exact runWords_not_onlyHelps platform (fun _ => none) port declared quiet helps
  · intro free asks τ out t objects
    unfold main
    apply runWords_onlyHelps
    intro name rest words declared
    by_contra quiet
    refine free ⟨asks, (skipGlobals (ascii "/dev/i2c-3") (argv.drop 1)).1, name, rest, ?_, declared,
      Bool.eq_false_iff.mpr quiet⟩
    rw [← words]

def workingPlatform (host : Host) (file : Bytes → Option Bytes) : Platform :=
  { middleware :=
      { preparesHost := true, opensSession := true, initsKeyStore := true
        session := fun keys => { fullSession with dek := keys.dek } }
    host := host
    card := confirmingCard
    outside :=
      { file := file, bootScp03Path := none, memory := fun _ => [], dekMemory := []
        faults := Scp03Keyfile.Faults.healthy }
    calls := { erases := true, allocates := true, stores := true }
    allocatesKey := true
    generatesKey := fun _ => some [0x30]
    makeCsr := fun subjectDn => .ok subjectDn
    verifyBinding := fun _ _ => .ok true
    getUid := .ok (List.replicate 18 0)
    saves := fun _ _ => true }

def helpBeforeProvision : List Bytes :=
  [ascii "se_factory", ascii "--help", ascii "provision"]

/-- `se_factory --help provision` opens a connection and generates a key. -/
theorem help_before_provision :
    asksHelp helpBeforeProvision = true ∧
      (main (workingPlatform workingHost (fun _ => none)) recorder helpBeforeProvision
        (.start [] (fun _ => none))).2.opens = [(ascii "/dev/i2c-3", true)] ∧
      (main (workingPlatform workingHost (fun _ => none)) recorder helpBeforeProvision
        (.start [] (fun _ => none))).2.generated.length = 1 ∧
      ¬HelpIsHarmless (workingPlatform workingHost (fun _ => none)) helpBeforeProvision := by
  have asks : asksHelp helpBeforeProvision = true := by decide
  have left : skipGlobals (ascii "/dev/i2c-3") (helpBeforeProvision.drop 1) =
      (ascii "/dev/i2c-3", [ascii "provision"]) := by
    decide
  refine ⟨asks, by decide +kernel, by decide +kernel, ?_⟩
  intro harmless
  have helps := harmless asks (List Bytes) recorder [] (fun _ => none)
  unfold main at helps
  rw [left] at helps
  exact runWords_not_onlyHelps (workingPlatform workingHost (fun _ => none)) (fun _ => none)
    (ascii "/dev/i2c-3") (by decide) rfl helps

end Etlx.Se.Factory
