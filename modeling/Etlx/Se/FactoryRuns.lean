/-
One run of `se_factory` after another, on one element.

Each command writes at most the object that it is about, so an object stays as it is
along the runs of all the other commands. What `read-info` prints is the dump of what
the last `write-info` stored, whatever ran in between, and the dump reads back.
-/

import Etlx.Se.FactoryHelp
import Etlx.Se.FactoryWrite

namespace Etlx.Se.Factory

open Ascii (lineFeed space)

/-! ### The command of a run -/

/-- The command that a run executes, with its arguments; none where help is printed or the name
is unknown. -/
def invoked (argv : List Bytes) : Option (Bytes × List Bytes) :=
  match (skipGlobals (ascii "/dev/i2c-3") (argv.drop 1)).2 with
  | [] => none
  | name :: rest =>
      if name = ascii "--help" ∨ name = ascii "-h" ∨ name = ascii "help" then none
      else if (app.findCommand name).isSome = true ∧ rest.any isHelpFlag = false then
        some (name, rest)
      else none

def owner (id : UInt32) : Option Bytes :=
  if id = rsaKeyId then some (ascii "provision")
  else if id = rsaCertId then some (ascii "write-cert")
  else if id = deviceInfoId then some (ascii "write-info")
  else none

section

variable {τ : Type} (platform : Platform)

theorem cmdProvision_frame (argv : List Bytes) (process : Process τ) {id : UInt32}
    (other : id ≠ rsaKeyId) :
    (cmdProvision platform argv process).2.objects id = process.objects id := by
  have generates : ∀ (args : ProvisionArgs) (process : Process τ),
      (provisionKey platform args process).2.objects id = process.objects id := by
    intro args process
    have generated : (generateKey platform args.bits args.policy process).2.objects id =
        process.objects id := by
      unfold generateKey
      dsimp only
      split
      · split
        · rfl
        · exact Function.update_of_ne other _ _
      · rfl
    unfold provisionKey
    split
    · next ran =>
        rw [ran] at generated
        exact generated
    · next ran =>
        rw [ran] at generated
        split
        · exact generated
        · split
          · exact generated
          · split <;> exact generated
  unfold cmdProvision
  split
  · rfl
  · have erased : (erase platform.calls process.objects rsaKeyId).2 id = process.objects id :=
      apply_frame process.objects ⟨.erase rsaKeyId, platform.calls⟩ other
    split
    · split
      · next ran =>
          rw [ran] at erased
          exact erased
      · next ran =>
          rw [ran] at erased
          exact (generates _ _).trans erased
    · exact generates _ _

theorem FileCommand.run_frame (command : FileCommand) (path : Bytes) (process : Process τ)
    {id : UInt32} (other : id ≠ command.id) :
    (command.run platform path process).2.objects id = process.objects id := by
  by_cases nothing : readFile platform path command.capacity = []
  · rw [command.run_empty platform path process nothing]
  · rw [command.run_apply platform path process rfl nothing]
    exact apply_frame process.objects _ ((command.write_id platform.calls _).symm ▸ other)

theorem cmdReadInfo_objects (process : Process τ) :
    (cmdReadInfo process).2.objects = process.objects := by
  unfold cmdReadInfo
  split <;> rfl

theorem cmdUid_objects (process : Process τ) :
    (cmdUid platform process).2.objects = process.objects := by
  unfold cmdUid
  split <;> rfl

theorem cmdVerify_objects (path : Bytes) (process : Process τ) :
    (cmdVerify platform path process).2.objects = process.objects := by
  unfold cmdVerify
  dsimp only
  split
  · rfl
  · split <;> rfl

theorem cmdRotateScp03_objects (port : Bytes) (argv : List Bytes) (process : Process τ) :
    (cmdRotateScp03 platform port argv process).2.objects = process.objects := by
  unfold cmdRotateScp03
  split
  · rfl
  · split
    · rfl
    · unfold rotateFrom openConnection
      dsimp only
      split
      · next failed =>
          rw [← (Prod.mk.inj failed).2]
      · next opened =>
          rw [← (Prod.mk.inj opened).2]
          split
          · rfl
          · dsimp only
            split <;> rfl

variable (out : Io.Writer τ)

theorem runCommand_frame (command : Conf.CliCommand) (argv : List Bytes) (process : Process τ)
    {id : UInt32} (other : owner id ≠ some command.name) :
    (runCommand platform out command argv process).2.objects id = process.objects id := by
  unfold runCommand
  split
  · next provisions =>
      apply cmdProvision_frame
      rintro rfl
      exact other (by rw [provisions]; rfl)
  · split
    · rfl
    · dsimp only
      split
      · next writesCert =>
          apply FileCommand.run_frame platform .writeCert
          rintro rfl
          exact other (by rw [writesCert]; rfl)
      · split
        · next writesInfo =>
            apply FileCommand.run_frame platform .writeInfo
            rintro rfl
            exact other (by rw [writesInfo]; rfl)
        · split
          · rw [cmdReadInfo_objects]
          · split
            · rw [cmdUid_objects]
            · split
              · rw [cmdVerify_objects]
              · rfl

/-- A run writes no object but that of its command. -/
theorem main_frame (argv : List Bytes) (process : Process τ) {id : UInt32}
    (others : ∀ name rest, invoked argv = some (name, rest) → owner id ≠ some name) :
    (main platform out argv process).2.objects id = process.objects id := by
  unfold invoked at others
  unfold main
  dsimp only
  generalize skipGlobals (ascii "/dev/i2c-3") (argv.drop 1) = globals at others ⊢
  obtain ⟨port, words⟩ := globals
  dsimp only at others ⊢
  cases words with
  | nil => rfl
  | cons name rest =>
      unfold runWords
      dsimp only at others ⊢
      by_cases asksHelp : name = ascii "--help" ∨ name = ascii "-h" ∨ name = ascii "help"
      · rw [if_pos asksHelp]
        rfl
      · rw [if_neg asksHelp] at others ⊢
        cases found : app.findCommand name with
        | none => rfl
        | some command =>
            by_cases quiet : rest.any isHelpFlag = false
            · rw [if_pos ⟨by rw [found]; rfl, quiet⟩] at others
              change (if rest.any isHelpFlag then _ else _ : Int × Process τ).2.objects id = _
              rw [if_neg (by rw [quiet]; decide)]
              split
              · rw [cmdRotateScp03_objects]
              · have named := (Conf.CliApp.findCommand_some found).2
                unfold openConnection
                split
                · next failed =>
                    rw [← (Prod.mk.inj failed).2]
                · next opened =>
                    rw [← (Prod.mk.inj opened).2]
                    exact runCommand_frame platform out command rest _
                      (by rw [named]; exact others name rest rfl)
            · change (if rest.any isHelpFlag then _ else _ : Int × Process τ).2.objects id = _
              rw [if_pos (eq_true_of_ne_false quiet)]
              rfl

end

/-! ### One run after another -/

structure Invocation where
  platform : Platform
  argv : List Bytes

section

variable {τ : Type} (out : Io.Writer τ) (t : τ)

def Invocation.run (invocation : Invocation) (objects : Objects) : Int × Process τ :=
  main invocation.platform out invocation.argv (.start t objects)

def elementAfter (objects : Objects) (invocations : List Invocation) : Objects :=
  invocations.foldl (fun objects invocation => (invocation.run out t objects).2.objects) objects

theorem elementAfter_frame {id : UInt32} (objects : Objects) (invocations : List Invocation)
    (others : ∀ invocation ∈ invocations, ∀ name rest,
      invoked invocation.argv = some (name, rest) → owner id ≠ some name) :
    elementAfter out t objects invocations id = objects id := by
  induction invocations generalizing objects with
  | nil => rfl
  | cons first invocations ih =>
      have now : (first.run out t objects).2.objects id = objects id :=
        main_frame first.platform out first.argv (.start t objects)
          (others first List.mem_cons_self)
      have later := ih (first.run out t objects).2.objects
        (fun other member => others other (List.mem_cons_of_mem first member))
      exact later.trans now

end

/-! ### The device info -/

def undump (text : Bytes) : Option Bytes :=
  Hex.decode (text.filter (fun byte => byte ≠ space ∧ byte ≠ lineFeed))

theorem encode_filter (blob : Bytes) :
    (Hex.encode blob).filter (fun byte => byte ≠ space ∧ byte ≠ lineFeed) = Hex.encode blob := by
  rw [List.filter_eq_self]
  intro item member
  have digit := Hex.mem_encode member
  rw [decide_eq_true_iff]
  constructor
  · rintro rfl
    exact absurd digit (by decide)
  · rintro rfl
    exact absurd digit (by decide)

theorem hexDump_filter (i : Nat) (blob : Bytes) :
    (hexDump i blob).filter (fun byte => byte ≠ space ∧ byte ≠ lineFeed) = Hex.encode blob := by
  induction blob generalizing i with
  | nil => rfl
  | cons byte blob ih =>
      have breaks : (if i ≠ 0 ∧ i % 16 = 0 then [lineFeed] else []).filter
          (fun byte => byte ≠ space ∧ byte ≠ lineFeed) = [] := by
        split <;> rfl
      have blank : (space :: hexDump (i + 1) blob).filter
          (fun byte => byte ≠ space ∧ byte ≠ lineFeed) = Hex.encode blob := ih (i + 1)
      rw [hexDump, List.filter_append, List.filter_append, breaks, encode_filter, blank]
      rfl

theorem undump_hexDump (i : Nat) (blob : Bytes) : undump (hexDump i blob) = some blob := by
  rw [undump, hexDump_filter, Hex.decode_encode]

theorem FileCommand.run_stored {τ : Type} (command : FileCommand) {platform : Platform}
    {path file : Bytes} {process : Process τ} (found : platform.outside.file path = some file)
    (succeeded : (command.run platform path process).1 = 0) :
    (command.run platform path process).2.objects command.id =
      some (file.take command.capacity) := by
  have reads : readFile platform path command.capacity = file.take command.capacity := by
    rw [readFile, found]
  by_cases nothing : file.take command.capacity = []
  · rw [command.run_empty platform path process (reads.trans nothing)] at succeeded
    cases succeeded
  · rw [command.run_apply platform path process reads nothing] at succeeded ⊢
    have happens := apply_happens process.objects
      (command.write platform.calls (file.take command.capacity))
    have done := apply_ne_false process.objects
      (command.write_overwrites platform.calls (file.take command.capacity))
    generalize ((command.write platform.calls (file.take command.capacity)).apply
      process.objects).1 = report at succeeded happens done
    generalize ((command.write platform.calls (file.take command.capacity)).apply
      process.objects).2 = objects at happens ⊢
    cases happens with
    | stored data stores =>
        have same : data = file.take command.capacity := by
          have written := stores.1
          rw [command.write_data] at written
          exact (Option.some.inj written).symm
        dsimp only
        rw [command.write_id, Function.update_self, same]
    | erased _ erases nothingStored _ isErase =>
        match report, done with
        | .error _, _ => cases succeeded
        | .ok true, _ =>
            have impossible := isErase rfl
            rw [command.write_data] at impossible
            cases impossible
        | .ok false, done => exact absurd rfl done
    | refused _ keeps nothingStored undone =>
        match report, done with
        | .error _, _ => cases succeeded
        | .ok true, _ => exact absurd rfl undone
        | .ok false, done => exact absurd rfl done

section

variable {τ : Type} (platform : Platform) (out : Io.Writer τ)

theorem main_invoked {argv : List Bytes} {name : Bytes} {rest : List Bytes}
    (runs : invoked argv = some (name, rest)) (session : name ≠ ascii "rotate-scp03")
    {command : Conf.CliCommand} (found : app.findCommand name = some command)
    (process : Process τ) :
    ∃ opens, main platform out argv process =
      match connectionOpen platform.middleware defaultScp03Keys with
      | .error _ => (1, { process with opens := opens })
      | .ok _ => runCommand platform out command rest { process with opens := opens } := by
  unfold invoked at runs
  refine ⟨process.opens ++ [((skipGlobals (ascii "/dev/i2c-3") (argv.drop 1)).1, true)], ?_⟩
  unfold main
  generalize skipGlobals (ascii "/dev/i2c-3") (argv.drop 1) = globals at runs ⊢
  obtain ⟨port, words⟩ := globals
  dsimp only at runs ⊢
  cases words with
  | nil => cases runs
  | cons first others =>
      dsimp only at runs
      by_cases asksHelp : first = ascii "--help" ∨ first = ascii "-h" ∨ first = ascii "help"
      · rw [if_pos asksHelp] at runs
        cases runs
      · rw [if_neg asksHelp] at runs
        obtain ⟨⟨-, quiet⟩, same⟩ := Option.ite_none_right_eq_some.mp runs
        cases same
        unfold runWords
        dsimp only
        rw [if_neg asksHelp, found]
        change (if rest.any isHelpFlag then _ else _ : Int × Process τ) = _
        rw [if_neg (by rw [quiet]; decide)]
        refine (if_neg session).trans ?_
        unfold openConnection
        cases connectionOpen platform.middleware defaultScp03Keys <;> rfl

theorem FileCommand.main_run (command : FileCommand) {argv rest : List Bytes} {path : Bytes}
    (runs : invoked argv = some (command.name, path :: rest)) (process : Process τ) :
    ∃ opens, main platform out argv process =
      match connectionOpen platform.middleware defaultScp03Keys with
      | .error _ => (1, { process with opens := opens })
      | .ok _ => command.run platform path { process with opens := opens } := by
  cases command with
  | writeCert =>
      have named : app.findCommand (ascii "write-cert") = some writeCertCommand := rfl
      exact main_invoked platform out runs (by decide) named process
  | writeInfo =>
      have named : app.findCommand (ascii "write-info") = some writeInfoCommand := rfl
      exact main_invoked platform out runs (by decide) named process

theorem FileCommand.main_stored (command : FileCommand) {argv rest : List Bytes}
    {path file : Bytes} (runs : invoked argv = some (command.name, path :: rest))
    (found : platform.outside.file path = some file) {process : Process τ}
    (succeeded : (main platform out argv process).1 = 0) :
    (main platform out argv process).2.objects command.id = some (file.take command.capacity) := by
  obtain ⟨opens, whole⟩ := command.main_run platform out runs process
  rw [whole] at succeeded ⊢
  cases opened : connectionOpen platform.middleware defaultScp03Keys with
  | error e =>
      rw [opened] at succeeded
      cases succeeded
  | ok session =>
      rw [opened] at succeeded
      exact command.run_stored found succeeded

/-- A run stores the whole file or fails exactly if the file fits the buffer, the element turns
the write down, or there is no connection. -/
theorem FileCommand.main_storesWhole_iff (command : FileCommand) {argv rest : List Bytes}
    {path file : Bytes} (runs : invoked argv = some (command.name, path :: rest))
    (found : platform.outside.file path = some file) (process : Process τ) :
    StoresWhole command file process (main platform out argv process) ↔
      file.length ≤ command.capacity ∨
        TurnsDown platform.calls process.objects command.id ∨
        ∀ session, connectionOpen platform.middleware defaultScp03Keys ≠ .ok session := by
  obtain ⟨opens, whole⟩ := command.main_run platform out runs process
  rw [whole]
  cases opened : connectionOpen platform.middleware defaultScp03Keys with
  | error e => exact iff_of_true (.of_failed rfl (fun _ => rfl)) (.inr (.inr fun _ => nofun))
  | ok session =>
      rw [← or_assoc, or_iff_left (fun never => never session rfl)]
      have same : ({ process with opens := opens } : Process τ).objects = process.objects := rfl
      exact command.run_storesWhole_iff same found

theorem main_readInfo {argv rest : List Bytes}
    (runs : invoked argv = some (ascii "read-info", rest))
    {session : Session} (opens : connectionOpen platform.middleware defaultScp03Keys = .ok session)
    (process : Process τ) {blob : Bytes} (present : process.objects deviceInfoId = some blob)
    (fits : blob.length ≤ blobCapacity) :
    (main platform out argv process).1 = 0 ∧
      (main platform out argv process).2.stdout = process.stdout ++ hexDump 0 blob := by
  have named : app.findCommand (ascii "read-info") = some readInfoCommand := rfl
  obtain ⟨_, whole⟩ := main_invoked platform out runs (by decide) named process
  have dispatches : ∀ process : Process τ,
      runCommand platform out readInfoCommand rest process = cmdReadInfo process := fun _ => rfl
  have readable : readBinary process.objects deviceInfoId = .ok blob :=
    (readBinary_present present).mpr fits
  rw [whole, opens]
  dsimp only
  rw [dispatches, cmdReadInfo]
  dsimp only
  rw [readable]
  exact ⟨rfl, rfl⟩

end

/-- What `read-info` prints is the dump of what the last `write-info` stored, whatever other runs
came in between, and it reads back as that. -/
theorem device_info_read_back {τ : Type} (out : Io.Writer τ) (t : τ) (objects : Objects)
    (writing reading : Invocation) (between : List Invocation) {path file : Bytes}
    {writeArgs readArgs : List Bytes} {session : Session}
    (writes : invoked writing.argv = some (ascii "write-info", path :: writeArgs))
    (found : writing.platform.outside.file path = some file)
    (succeeded : (writing.run out t objects).1 = 0)
    (others : ∀ invocation ∈ between, ∀ rest,
      invoked invocation.argv ≠ some (ascii "write-info", rest))
    (reads : invoked reading.argv = some (ascii "read-info", readArgs))
    (opens : connectionOpen reading.platform.middleware defaultScp03Keys = .ok session) :
    let element := elementAfter out t (writing.run out t objects).2.objects between
    (reading.run out t element).1 = 0 ∧
      (reading.run out t element).2.stdout = hexDump 0 (file.take blobCapacity) ∧
      undump (reading.run out t element).2.stdout = some (file.take blobCapacity) := by
  intro element
  have stored : (writing.run out t objects).2.objects deviceInfoId =
      some (file.take blobCapacity) :=
    FileCommand.writeInfo.main_stored writing.platform out writes found succeeded
  have owned : owner deviceInfoId = some (ascii "write-info") := rfl
  have kept : element deviceInfoId = some (file.take blobCapacity) := by
    refine (elementAfter_frame out t _ between ?_).trans stored
    intro invocation member name rest runs mine
    rw [owned] at mine
    rw [← Option.some.inj mine] at runs
    exact others invocation member rest runs
  have short : (file.take blobCapacity).length ≤ blobCapacity := by
    rw [List.length_take]
    exact Nat.min_le_left _ _
  obtain ⟨status, printed⟩ := main_readInfo reading.platform out reads opens
    (.start t element) kept short
  have text : (reading.run out t element).2.stdout = hexDump 0 (file.take blobCapacity) := printed
  exact ⟨status, text, by rw [text, undump_hexDump]⟩

def threeByteFiles (words : List String) : Invocation :=
  { platform := workingPlatform workingHost (fun _ => some [0x0a, 0x20, 0xff])
    argv := words.map ascii }

/-- A certificate is written between the device info and its dump. -/
theorem device_info_read_back_three :
    let writing := threeByteFiles ["se_factory", "write-info", "blob.bin"]
    let reading := threeByteFiles ["se_factory", "--port", "/dev/i2c-1", "read-info"]
    let between := [threeByteFiles ["se_factory", "write-cert", "cert.der"]]
    let element :=
      elementAfter recorder [] (writing.run recorder [] fun _ => none).2.objects between
    (reading.run recorder [] element).1 = 0 ∧
      (reading.run recorder [] element).2.stdout = hexDump 0 [0x0a, 0x20, 0xff] ∧
      undump (reading.run recorder [] element).2.stdout = some [0x0a, 0x20, 0xff] := by
  have writes : invoked (threeByteFiles ["se_factory", "write-info", "blob.bin"]).argv =
      some (ascii "write-info", [ascii "blob.bin"]) := by decide +kernel
  have certifies : invoked (threeByteFiles ["se_factory", "write-cert", "cert.der"]).argv =
      some (ascii "write-cert", [ascii "cert.der"]) := by decide +kernel
  have reads : invoked (threeByteFiles ["se_factory", "--port", "/dev/i2c-1", "read-info"]).argv =
      some (ascii "read-info", []) := by decide +kernel
  have different : ascii "write-cert" ≠ ascii "write-info" := by decide +kernel
  exact device_info_read_back recorder [] (fun _ => none)
    (threeByteFiles ["se_factory", "write-info", "blob.bin"])
    (threeByteFiles ["se_factory", "--port", "/dev/i2c-1", "read-info"])
    [threeByteFiles ["se_factory", "write-cert", "cert.der"]]
    writes rfl (by decide +kernel)
    (by
      intro invocation member rest runs
      rw [List.mem_singleton.mp member, certifies] at runs
      exact different (Prod.mk.inj (Option.some.inj runs)).1)
    reads rfl

end Etlx.Se.Factory
