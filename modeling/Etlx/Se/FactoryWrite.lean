/-
The files that `se_factory write-cert` and `write-info` store.

Each command reads its file into a buffer of fixed size and writes what is in the
buffer over the object. Nothing tells a file that fills the buffer from one that goes
on behind it, so of a larger file the first part is stored as if it were the whole.
-/

import Etlx.Se.FactoryHelp

namespace Etlx.Se.Factory

inductive FileCommand
  | writeCert
  | writeInfo
deriving DecidableEq, Repr

namespace FileCommand

def id : FileCommand → UInt32
  | writeCert => rsaCertId
  | writeInfo => deviceInfoId

def name : FileCommand → Bytes
  | writeCert => ascii "write-cert"
  | writeInfo => ascii "write-info"

def capacity : FileCommand → Nat
  | writeCert => certCapacity
  | writeInfo => blobCapacity

def run {τ : Type} : FileCommand → Platform → Bytes → Process τ → Int × Process τ
  | writeCert => cmdWriteCert
  | writeInfo => cmdWriteInfo

def write (command : FileCommand) (calls : Calls) (data : Bytes) : Step :=
  { op := match command with
      | writeCert => .writeCert rsaCertId data
      | writeInfo => .writeBinary deviceInfoId data true
    calls := calls }

end FileCommand

/-- The command stored the whole file, or failed; a file that does not fit the buffer is an
error, and the object is what it was. -/
structure StoresWhole {τ : Type} (command : FileCommand) (file : Bytes) (process : Process τ)
    (outcome : Int × Process τ) : Prop where
  whole : outcome.1 = 0 → outcome.2.objects command.id = some file
  reports : command.capacity < file.length →
    outcome.1 ≠ 0 ∧ outcome.2.objects command.id = process.objects command.id

/-- The element turns a write down before it changes: the object that is in the way is not
erased, or nothing is in the way and the new one is not stored. -/
def TurnsDown (calls : Calls) (objects : Objects) (id : UInt32) : Prop :=
  if (objects id).isSome then calls.erases = false
  else ¬(calls.allocates = true ∧ calls.stores = true)

section

variable {τ : Type} (command : FileCommand) (platform : Platform) (path : Bytes)
  (process : Process τ)

theorem FileCommand.write_id (calls : Calls) (data : Bytes) :
    (command.write calls data).op.id = command.id := by
  cases command <;> rfl

theorem FileCommand.write_data (calls : Calls) (data : Bytes) :
    (command.write calls data).op.data = some data := by
  cases command <;> rfl

theorem FileCommand.write_overwrites (calls : Calls) (data : Bytes) :
    (command.write calls data).op.overwrites = true := by
  cases command <;> rfl

theorem turnsDown_iff (calls : Calls) (objects : Objects) (data : Bytes) :
    TurnsDown calls objects command.id ↔
      ¬(command.write calls data).Erases objects ∧
        ∀ other, ¬(command.write calls data).Stores objects other := by
  have sameCalls : (command.write calls data).calls = calls := rfl
  unfold TurnsDown Step.Stores Step.Erases
  rw [command.write_id, command.write_overwrites, command.write_data, sameCalls]
  by_cases present : (objects command.id).isSome = true
  · rw [if_pos present]
    simp +contextual [present]
  · rw [if_neg present]
    simp [present]

def exitCode : Result Bool → Int
  | .error _ => 1
  | .ok _ => 0

theorem FileCommand.run_apply {buf : Bytes}
    (reads : readFile platform path command.capacity = buf) (some : buf ≠ []) :
    command.run platform path process =
      (exitCode ((command.write platform.calls buf).apply process.objects).1,
        { process with
          objects := ((command.write platform.calls buf).apply process.objects).2 }) := by
  cases command with
  | writeInfo =>
      change readFile platform path blobCapacity = buf at reads
      change cmdWriteInfo platform path process =
        (exitCode (writeBinary platform.calls process.objects deviceInfoId buf true).1,
          { process with
            objects := (writeBinary platform.calls process.objects deviceInfoId buf true).2 })
      unfold cmdWriteInfo
      rw [reads]
      dsimp only
      rw [if_neg some]
      obtain ⟨report, objects⟩ :=
        writeBinary platform.calls process.objects deviceInfoId buf true
      cases report <;> rfl
  | writeCert =>
      change readFile platform path certCapacity = buf at reads
      change cmdWriteCert platform path process =
        (exitCode ((Se.writeCert platform.calls process.objects rsaCertId buf).1.map fun _ => true),
          { process with
            objects := (Se.writeCert platform.calls process.objects rsaCertId buf).2 })
      unfold cmdWriteCert
      rw [reads]
      dsimp only
      rw [if_neg some]
      obtain ⟨status, objects⟩ := Se.writeCert platform.calls process.objects rsaCertId buf
      cases status <;> rfl

theorem FileCommand.run_empty (reads : readFile platform path command.capacity = []) :
    command.run platform path process = (1, process) := by
  cases command with
  | writeInfo =>
      change cmdWriteInfo platform path process = _
      unfold cmdWriteInfo
      dsimp only
      exact if_pos reads
  | writeCert =>
      change cmdWriteCert platform path process = _
      unfold cmdWriteCert
      dsimp only
      exact if_pos reads

theorem exitCode_failed {report : Result Bool} (notFalse : report ≠ .ok false)
    (notTrue : report ≠ .ok true) : exitCode report = 1 := by
  match report with
  | .error _ => rfl
  | .ok false => exact absurd rfl notFalse
  | .ok true => exact absurd rfl notTrue

theorem StoresWhole.of_failed {command : FileCommand} {file : Bytes} {process : Process τ}
    {outcome : Int × Process τ} (failed : outcome.1 = 1)
    (keeps : command.capacity < file.length →
      outcome.2.objects command.id = process.objects command.id) :
    StoresWhole command file process outcome := by
  have nonzero : outcome.1 ≠ 0 := by
    rw [failed]
    decide
  exact ⟨fun zero => absurd zero nonzero, fun large => ⟨nonzero, keeps large⟩⟩

/-- What a write of the buffer comes to, whatever the element does with it. -/
theorem storesWhole_iff_of_happens {command : FileCommand} {file : Bytes} {process : Process τ}
    {step : Step} {report : Result Bool} {objects : Objects}
    (happens : Happens process.objects step report objects) (sameId : step.op.id = command.id)
    (written : step.op.data = some (file.take command.capacity)) (done : report ≠ .ok false) :
    StoresWhole command file process (exitCode report, { process with objects := objects }) ↔
      file.length ≤ command.capacity ∨
        (¬step.Erases process.objects ∧ ∀ other, ¬step.Stores process.objects other) := by
  cases happens with
  | stored data stores =>
      have same : data = file.take command.capacity := by
        rw [stores.1] at written
        exact Option.some.inj written
      rw [sameId, same]
      constructor
      · intro whole
        left
        by_contra large
        exact (whole.reports (Nat.lt_of_not_le large)).1 rfl
      · rintro (fits | ⟨-, nothing⟩)
        · rw [List.take_of_length_le fits]
          exact ⟨fun _ => Function.update_self _ _ _,
            fun large => absurd fits (Nat.not_le.mpr large)⟩
        · exact absurd stores (nothing data)
  | erased _ erases nothing _ isErase =>
      have failed : exitCode report = 1 := exitCode_failed done (by
        intro reported
        rw [isErase reported] at written
        cases written)
      constructor
      · intro whole
        left
        by_contra large
        have kept := (whole.reports (Nat.lt_of_not_le large)).2
        have present := erases.1
        rw [sameId] at present
        change Function.update process.objects step.op.id none command.id = _ at kept
        rw [sameId, Function.update_self] at kept
        rw [← kept] at present
        cases present
      · rintro (fits | ⟨keeps, -⟩)
        · exact .of_failed failed (fun large => absurd fits (Nat.not_le.mpr large))
        · exact absurd erases keeps
  | refused _ keeps nothing undone =>
      exact iff_of_true (.of_failed (exitCode_failed done undone) (fun _ => rfl))
        (Or.inr ⟨keeps, nothing⟩)

end

theorem FileCommand.run_storesWhole_iff {τ : Type} (command : FileCommand) {platform : Platform}
    {path : Bytes} {process before : Process τ} (same : before.objects = process.objects)
    {file : Bytes} (reads : platform.outside.file path = some file) :
    StoresWhole command file process (command.run platform path before) ↔
      file.length ≤ command.capacity ∨
        TurnsDown platform.calls process.objects command.id := by
  have promise : StoresWhole command file process (command.run platform path before) ↔
      StoresWhole command file before (command.run platform path before) :=
    ⟨fun stores => ⟨stores.whole, fun large => same.symm ▸ stores.reports large⟩,
      fun stores => ⟨stores.whole, fun large => same ▸ stores.reports large⟩⟩
  have buffered : readFile platform path command.capacity = file.take command.capacity := by
    unfold readFile
    rw [reads]
  rw [promise, ← same]
  by_cases empty : file.take command.capacity = []
  · have fits : file.length ≤ command.capacity := by
      have positive : 0 < command.capacity := by cases command <;> decide
      have shorter := congrArg List.length empty
      rw [List.length_take, List.length_nil] at shorter
      omega
    rw [command.run_empty platform path before (buffered.trans empty)]
    exact iff_of_true (.of_failed rfl (fun large => absurd fits (Nat.not_le.mpr large)))
      (Or.inl fits)
  · rw [command.run_apply platform path before buffered empty,
      turnsDown_iff command platform.calls before.objects (file.take command.capacity)]
    exact storesWhole_iff_of_happens (apply_happens before.objects _) (command.write_id _ _)
      (command.write_data _ _) (apply_ne_false before.objects (command.write_overwrites _ _))

/-- The whole file is stored or the command fails exactly if the file fits the buffer or the
element turns the write down. -/
theorem file_stored_whole_iff {τ : Type} (command : FileCommand) (platform : Platform)
    (path : Bytes) (process : Process τ) (file : Bytes)
    (reads : platform.outside.file path = some file) :
    StoresWhole command file process (command.run platform path process) ↔
      file.length ≤ command.capacity ∨
        TurnsDown platform.calls process.objects command.id :=
  command.run_storesWhole_iff rfl reads

def filePlatform (path content : Bytes) : Platform :=
  workingPlatform workingHost (fun name => if name = path then some content else none)

def holding (id : UInt32) (data : Bytes) : Process Unit :=
  .start () (Function.update (fun _ => none) id (some data))

theorem file_stored_whole_three :
    StoresWhole .writeInfo [1, 2, 3] (holding deviceInfoId [0])
      (cmdWriteInfo (filePlatform (ascii "blob.bin") [1, 2, 3]) (ascii "blob.bin")
        (holding deviceInfoId [0])) :=
  (file_stored_whole_iff .writeInfo (filePlatform (ascii "blob.bin") [1, 2, 3])
    (ascii "blob.bin") (holding deviceInfoId [0]) [1, 2, 3] rfl).mpr (Or.inl (by decide))

def largeCert : Bytes := List.replicate 2049 0x30

/-- A certificate of one byte more than the buffer holds goes over another one without its last
byte, and the command reports success. -/
theorem file_stored_cut :
    (cmdWriteCert (filePlatform (ascii "cert.der") largeCert) (ascii "cert.der")
      (holding rsaCertId [0x31])).1 = 0 ∧
    (cmdWriteCert (filePlatform (ascii "cert.der") largeCert) (ascii "cert.der")
      (holding rsaCertId [0x31])).2.objects rsaCertId = some (List.replicate 2048 0x30) ∧
    ¬StoresWhole .writeCert largeCert (holding rsaCertId [0x31])
      (cmdWriteCert (filePlatform (ascii "cert.der") largeCert) (ascii "cert.der")
        (holding rsaCertId [0x31])) := by
  have success : (cmdWriteCert (filePlatform (ascii "cert.der") largeCert) (ascii "cert.der")
      (holding rsaCertId [0x31])).1 = 0 := by
    decide +kernel
  have large : FileCommand.writeCert.capacity < largeCert.length := by decide +kernel
  refine ⟨success, by decide +kernel, ?_⟩
  intro whole
  exact (whole.reports large).1 success

end Etlx.Se.Factory
