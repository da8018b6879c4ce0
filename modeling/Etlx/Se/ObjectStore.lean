/-
The object store of the secure element.

The element is a map from ids to bytes. A write over an existing object erases it
first, a read gets the object into a buffer of fixed size. Every call of the key
store that changes the element may also fail, as `Calls` says for each operation.
-/

import Etlx.Lib.Machine
import Etlx.Se.KeyFile
import Mathlib.Logic.Function.Basic

namespace Etlx.Se

def certCapacity : Nat := 2048

def blobCapacity : Nat := 512

abbrev Objects := UInt32 → Option Bytes

/-- Which calls of the key store succeed during one operation. -/
structure Calls where
  erases : Bool
  allocates : Bool
  stores : Bool
deriving DecidableEq, Repr

/-! ### The operations -/

def openObject (objects : Objects) (id : UInt32) : Status :=
  if (objects id).isSome then .ok ()
  else seFail .keyFailed "sss_key_object_get_handle failed"

def objectExists (objects : Objects) (id : UInt32) : Bool :=
  match openObject objects id with
  | .ok () => true
  | .error _ => false

def erase (calls : Calls) (objects : Objects) (id : UInt32) : Status × Objects :=
  match openObject objects id with
  | .error e => (.error e, objects)
  | .ok () =>
      if calls.erases then (.ok (), Function.update objects id none)
      else (seFail .writeFailed "sss_key_store_erase_key failed", objects)

def storeBinary (calls : Calls) (objects : Objects) (id : UInt32) (data : Bytes) :
    Status × Objects :=
  if calls.allocates then
    if calls.stores then (.ok (), Function.update objects id (some data))
    else (seFail .writeFailed "sss_key_store_set_key failed", objects)
  else (seFail .keyFailed "sss_key_object_allocate_handle failed", objects)

def writeCert (calls : Calls) (objects : Objects) (id : UInt32) (der : Bytes) :
    Status × Objects :=
  if objectExists objects id then
    match erase calls objects id with
    | (.error e, objects) => (.error e, objects)
    | (.ok (), objects) => storeBinary calls objects id der
  else storeBinary calls objects id der

def writeBinary (calls : Calls) (objects : Objects) (id : UInt32) (data : Bytes) (force : Bool) :
    Result Bool × Objects :=
  let stored (objects : Objects) : Result Bool × Objects :=
    match storeBinary calls objects id data with
    | (.error e, objects) => (.error e, objects)
    | (.ok (), objects) => (.ok true, objects)
  if objectExists objects id then
    if force then
      match erase calls objects id with
      | (.error e, objects) => (.error e, objects)
      | (.ok (), objects) => stored objects
    else (.ok false, objects)
  else stored objects

/-- `sss_key_store_get_key`, which fails when the object is larger than the buffer. -/
def getKey (objects : Objects) (id : UInt32) (capacity : Nat) : Option Bytes :=
  match objects id with
  | none => none
  | some data => if data.length ≤ capacity then some data else none

def readBinary (objects : Objects) (id : UInt32) : Result Bytes :=
  match openObject objects id with
  | .error _ => seFail .readFailed "readBinary: object not found"
  | .ok () =>
      match getKey objects id blobCapacity with
      | none => seFail .readFailed "sss_key_store_get_key(binary) failed"
      | some data => .ok data

/-! ### Sequences of operations -/

inductive Op
  | writeCert (id : UInt32) (der : Bytes)
  | writeBinary (id : UInt32) (data : Bytes) (force : Bool)
  | erase (id : UInt32)
deriving DecidableEq, Repr

structure Step where
  op : Op
  calls : Calls
deriving DecidableEq, Repr

/-- The result of an operation and the objects after it; a `WriteCert` or an `Erase` that
succeeds is reported as true. -/
def Step.apply (objects : Objects) (step : Step) : Result Bool × Objects :=
  match step.op with
  | .writeCert id der =>
      ((Se.writeCert step.calls objects id der).1.map (fun _ => true),
        (Se.writeCert step.calls objects id der).2)
  | .writeBinary id data force => Se.writeBinary step.calls objects id data force
  | .erase id =>
      ((Se.erase step.calls objects id).1.map (fun _ => true),
        (Se.erase step.calls objects id).2)

def Op.id : Op → UInt32
  | .writeCert id _ => id
  | .writeBinary id _ _ => id
  | .erase id => id

def Op.data : Op → Option Bytes
  | .writeCert _ der => some der
  | .writeBinary _ data _ => some data
  | .erase _ => none

def Op.overwrites : Op → Bool
  | .writeCert _ _ => true
  | .writeBinary _ _ force => force
  | .erase _ => true

def Step.Erases (objects : Objects) (step : Step) : Prop :=
  (objects step.op.id).isSome = true ∧ step.op.overwrites = true ∧ step.calls.erases = true

/-- The step writes the data: what is in its way is erased, and the element takes it. -/
def Step.Stores (objects : Objects) (step : Step) (data : Bytes) : Prop :=
  step.op.data = some data ∧ ((objects step.op.id).isSome = true → step.Erases objects) ∧
    step.calls.allocates = true ∧ step.calls.stores = true

theorem openObject_eq (objects : Objects) (id : UInt32) :
    openObject objects id = .ok () ↔ (objects id).isSome = true := by
  unfold openObject
  cases (objects id).isSome
  · exact ⟨fun impossible => (by cases impossible), fun impossible => (by cases impossible)⟩
  · exact ⟨fun _ => rfl, fun _ => rfl⟩

theorem objectExists_eq (objects : Objects) (id : UInt32) :
    objectExists objects id = (objects id).isSome := by
  unfold objectExists openObject
  cases (objects id).isSome <;> rfl

theorem erase_present {objects : Objects} {id : UInt32} (present : (objects id).isSome = true)
    (calls : Calls) :
    erase calls objects id =
      if calls.erases then (.ok (), Function.update objects id none)
      else (seFail .writeFailed "sss_key_store_erase_key failed", objects) := by
  unfold erase
  rw [(openObject_eq objects id).mpr present]

theorem storeBinary_ok {calls : Calls} (allocates : calls.allocates = true)
    (stores : calls.stores = true) (objects : Objects) (id : UInt32) (data : Bytes) :
    storeBinary calls objects id data = (.ok (), Function.update objects id (some data)) := by
  unfold storeBinary
  rw [if_pos allocates, if_pos stores]

theorem storeBinary_failed {calls : Calls} (failed : ¬(calls.allocates = true ∧
    calls.stores = true)) (objects : Objects) (id : UInt32) (data : Bytes) :
    ∃ e, storeBinary calls objects id data = (.error e, objects) := by
  unfold storeBinary
  by_cases allocates : calls.allocates = true
  · rw [if_pos allocates, if_neg (fun stores => failed ⟨allocates, stores⟩)]
    exact ⟨_, rfl⟩
  · rw [if_neg allocates]
    exact ⟨_, rfl⟩

/-- What a step can do: it stores its data, or it only erases, or it leaves the objects alone. -/
inductive Happens (objects : Objects) (step : Step) : Result Bool → Objects → Prop
  | stored (data : Bytes) (stores : step.Stores objects data) :
      Happens objects step (.ok true) (Function.update objects step.op.id (some data))
  | erased (report : Result Bool) (erases : step.Erases objects)
      (nothing : ∀ data, ¬step.Stores objects data) (done : report ≠ .ok false)
      (isErase : report = .ok true → step.op.data = none) :
      Happens objects step report (Function.update objects step.op.id none)
  | refused (report : Result Bool) (keeps : ¬step.Erases objects)
      (nothing : ∀ data, ¬step.Stores objects data) (undone : report ≠ .ok true) :
      Happens objects step report objects

theorem writeCert_eq (calls : Calls) (objects : Objects) (id : UInt32) (der : Bytes) :
    ((writeCert calls objects id der).1.map (fun _ => true),
        (writeCert calls objects id der).2) = writeBinary calls objects id der true := by
  unfold writeCert writeBinary
  dsimp only
  cases objectExists objects id with
  | false =>
      rw [if_neg Bool.false_ne_true, if_neg Bool.false_ne_true]
      obtain ⟨status, after⟩ := storeBinary calls objects id der
      cases status <;> rfl
  | true =>
      rw [if_pos rfl, if_pos rfl, if_pos rfl]
      obtain ⟨status, erased⟩ := erase calls objects id
      cases status with
      | error e => rfl
      | ok =>
          dsimp only
          obtain ⟨status, after⟩ := storeBinary calls erased id der
          cases status <;> rfl

theorem writeBinary_happens (objects : Objects) (step : Step) {data : Bytes}
    (writes : step.op.data = some data) :
    Happens objects step
      (writeBinary step.calls objects step.op.id data step.op.overwrites).1
      (writeBinary step.calls objects step.op.id data step.op.overwrites).2 := by
  unfold writeBinary
  dsimp only
  rw [objectExists_eq]
  by_cases present : (objects step.op.id).isSome = true
  · rw [if_pos present]
    by_cases overwrites : step.op.overwrites = true
    · rw [if_pos overwrites, erase_present present]
      by_cases erases : step.calls.erases = true
      · have erased : step.Erases objects := ⟨present, overwrites, erases⟩
        rw [if_pos erases]
        by_cases takes : step.calls.allocates = true ∧ step.calls.stores = true
        · dsimp only
          rw [storeBinary_ok takes.1 takes.2, Function.update_idem]
          exact .stored data ⟨writes, fun _ => erased, takes⟩
        · obtain ⟨e, failed⟩ := storeBinary_failed takes
            (Function.update objects step.op.id none) step.op.id data
          dsimp only
          rw [failed]
          exact .erased _ erased (fun other stores => takes stores.2.2) nofun nofun
      · rw [if_neg erases]
        have keeps : ¬step.Erases objects := fun erased => erases erased.2.2
        exact .refused _ keeps (fun other stores => keeps (stores.2.1 present)) nofun
    · rw [if_neg overwrites]
      have keeps : ¬step.Erases objects := fun erased => overwrites erased.2.1
      exact .refused _ keeps (fun other stores => keeps (stores.2.1 present)) nofun
  · rw [if_neg present]
    by_cases takes : step.calls.allocates = true ∧ step.calls.stores = true
    · rw [storeBinary_ok takes.1 takes.2]
      exact .stored data ⟨writes, fun impossible => absurd impossible present, takes⟩
    · obtain ⟨e, failed⟩ := storeBinary_failed takes objects step.op.id data
      rw [failed]
      exact .refused _ (fun erased => present erased.1) (fun other stores => takes stores.2.2) nofun

theorem erase_happens (objects : Objects) (step : Step) (isErase : step.op.data = none)
    (overwrites : step.op.overwrites = true) :
    Happens objects step ((erase step.calls objects step.op.id).1.map (fun _ => true))
      (erase step.calls objects step.op.id).2 := by
  have nothing : ∀ data, ¬step.Stores objects data := by
    rintro data ⟨writes, -⟩
    rw [isErase] at writes
    cases writes
  by_cases present : (objects step.op.id).isSome = true
  · rw [erase_present present]
    by_cases erases : step.calls.erases = true
    · rw [if_pos erases]
      exact .erased _ ⟨present, overwrites, erases⟩ nothing nofun (fun _ => isErase)
    · rw [if_neg erases]
      exact .refused _ (fun erased => erases erased.2.2) nothing nofun
  · unfold erase openObject
    rw [if_neg present]
    exact .refused _ (fun erased => present erased.1) nothing nofun

theorem apply_happens (objects : Objects) (step : Step) :
    Happens objects step (step.apply objects).1 (step.apply objects).2 := by
  obtain ⟨op, calls⟩ := step
  cases op with
  | writeCert id der =>
      have same : Step.apply objects ⟨.writeCert id der, calls⟩ =
          Se.writeBinary calls objects id der true := writeCert_eq calls objects id der
      rw [same]
      exact writeBinary_happens objects ⟨.writeCert id der, calls⟩ rfl
  | writeBinary id data force =>
      exact writeBinary_happens objects ⟨.writeBinary id data force, calls⟩ rfl
  | erase id => exact erase_happens objects ⟨.erase id, calls⟩ rfl rfl

theorem apply_ne_false (objects : Objects) {step : Step}
    (overwrites : step.op.overwrites = true) : (step.apply objects).1 ≠ .ok false := by
  have mapped (status : Status) : status.map (fun _ => true) ≠ .ok false := by
    cases status <;> exact nofun
  obtain ⟨op, calls⟩ := step
  cases op with
  | writeCert id der => exact mapped _
  | writeBinary id data force =>
      change force = true at overwrites
      change (Se.writeBinary calls objects id data force).1 ≠ .ok false
      rw [overwrites, ← writeCert_eq]
      exact mapped _
  | erase id => exact mapped _

/-! ### The round trip -/

/-- The step reports that it wrote the data. -/
def Step.Wrote (objects : Objects) (step : Step) (data : Bytes) : Prop :=
  step.op.data = some data ∧ (step.apply objects).1 = .ok true

/-- The step is a successful write or erase of the object, or it erased the object before it
failed. -/
def Step.Touches (id : UInt32) (objects : Objects) (step : Step) : Prop :=
  step.op.id = id ∧ ((step.apply objects).1 = .ok true ∨ step.Erases objects)

def after (objects : Objects) (steps : List Step) : Objects :=
  (Machine.run Step.apply objects steps).2

/-- What is written is read back until the object is written or erased again, a write that
reports false changes nothing, and no operation changes an object with another id. -/
structure RoundTrips (objects : Objects) (steps : List Step) : Prop where
  readsBack : ∀ front step between back data, steps = front ++ step :: (between ++ back) →
    step.Wrote (after objects front) data → data.length ≤ certCapacity →
    Machine.Meets Step.apply (fun objects later => ¬later.Touches step.op.id objects)
      (after objects (front ++ [step])) between →
    readBinary (after objects (front ++ step :: between)) step.op.id = .ok data
  skips : ∀ front step back, steps = front ++ step :: back →
    (step.apply (after objects front)).1 = .ok false →
    after objects (front ++ [step]) = after objects front
  frames : ∀ front step back, steps = front ++ step :: back →
    ∀ other, other ≠ step.op.id → after objects (front ++ [step]) other = after objects front other

/-- What the step stores, if it may be as large as a certificate, can also be read. -/
def Step.Readable (objects : Objects) (step : Step) : Prop :=
  ∀ data, step.Stores objects data → data.length ≤ certCapacity → data.length ≤ blobCapacity

theorem Step.wrote_iff (objects : Objects) (step : Step) (data : Bytes) :
    step.Wrote objects data ↔ step.Stores objects data := by
  have happens := apply_happens objects step
  unfold Step.Wrote
  constructor
  · rintro ⟨writes, report⟩
    rw [report] at happens
    generalize (step.apply objects).2 = final at happens
    cases happens with
    | stored other stores =>
        have same : some data = some other := writes.symm.trans stores.1
        cases same
        exact stores
    | erased _ _ _ _ isErase =>
        rw [isErase rfl] at writes
        cases writes
    | refused _ _ _ undone => exact absurd rfl undone
  · intro stores
    generalize (step.apply objects).1 = report, (step.apply objects).2 = final at happens ⊢
    cases happens with
    | stored => exact ⟨stores.1, rfl⟩
    | erased _ _ nothing => exact absurd stores (nothing data)
    | refused _ _ nothing => exact absurd stores (nothing data)

/-- Where the element carries out every call, an object is touched by the operations on it that
succeed, and by no others. -/
theorem Step.touches_iff {objects : Objects} {step : Step} (id : UInt32)
    (works : step.calls = { erases := true, allocates := true, stores := true }) :
    step.Touches id objects ↔ step.op.id = id ∧ (step.apply objects).1 = .ok true := by
  unfold Step.Touches
  refine and_congr_right (fun _ => or_iff_left_of_imp ?_)
  intro erases
  cases written : step.op.data with
  | some data =>
      have stores : step.Stores objects data := by
        refine ⟨written, fun _ => erases, ?_, ?_⟩
        · rw [works]
        · rw [works]
      exact ((step.wrote_iff objects data).mpr stores).2
  | none =>
      obtain ⟨op, calls⟩ := step
      cases op with
      | erase id =>
          have present : (objects id).isSome = true := erases.1
          have erased : calls.erases = true := erases.2.2
          change ((Se.erase calls objects id).1.map (fun _ => true)) = .ok true
          rw [erase_present present, if_pos erased]
          rfl
      | _ => cases written

theorem apply_stored {objects : Objects} {step : Step} {data : Bytes}
    (stores : step.Stores objects data) :
    (step.apply objects).2 = Function.update objects step.op.id (some data) := by
  have happens := apply_happens objects step
  generalize (step.apply objects).1 = report, (step.apply objects).2 = final at happens ⊢
  cases happens with
  | stored other storesOther =>
      have same : some data = some other := stores.1.symm.trans storesOther.1
      cases same
      rfl
  | erased _ _ nothing => exact absurd stores (nothing data)
  | refused _ _ nothing => exact absurd stores (nothing data)

theorem apply_frame (objects : Objects) (step : Step) {other : UInt32}
    (different : other ≠ step.op.id) : (step.apply objects).2 other = objects other := by
  have happens := apply_happens objects step
  generalize (step.apply objects).1 = report, (step.apply objects).2 = final at happens ⊢
  cases happens with
  | stored => exact Function.update_of_ne different _ _
  | erased => exact Function.update_of_ne different _ _
  | refused => rfl

theorem apply_skipped {objects : Objects} {step : Step}
    (skipped : (step.apply objects).1 = .ok false) : (step.apply objects).2 = objects := by
  have happens := apply_happens objects step
  rw [skipped] at happens
  generalize (step.apply objects).2 = final at happens ⊢
  cases happens with
  | erased _ _ _ done => exact absurd rfl done
  | refused => rfl

theorem apply_untouched {objects : Objects} {step : Step} {id : UInt32}
    (untouched : ¬step.Touches id objects) : (step.apply objects).2 id = objects id := by
  by_cases other : id = step.op.id
  · subst other
    have happens := apply_happens objects step
    have failed : (step.apply objects).1 ≠ .ok true :=
      fun reported => untouched ⟨rfl, Or.inl reported⟩
    generalize (step.apply objects).1 = report, (step.apply objects).2 = final
      at happens failed ⊢
    cases happens with
    | stored => exact absurd rfl failed
    | erased _ erases => exact absurd ⟨rfl, Or.inr erases⟩ untouched
    | refused => rfl
  · exact apply_frame objects step other

theorem after_append (objects : Objects) (front back : List Step) :
    after objects (front ++ back) = after (after objects front) back := by
  unfold after
  rw [Machine.run_append]

theorem after_stored {objects : Objects} {front : List Step} {step : Step} {data : Bytes}
    (stores : step.Stores (after objects front) data) :
    after objects (front ++ [step]) step.op.id = some data := by
  rw [after_append]
  change (step.apply (after objects front)).2 step.op.id = some data
  rw [apply_stored stores, Function.update_self]

theorem readBinary_present {objects : Objects} {id : UInt32} {data : Bytes}
    (present : objects id = some data) :
    readBinary objects id = .ok data ↔ data.length ≤ blobCapacity := by
  have opened : openObject objects id = .ok () := by
    rw [openObject_eq, present]
    rfl
  unfold readBinary getKey
  rw [opened, present]
  dsimp only
  by_cases fits : data.length ≤ blobCapacity
  · rw [if_pos fits]
    exact ⟨fun _ => fits, fun _ => rfl⟩
  · rw [if_neg fits]
    exact ⟨nofun, fun impossible => absurd impossible fits⟩

theorem stays_written {objects : Objects} {id : UInt32} {data : Bytes}
    (present : objects id = some data) {steps : List Step}
    (untouched : Machine.Meets Step.apply (fun objects step => ¬step.Touches id objects)
      objects steps) : after objects steps id = some data :=
  Machine.run_invariant_of_meets (fun objects : Objects => objects id = some data)
    (fun _ _ holds untouched => (apply_untouched untouched).trans holds)
    steps objects present untouched

/-- The object store gives back what it was given exactly along the sequences in which
everything that is stored fits into the buffer of the reader. -/
theorem object_store_round_trip_iff (objects : Objects) (steps : List Step) :
    RoundTrips objects steps ↔ Machine.Meets Step.apply
      (fun objects step => step.Readable objects) objects steps := by
  rw [Machine.meets_iff]
  constructor
  · intro trips front step back parts data stores short
    have wrote : step.Wrote (after objects front) data := (step.wrote_iff _ data).mpr stores
    have read := trips.readsBack front step [] back data parts wrote short trivial
    exact (readBinary_present (after_stored stores)).mp read
  · intro readable
    refine ⟨?_, ?_, ?_⟩
    · intro front step between back data parts wrote short untouched
      have stores := (step.wrote_iff _ data).mp wrote
      have stays := stays_written (after_stored stores) untouched
      rw [← after_append, List.append_assoc, List.singleton_append] at stays
      exact (readBinary_present stays).mpr (readable front step _ parts data stores short)
    · intro front step back _ skipped
      rw [after_append]
      exact apply_skipped skipped
    · intro front step back _ other different
      rw [after_append]
      exact apply_frame (after objects front) step different

def largeCert : Step :=
  { op := .writeCert 0xfe000002 (List.replicate 513 0x30)
    calls := { erases := true, allocates := true, stores := true } }

/-- A certificate of 513 bytes is written, and it cannot be read back. -/
theorem object_store_large_cert :
    (largeCert.apply (fun _ => none)).1 = .ok true ∧
      readBinary (after (fun _ => none) [largeCert]) 0xfe000002 =
        seFail .readFailed "sss_key_store_get_key(binary) failed" ∧
      ¬RoundTrips (fun _ => none) [largeCert] := by
  have wrote : largeCert.Wrote (fun _ => none) (List.replicate 513 0x30) := ⟨rfl, rfl⟩
  have unread : readBinary (after (fun _ => none) [largeCert]) 0xfe000002 =
      seFail .readFailed "sss_key_store_get_key(binary) failed" := by
    decide +kernel
  refine ⟨rfl, unread, ?_⟩
  intro trips
  have short : (List.replicate 513 (0x30 : UInt8)).length ≤ certCapacity := by
    rw [List.length_replicate]
    decide
  have read := trips.readsBack [] largeCert [] [] _ rfl wrote short trivial
  have same := read.symm.trans unread
  cases same

end Etlx.Se
