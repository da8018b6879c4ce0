/-
The file-backed key-value store of the host port.

The file holds a magic word, a count and the entries, each with a 16-bit key
length and a 32-bit value length, little-endian. `Commit` writes a temporary
file call by call and renames it over the old one; every call it makes may fail
as `Faults` says. `Load` reads the file from the front and replays the entries
through `Set`.
-/

import Etlx.Storage.Kv

namespace Etlx.Storage

def magic : Bytes := [0x45, 0x4b, 0x56, 0x31]

/-- The bytes that `PutU16` and `PutU32` hand to `fputc`, one call each. -/
def putU16 (v : Nat) : List Bytes := [[UInt8.ofNat v], [UInt8.ofNat (v / 2 ^ 8)]]

def putU32 (v : Nat) : List Bytes :=
  [[UInt8.ofNat v], [UInt8.ofNat (v / 2 ^ 8)], [UInt8.ofNat (v / 2 ^ 16)],
    [UInt8.ofNat (v / 2 ^ 24)]]

def getU16 : Bytes → Option (Nat × Bytes)
  | a :: b :: rest => some (a.toNat + b.toNat * 2 ^ 8, rest)
  | _ => none

def getU32 : Bytes → Option (Nat × Bytes)
  | a :: b :: c :: d :: rest =>
      some (a.toNat + b.toNat * 2 ^ 8 + c.toNat * 2 ^ 16 + d.toNat * 2 ^ 24, rest)
  | _ => none

def getBytes (count : Nat) (ahead : Bytes) : Option (Bytes × Bytes) :=
  if count ≤ ahead.length then some (ahead.take count, ahead.drop count) else none

def getEntry (ahead : Bytes) : Option (Bytes × Bytes × Bytes) :=
  match getU16 ahead with
  | none => none
  | some (klen, ahead) =>
      if keyCapacity < klen then none
      else
        match getBytes klen ahead with
        | none => none
        | some (key, ahead) =>
            match getU32 ahead with
            | none => none
            | some (vlen, ahead) =>
                if valueCapacity < vlen then none
                else
                  match getBytes vlen ahead with
                  | none => none
                  | some (value, ahead) => some (key, value, ahead)

section

variable [LinearOrder Key]

/-- The `for` loop of `Load`; what `Set` answers is ignored. -/
def loadEntries : Nat → Bytes → Store → Status × Store
  | 0, _, s => (.ok (), s)
  | count + 1, ahead, s =>
      match getEntry ahead with
      | none => (fail category Code.ioError.value "truncated kv entry", s)
      | some (key, value, ahead) => loadEntries count ahead (s.set key value).2

/-- `Load` of a file, `none` when there is no file. The map is cleared first. -/
def load : Option Bytes → Status × Store
  | none => (.ok (), .empty)
  | some bytes =>
      match getBytes 4 bytes with
      | none => (fail category Code.ioError.value "bad kv file magic", .empty)
      | some (word, ahead) =>
          if word ≠ magic then (fail category Code.ioError.value "bad kv file magic", .empty)
          else
            match getU32 ahead with
            | none => (fail category Code.ioError.value "truncated kv header", .empty)
            | some (count, ahead) => loadEntries count ahead .empty

/-! ### Commit -/

def entryWrites (entry : Key × Value) : List Bytes :=
  putU16 entry.1.bytes.length ++ [entry.1.bytes] ++ putU32 entry.2.bytes.length ++
    if entry.2.bytes ≠ [] then [entry.2.bytes] else []

def commitWrites (s : Store) : List Bytes :=
  [magic] ++ putU32 s.map.size ++ s.map.entries.flatMap entryWrites

/-- What the files hold: the one at the path and the temporary one beside it. -/
structure Disk where
  file : Option Bytes
  temp : Option Bytes
deriving DecidableEq, Repr

/-- How the calls of one `Commit` turn out. A write may take only the front of
its bytes; a failed close may lose what comes behind the first bytes. -/
structure Faults where
  opens : Bool
  accepts : Nat → Nat
  flushes : Bool
  keeps : Option Nat
  renames : Bool

def Faults.healthy (writes : List Bytes) : Faults :=
  { opens := true
    accepts := fun i => (writes.getD i []).length
    flushes := true
    keeps := none
    renames := true }

def accepted (accepts : Nat → Nat) (writes : List Bytes) : Bytes :=
  (writes.mapIdx (fun i write => write.take (accepts i))).flatten

def Faults.closed (faults : Faults) (content : Bytes) : Bytes :=
  match faults.keeps with
  | none => content
  | some count => content.take count

/-- `Commit`. The results of the writes and of `fclose` are not looked at. -/
def commit (s : Store) (disk : Disk) (faults : Faults) : Status × Disk :=
  if faults.opens then
    let content := faults.closed (accepted faults.accepts (commitWrites s))
    if faults.flushes then
      if faults.renames then (.ok (), { file := some content, temp := none })
      else
        (fail category Code.ioError.value "kv rename failed", { disk with temp := some content })
    else (fail category Code.ioError.value "kv write failed", { disk with temp := some content })
  else (fail category Code.ioError.value "cannot open temp kv file", disk)

/-! ### The store as a system -/

/-- A store object and the disk it lives on. -/
structure FileStore where
  store : Store
  disk : Disk

/-- The constructor: what `Load` answers is ignored. -/
def FileStore.construct (disk : Disk) : FileStore := { store := (load disk.file).2, disk := disk }

inductive Step
  | set (key value : Bytes)
  | remove (key : Bytes)
  | get (key out : Bytes)
  | has (key : Bytes)
  | commit
  | load
  | reopen
deriving DecidableEq

inductive Answer
  | status (status : Status)
  | found (count : Result Nat) (out : Bytes)
  | present (has : Bool)
  | opened
deriving DecidableEq

/-- One call on a healthy disk; `reopen` destroys the object and constructs one. -/
def FileStore.step (f : FileStore) : Step → Answer × FileStore
  | .set key value =>
      (.status (f.store.set key value).1, { f with store := (f.store.set key value).2 })
  | .remove key => (.status (f.store.remove key).1, { f with store := (f.store.remove key).2 })
  | .get key out => (.found (f.store.get key out).1 (f.store.get key out).2, f)
  | .has key => (.present (f.store.has key), f)
  | .commit =>
      let outcome := commit f.store f.disk (.healthy (commitWrites f.store))
      (.status outcome.1, { f with disk := outcome.2 })
  | .load => (.status (load f.disk.file).1, { f with store := (load f.disk.file).2 })
  | .reopen => (.opened, .construct f.disk)

end

end Etlx.Storage
