/-
What `Load` makes of any file.

A file is a header, complete entries and whatever comes behind them. `Load` reads
the longest run of complete entries up to the announced count and stores them in
file order; it fails when the run is shorter than the count. As `Set`'s answer is
ignored, a file whose entries name more keys than the store can hold is loaded in
part and reported as loaded.
-/

import Etlx.Storage.HostKvCorrect
import Etlx.Storage.BoundedMap

namespace Etlx.Storage

/-! ### Files -/

def fileText (count : Nat) (entries : List (Key × Value)) (rest : Bytes) : Bytes :=
  magic ++ ((putU32 count).flatten ++ ((entries.flatMap entryWrites).flatten ++ rest))

def HasHeader (bytes : Bytes) : Prop :=
  ∃ (count : Nat) (rest : Bytes), count < 2 ^ 32 ∧
    bytes = magic ++ ((putU32 count).flatten ++ rest)

/-- What the entries say, later ones winning. -/
def inserted (entries : List (Key × Value)) : Finmap (fun _ : Key => Value) :=
  entries.foldl (fun map entry => map.insert entry.1 entry.2) ∅

def keysOf (entries : List (Key × Value)) : Finset Key := (entries.map Prod.fst).toFinset

theorem keysOf_cons (entry : Key × Value) (entries : List (Key × Value)) :
    keysOf (entry :: entries) = insert entry.1 (keysOf entries) := List.toFinset_cons

theorem entries_append (entry : Key × Value) (entries : List (Key × Value)) (rest : Bytes) :
    ((entry :: entries).flatMap entryWrites).flatten ++ rest =
      (entryWrites entry).flatten ++ ((entries.flatMap entryWrites).flatten ++ rest) := by
  rw [List.flatMap_cons, List.flatten_append, List.append_assoc]

theorem entries_inj {entries others : List (Key × Value)} {rest behind : Bytes}
    (lengths : entries.length = others.length)
    (same : (entries.flatMap entryWrites).flatten ++ rest =
      (others.flatMap entryWrites).flatten ++ behind) : entries = others := by
  induction entries generalizing others with
  | nil => exact (List.eq_nil_of_length_eq_zero lengths.symm).symm
  | cons entry entries ih =>
      cases others with
      | nil => cases lengths
      | cons other others =>
          rw [entries_append, entries_append] at same
          have read := congrArg getEntry same
          rw [getEntry_entryWrites, getEntry_entryWrites] at read
          obtain ⟨sameKey, samePair⟩ := Prod.mk.inj (Option.some.inj read)
          obtain ⟨sameValue, sameRest⟩ := Prod.mk.inj samePair
          have sameEntry : entry = other := Prod.ext (Key.ext sameKey) (Value.ext sameValue)
          rw [sameEntry, ih (Nat.succ.inj lengths) sameRest]

theorem fileText_inj {entries others : List (Key × Value)} {rest behind : Bytes}
    (few : entries.length < 2 ^ 32) (fewOthers : others.length < 2 ^ 32)
    (same : fileText entries.length entries rest = fileText others.length others behind) :
    entries = others := by
  have counts := List.append_cancel_left same
  have read := congrArg getU32 counts
  rw [getU32_putU32 few, getU32_putU32 fewOthers] at read
  obtain ⟨lengths, bytes⟩ := Prod.mk.inj (Option.some.inj read)
  exact entries_inj lengths bytes

theorem entries_split (count : Nat) (ahead : Bytes) :
    ∃ (entries : List (Key × Value)) (rest : Bytes),
      ahead = (entries.flatMap entryWrites).flatten ++ rest ∧
        (entries.length = count ∨ entries.length < count ∧ getEntry rest = none) := by
  induction count generalizing ahead with
  | zero => exact ⟨[], ahead, rfl, Or.inl rfl⟩
  | succ count ih =>
      cases read : getEntry ahead with
      | none => exact ⟨[], ahead, rfl, Or.inr ⟨Nat.succ_pos count, read⟩⟩
      | some found =>
          obtain ⟨key, value, behind⟩ := found
          obtain ⟨entry, -, -, front⟩ := getEntry_some read
          obtain ⟨entries, rest, split, extent⟩ := ih behind
          refine ⟨entry :: entries, rest, ?_, ?_⟩
          · rw [entries_append, ← split, front]
          · rw [List.length_cons]
            exact extent.imp (congrArg Nat.succ) (And.imp_left Nat.succ_lt_succ)

section

variable [LinearOrder Key]

/-! ### Replaying the entries -/

def Store.replay (s : Store) (entries : List (Key × Value)) : Store :=
  entries.foldl (fun s entry => (s.set entry.1.bytes entry.2.bytes).2) s

theorem loadEntries_append (entries : List (Key × Value)) (count : Nat) (rest : Bytes)
    (s : Store) :
    loadEntries (entries.length + count) ((entries.flatMap entryWrites).flatten ++ rest) s =
      loadEntries count rest (s.replay entries) := by
  induction entries generalizing s with
  | nil =>
      rw [List.length_nil, Nat.zero_add]
      rfl
  | cons entry entries ih =>
      have longer : (entry :: entries).length + count = entries.length + count + 1 := by
        rw [List.length_cons]
        omega
      rw [entries_append, longer, loadEntries, getEntry_entryWrites]
      exact ih _

theorem loadEntries_whole (entries : List (Key × Value)) (rest : Bytes) (s : Store) :
    loadEntries entries.length ((entries.flatMap entryWrites).flatten ++ rest) s =
      (.ok (), s.replay entries) := loadEntries_append entries 0 rest s

theorem loadEntries_short {entries : List (Key × Value)} {count : Nat} {rest : Bytes}
    (fewer : entries.length < count) (cut : getEntry rest = none) (s : Store) :
    loadEntries count ((entries.flatMap entryWrites).flatten ++ rest) s =
      (fail category Code.ioError.value "truncated kv entry", s.replay entries) := by
  have missing : count = entries.length + (count - entries.length - 1 + 1) := by omega
  rw [missing, loadEntries_append, loadEntries, cut]

theorem load_fileText {count : Nat} (small : count < 2 ^ 32) (entries : List (Key × Value))
    (rest : Bytes) :
    load (some (fileText count entries rest)) =
      loadEntries count ((entries.flatMap entryWrites).flatten ++ rest) .empty := by
  have word := getBytes_append magic
    ((putU32 count).flatten ++ ((entries.flatMap entryWrites).flatten ++ rest))
  have width : 4 = magic.length := rfl
  unfold load fileText
  dsimp only
  rw [width, word]
  dsimp only
  rw [if_neg (by simp), getU32_putU32 small]

theorem load_cases (bytes : Bytes) :
    (¬HasHeader bytes ∧ ∃ e, load (some bytes) = (.error e, .empty)) ∨
    (∃ (entries : List (Key × Value)) (rest : Bytes), entries.length < 2 ^ 32 ∧
      bytes = fileText entries.length entries rest ∧
      load (some bytes) = (.ok (), Store.empty.replay entries)) ∨
    ∃ (count : Nat) (entries : List (Key × Value)) (rest : Bytes), count < 2 ^ 32 ∧
      bytes = fileText count entries rest ∧ entries.length < count ∧ getEntry rest = none ∧
      ∃ e, load (some bytes) = (.error e, Store.empty.replay entries) := by
  by_cases header : HasHeader bytes
  · right
    obtain ⟨count, behind, small, rfl⟩ := header
    obtain ⟨entries, rest, rfl, extent⟩ := entries_split count behind
    have loaded := load_fileText small entries rest
    rcases extent with whole | ⟨fewer, cut⟩
    · subst whole
      exact Or.inl ⟨entries, rest, small, rfl, loaded.trans (loadEntries_whole entries rest _)⟩
    · exact Or.inr ⟨count, entries, rest, small, rfl, fewer, cut, _,
        loaded.trans (loadEntries_short fewer cut _)⟩
  · left
    refine ⟨header, ?_⟩
    unfold load
    dsimp only
    split
    · exact ⟨_, rfl⟩
    · next word afterWord readWord =>
        split
        · exact ⟨_, rfl⟩
        · next isMagic =>
            split
            · exact ⟨_, rfl⟩
            · next count afterCount readCount =>
                obtain ⟨-, front⟩ := getBytes_some readWord
                obtain ⟨small, number⟩ := getU32_some readCount
                rw [not_not.mp isMagic, number] at front
                exact absurd ⟨count, afterCount, small, front⟩ header

/-! ### What the replay holds -/

theorem Store.set_present (s : Store) (entry : Key × Value)
    (room : entry.1 ∈ s.contents.map.keys ∨ s.contents.map.keys.card < maxEntries) :
    (s.set entry.1.bytes entry.2.bytes).2.contents.map =
      s.contents.map.insert entry.1 entry.2 := by
  rw [(s.set_refines entry.1.bytes entry.2.bytes).2, Contents.set, dif_pos entry.1.bound,
    dif_pos entry.2.bound, dif_pos (room.imp_left Finmap.mem_keys.mp)]

theorem Store.replay_contents (s : Store) (entries : List (Key × Value))
    (few : (s.contents.map.keys ∪ keysOf entries).card ≤ maxEntries) :
    (s.replay entries).contents.map =
      entries.foldl (fun map entry => map.insert entry.1 entry.2) s.contents.map := by
  induction entries generalizing s with
  | nil => rfl
  | cons entry entries ih =>
      rw [keysOf_cons, Finset.union_insert] at few
      have room : entry.1 ∈ s.contents.map.keys ∨ s.contents.map.keys.card < maxEntries := by
        by_cases present : entry.1 ∈ s.contents.map.keys
        · exact Or.inl present
        · right
          have grown : (insert entry.1 s.contents.map.keys).card ≤
              (insert entry.1 (s.contents.map.keys ∪ keysOf entries)).card :=
            Finset.card_le_card (Finset.insert_subset_insert _ Finset.subset_union_left)
          rw [Finset.card_insert_of_notMem present] at grown
          omega
      have stored := s.set_present entry room
      have keys : (s.set entry.1.bytes entry.2.bytes).2.contents.map.keys =
          insert entry.1 s.contents.map.keys := by
        rw [stored, Contents.keys_insert]
      have rest := ih (s.set entry.1.bytes entry.2.bytes).2 (by
        rw [keys, Finset.insert_union]
        exact few)
      rw [stored] at rest
      exact rest

theorem replay_empty {entries : List (Key × Value)} (few : (keysOf entries).card ≤ maxEntries) :
    (Store.empty.replay entries).contents.map = inserted entries := by
  apply Store.empty.replay_contents entries
  have noKeys : Store.empty.contents.map.keys = ∅ := rfl
  rw [noKeys, Finset.empty_union]
  exact few

end

theorem keys_inserted (entries : List (Key × Value)) :
    (inserted entries).keys = keysOf entries := by
  have general (map : Finmap (fun _ : Key => Value)) :
      (entries.foldl (fun map entry => map.insert entry.1 entry.2) map).keys =
        keysOf entries ∪ map.keys := by
    induction entries generalizing map with
    | nil => exact (Finset.empty_union _).symm
    | cons entry entries ih =>
        rw [List.foldl_cons, ih, Contents.keys_insert, keysOf_cons, Finset.union_insert,
          Finset.insert_union]
  have whole := general ∅
  rw [Finmap.keys_empty, Finset.union_empty] at whole
  exact whole

section

variable [LinearOrder Key]

/-! ### Loads that fail -/

/-- A `Load` that fails keeps what is in memory. -/
def LoadKeeps (f : FileStore) : Prop :=
  ∀ e, (f.step .load).1 = .status (.error e) → (f.step .load).2.store = f.store

/-- A `Load` that fails has replaced what was in memory by the entries in front of
the failing read, and a commit would write these. -/
theorem load_error_front (f : FileStore) (e : Error)
    (failed : (f.step .load).1 = .status (.error e)) :
    (∀ store : Store, ({ f with store := store } : FileStore).step .load = f.step .load) ∧
    (f.step .load).2.disk = f.disk ∧
    ((f.step .load).2.step .commit).2.disk.file = some (encode (f.step .load).2.store) ∧
    ∃ bytes, f.disk.file = some bytes ∧
      (¬HasHeader bytes ∧ (f.step .load).2.store = .empty ∨
        ∃ (count : Nat) (entries : List (Key × Value)) (rest : Bytes),
          count < 2 ^ 32 ∧ bytes = fileText count entries rest ∧ entries.length < count ∧
          getEntry rest = none ∧
          ((keysOf entries).card ≤ maxEntries →
            (f.step .load).2.store.contents.map = inserted entries)) := by
  refine ⟨fun _ => rfl, rfl, ?_, ?_⟩
  · change (commit (f.step .load).2.store f.disk (.healthy _)).2.file = _
    rw [commit_healthy]
  · change Answer.status (load f.disk.file).1 = _ at failed
    change ∃ bytes, _ ∧ (_ ∧ (load f.disk.file).2 = _ ∨ ∃ count entries rest, _ ∧ _ ∧ _ ∧ _ ∧
      (_ → (load f.disk.file).2.contents.map = _))
    cases file : f.disk.file with
    | none =>
        rw [file] at failed
        cases Answer.status.inj failed
    | some bytes =>
        refine ⟨bytes, rfl, ?_⟩
        rcases load_cases bytes with ⟨noHeader, e, loaded⟩ | ⟨entries, rest, few, shape, loaded⟩ |
          ⟨count, entries, rest, small, shape, fewer, cut, e, loaded⟩
        · left
          rw [loaded]
          exact ⟨noHeader, rfl⟩
        · rw [file, loaded] at failed
          cases Answer.status.inj failed
        · right
          refine ⟨count, entries, rest, small, shape, fewer, cut, ?_⟩
          intro fits
          rw [loaded]
          exact replay_empty fits

/-! ### Loads that succeed -/

/-- A `Load` that answers `Ok` has stored every entry that the file announces. -/
def LoadsAll (bytes : Bytes) : Prop :=
  (load (some bytes)).1 = .ok () →
    ∃ (entries : List (Key × Value)) (rest : Bytes), entries.length < 2 ^ 32 ∧
      bytes = fileText entries.length entries rest ∧
      (load (some bytes)).2.contents.map = inserted entries

theorem LoadsAll.few {bytes : Bytes} (all : LoadsAll bytes) {entries : List (Key × Value)}
    {rest : Bytes} (counted : entries.length < 2 ^ 32)
    (shape : bytes = fileText entries.length entries rest) :
    (keysOf entries).card ≤ maxEntries := by
  have loaded : load (some bytes) = (.ok (), Store.empty.replay entries) := by
    rw [shape, load_fileText counted, loadEntries_whole]
  obtain ⟨others, behind, countedOthers, shapeOthers, stored⟩ := all (by rw [loaded])
  have same : entries = others :=
    fileText_inj counted countedOthers (shape.symm.trans shapeOthers)
  have bound := (load (some bytes)).2.contents.few
  rw [stored, keys_inserted, ← same] at bound
  exact bound

/-- Nothing is lost exactly when the entries of the file name at most sixteen keys. -/
theorem loadsAll_iff (bytes : Bytes) :
    LoadsAll bytes ↔
      ∀ (entries : List (Key × Value)) (rest : Bytes), entries.length < 2 ^ 32 →
        bytes = fileText entries.length entries rest → (keysOf entries).card ≤ maxEntries := by
  constructor
  · intro all entries rest counted shape
    exact all.few counted shape
  · intro few answered
    rcases load_cases bytes with ⟨-, e, loaded⟩ | ⟨entries, rest, counted, shape, loaded⟩ |
      ⟨count, entries, rest, -, -, -, -, e, loaded⟩
    · rw [loaded] at answered
      cases answered
    · refine ⟨entries, rest, counted, shape, ?_⟩
      rw [loaded]
      exact replay_empty (few entries rest counted shape)
    · rw [loaded] at answered
      cases answered

end

/-- One entry in memory, and a file that ends after the first of two. -/
def tornFile : FileStore :=
  { store := (Store.empty.set [0x61] [0x31]).2
    disk :=
      { file := some (fileText 2 [(⟨[0x62], by decide⟩, ⟨[0x32], by decide⟩)] [])
        temp := none } }

theorem tornFile_failed :
    (tornFile.step .load).1 =
      .status (fail category Code.ioError.value "truncated kv entry") := by
  decide +kernel

theorem load_error_front_torn :
    (tornFile.step .load).1 =
      .status (fail category Code.ioError.value "truncated kv entry") ∧
    ((tornFile.step .load).2.step .commit).2.disk.file =
      some (encode (tornFile.step .load).2.store) :=
  ⟨tornFile_failed, (load_error_front tornFile _ tornFile_failed).2.2.1⟩

theorem loadKeeps_torn : ¬LoadKeeps tornFile := by
  intro keeps
  have same := keeps _ tornFile_failed
  have kept : tornFile.store.has [0x61] = true := by decide +kernel
  have lost : (tornFile.step .load).2.store.has [0x61] = false := by decide +kernel
  rw [same, kept] at lost
  cases lost

def seventeen : List (Key × Value) :=
  (List.range 17).map (fun i => (⟨[UInt8.ofNat i], by simp [keyCapacity]⟩, ⟨[7], by decide⟩))

/-- `Load` answers `Ok` and the seventeenth key is not there. -/
theorem loadsAll_seventeen :
    (load (some (fileText seventeen.length seventeen []))).1 = .ok () ∧
      (load (some (fileText seventeen.length seventeen []))).2.has [16] = false ∧
      ¬LoadsAll (fileText seventeen.length seventeen []) := by
  refine ⟨by decide +kernel, by decide +kernel, ?_⟩
  intro all
  have few : (keysOf seventeen).card ≤ maxEntries := all.few (by decide) rfl
  have many : (keysOf seventeen).card = 17 := by decide +kernel
  rw [many] at few
  exact absurd few (by decide)

end Etlx.Storage
