/-
What the file of the store holds, and what a commit leaves behind.

`Load` undoes the bytes of `Commit` on every store, which makes the last commit
durable over whole runs. A file that loads as a given store is at least as long
as the bytes `Commit` writes for it, so a commit whose writes were cut short and
whose rename went through has lost the store.
-/

import Etlx.Storage.HostKv
import Etlx.Lib.Machine

namespace Etlx.Storage

/-! ### The file format -/

theorem getU16_putU16 {v : Nat} (small : v < 2 ^ 16) (rest : Bytes) :
    getU16 ((putU16 v).flatten ++ rest) = some (v, rest) := by
  have low : (UInt8.ofNat v).toNat = v % 2 ^ 8 := UInt8.toNat_ofNat'
  have high : (UInt8.ofNat (v / 2 ^ 8)).toNat = v / 2 ^ 8 % 2 ^ 8 := UInt8.toNat_ofNat'
  change some ((UInt8.ofNat v).toNat + (UInt8.ofNat (v / 2 ^ 8)).toNat * 2 ^ 8, rest) = _
  rw [low, high]
  congr 2
  omega

theorem getU32_putU32 {v : Nat} (small : v < 2 ^ 32) (rest : Bytes) :
    getU32 ((putU32 v).flatten ++ rest) = some (v, rest) := by
  have byte (n : Nat) : (UInt8.ofNat n).toNat = n % 2 ^ 8 := UInt8.toNat_ofNat'
  change some ((UInt8.ofNat v).toNat + (UInt8.ofNat (v / 2 ^ 8)).toNat * 2 ^ 8 +
    (UInt8.ofNat (v / 2 ^ 16)).toNat * 2 ^ 16 + (UInt8.ofNat (v / 2 ^ 24)).toNat * 2 ^ 24,
    rest) = _
  rw [byte, byte, byte, byte]
  congr 2
  omega

theorem getBytes_append (front rest : Bytes) :
    getBytes front.length (front ++ rest) = some (front, rest) := by
  rw [getBytes, if_pos (by rw [List.length_append]; omega), List.take_left, List.drop_left]

theorem getU16_some {ahead rest : Bytes} {v : Nat} (read : getU16 ahead = some (v, rest)) :
    v < 2 ^ 16 ∧ ahead = (putU16 v).flatten ++ rest := by
  unfold getU16 at read
  split at read
  · next a b behind =>
      cases read
      have smallA := a.toNat_lt
      have smallB := b.toNat_lt
      have high : (a.toNat + b.toNat * 2 ^ 8) / 2 ^ 8 = b.toNat := by omega
      have low : UInt8.ofNat (a.toNat + b.toNat * 2 ^ 8) = a := by
        apply UInt8.toNat_inj.mp
        rw [UInt8.toNat_ofNat']
        omega
      refine ⟨by omega, ?_⟩
      rw [putU16, high, low, UInt8.ofNat_toNat]
      rfl
  · cases read

theorem getU32_some {ahead rest : Bytes} {v : Nat} (read : getU32 ahead = some (v, rest)) :
    v < 2 ^ 32 ∧ ahead = (putU32 v).flatten ++ rest := by
  unfold getU32 at read
  split at read
  · next a b c d behind =>
      cases read
      have smallA := a.toNat_lt
      have smallB := b.toNat_lt
      have smallC := c.toNat_lt
      have smallD := d.toNat_lt
      generalize number :
        a.toNat + b.toNat * 2 ^ 8 + c.toNat * 2 ^ 16 + d.toNat * 2 ^ 24 = v
      have byte {n : Nat} {x : UInt8} (same : n % 2 ^ 8 = x.toNat) : UInt8.ofNat n = x := by
        apply UInt8.toNat_inj.mp
        rw [UInt8.toNat_ofNat', same]
      have first : UInt8.ofNat v = a := byte (by omega)
      have second : UInt8.ofNat (v / 2 ^ 8) = b := byte (by omega)
      have third : UInt8.ofNat (v / 2 ^ 16) = c := byte (by omega)
      have fourth : UInt8.ofNat (v / 2 ^ 24) = d := byte (by omega)
      refine ⟨by omega, ?_⟩
      rw [putU32, first, second, third, fourth]
      rfl
  · cases read

theorem getBytes_some {count : Nat} {ahead front rest : Bytes}
    (read : getBytes count ahead = some (front, rest)) :
    front.length = count ∧ ahead = front ++ rest := by
  unfold getBytes at read
  split at read
  · next enough =>
      cases read
      exact ⟨List.length_take_of_le enough, (List.take_append_drop _ _).symm⟩
  · cases read

theorem entryWrites_flatten (entry : Key × Value) (rest : Bytes) :
    (entryWrites entry).flatten ++ rest =
      (putU16 entry.1.bytes.length).flatten ++
        (entry.1.bytes ++
          ((putU32 entry.2.bytes.length).flatten ++ (entry.2.bytes ++ rest))) := by
  unfold entryWrites
  by_cases empty : entry.2.bytes = []
  · rw [if_neg (by simpa using empty)]
    simp [empty]
  · rw [if_pos empty]
    simp

theorem getEntry_some {ahead key value rest : Bytes}
    (read : getEntry ahead = some (key, value, rest)) :
    ∃ entry : Key × Value, key = entry.1.bytes ∧ value = entry.2.bytes ∧
      ahead = (entryWrites entry).flatten ++ rest := by
  unfold getEntry at read
  split at read
  · cases read
  · next klen afterLength readLength =>
      split at read
      · cases read
      · next fitsKey =>
          split at read
          · cases read
          · next k afterKey readKey =>
              split at read
              · cases read
              · next vlen afterValueLength readValueLength =>
                  split at read
                  · cases read
                  · next fitsValue =>
                      split at read
                      · cases read
                      · next v afterValue readValue =>
                          cases read
                          obtain ⟨-, first⟩ := getU16_some readLength
                          obtain ⟨rfl, second⟩ := getBytes_some readKey
                          obtain ⟨-, third⟩ := getU32_some readValueLength
                          obtain ⟨rfl, fourth⟩ := getBytes_some readValue
                          refine ⟨(⟨key, by omega⟩, ⟨value, by omega⟩), rfl, rfl, ?_⟩
                          rw [entryWrites_flatten, first, second, third, fourth]

theorem getEntry_entryWrites (entry : Key × Value) (rest : Bytes) :
    getEntry ((entryWrites entry).flatten ++ rest) =
      some (entry.1.bytes, entry.2.bytes, rest) := by
  have shortKey := entry.1.bound
  have shortValue := entry.2.bound
  unfold keyCapacity at shortKey
  unfold valueCapacity at shortValue
  unfold getEntry
  rw [entryWrites_flatten, getU16_putU16 (by omega)]
  dsimp only
  rw [if_neg (by rw [keyCapacity]; omega), getBytes_append]
  dsimp only
  rw [getU32_putU32 (by omega)]
  dsimp only
  rw [if_neg (by rw [valueCapacity]; omega), getBytes_append]

def entrySize (entry : Key × Value) : Nat := 6 + entry.1.bytes.length + entry.2.bytes.length

theorem entryWrites_length (entry : Key × Value) :
    (entryWrites entry).flatten.length = entrySize entry := by
  unfold entryWrites entrySize
  by_cases empty : entry.2.bytes = []
  · simp [putU16, putU32, empty]
    omega
  · simp [putU16, putU32, empty]
    omega

/-! ### What the writes leave -/

theorem accepted_cons (accepts : Nat → Nat) (write : Bytes) (writes : List Bytes) :
    accepted accepts (write :: writes) =
      write.take (accepts 0) ++ accepted (fun i => accepts (i + 1)) writes := by
  unfold accepted
  rw [List.mapIdx_cons, List.flatten_cons]

def TakesAll (accepts : Nat → Nat) (writes : List Bytes) : Prop :=
  ∀ (i : Nat) (write : Bytes), writes[i]? = some write → write.length ≤ accepts i

theorem TakesAll.tail {accepts : Nat → Nat} {write : Bytes} {writes : List Bytes}
    (whole : TakesAll accepts (write :: writes)) :
    TakesAll (fun i => accepts (i + 1)) writes := by
  intro i other found
  exact whole (i + 1) other (by rw [List.getElem?_cons_succ]; exact found)

theorem accepted_whole {accepts : Nat → Nat} {writes : List Bytes}
    (whole : TakesAll accepts writes) : accepted accepts writes = writes.flatten := by
  induction writes generalizing accepts with
  | nil => rfl
  | cons write writes ih =>
      rw [accepted_cons, ih whole.tail, List.take_of_length_le (whole 0 write rfl),
        List.flatten_cons]

theorem accepted_length_le (accepts : Nat → Nat) (writes : List Bytes) :
    (accepted accepts writes).length ≤ writes.flatten.length := by
  induction writes generalizing accepts with
  | nil => exact Nat.le_refl _
  | cons write writes ih =>
      have rest := ih (fun i => accepts (i + 1))
      rw [accepted_cons, List.flatten_cons, List.length_append, List.length_append,
        List.length_take]
      omega

theorem accepted_short {accepts : Nat → Nat} {writes : List Bytes}
    (short : ¬ TakesAll accepts writes) :
    (accepted accepts writes).length < writes.flatten.length := by
  induction writes generalizing accepts with
  | nil =>
      apply absurd _ short
      intro i write found
      cases found
  | cons write writes ih =>
      rw [accepted_cons, List.flatten_cons, List.length_append, List.length_append,
        List.length_take]
      by_cases first : write.length ≤ accepts 0
      · have later : ¬ TakesAll (fun i => accepts (i + 1)) writes := by
          intro rest
          apply short
          intro i other found
          cases i with
          | zero =>
              cases found
              exact first
          | succ i => exact rest i other found
        have rest := ih later
        omega
      · have rest := accepted_length_le (fun i => accepts (i + 1)) writes
        omega

theorem Faults.healthy_takesAll (writes : List Bytes) :
    TakesAll (Faults.healthy writes).accepts writes := by
  intro i write found
  simp [Faults.healthy, found]

section

variable [LinearOrder Key]

theorem loadEntries_replay (entries : List (Key × Value)) (s : Store)
    (sorted : (s.map.entries ++ entries).Pairwise (fun a b => a.1 < b.1))
    (room : (s.map.entries ++ entries).length ≤ maxEntries) (rest : Bytes) :
    (loadEntries entries.length ((entries.flatMap entryWrites).flatten ++ rest) s).1 = .ok () ∧
      (loadEntries entries.length
        ((entries.flatMap entryWrites).flatten ++ rest) s).2.map.entries =
          s.map.entries ++ entries := by
  induction entries generalizing s with
  | nil => exact ⟨rfl, (List.append_nil _).symm⟩
  | cons entry entries ih =>
      have below : ∀ other ∈ s.map.entries, other.1 < entry.1 := by
        intro other member
        exact (List.pairwise_append.mp sorted).2.2 other member entry List.mem_cons_self
      have space : s.map.size < maxEntries := by
        rw [List.length_append, List.length_cons] at room
        change s.map.entries.length < maxEntries
        omega
      have stored : (s.set entry.1.bytes entry.2.bytes).2.map.entries =
          s.map.entries ++ [entry] := by
        rw [(s.set_eq entry.1 entry.2 (Or.inr space)).2]
        exact FlatMap.putEntry_last entry.1 entry.2 s.map.entries below
      have joined : (s.set entry.1.bytes entry.2.bytes).2.map.entries ++ entries =
          s.map.entries ++ entry :: entries := by
        rw [stored, List.append_assoc]
        rfl
      have bytes : ((entry :: entries).flatMap entryWrites).flatten ++ rest =
          (entryWrites entry).flatten ++ ((entries.flatMap entryWrites).flatten ++ rest) := by
        rw [List.flatMap_cons, List.flatten_append, List.append_assoc]
      rw [bytes, List.length_cons, loadEntries, getEntry_entryWrites]
      dsimp only
      rw [← joined]
      exact ih _ (joined ▸ sorted) (joined ▸ room)

/-- The bytes that `Commit` writes for a store. -/
def encode (s : Store) : Bytes := (commitWrites s).flatten

theorem load_encode (s : Store) : load (some (encode s)) = (.ok (), s) := by
  have header : encode s =
      magic ++ ((putU32 s.map.size).flatten ++ (s.map.entries.flatMap entryWrites).flatten) := by
    simp [encode, commitWrites]
  have few := s.bound
  unfold maxEntries at few
  have replayed := loadEntries_replay s.map.entries Store.empty s.map.sorted s.bound []
  rw [List.append_nil] at replayed
  have word := getBytes_append magic
    ((putU32 s.map.size).flatten ++ (s.map.entries.flatMap entryWrites).flatten)
  have width : 4 = magic.length := rfl
  unfold load
  rw [header]
  dsimp only
  rw [width, word]
  dsimp only
  rw [if_neg (by simp), getU32_putU32 (by omega)]
  dsimp only
  apply Prod.ext
  · exact replayed.1
  · apply Store.ext
    apply FlatMap.ext
    exact replayed.2

/-! ### Runs on a healthy disk -/

theorem commit_healthy (s : Store) (disk : Disk) :
    commit s disk (.healthy (commitWrites s)) =
      (.ok (), { file := some (encode s), temp := none }) := by
  have whole := accepted_whole (Faults.healthy_takesAll (commitWrites s))
  unfold commit
  simp only [Faults.healthy, Faults.closed, if_true] at whole ⊢
  rw [whole]
  rfl

def FileStore.after (f : FileStore) (steps : List Step) : FileStore :=
  (Machine.run FileStore.step f steps).2

theorem FileStore.after_append (f : FileStore) (front back : List Step) :
    f.after (front ++ back) = (f.after front).after back := by
  rw [FileStore.after, Machine.run_append]
  rfl

theorem FileStore.step_disk (f : FileStore) (step : Step) (other : step ≠ .commit) :
    (f.step step).2.disk = f.disk := by
  cases step with
  | commit => exact absurd rfl other
  | set key value => rfl
  | remove key => rfl
  | get key out => rfl
  | has key => rfl
  | load => rfl
  | reopen => rfl

/-- Only a commit touches the disk. -/
theorem FileStore.after_disk (f : FileStore) (steps : List Step) (other : Step.commit ∉ steps) :
    (f.after steps).disk = f.disk := by
  induction steps generalizing f with
  | nil => rfl
  | cons step steps ih =>
      have rest := ih (f.step step).2 (fun member => other (List.mem_cons_of_mem _ member))
      have first := f.step_disk step (fun same => other (same ▸ List.mem_cons_self))
      exact rest.trans first

theorem FileStore.after_reload (f : FileStore) (reload : Step)
    (reloads : reload = .load ∨ reload = .reopen) :
    (f.after [reload]).store = (load f.disk.file).2 := by
  rcases reloads with rfl | rfl
  · rfl
  · rfl

/-- The contents after a reload are those at the last commit. -/
theorem kv_durable (leftover : Option Bytes) :
    (∀ (front back : List Step) (reload : Step), Step.commit ∉ back →
      (reload = .load ∨ reload = .reopen) →
      ((FileStore.construct { file := none, temp := leftover }).after
        (front ++ .commit :: back ++ [reload])).store =
      ((FileStore.construct { file := none, temp := leftover }).after front).store) ∧
    (∀ (steps : List Step) (reload : Step), Step.commit ∉ steps →
      (reload = .load ∨ reload = .reopen) →
      ((FileStore.construct { file := none, temp := leftover }).after
        (steps ++ [reload])).store = .empty) ∧
    ∀ s : Store, load (some (encode s)) = (.ok (), s) := by
  refine ⟨?_, ?_, load_encode⟩
  · intro front back reload none reloads
    rw [List.append_assoc, FileStore.after_append]
    generalize (FileStore.construct { file := .none, temp := leftover }).after front = f
    have committed : (f.step .commit).2.disk.file = some (encode f.store) := by
      change (commit f.store f.disk (.healthy (commitWrites f.store))).2.file = _
      rw [commit_healthy]
    change ((f.step .commit).2.after (back ++ [reload])).store = f.store
    rw [FileStore.after_append, FileStore.after_reload _ reload reloads,
      FileStore.after_disk _ back none, committed, load_encode]
  · intro steps reload none reloads
    rw [FileStore.after_append, FileStore.after_reload _ reload reloads,
      FileStore.after_disk _ steps none]
    rfl

/-! ### Commits that fail -/

theorem encode_length (s : Store) :
    (encode s).length = 8 + (s.map.entries.map entrySize).sum := by
  have all (entries : List (Key × Value)) :
      (entries.flatMap entryWrites).flatten.length = (entries.map entrySize).sum := by
    induction entries with
    | nil => rfl
    | cons entry entries ih =>
        rw [List.flatMap_cons, List.flatten_append, List.length_append, entryWrites_length, ih,
          List.map_cons, List.sum_cons]
  rw [encode, commitWrites, List.flatten_append, List.length_append, all]
  rfl

theorem loadEntries_size (count : Nat) (ahead : Bytes) (s : Store)
    (loaded : (loadEntries count ahead s).1 = .ok ()) :
    ((loadEntries count ahead s).2.map.entries.map entrySize).sum ≤
      (s.map.entries.map entrySize).sum + ahead.length := by
  induction count generalizing ahead s with
  | zero => exact Nat.le_add_right _ _
  | succ count ih =>
      unfold loadEntries at loaded ⊢
      split at loaded
      · cases loaded
      · next key value rest read =>
          obtain ⟨entry, rfl, rfl, rfl⟩ := getEntry_some read
          have later := ih rest (s.set entry.1.bytes entry.2.bytes).2 loaded
          have grown : ((s.set entry.1.bytes entry.2.bytes).2.map.entries.map entrySize).sum ≤
              (s.map.entries.map entrySize).sum + entrySize entry := by
            rcases s.set_map entry.1 entry.2 with stored | kept
            · rw [stored]
              exact FlatMap.putEntry_weight entrySize _ _ s.map.entries
            · rw [kept]
              exact Nat.le_add_right _ _
          rw [List.length_append, entryWrites_length]
          omega

theorem load_length {bytes : Bytes} {s : Store} (loaded : load (some bytes) = (.ok (), s)) :
    (encode s).length ≤ bytes.length := by
  unfold load at loaded
  dsimp only at loaded
  split at loaded
  · cases (Prod.mk.inj loaded).1
  · next word afterWord readWord =>
      split at loaded
      · cases (Prod.mk.inj loaded).1
      · split at loaded
        · cases (Prod.mk.inj loaded).1
        · next count afterCount readCount =>
            obtain ⟨wordLength, first⟩ := getBytes_some readWord
            obtain ⟨-, second⟩ := getU32_some readCount
            have status : (loadEntries count afterCount Store.empty).1 = .ok () := by
              rw [loaded]
            have size := loadEntries_size count afterCount Store.empty status
            rw [loaded] at size
            change (s.map.entries.map entrySize).sum ≤ 0 + afterCount.length at size
            rw [encode_length, first, second, List.length_append, List.length_append, wordLength]
            change _ ≤ 4 + (4 + afterCount.length)
            omega

/-- An answer of `Ok` means that the file loads as the store, and any other
answer that the file is untouched. -/
def CommitAtomic (s : Store) (disk : Disk) (faults : Faults) : Prop :=
  ((commit s disk faults).1 = .ok () →
    load (commit s disk faults).2.file = (.ok (), s)) ∧
  ((commit s disk faults).1 ≠ .ok () → (commit s disk faults).2.file = disk.file)

theorem commit_renamed (s : Store) (disk : Disk) {faults : Faults} (opens : faults.opens = true)
    (flushes : faults.flushes = true) (renames : faults.renames = true) :
    commit s disk faults =
      (.ok (),
        { file := some (faults.closed (accepted faults.accepts (commitWrites s)))
          temp := none }) := by
  rw [commit, if_pos opens]
  dsimp only
  rw [if_pos flushes, if_pos renames]

theorem commit_failed (s : Store) (disk : Disk) {faults : Faults}
    (fails : faults.opens = false ∨ faults.flushes = false ∨ faults.renames = false) :
    (commit s disk faults).1 ≠ .ok () ∧ (commit s disk faults).2.file = disk.file := by
  have failed (e : Error) : (Except.error e : Status) ≠ .ok () := by
    intro same
    cases same
  unfold commit
  split
  · next opens =>
      dsimp only
      split
      · next flushes =>
          split
          · next renames =>
              rw [opens, flushes, renames] at fails
              simp at fails
          · exact ⟨failed _, rfl⟩
      · exact ⟨failed _, rfl⟩
  · exact ⟨failed _, rfl⟩

theorem closed_short (s : Store) {faults : Faults}
    (short : ¬ (TakesAll faults.accepts (commitWrites s) ∧
      ∀ count, faults.keeps = some count → (encode s).length ≤ count)) :
    (faults.closed (accepted faults.accepts (commitWrites s))).length < (encode s).length := by
  have written := accepted_length_le faults.accepts (commitWrites s)
  change _ ≤ (encode s).length at written
  unfold Faults.closed
  cases kept : faults.keeps with
  | none =>
      apply accepted_short
      intro whole
      apply short
      refine ⟨whole, ?_⟩
      intro count some
      rw [kept] at some
      cases some
  | some count =>
      dsimp only
      rw [List.length_take]
      by_cases whole : TakesAll faults.accepts (commitWrites s)
      · have lost : ¬ (encode s).length ≤ count := by
          intro enough
          apply short
          refine ⟨whole, ?_⟩
          intro other same
          rw [kept] at same
          cases same
          exact enough
        omega
      · have fewer := accepted_short whole
        change _ < (encode s).length at fewer
        omega

theorem closed_whole (s : Store) {faults : Faults}
    (whole : TakesAll faults.accepts (commitWrites s))
    (keeps : ∀ count, faults.keeps = some count → (encode s).length ≤ count) :
    faults.closed (accepted faults.accepts (commitWrites s)) = encode s := by
  rw [accepted_whole whole]
  unfold Faults.closed
  cases kept : faults.keeps with
  | none => rfl
  | some count => exact List.take_of_length_le (keeps count kept)

/-- A commit is atomic exactly when a call whose result it looks at fails, or
when no byte is lost by the calls whose results it does not look at. -/
theorem commit_atomic_iff (s : Store) (disk : Disk) (faults : Faults) :
    CommitAtomic s disk faults ↔
      faults.opens = false ∨ faults.flushes = false ∨ faults.renames = false ∨
        (TakesAll faults.accepts (commitWrites s) ∧
          ∀ count, faults.keeps = some count → (encode s).length ≤ count) := by
  by_cases fails : faults.opens = false ∨ faults.flushes = false ∨ faults.renames = false
  · obtain ⟨refused, untouched⟩ := commit_failed s disk fails
    constructor
    · intro _atomic
      rcases fails with first | second | third
      · exact Or.inl first
      · exact Or.inr (Or.inl second)
      · exact Or.inr (Or.inr (Or.inl third))
    · intro _condition
      exact ⟨fun answered => absurd answered refused, fun _ => untouched⟩
  · simp only [not_or, Bool.not_eq_false] at fails
    obtain ⟨opens, flushes, renames⟩ := fails
    have renamed := commit_renamed s disk opens flushes renames
    constructor
    · rintro ⟨loads, -⟩
      right
      right
      right
      rw [renamed] at loads
      by_contra short
      have long := load_length (loads rfl)
      have fewer := closed_short s short
      omega
    · intro condition
      rw [opens, flushes, renames] at condition
      rcases condition with impossible | impossible | impossible | ⟨whole, keeps⟩
      · cases impossible
      · cases impossible
      · cases impossible
      · refine ⟨?_, ?_⟩
        · intro _answered
          rw [renamed]
          dsimp only
          rw [closed_whole s whole keeps]
          exact load_encode s
        · intro refused
          rw [renamed] at refused
          exact absurd rfl refused

end

/-! ### On a concrete order -/

/-- An empty key whose value looks like the magic word survives a reopening, and
the empty value set after the commit does not. -/
theorem kv_durable_reopened :
    ((FileStore.construct { file := none, temp := none }).after
        ([.set [] magic] ++ .commit :: [.set [0x61] []] ++ [.reopen])).store =
      ((FileStore.construct { file := none, temp := none }).after [.set [] magic]).store ∧
    (((FileStore.construct { file := none, temp := none }).after [.set [] magic]).store.get
      [] [0, 0, 0, 0]) = (.ok 4, magic) ∧
    ((FileStore.construct { file := none, temp := none }).after
        ([.set [] magic] ++ [.load])).store = .empty := by
  have durable := kv_durable none
  exact ⟨durable.1 _ _ _ (by decide) (Or.inr rfl), by decide +kernel,
    durable.2.1 _ _ (by decide) (Or.inl rfl)⟩

def tornStore : Store := (Store.empty.set [0x61] [0x31]).2

def diskFull : Faults :=
  { opens := true
    accepts := fun i => if i = 0 then 4 else 0
    flushes := true
    keeps := none
    renames := true }

theorem commit_tears :
    (commit tornStore { file := some (encode Store.empty), temp := none } diskFull).1 = .ok () ∧
      (load (commit tornStore { file := some (encode Store.empty), temp := none }
        diskFull).2.file).1 = fail category Code.ioError.value "truncated kv header" ∧
      ¬ CommitAtomic tornStore { file := some (encode Store.empty), temp := none } diskFull := by
  have answered :
      (commit tornStore { file := some (encode Store.empty), temp := none } diskFull).1 =
        .ok () := by
    decide +kernel
  have truncated :
      (load (commit tornStore { file := some (encode Store.empty), temp := none }
        diskFull).2.file).1 = fail category Code.ioError.value "truncated kv header" := by
    decide +kernel
  refine ⟨answered, truncated, ?_⟩
  intro atomic
  rw [atomic.1 answered] at truncated
  cases truncated

end Etlx.Storage
