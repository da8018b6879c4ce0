/-
What a key-value store is for: a finite map with at most sixteen entries.

Keys and values are byte strings within their capacities, as their types say. The
store answers every run of calls as the map does, and a call that answers with an
error changes nothing.
-/

import Etlx.Storage.Kv
import Etlx.Lib.Machine

namespace Etlx.Storage

/-! ### The calls -/

inductive KvCall
  | set (key value : Bytes)
  | get (key out : Bytes)
  | has (key : Bytes)
  | remove (key : Bytes)
  | setString (key value : Bytes)
  | getStringInto (key scratch : Bytes)
  | commit
deriving DecidableEq

inductive KvReply
  | status (status : Status)
  | found (count : Result Nat) (out : Bytes)
  | present (has : Bool)
  | text (view : Result Bytes) (scratch : Bytes)
deriving DecidableEq

def KvReply.isError : KvReply → Bool
  | .status (.error _) => true
  | .found (.error _) _ => true
  | .text (.error _) _ => true
  | _ => false

def Store.call [LinearOrder Key] (s : Store) : KvCall → KvReply × Store
  | .set key value => (.status (s.set key value).1, (s.set key value).2)
  | .get key out => (.found (s.get key out).1 (s.get key out).2, s)
  | .has key => (.present (s.has key), s)
  | .remove key => (.status (s.remove key).1, (s.remove key).2)
  | .setString key value => (.status (s.setString key value).1, (s.setString key value).2)
  | .getStringInto key scratch =>
      (.text (s.getStringInto key scratch).1 (s.getStringInto key scratch).2, s)
  | .commit => (.status s.commit.1, s.commit.2)

/-! ### The bounded map -/

@[ext]
structure Contents where
  map : Finmap (fun _ : Key => Value)
  few : map.keys.card ≤ maxEntries

namespace Contents

def empty : Contents := { map := ∅, few := by simp }

theorem keys_insert (map : Finmap (fun _ : Key => Value)) (key : Key) (value : Value) :
    (map.insert key value).keys = insert key map.keys := by
  ext other
  rw [Finmap.mem_keys, Finmap.mem_insert, Finset.mem_insert, Finmap.mem_keys]

theorem insert_few (c : Contents) (key : Key) (value : Value)
    (room : key ∈ c.map ∨ c.map.keys.card < maxEntries) :
    (c.map.insert key value).keys.card ≤ maxEntries := by
  rw [keys_insert]
  rcases room with present | space
  · rw [Finset.insert_eq_of_mem (Finmap.mem_keys.mpr present)]
    exact c.few
  · exact Nat.le_trans (Finset.card_insert_le _ _) space

theorem erase_few (c : Contents) (key : Key) : (c.map.erase key).keys.card ≤ maxEntries := by
  rw [Finmap.keys_erase]
  exact Nat.le_trans (Finset.card_erase_le) c.few

def keyTooLong {α : Type} : Result α := fail category Code.tooLarge.value "key too long"

def set (c : Contents) (key value : Bytes) : Status × Contents :=
  if keyFits : key.length ≤ keyCapacity then
    if valueFits : value.length ≤ valueCapacity then
      if room : (⟨key, keyFits⟩ : Key) ∈ c.map ∨ c.map.keys.card < maxEntries then
        (.ok (),
          { map := c.map.insert ⟨key, keyFits⟩ ⟨value, valueFits⟩
            few := c.insert_few _ _ room })
      else (fail category Code.full.value "store full", c)
    else (fail category Code.tooLarge.value "value too long", c)
  else (keyTooLong, c)

def get (c : Contents) (key out : Bytes) : Result Nat × Bytes :=
  if keyFits : key.length ≤ keyCapacity then
    match c.map.lookup ⟨key, keyFits⟩ with
    | none => (fail category Code.notFound.value "key not found", out)
    | some value =>
        if value.bytes.length ≤ out.length then
          (.ok value.bytes.length, value.bytes ++ out.drop value.bytes.length)
        else (fail category Code.tooLarge.value "output buffer too small", out)
  else (keyTooLong, out)

def has (c : Contents) (key : Bytes) : Bool :=
  if keyFits : key.length ≤ keyCapacity then decide ((⟨key, keyFits⟩ : Key) ∈ c.map) else false

def remove (c : Contents) (key : Bytes) : Status × Contents :=
  if keyFits : key.length ≤ keyCapacity then
    (.ok (), { map := c.map.erase ⟨key, keyFits⟩, few := c.erase_few _ })
  else (keyTooLong, c)

def getStringInto (c : Contents) (key scratch : Bytes) : Result Bytes × Bytes :=
  if keyFits : key.length ≤ keyCapacity then
    match c.map.lookup ⟨key, keyFits⟩ with
    | none => (fail category Code.notFound.value "key not found", scratch)
    | some value =>
        if value.bytes.length ≤ scratch.length then
          (.ok value.bytes, value.bytes ++ scratch.drop value.bytes.length)
        else (fail category Code.tooLarge.value "output buffer too small", scratch)
  else (keyTooLong, scratch)

def call (c : Contents) : KvCall → KvReply × Contents
  | .set key value => (.status (c.set key value).1, (c.set key value).2)
  | .get key out => (.found (c.get key out).1 (c.get key out).2, c)
  | .has key => (.present (c.has key), c)
  | .remove key => (.status (c.remove key).1, (c.remove key).2)
  | .setString key value => (.status (c.set key value).1, (c.set key value).2)
  | .getStringInto key scratch =>
      (.text (c.getStringInto key scratch).1 (c.getStringInto key scratch).2, c)
  | .commit => (.status (.ok ()), c)

end Contents

/-! ### The store refines the map -/

theorem makeKey_long {key : Bytes} (long : ¬key.length ≤ keyCapacity) :
    makeKey key = Contents.keyTooLong := by
  rw [makeKey, dif_neg long]
  rfl

theorem makeKey_fits {key : Bytes} (fits : key.length ≤ keyCapacity) :
    makeKey key = .ok ⟨key, fits⟩ := by
  rw [makeKey, dif_pos fits]

theorem makeKey_ok {key : Bytes} {k : Key} (made : makeKey key = .ok k) : k.bytes = key := by
  unfold makeKey at made
  split at made
  · cases made
    rfl
  · cases made

section

variable [LinearOrder Key]

def Store.contents (s : Store) : Contents :=
  { map := s.map.toFinmap
    few := by
      rw [FlatMap.card_toFinmap]
      exact s.bound }

theorem Store.get_eq (s : Store) (key out : Bytes) : s.get key out = s.contents.get key out := by
  unfold Store.get Contents.get
  by_cases fits : key.length ≤ keyCapacity
  · rw [makeKey_fits fits, dif_pos fits]
    dsimp only [Store.contents]
    rw [FlatMap.lookup_toFinmap]
    cases s.map.find ⟨key, fits⟩ with
    | none => rfl
    | some value =>
        dsimp only
        by_cases short : out.length < value.bytes.length
        · rw [if_pos short, if_neg (Nat.not_le.mpr short)]
        · rw [if_neg short, if_pos (Nat.not_lt.mp short)]
  · rw [makeKey_long fits, dif_neg fits]
    rfl

theorem mem_contents (s : Store) (key : Key) :
    key ∈ s.contents.map ↔ s.map.find key ≠ none := by
  rw [← Finmap.lookup_isSome, Option.isSome_iff_ne_none]
  exact not_congr (by rw [Store.contents, FlatMap.lookup_toFinmap])

theorem Store.has_eq (s : Store) (key : Bytes) : s.has key = s.contents.has key := by
  unfold Store.has Contents.has
  by_cases fits : key.length ≤ keyCapacity
  · rw [makeKey_fits fits, dif_pos fits]
    have present := mem_contents s ⟨key, fits⟩
    by_cases found : s.map.find ⟨key, fits⟩ = none
    · rw [decide_eq_false (fun member => present.mp member found)]
      dsimp only
      rw [found]
      rfl
    · rw [decide_eq_true (present.mpr found)]
      exact Option.isSome_iff_ne_none.mpr found
  · rw [makeKey_long fits, dif_neg fits]
    rfl

theorem Store.getStringInto_eq (s : Store) (key scratch : Bytes) :
    s.getStringInto key scratch = s.contents.getStringInto key scratch := by
  unfold Store.getStringInto Contents.getStringInto
  rw [s.get_eq]
  unfold Contents.get
  by_cases fits : key.length ≤ keyCapacity
  · rw [dif_pos fits, dif_pos fits]
    cases s.contents.map.lookup ⟨key, fits⟩ with
    | none => rfl
    | some value =>
        dsimp only
        by_cases room : value.bytes.length ≤ scratch.length
        · rw [if_pos room, if_pos room]
          dsimp only
          rw [List.take_left]
        · rw [if_neg room, if_neg room]
          rfl
  · rw [dif_neg fits, dif_neg fits]
    rfl

theorem Store.remove_refines (s : Store) (key : Bytes) :
    (s.remove key).1 = (s.contents.remove key).1 ∧
      (s.remove key).2.contents = (s.contents.remove key).2 := by
  unfold Store.remove Contents.remove
  by_cases fits : key.length ≤ keyCapacity
  · rw [makeKey_fits fits, dif_pos fits]
    refine ⟨rfl, Contents.ext ?_⟩
    exact s.map.toFinmap_erase ⟨key, fits⟩
  · rw [makeKey_long fits, dif_neg fits]
    exact ⟨rfl, rfl⟩

theorem Store.set_refines (s : Store) (key value : Bytes) :
    (s.set key value).1 = (s.contents.set key value).1 ∧
      (s.set key value).2.contents = (s.contents.set key value).2 := by
  unfold Contents.set
  by_cases keyFits : key.length ≤ keyCapacity
  · rw [dif_pos keyFits]
    by_cases valueFits : value.length ≤ valueCapacity
    · rw [dif_pos valueFits]
      have present := mem_contents s ⟨key, keyFits⟩
      have size : s.contents.map.keys.card = s.map.size := s.map.card_toFinmap
      by_cases room : (⟨key, keyFits⟩ : Key) ∈ s.contents.map ∨
          s.contents.map.keys.card < maxEntries
      · rw [dif_pos room]
        rw [present, size] at room
        have stored := s.set_eq ⟨key, keyFits⟩ ⟨value, valueFits⟩ room
        refine ⟨stored.1, Contents.ext ?_⟩
        change (s.set key value).2.map.toFinmap = _
        rw [stored.2]
        exact s.map.toFinmap_put _ _
      · rw [dif_neg room]
        rw [present, size, not_or, not_not] at room
        unfold Store.set
        rw [makeKey_fits keyFits]
        dsimp only
        rw [dif_pos valueFits, dif_pos room.1, dif_neg room.2]
        exact ⟨rfl, rfl⟩
    · rw [dif_neg valueFits]
      unfold Store.set
      rw [makeKey_fits keyFits]
      dsimp only
      rw [dif_neg valueFits]
      exact ⟨rfl, rfl⟩
  · rw [dif_neg keyFits]
    unfold Store.set
    rw [makeKey_long keyFits]
    exact ⟨rfl, rfl⟩

theorem Store.call_refines (s : Store) (call : KvCall) :
    (s.call call).1 = (s.contents.call call).1 ∧
      (s.call call).2.contents = (s.contents.call call).2 := by
  cases call with
  | set key value =>
      obtain ⟨answer, next⟩ := s.set_refines key value
      exact ⟨congrArg KvReply.status answer, next⟩
  | setString key value =>
      obtain ⟨answer, next⟩ := s.set_refines key value
      exact ⟨congrArg KvReply.status answer, next⟩
  | get key out =>
      refine ⟨?_, rfl⟩
      change KvReply.found (s.get key out).1 (s.get key out).2 = _
      rw [s.get_eq]
      rfl
  | has key => exact ⟨congrArg KvReply.present (s.has_eq key), rfl⟩
  | remove key =>
      obtain ⟨answer, next⟩ := s.remove_refines key
      exact ⟨congrArg KvReply.status answer, next⟩
  | getStringInto key scratch =>
      refine ⟨?_, rfl⟩
      change KvReply.text (s.getStringInto key scratch).1 (s.getStringInto key scratch).2 = _
      rw [s.getStringInto_eq]
      rfl
  | commit => exact ⟨rfl, rfl⟩

theorem Store.run_refines (s : Store) (calls : List KvCall) :
    (Machine.run Store.call s calls).1 = (Machine.run Contents.call s.contents calls).1 ∧
      (Machine.run Store.call s calls).2.contents =
        (Machine.run Contents.call s.contents calls).2 := by
  apply Machine.run_refines
    (fun (store : Store) (contents : Contents) => store.contents = contents) (fun _ => True)
  · intro store contents call related _ _
    rw [← related]
    exact store.call_refines call
  · rfl
  · exact Machine.along_of_forall (fun _ => trivial) _ calls

/-! ### What is read back -/

def KvCall.writes (key : Bytes) : KvCall → Bool
  | .set other _ => other == key
  | .setString other _ => other == key
  | .remove other => other == key
  | _ => false

/-- No call of the run changes the key: those that write it are all refused. -/
def Leaves (key : Bytes) (s : Store) (calls : List KvCall) : Prop :=
  ∀ pair ∈ calls.zip (Machine.run Store.call s calls).1,
    pair.1.writes key = true → pair.2.isError = true

instance (key : Bytes) (s : Store) (calls : List KvCall) : Decidable (Leaves key s calls) :=
  inferInstanceAs (Decidable (∀ pair ∈ _, _))

theorem Store.set_error (s : Store) (key value : Bytes) {e : Error}
    (refused : (s.set key value).1 = .error e) : (s.set key value).2 = s := by
  unfold Store.set at refused ⊢
  split
  · rfl
  · next k made =>
      rw [made] at refused
      dsimp only at refused ⊢
      split
      · next valueFits =>
          rw [dif_pos valueFits] at refused
          split
          · next absent =>
              rw [dif_pos absent] at refused
              split
              · next room =>
                  rw [dif_pos room] at refused
                  cases refused
              · rfl
          · next present =>
              rw [dif_neg present] at refused
              cases refused
      · rfl

theorem Store.remove_error (s : Store) (key : Bytes) {e : Error}
    (refused : (s.remove key).1 = .error e) : (s.remove key).2 = s := by
  unfold Store.remove at refused ⊢
  split
  · rfl
  · next k made =>
      rw [made] at refused
      cases refused

theorem Store.call_error (s : Store) (call : KvCall)
    (refused : (s.call call).1.isError = true) : (s.call call).2 = s := by
  cases call with
  | set key value =>
      cases answer : (s.set key value).1 with
      | ok => simp [Store.call, answer, KvReply.isError] at refused
      | error e => exact s.set_error key value answer
  | setString key value =>
      cases answer : (s.set key value).1 with
      | ok => simp [Store.call, Store.setString, answer, KvReply.isError] at refused
      | error e => exact s.set_error key value answer
  | remove key =>
      cases answer : (s.remove key).1 with
      | ok => simp [Store.call, answer, KvReply.isError] at refused
      | error e => exact s.remove_error key answer
  | get key out => rfl
  | has key => rfl
  | getStringInto key scratch => rfl
  | commit => rfl

theorem Store.set_find (s : Store) (other value : Bytes) (key : Key)
    (different : other ≠ key.bytes) : (s.set other value).2.map.find key = s.map.find key := by
  unfold Store.set
  split
  · rfl
  · next k made =>
      have distinct : key ≠ k := by
        intro same
        exact different (by rw [same, makeKey_ok made])
      split
      · split
        · split
          · rw [FlatMap.find_put, if_neg distinct]
          · rfl
        · rw [FlatMap.find_put, if_neg distinct]
      · rfl

theorem Store.remove_find (s : Store) (other : Bytes) (key : Key)
    (different : other ≠ key.bytes) : (s.remove other).2.map.find key = s.map.find key := by
  unfold Store.remove
  split
  · rfl
  · next k made =>
      have distinct : key ≠ k := by
        intro same
        exact different (by rw [same, makeKey_ok made])
      rw [FlatMap.find_erase, if_neg distinct]

theorem Store.call_find (s : Store) (call : KvCall) (key : Key)
    (untouched : call.writes key.bytes = true → (s.call call).1.isError = true) :
    (s.call call).2.map.find key = s.map.find key := by
  by_cases writes : call.writes key.bytes = true
  · rw [s.call_error call (untouched writes)]
  · cases call with
    | set other value => exact s.set_find other value key (by simpa [KvCall.writes] using writes)
    | setString other value =>
        exact s.set_find other value key (by simpa [KvCall.writes] using writes)
    | remove other => exact s.remove_find other key (by simpa [KvCall.writes] using writes)
    | get other out => rfl
    | has other => rfl
    | getStringInto other scratch => rfl
    | commit => rfl

theorem Store.run_find (s : Store) (calls : List KvCall) (key : Key)
    (leaves : Leaves key.bytes s calls) :
    (Machine.run Store.call s calls).2.map.find key = s.map.find key := by
  induction calls generalizing s with
  | nil => rfl
  | cons call calls ih =>
      have first := s.call_find call key (leaves (call, (s.call call).1) List.mem_cons_self)
      have rest := ih (s.call call).2
        (fun pair member => leaves pair (List.mem_cons_of_mem _ member))
      exact rest.trans first

def readInto (value out : Bytes) : Result Nat × Bytes :=
  if value.length ≤ out.length then (.ok value.length, value ++ out.drop value.length)
  else (fail category Code.tooLarge.value "output buffer too small", out)

theorem Store.get_found {s : Store} {key : Key} {value : Value}
    (found : s.map.find key = some value)
    (out : Bytes) : s.get key.bytes out = readInto value.bytes out := by
  rw [s.get_eq, Contents.get, dif_pos key.bound, Store.contents, FlatMap.lookup_toFinmap, found]
  rfl

theorem Store.get_absent {s : Store} {key : Key} (absent : s.map.find key = none) (out : Bytes) :
    s.get key.bytes out = (fail category Code.notFound.value "key not found", out) := by
  rw [s.get_eq, Contents.get, dif_pos key.bound, Store.contents, FlatMap.lookup_toFinmap, absent]

theorem Store.set_ok {s : Store} {key value : Bytes} (answered : (s.set key value).1 = .ok ()) :
    ∃ (keyFits : key.length ≤ keyCapacity) (valueFits : value.length ≤ valueCapacity),
      (s.set key value).2.map = s.map.put ⟨key, keyFits⟩ ⟨value, valueFits⟩ := by
  unfold Store.set at answered ⊢
  split at answered
  · cases answered
  · next k made =>
      have fits : key.length ≤ keyCapacity := makeKey_ok made ▸ k.bound
      have same := made.symm.trans (makeKey_fits fits)
      cases same
      split at answered
      · next valueFits =>
          refine ⟨fits, valueFits, ?_⟩
          rw [dif_pos valueFits]
          split
          · next absent =>
              rw [dif_pos absent] at answered
              split
              · rfl
              · next noRoom =>
                  rw [dif_neg noRoom] at answered
                  cases answered
          · rfl
      · cases answered

/-- The store answers as the bounded map over every run, an error changes
nothing, and what is read is what was written last. -/
theorem store_refines_boundedMap :
    (∀ calls : List KvCall,
      (Machine.run Store.call Store.empty calls).1 =
          (Machine.run Contents.call Contents.empty calls).1 ∧
        (Machine.run Store.call Store.empty calls).2.contents =
          (Machine.run Contents.call Contents.empty calls).2) ∧
    (∀ (s : Store) (call : KvCall), (s.call call).1.isError = true → (s.call call).2 = s) ∧
    (∀ (s : Store) (key value out : Bytes) (calls : List KvCall),
      (s.set key value).1 = .ok () → Leaves key (s.set key value).2 calls →
        (Machine.run Store.call (s.set key value).2 calls).2.get key out = readInto value out) ∧
    (∀ (s : Store) (key out : Bytes) (calls : List KvCall),
      (s.remove key).1 = .ok () → Leaves key (s.remove key).2 calls →
        (Machine.run Store.call (s.remove key).2 calls).2.get key out =
          (fail category Code.notFound.value "key not found", out)) ∧
    (∀ (key out : Bytes) (calls : List KvCall), key.length ≤ keyCapacity →
      Leaves key Store.empty calls →
        (Machine.run Store.call Store.empty calls).2.get key out =
          (fail category Code.notFound.value "key not found", out)) := by
  refine ⟨?_, fun s call refused => s.call_error call refused, ?_, ?_, ?_⟩
  · intro calls
    have start : Store.empty.contents = Contents.empty := Contents.ext rfl
    rw [← start]
    exact Store.empty.run_refines calls
  · intro s key value out calls answered leaves
    obtain ⟨keyFits, valueFits, stored⟩ := Store.set_ok answered
    have kept := Store.run_find _ calls ⟨key, keyFits⟩ leaves
    rw [stored, FlatMap.find_put, if_pos rfl] at kept
    exact Store.get_found kept out
  · intro s key out calls answered leaves
    cases made : makeKey key with
    | error e =>
        rw [Store.remove, made] at answered
        cases answered
    | ok k =>
        have same := makeKey_ok made
        subst same
        have kept := Store.run_find _ calls k leaves
        rw [Store.remove, made] at kept ⊢
        dsimp only at kept ⊢
        rw [FlatMap.find_erase, if_pos rfl] at kept
        exact Store.get_absent kept out
  · intro key out calls keyFits leaves
    have kept := Store.run_find Store.empty calls ⟨key, keyFits⟩ leaves
    exact Store.get_absent kept out

end

def sixteenSets : List KvCall := (List.range 16).map (fun i => .set [UInt8.ofNat i] [7])

/-- A full store refuses a seventeenth key, takes a new value for one it has, and
tells keys apart by their length. -/
theorem store_refines_boundedMap_full :
    (Machine.run Store.call Store.empty
        (sixteenSets ++ [.set [16] [8], .set [0] [9, 9], .get [0] [1, 1, 1], .get [0, 0] []])).1 =
      (Machine.run Contents.call Contents.empty
        (sixteenSets ++ [.set [16] [8], .set [0] [9, 9], .get [0] [1, 1, 1], .get [0, 0] []])).1 ∧
    (Machine.run Store.call Store.empty
        (sixteenSets ++ [.set [16] [8], .set [0] [9, 9], .get [0] [1, 1, 1], .get [0, 0] []])).1 =
      List.replicate 16 (.status (.ok ())) ++
        [.status (fail category Code.full.value "store full"), .status (.ok ()),
          .found (.ok 2) [9, 9, 1],
          .found (fail category Code.notFound.value "key not found") []] ∧
    (Machine.run Store.call (Store.empty.set [0] [9]).2 [.set [0] (List.replicate 129 0)]).2.get
      [0] [1] = (.ok 1, [9]) := by
  obtain ⟨runs, -, reads, -, -⟩ := store_refines_boundedMap
  exact ⟨(runs _).1, by decide +kernel,
    reads Store.empty [0] [9] [1] _ (by decide +kernel) (by decide +kernel)⟩

end Etlx.Storage
