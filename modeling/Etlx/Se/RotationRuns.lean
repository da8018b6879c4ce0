/-
Rotations of the SCP03 keys one after another.

The key file and the card start with the same keys. A rotation reads the DEK from the file,
has the card replace its keys and then replaces the file; on the way the answer of the card
can be lost, calls of the file system can fail, and the process can end. File and card stay
in step exactly if every rotation that gets as far as sending also gets as far as the second
rename, with an answer and with the whole text.
-/

import Etlx.Lib.Machine
import Etlx.Se.Scp03Correct

namespace Etlx.Se

open Scp03Keyfile (Disk Faults Holds Prints diskAfter)

/-- The answer to a PUT KEY: the version of the keys, their check values and the status. -/
def acceptance (keyVer : UInt8) (kcvs : List Bytes) : Bytes :=
  keyVer :: (kcvs.flatten ++ [0x90, 0x00])

/-- A card that replaces its keys as PUT KEY says: with blocks that hold keys encrypted under the
DEK it has and their check values. What else it does with a command is its own affair. -/
structure KeyCard (aes : Cipher) (σ : Type) where
  keys : σ → Scp03KeySet
  keyVerNo : UInt8
  receive : σ → Apdu → Reply × σ
  replaces : ∀ (state : σ) (apdu : Apdu) (blocks : List KeyBlock) (newKeys : Scp03KeySet),
    apdu.header = [0x80, 0xd8, keyVerNo, 0x81] → Parses apdu.body keyVerNo blocks →
    blocks.map (fun block => aes.decrypt (keys state).dek block.cipher) =
      [newKeys.enc, newKeys.mac, newKeys.dek] →
    blocks.map KeyBlock.kcv = [newKeys.enc, newKeys.mac, newKeys.dek].map (keyCheck aes) →
    keys (receive state apdu).2 = newKeys ∧ (receive state apdu).1.txr = smOk ∧
      (receive state apdu).1.rsp = acceptance keyVerNo (blocks.map KeyBlock.kcv)

/-- A call of `Rotate` and what it meets. The keys are written to the file if it is named, and the
DEK is read from it in any case. -/
structure Round where
  newKeys : Scp03KeySet
  dryRun : Bool
  named : Bool
  host : Host
  session : Session
  dekMemory : Bytes
  lost : Bool
  faults : Faults
  crash : Option Nat

def noAnswer : Reply := { txr := 0x7011, rsp := [], fits := by decide }

structure Holders (σ : Type) where
  card : σ
  disk : Disk

section

variable {aes : Cipher} {σ : Type} (card : KeyCard aes σ) (path : Bytes)

def Holders.outside (holders : Holders σ) (round : Round) : Outside :=
  { file := fun name =>
      if name = path then holders.disk.path
      else if name = path ++ ascii ".tmp" then holders.disk.tmp
      else if name = path ++ ascii ".bak" then holders.disk.bak
      else none
    bootScp03Path := some path
    memory := fun _ => []
    dekMemory := round.dekMemory
    faults := round.faults }

def Holders.answer (holders : Holders σ) (round : Round) (apdu : Apdu) : Reply :=
  if round.lost then noAnswer else (card.receive holders.card apdu).1

def Holders.rotation (holders : Holders σ) (round : Round) : Rotation :=
  rotate round.host (holders.answer card round) (holders.outside path round)
    { round.session with keyVerNo := card.keyVerNo } round.newKeys round.dryRun
    (if round.named then some path else none)

def Holders.step (holders : Holders σ) (round : Round) : Status × Holders σ :=
  let rotation := holders.rotation card path round
  (rotation.status,
    { card := rotation.sent.foldl (fun state apdu => (card.receive state apdu).2) holders.card
      disk := diskAfter holders.disk rotation.disks round.crash })

def Holders.session (holders : Holders σ) (round : Round) : Session :=
  { round.session with keyVerNo := card.keyVerNo, dek := (card.keys holders.card).dek }

/-- The key file holds the keys of the card. -/
def Holders.InStep (holders : Holders σ) : Prop :=
  ∃ content, holders.disk.path = some content ∧ Holds (card.keys holders.card) content

structure Round.Sends (round : Round) : Prop where
  wet : round.dryRun = false
  setsDek : round.host.setsCurrentDek = true
  level : round.session.securityLevel = some 0x33
  completes : round.host.Completes

/-- The answer comes, and the file is replaced by the whole text before the process ends. -/
structure Round.Persists (round : Round) : Prop where
  answered : round.lost = false
  named : round.named = true
  prints : Prints round.faults path.length
  whole : ¬∃ count, round.faults.keeps = some count ∧ count < 110
  replaces : round.faults.replaces = true
  late : ∀ calls, round.crash = some calls → 59 ≤ calls

/-! ### One rotation -/

theorem holds_unique {keys others : Scp03KeySet} {content : Bytes} (first : Holds keys content)
    (second : Holds others content) : keys = others := by
  have same (tag : Tag) : keys.key tag = others.key tag := by
    have found := Scp03Keyfile.findKey_of_holds first [] tag
    rw [Scp03Keyfile.findKey_of_holds second [] tag] at found
    exact (Option.some.inj found).symm
  cases keys
  cases others
  cases same .enc
  cases same .mac
  cases same .dek
  rfl

theorem written_iff {faults : Faults} {pathLength : Nat} {crash : Option Nat}
    {old new : Scp03KeySet} {disk : Disk} {content : Bytes} (present : disk.path = some content)
    (holds : Holds old content) (fresh : new ≠ old) :
    (∃ found, (diskAfter disk (Scp03Keyfile.write faults pathLength new disk).2 crash).path =
      some found ∧ Holds new found) ↔
    Prints faults pathLength ∧ (¬∃ count, faults.keeps = some count ∧ count < 110) ∧
      faults.replaces = true ∧ ∀ calls, crash = some calls → 59 ≤ calls := by
  have notOld : ¬Holds new content := fun both => fresh (holds_unique both holds)
  have kept {found : Option Bytes} (same : found = some content) :
      ¬∃ left, found = some left ∧ Holds new left := by
    rintro ⟨left, there, both⟩
    rw [same] at there
    cases there
    exact notOld both
  by_cases prints : Prints faults pathLength
  · obtain ⟨early, saved, replaced, final, calls, size, before, savedPath, replacedPath, same, -⟩ :=
      Scp03Keyfile.write_printed prints new disk
    rw [and_iff_right prints, calls]
    have savedNot : ¬∃ left, saved.path = some left ∧ Holds new left := by
      rw [savedPath, present]
      cases faults.backsUp with
      | true => exact fun ⟨_, impossible, _⟩ => Option.some_ne_none _ impossible.symm
      | false => exact kept rfl
    by_cases late : ∀ calls, crash = some calls → 59 ≤ calls
    · rw [Scp03Keyfile.diskAfter_late size same late, replacedPath]
      cases replaces : faults.replaces with
      | false => exact iff_of_false savedNot (fun both => nomatch both.2.1)
      | true =>
          constructor
          · rintro ⟨found, there, both⟩
            cases there
            refine ⟨?_, rfl, late⟩
            rintro ⟨count, keeps, few⟩
            exact Scp03Keyfile.not_holds_closed keeps few new new both
          · exact fun ends => ⟨_, rfl, Scp03Keyfile.holds_closed new ends.1⟩
    · refine iff_of_false ?_ (fun ends => late ends.2.2)
      obtain ⟨count, missed⟩ := not_forall.mp late
      obtain ⟨crashed, few⟩ := Classical.not_imp.mp missed
      rw [crashed]
      by_cases between : count = 58
      · rw [between, Scp03Keyfile.diskAfter_between size]
        exact savedNot
      · rw [Scp03Keyfile.diskAfter_early size before (by omega)]
        exact kept present
  · obtain ⟨untouched, -⟩ := Scp03Keyfile.write_unprinted prints new disk
    rw [Scp03Keyfile.diskAfter_kept untouched]
    exact iff_of_false (kept present) (fun ends => prints ends.1)

theorem acceptance_parts (keyVer : UInt8) {kcvs : List Bytes} (nine : kcvs.flatten.length = 9) :
    10 + 2 ≤ (acceptance keyVer kcvs).length ∧
      (acceptance keyVer kcvs).drop ((acceptance keyVer kcvs).length - 2) = [0x90, 0x00] ∧
      (acceptance keyVer kcvs).take 10 = keyVer :: kcvs.flatten := by
  have split : acceptance keyVer kcvs = (keyVer :: kcvs.flatten) ++ [0x90, 0x00] := rfl
  have front : (keyVer :: kcvs.flatten).length = 10 := by rw [List.length_cons, nine]
  have length : (acceptance keyVer kcvs).length = 12 := by
    rw [split, List.length_append, front]
    rfl
  refine ⟨Nat.le_of_eq length.symm, ?_, ?_⟩
  · rw [length, split]
    exact List.drop_left' front
  · rw [split]
    exact List.take_left' front

variable {card} {path}

theorem Holders.outside_disk (holders : Holders σ) (round : Round) :
    (holders.outside path round).disk path = holders.disk := by
  have longer {suffix : Bytes} (size : suffix.length = 4) : path ++ suffix ≠ path := by
    intro same
    have length := congrArg List.length same
    rw [List.length_append] at length
    omega
  have other : path ++ ascii ".bak" ≠ path ++ ascii ".tmp" := by
    intro same
    exact absurd (List.append_cancel_left same) (by decide)
  unfold Outside.disk Holders.outside
  dsimp only
  rw [if_pos rfl, if_neg (longer rfl), if_pos rfl, if_neg (longer rfl), if_neg other, if_pos rfl]

theorem Holders.InStep.rotation {holders : Holders σ} (inStep : holders.InStep card)
    (named : path ≠ []) {round : Round} (wet : round.dryRun = false) :
    holders.rotation card path round =
      if round.host.setsCurrentDek then
        match sendPutKey round.host (holders.answer card round) (holders.session card round)
          round.newKeys with
        | (.error e, sent) => { status := .error e, sent := sent, disks := [] }
        | (.ok (), sent) =>
            if round.named then
              { status := (Scp03Keyfile.write round.faults path.length round.newKeys
                  holders.disk).1
                sent := sent
                disks := (Scp03Keyfile.write round.faults path.length round.newKeys
                  holders.disk).2 }
            else { status := .ok (), sent := sent, disks := [] }
      else .unsent (seFail .keyFailed "load current DEK into static ctx failed") := by
  obtain ⟨content, present, holds⟩ := inStep
  have disk : (holders.outside path round).disk path = holders.disk :=
    holders.outside_disk round
  have file : (holders.outside path round).file path = some content := (if_pos rfl).trans present
  have reads : Scp03Keyfile.readDek (some content) (holders.outside path round).dekMemory =
      .ok (card.keys holders.card).dek :=
    Scp03Keyfile.readDek_ok_iff _ _ _ |>.mpr (Scp03Keyfile.findKey_of_holds holds _ .dek)
  have where_ : (if round.named then some path else none).or
      (holders.outside path round).bootScp03Path = some path := by
    cases round.named <;> rfl
  have loaded : ({ ({ round.session with keyVerNo := card.keyVerNo } : Session) with
      dek := (card.keys holders.card).dek } : Session) = holders.session card round := rfl
  obtain ⟨first, rest, nonempty⟩ := List.exists_cons_of_ne_nil named
  unfold Holders.rotation rotate
  rw [wet, if_neg Bool.false_ne_true, where_]
  subst nonempty
  dsimp only
  unfold loadCurrentDek
  rw [file, reads]
  dsimp only
  unfold setCurrentDek
  cases round.host.setsCurrentDek with
  | false => rfl
  | true =>
      rw [if_pos rfl, if_pos rfl]
      dsimp only
      rw [loaded]
      generalize sendPutKey round.host _ _ round.newKeys = sending
      obtain ⟨status, sent⟩ := sending
      cases status with
      | error e => rfl
      | ok done =>
          cases round.named with
          | false => rfl
          | true =>
              dsimp only
              rw [if_pos rfl, if_pos rfl]
              dsimp only
              rw [disk]
              rfl

theorem diskAfter_none (disk : Disk) (crash : Option Nat) : diskAfter disk [] crash = disk := by
  cases crash with
  | none => rfl
  | some calls =>
      cases calls with
      | zero => rfl
      | succ calls => rfl

theorem Holders.InStep.step_stops {holders : Holders σ} (inStep : holders.InStep card)
    (named : path ≠ []) {round : Round} (stops : ¬round.Sends) :
    (holders.step card path round).2 = holders := by
  have nothing (rotation : holders.rotation card path round = .unsent
      (holders.rotation card path round).status) : (holders.step card path round).2 = holders := by
    unfold Holders.step
    dsimp only
    rw [rotation]
    change Holders.mk _ (diskAfter holders.disk [] round.crash) = holders
    rw [diskAfter_none]
    rfl
  apply nothing
  cases wet : round.dryRun with
  | true =>
      unfold Holders.rotation rotate
      rw [wet]
      rfl
  | false =>
      rw [inStep.rotation named wet]
      cases setsDek : round.host.setsCurrentDek with
      | false => rfl
      | true =>
          have lesser : ¬((holders.session card round).securityLevel = some 0x33 ∧
              round.host.Completes) := fun both => stops ⟨wet, setsDek, both.1, both.2⟩
          obtain ⟨e, stopped⟩ :=
            sendPutKey_unsent (holders.answer card round) round.newKeys lesser
          rw [if_pos rfl, stopped]
          rfl

theorem Holders.InStep.step_sends {holders : Holders σ} (inStep : holders.InStep card)
    (named : path ≠ []) {round : Round} (computes : round.host.Computes aes)
    (sends : round.Sends) :
    card.keys (holders.step card path round).2.card = round.newKeys ∧
      (holders.step card path round).2.disk =
        if round.lost = false ∧ round.named = true then
          diskAfter holders.disk
            (Scp03Keyfile.write round.faults path.length round.newKeys holders.disk).2 round.crash
        else holders.disk := by
  have level : (holders.session card round).securityLevel = some 0x33 := sends.level
  have rotation := inStep.rotation named sends.wet
  rw [if_pos sends.setsDek, sendPutKey_eq computes sends.completes (holders.answer card round)
    level round.newKeys] at rotation
  -- The card finds the new keys in the command, and answers with their check values.
  obtain ⟨keys, arrived, answered⟩ := card.replaces holders.card
    (putKeyApdu aes (holders.session card round) round.newKeys) _ round.newKeys rfl rfl
    (by simp only [List.map_cons, List.map_nil, wrap, Holders.session, aes.inverse]) rfl
  cases lost : round.lost with
  | true =>
      have silent : holders.answer card round
          (putKeyApdu aes (holders.session card round) round.newKeys) = noAnswer := by
        unfold Holders.answer
        rw [lost, if_pos rfl]
      have failed : ∃ e, confirm ((holders.session card round).keyVerNo ::
          [round.newKeys.enc, round.newKeys.mac, round.newKeys.dek].flatMap (keyCheck aes)) 10
            noAnswer = .error e := ⟨_, if_pos (by decide)⟩
      obtain ⟨e, failed⟩ := failed
      rw [silent, failed] at rotation
      unfold Holders.step
      rw [rotation]
      refine ⟨keys, ?_⟩
      rw [if_neg (fun both => Bool.false_ne_true both.1.symm)]
      exact diskAfter_none _ _
  | false =>
      have heard : holders.answer card round
          (putKeyApdu aes (holders.session card round) round.newKeys) =
            (card.receive holders.card
              (putKeyApdu aes (holders.session card round) round.newKeys)).1 := by
        unfold Holders.answer
        rw [lost, if_neg Bool.false_ne_true]
      have confirmed : confirm ((holders.session card round).keyVerNo ::
          [round.newKeys.enc, round.newKeys.mac, round.newKeys.dek].flatMap (keyCheck aes)) 10
            (card.receive holders.card
              (putKeyApdu aes (holders.session card round) round.newKeys)).1 = .ok () := by
        have nine : ([round.newKeys.enc, round.newKeys.mac, round.newKeys.dek].map
            (keyCheck aes)).flatten.length = 9 := by simp [keyCheck_length]
        obtain ⟨long, status, checks⟩ := acceptance_parts card.keyVerNo nine
        have expected : ((holders.session card round).keyVerNo ::
            [round.newKeys.enc, round.newKeys.mac, round.newKeys.dek].flatMap
              (keyCheck aes)).take 10 = card.keyVerNo ::
                ([round.newKeys.enc, round.newKeys.mac, round.newKeys.dek].map
                  (keyCheck aes)).flatten := by
          rw [List.take_of_length_le (by simp [keyCheck_length])]
          rfl
        rw [confirm_ok_iff, answered, expected]
        exact ⟨arrived, long, status, checks⟩
      rw [heard, confirmed] at rotation
      unfold Holders.step
      rw [rotation]
      cases named : round.named with
      | false =>
          refine ⟨keys, ?_⟩
          rw [if_neg (fun both => Bool.false_ne_true both.2)]
          exact diskAfter_none _ _
      | true => exact ⟨keys, (if_pos ⟨rfl, rfl⟩).symm⟩

/-- A rotation keeps file and card in step exactly if it persists what it sends. -/
theorem Holders.InStep.step_iff {holders : Holders σ} (inStep : holders.InStep card)
    (named : path ≠ []) {round : Round} (computes : round.host.Computes aes)
    (fresh : round.newKeys ≠ card.keys holders.card) :
    (holders.step card path round).2.InStep card ↔ (round.Sends → round.Persists path) := by
  by_cases sends : round.Sends
  · obtain ⟨keys, disk⟩ := inStep.step_sends named computes sends
    obtain ⟨content, present, holds⟩ := inStep
    unfold InStep
    rw [keys, disk]
    by_cases written : round.lost = false ∧ round.named = true
    · rw [if_pos written, written_iff present holds fresh]
      constructor
      · rintro ⟨prints, whole, replaces, late⟩ _
        exact ⟨written.1, written.2, prints, whole, replaces, late⟩
      · intro persists
        obtain ⟨-, -, prints, whole, replaces, late⟩ := persists sends
        exact ⟨prints, whole, replaces, late⟩
    · rw [if_neg written]
      refine iff_of_false ?_ (fun persists => ?_)
      · rintro ⟨found, there, both⟩
        rw [present] at there
        cases there
        exact fresh (holds_unique both holds)
      · exact written ⟨(persists sends).answered, (persists sends).named⟩
  · rw [inStep.step_stops named sends]
    exact iff_of_true inStep (fun impossible => absurd impossible sends)

/-- A run of rotations that starts in step, each with keys other than those of the card, is in
step all along exactly if every rotation persists what it sends. -/
theorem rotations_inStep_iff (named : path ≠ []) (rounds : List Round)
    (computes : ∀ round ∈ rounds, round.host.Computes aes) (holders : Holders σ)
    (inStep : holders.InStep card)
    (fresh : Machine.Meets (Holders.step card path)
      (fun holders round => round.newKeys ≠ card.keys holders.card) holders rounds) :
    Machine.Along (Holders.step card path) (Holders.InStep card) holders rounds ↔
      ∀ round ∈ rounds, round.Sends → round.Persists path := by
  induction rounds generalizing holders with
  | nil => exact iff_of_true inStep (fun round => nofun)
  | cons round rounds ih =>
      obtain ⟨now, later⟩ := fresh
      have kept := inStep.step_iff named (computes round List.mem_cons_self) now
      have others : ∀ other ∈ rounds, other.host.Computes aes :=
        fun other member => computes other (List.mem_cons_of_mem round member)
      rw [Machine.Along, and_iff_right inStep, List.forall_mem_cons, ← kept]
      constructor
      · intro along
        exact ⟨along.head, (ih others _ along.head later).mp along⟩
      · rintro ⟨next, rest⟩
        exact (ih others _ next later).mpr rest

end

/-! ### A card that reads the command -/

def KeyBlock.ofBytes (bytes : Bytes) : Option KeyBlock :=
  if size : bytes.length = 23 then
    let block : KeyBlock :=
      { cipher := { bytes := (bytes.drop 3).take 16, size := by simp [size] }
        kcv := bytes.drop 20
        kcvSize := by simp [size] }
    if block.layout = bytes then some block else none
  else none

theorem KeyBlock.ofBytes_layout (block : KeyBlock) :
    KeyBlock.ofBytes block.layout = some block := by
  have cipher : (block.layout.drop 3).take 16 = block.cipher.bytes :=
    List.take_left' block.cipher.size
  have kcv : block.layout.drop 20 = block.kcv := by
    have front : (0x88 :: 17 :: 16 :: (block.cipher.bytes ++ [3])).length = 20 := by
      simp [block.cipher.size]
    have split : block.layout = (0x88 :: 17 :: 16 :: (block.cipher.bytes ++ [3])) ++ block.kcv := by
      simp [layout]
    rw [split]
    exact List.drop_left' front
  have same : ({ cipher :=
                   { bytes := (block.layout.drop 3).take 16, size := by simp [layout_length] }
                 kcv := block.layout.drop 20
                 kcvSize := by simp [layout_length] } : KeyBlock) = block := by
    obtain ⟨⟨bytes, size⟩, check, checkSize⟩ := block
    simp only [KeyBlock.mk.injEq, Key.mk.injEq]
    exact ⟨cipher, kcv⟩
  unfold ofBytes
  rw [dif_pos (layout_length block)]
  dsimp only
  rw [same, if_pos rfl]

def putKeyBlocks (keyVer : UInt8) (apdu : Apdu) : Option (KeyBlock × KeyBlock × KeyBlock) :=
  if apdu.header = [0x80, 0xd8, keyVer, 0x81] ∧ apdu.body.take 1 = [keyVer] then
    match KeyBlock.ofBytes ((apdu.body.drop 1).take 23),
        KeyBlock.ofBytes ((apdu.body.drop 24).take 23), KeyBlock.ofBytes (apdu.body.drop 47) with
    | some enc, some mac, some dek => some (enc, mac, dek)
    | _, _, _ => none
  else none

def Cipher.unwrapKeys (aes : Cipher) (held : Key) (blocks : KeyBlock × KeyBlock × KeyBlock) :
    Scp03KeySet :=
  { enc := aes.decrypt held blocks.1.cipher
    mac := aes.decrypt held blocks.2.1.cipher
    dek := aes.decrypt held blocks.2.2.cipher }

def replacingReceive (aes : Cipher) (keyVer : UInt8) (held : Scp03KeySet) (apdu : Apdu) :
    Reply × Scp03KeySet :=
  match putKeyBlocks keyVer apdu with
  | some blocks =>
      let newKeys := aes.unwrapKeys held.dek blocks
      if [blocks.1.kcv, blocks.2.1.kcv, blocks.2.2.kcv] =
          [newKeys.enc, newKeys.mac, newKeys.dek].map (keyCheck aes) then
        ({ txr := smOk
           rsp := acceptance keyVer [blocks.1.kcv, blocks.2.1.kcv, blocks.2.2.kcv]
           fits := by
            simp [acceptance, blocks.1.kcvSize, blocks.2.1.kcvSize, blocks.2.2.kcvSize] },
          newKeys)
      else ({ txr := smOk, rsp := [0x6a, 0x80], fits := by decide }, held)
  | none => ({ txr := smOk, rsp := [0x6a, 0x80], fits := by decide }, held)

theorem putKeyBlocks_parses {keyVer : UInt8} {apdu : Apdu} {enc mac dek : KeyBlock}
    (header : apdu.header = [0x80, 0xd8, keyVer, 0x81])
    (parses : Parses apdu.body keyVer [enc, mac, dek]) :
    putKeyBlocks keyVer apdu = some (enc, mac, dek) := by
  have body : apdu.body = keyVer :: (enc.layout ++ (mac.layout ++ dek.layout)) := by
    rw [parses]
    simp
  have first : (apdu.body.drop 1).take 23 = enc.layout := by
    rw [body]
    exact List.take_left' (layout_length enc)
  have second : (apdu.body.drop 24).take 23 = mac.layout := by
    have rest : apdu.body.drop 24 = mac.layout ++ dek.layout := by
      rw [body]
      exact List.drop_left' (layout_length enc)
    rw [rest]
    exact List.take_left' (layout_length mac)
  have third : apdu.body.drop 47 = dek.layout := by
    have front : (enc.layout ++ mac.layout).length = 46 := by
      rw [List.length_append, layout_length, layout_length]
    rw [body, ← List.append_assoc]
    exact List.drop_left' front
  unfold putKeyBlocks
  rw [if_pos ⟨header, by rw [body]; rfl⟩, first, second, third, KeyBlock.ofBytes_layout,
    KeyBlock.ofBytes_layout, KeyBlock.ofBytes_layout]

def replacingCard (aes : Cipher) (keyVer : UInt8) : KeyCard aes Scp03KeySet :=
  { keys := id
    keyVerNo := keyVer
    receive := replacingReceive aes keyVer
    replaces := by
      intro held apdu blocks newKeys header parses keys checks
      obtain ⟨enc, mac, dek, rfl⟩ : ∃ enc mac dek, blocks = [enc, mac, dek] := by
        have length := congrArg List.length keys
        rw [List.length_map] at length
        exact List.length_eq_three.mp length
      simp only [List.map_cons, List.map_nil, List.cons.injEq, and_true] at keys checks
      obtain ⟨isEnc, isMac, isDek⟩ := keys
      have read : aes.unwrapKeys held.dek (enc, mac, dek) = newKeys := by
        cases newKeys
        simp only [Cipher.unwrapKeys, Scp03KeySet.mk.injEq]
        exact ⟨isEnc, isMac, isDek⟩
      have agree : [enc.kcv, mac.kcv, dek.kcv] =
          [newKeys.enc, newKeys.mac, newKeys.dek].map (keyCheck aes) := by
        simp only [List.map_cons, List.map_nil, List.cons.injEq, and_true]
        exact checks
      unfold replacingReceive
      rw [putKeyBlocks_parses header parses]
      dsimp only
      rw [read, if_pos agree]
      exact ⟨rfl, rfl, rfl⟩ }

/-- The keys are replaced and written; then they are replaced again, and no answer comes. -/
def twoRounds : List Round :=
  [{ newKeys := countingKeys, dryRun := false, named := true, host := workingHost
     session := fullSession, dekMemory := [], lost := false, faults := Faults.healthy
     crash := none },
   { newKeys := Scp03Keyfile.uniformKeys 7, dryRun := false, named := true, host := workingHost
     session := fullSession, dekMemory := [], lost := true, faults := Faults.healthy
     crash := none }]

theorem rotations_inStep_twoRounds :
    let card := replacingCard (Cipher.ofTable aesTable) 0x0b
    let holders : Holders Scp03KeySet :=
      { card := defaultScp03Keys, disk := Disk.withKeys defaultScp03Keys }
    Machine.Along (Holders.step card [0x6b]) (Holders.InStep card) holders (twoRounds.take 1) ∧
      ¬Machine.Along (Holders.step card [0x6b]) (Holders.InStep card) holders twoRounds := by
  intro card holders
  have inStep : holders.InStep card :=
    ⟨_, rfl, Scp03Keyfile.holds_fileText defaultScp03Keys⟩
  have computes : ∀ round ∈ twoRounds, round.host.Computes (Cipher.ofTable aesTable) := by
    intro round member
    rcases List.mem_cons.mp member with rfl | member
    · exact workingHost_computes
    · cases List.mem_singleton.mp member
      exact workingHost_computes
  have first : countingKeys ≠ defaultScp03Keys := by decide
  have second : (Scp03Keyfile.uniformKeys 7) ≠
      (Holders.step card [0x6b] holders (twoRounds.head (by decide))).2.card := by
    decide +kernel
  have sends : ∀ round ∈ twoRounds, round.Sends := by
    intro round member
    rcases List.mem_cons.mp member with rfl | member
    · exact ⟨rfl, rfl, rfl, fun _ _ _ => rfl⟩
    · cases List.mem_singleton.mp member
      exact ⟨rfl, rfl, rfl, fun _ _ _ => rfl⟩
  constructor
  · apply (rotations_inStep_iff (by decide) (twoRounds.take 1) _ holders inStep
      ⟨first, trivial⟩).mpr
    · intro round member _
      cases List.mem_singleton.mp member
      exact
        { answered := rfl
          named := rfl
          prints := ⟨by decide, rfl, fun _ _ => rfl⟩
          whole := by
            rintro ⟨count, cut, -⟩
            cases cut
          replaces := rfl
          late := fun _ => nofun }
    · exact fun round member => computes round (List.mem_of_mem_take member)
  · intro along
    have persists := (rotations_inStep_iff (by decide) twoRounds computes holders inStep
      ⟨first, second, trivial⟩).mp along
    have last : twoRounds.getLast (by decide) ∈ twoRounds := List.getLast_mem _
    exact absurd (persists _ last (sends _ last)).answered (by decide)

end Etlx.Se
