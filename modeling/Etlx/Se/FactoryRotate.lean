/-
The DEK that `se_factory rotate-scp03` wraps the new keys with.

The command hands the name of the file with the new keys to `Rotate`, which reads
the current DEK from the file of that name. So the keys are wrapped under the DEK of
the new set, whatever the card holds.
-/

import Etlx.Se.FactoryHelp

namespace Etlx.Se.Factory

/-- A card that holds the DEK reads exactly the keys from the command, each of them encrypted
under that DEK. -/
def Unwraps (aes : Cipher) (dek : Key) (keys : Scp03KeySet) (apdu : Apdu) : Prop :=
  ∃ keyVer blocks, Parses apdu.body keyVer blocks ∧
    blocks.map KeyBlock.cipher = [keys.enc, keys.mac, keys.dek].map (aes.encrypt dek) ∧
    blocks.map (fun block => aes.decrypt dek block.cipher) = [keys.enc, keys.mac, keys.dek]

/-- `rotate-scp03` with these arguments reads the file with the new keys twice, for the keys
and for the DEK, and gets as far as sending. -/
structure Sends (platform : Platform) (argv : List Bytes) (session : Session)
    (newKeys : Scp03KeySet) (fileDek : Key) : Prop where
  arguments : ∃ keyfile, keyfile ≠ [] ∧
    optionLoop rotateScp03Command RotateArgs.add (.start argv) .start =
      .ok { keyfile := some keyfile, dryRun := false } ∧
    Scp03Keyfile.read (platform.outside.file keyfile) platform.outside.memory = .ok newKeys ∧
    Scp03Keyfile.readDek (platform.outside.file keyfile) platform.outside.dekMemory = .ok fileDek
  connects : connectionOpen platform.middleware defaultScp03Keys = .ok session
  setsDek : platform.host.setsCurrentDek = true
  level : session.securityLevel = some 0x33
  completes : platform.host.Completes

/-- Every PUT KEY that the command sends carries the keys of the file for a card that holds
the DEK. -/
def WrapsUnder (aes : Cipher) (dek : Key) (platform : Platform) (argv : List Bytes)
    (sent : List Apdu) : Prop :=
  ∀ apdu ∈ sent, ∃ keyfile newKeys,
    optionLoop rotateScp03Command RotateArgs.add (.start argv) .start =
      .ok { keyfile := some keyfile, dryRun := false } ∧
    Scp03Keyfile.read (platform.outside.file keyfile) platform.outside.memory = .ok newKeys ∧
    Unwraps aes dek newKeys apdu

theorem unwraps_putKeyApdu_iff (aes : Cipher) (dek : Key) (session : Session)
    (keys : Scp03KeySet) :
    Unwraps aes dek keys (putKeyApdu aes session keys) ↔
      ∀ tag, aes.encrypt session.dek (keys.key tag) = aes.encrypt dek (keys.key tag) := by
  have parses : Parses (putKeyApdu aes session keys).body session.keyVerNo
      ([keys.enc, keys.mac, keys.dek].map (wrap aes session.dek)) := rfl
  constructor
  · rintro ⟨keyVer, blocks, other, ciphers, -⟩
    rw [(parses.unique other).2, List.map_map] at ciphers
    simp only [List.map_cons, List.map_nil, Function.comp_apply, wrap, List.cons.injEq,
      and_true] at ciphers
    intro tag
    cases tag with
    | enc => exact ciphers.1
    | mac => exact ciphers.2.1
    | dek => exact ciphers.2.2
  · intro same
    have ciphers : ([keys.enc, keys.mac, keys.dek].map (wrap aes session.dek)).map
        KeyBlock.cipher = [keys.enc, keys.mac, keys.dek].map (aes.encrypt dek) := by
      simp only [List.map_cons, List.map_nil, wrap, List.cons.injEq, and_true]
      exact ⟨same .enc, same .mac, same .dek⟩
    refine ⟨session.keyVerNo, _, parses, ciphers, ?_⟩
    have decrypted := congrArg (List.map (aes.decrypt dek)) ciphers
    rw [List.map_map, List.map_map] at decrypted
    simp only [List.map_cons, List.map_nil, Function.comp_apply, aes.inverse] at decrypted ⊢
    exact decrypted

/-! ### What is sent -/

section

variable {τ : Type} {platform : Platform} {argv : List Bytes} {session : Session}
  {newKeys : Scp03KeySet} {fileDek : Key}

theorem rotate_sent (host : Host) (card : Apdu → Reply) (outside : Outside) (session : Session)
    (newKeys : Scp03KeySet) {keyfile : Bytes} (named : keyfile ≠ []) :
    (rotate host card outside session newKeys false (some keyfile)).sent =
      match loadCurrentDek host outside session keyfile with
      | .error _ => []
      | .ok session => (sendPutKey host card session newKeys).2 := by
  obtain ⟨first, rest, rfl⟩ := List.exists_cons_of_ne_nil named
  unfold rotate
  rw [if_neg Bool.false_ne_true, Option.some_or]
  dsimp only
  cases loadCurrentDek host outside session (first :: rest) with
  | error e => rfl
  | ok session =>
      dsimp only
      obtain ⟨status, sent⟩ := sendPutKey host card session newKeys
      cases status <;> rfl

theorem rotate_unsent (host : Host) (card : Apdu → Reply) (outside : Outside) (session : Session)
    (newKeys : Scp03KeySet) (keyfile : Bytes)
    (stops : ∀ fileDek, keyfile ≠ [] →
      Scp03Keyfile.readDek (outside.file keyfile) outside.dekMemory = .ok fileDek →
      host.setsCurrentDek = true → ¬(session.securityLevel = some 0x33 ∧ host.Completes)) :
    (rotate host card outside session newKeys false (some keyfile)).sent = [] := by
  by_cases named : keyfile = []
  · subst named
    rfl
  · rw [rotate_sent host card outside session newKeys named]
    unfold loadCurrentDek setCurrentDek
    cases readsDek : Scp03Keyfile.readDek (outside.file keyfile) outside.dekMemory with
    | error e => rfl
    | ok fileDek =>
        dsimp only
        by_cases setsDek : host.setsCurrentDek = true
        · obtain ⟨e, unsent⟩ :
              ∃ e, sendPutKey host card { session with dek := fileDek } newKeys = (.error e, []) :=
            sendPutKey_unsent card newKeys (stops fileDek named readsDek setsDek)
          rw [if_pos setsDek]
          exact congrArg Prod.snd unsent
        · rw [if_neg setsDek]
          rfl

theorem rotateFrom_sent (port keyfile : Bytes) (dryRun : Bool) (process : Process τ)
    (connects : connectionOpen platform.middleware defaultScp03Keys = .ok session)
    (reads : Scp03Keyfile.read (platform.outside.file keyfile) platform.outside.memory =
      .ok newKeys) :
    (rotateFrom platform port keyfile dryRun process).2.sent =
      process.sent ++ (rotate platform.host platform.card platform.outside session newKeys dryRun
        (if dryRun then none else some keyfile)).sent := by
  unfold rotateFrom openConnection
  rw [connects]
  dsimp only
  rw [reads]
  dsimp only
  split <;> rfl

theorem cmdRotateScp03_sent {aes : Cipher} (computes : platform.host.Computes aes)
    (sends : Sends platform argv session newKeys fileDek) (port : Bytes) (process : Process τ) :
    (cmdRotateScp03 platform port argv process).2.sent =
      process.sent ++ [putKeyApdu aes { session with dek := fileDek } newKeys] := by
  obtain ⟨keyfile, named, arguments, reads, readsDek⟩ := sends.arguments
  have loaded : loadCurrentDek platform.host platform.outside session keyfile =
      .ok { session with dek := fileDek } := by
    unfold loadCurrentDek setCurrentDek
    rw [readsDek]
    dsimp only
    rw [if_pos sends.setsDek]
  have level : ({ session with dek := fileDek } : Session).securityLevel = some 0x33 := sends.level
  unfold cmdRotateScp03
  rw [arguments]
  dsimp only
  rw [rotateFrom_sent port keyfile false process sends.connects reads, if_neg Bool.false_ne_true,
    rotate_sent _ _ _ _ _ named, loaded]
  dsimp only
  rw [sendPutKey_eq computes sends.completes platform.card level newKeys]

theorem cmdRotateScp03_unsent
    (stops : ∀ session newKeys fileDek, ¬Sends platform argv session newKeys fileDek)
    (port : Bytes) (process : Process τ) :
    (cmdRotateScp03 platform port argv process).2.sent = process.sent := by
  unfold cmdRotateScp03
  cases arguments : optionLoop rotateScp03Command RotateArgs.add (.start argv) .start with
  | error e => rfl
  | ok args =>
      obtain ⟨keyfile, dryRun⟩ := args
      cases keyfile with
      | none => rfl
      | some keyfile =>
          dsimp only
          cases connects : connectionOpen platform.middleware defaultScp03Keys with
          | error e =>
              unfold rotateFrom openConnection
              rw [connects]
          | ok session =>
              cases reads : Scp03Keyfile.read (platform.outside.file keyfile)
                  platform.outside.memory with
              | error e =>
                  unfold rotateFrom openConnection
                  rw [connects]
                  dsimp only
                  rw [reads]
              | ok newKeys =>
                  rw [rotateFrom_sent port keyfile dryRun process connects reads]
                  cases dryRun with
                  | true => exact List.append_nil process.sent
                  | false =>
                      rw [if_neg Bool.false_ne_true, rotate_unsent, List.append_nil]
                      intro fileDek named readsDek setsDek both
                      exact stops session newKeys fileDek
                        { arguments := ⟨keyfile, named, arguments, reads, readsDek⟩
                          connects := connects, setsDek := setsDek, level := both.1
                          completes := both.2 }

theorem Sends.unique (first : Sends platform argv session newKeys fileDek) {other : Session}
    {otherKeys : Scp03KeySet} {otherDek : Key}
    (second : Sends platform argv other otherKeys otherDek) : otherDek = fileDek := by
  obtain ⟨keyfile, -, arguments, -, readsDek⟩ := first.arguments
  obtain ⟨_, -, otherArguments, -, otherReads⟩ := second.arguments
  rw [arguments] at otherArguments
  cases otherArguments
  rw [readsDek] at otherReads
  exact (Except.ok.inj otherReads).symm

theorem wrapsUnder_iff_of_sends {aes : Cipher} (computes : platform.host.Computes aes)
    (sends : Sends platform argv session newKeys fileDek) (dek : Key) (port : Bytes) (t : τ)
    (objects : Objects) :
    WrapsUnder aes dek platform argv
        (cmdRotateScp03 platform port argv (.start t objects)).2.sent ↔
      ∀ tag, aes.encrypt fileDek (newKeys.key tag) = aes.encrypt dek (newKeys.key tag) := by
  obtain ⟨keyfile, -, arguments, reads, -⟩ := sends.arguments
  rw [cmdRotateScp03_sent computes sends,
    ← unwraps_putKeyApdu_iff aes dek { session with dek := fileDek } newKeys]
  constructor
  · intro wraps
    obtain ⟨_, _, otherArguments, otherReads, unwraps⟩ := wraps _ (List.mem_singleton.mpr rfl)
    rw [arguments] at otherArguments
    cases otherArguments
    rw [reads] at otherReads
    cases otherReads
    exact unwraps
  · intro unwraps apdu member
    rw [List.mem_singleton.mp member]
    exact ⟨keyfile, newKeys, arguments, reads, unwraps⟩

end

/-- The new keys are wrapped under the DEK that the card holds exactly if the DEK of their own
file, where it comes to sending, encrypts them as that does. -/
theorem rotate_scp03_wraps_iff {τ : Type} (aes : Cipher) (platform : Platform)
    (computes : platform.host.Computes aes) (port : Bytes) (argv : List Bytes) (t : τ)
    (objects : Objects) (cardKeys : Scp03KeySet) :
    WrapsUnder aes cardKeys.dek platform argv
        (cmdRotateScp03 platform port argv (.start t objects)).2.sent ↔
      ∀ session newKeys fileDek, Sends platform argv session newKeys fileDek →
        ∀ tag, aes.encrypt fileDek (newKeys.key tag) =
          aes.encrypt cardKeys.dek (newKeys.key tag) := by
  by_cases reaches : ∃ session newKeys fileDek, Sends platform argv session newKeys fileDek
  · constructor
    · intro wraps session newKeys fileDek sends
      exact (wrapsUnder_iff_of_sends computes sends cardKeys.dek port t objects).mp wraps
    · intro same
      obtain ⟨session, newKeys, fileDek, sends⟩ := reaches
      exact (wrapsUnder_iff_of_sends computes sends cardKeys.dek port t objects).mpr
        (same session newKeys fileDek sends)
  · have stops : ∀ session newKeys fileDek, ¬Sends platform argv session newKeys fileDek :=
      fun session newKeys fileDek sends => reaches ⟨session, newKeys, fileDek, sends⟩
    rw [cmdRotateScp03_unsent stops]
    constructor
    · intro _ session newKeys fileDek sends
      exact absurd sends (stops session newKeys fileDek)
    · intro _ apdu impossible
      cases impossible

def keyFiles (keys : Scp03KeySet) (name : Bytes) : Option Bytes :=
  if name = ascii "newkeys.txt" then some (Scp03Keyfile.fileText keys) else none

theorem sends_newkeys (host : Host) (setsDek : host.setsCurrentDek = true)
    (completes : host.Completes) (keys : Scp03KeySet) :
    Sends (workingPlatform host (keyFiles keys)) [ascii "newkeys.txt"] fullSession keys keys.dek :=
  { arguments :=
      ⟨ascii "newkeys.txt", by decide, by decide +kernel, Scp03Keyfile.read_fileText keys _,
        Scp03Keyfile.readDek_fileText keys _⟩
    connects := rfl, setsDek := setsDek, level := rfl, completes := completes }

/-- AES-128 also on the blocks that a key set with the default DEK needs. -/
def defaultDekTable : List Exchange :=
  aesTable ++
    [ { key := defaultScp03Keys.dek
        plain := defaultScp03Keys.dek
        cipher :=
          { bytes := [0x4a, 0x76, 0x06, 0x8d, 0x43, 0x6a, 0xbf, 0x1d, 0x00, 0x3e, 0x69, 0xcf, 0xd7,
              0x6b, 0x5b, 0x09]
            size := rfl } },
      { key := defaultScp03Keys.dek
        plain := Key.filled 1
        cipher :=
          { bytes := [0xdc, 0x51, 0x09, 0xf8, 0xb2, 0x34, 0x06, 0x02, 0x56, 0xcb, 0x92, 0x94, 0xd5,
              0x1c, 0xfa, 0x58]
            size := rfl } } ]

def defaultDekHost : Host :=
  { workingHost with
    cipherOneGo := fun key iv block => ((Cipher.ofTable defaultDekTable).encrypt key block, iv) }

def defaultDekKeys : Scp03KeySet :=
  { enc := countingKey, mac := countingKey, dek := defaultScp03Keys.dek }

theorem rotate_scp03_wraps_iff_same_dek :
    Sends (workingPlatform defaultDekHost (keyFiles defaultDekKeys)) [ascii "newkeys.txt"]
      fullSession defaultDekKeys defaultScp03Keys.dek ∧
    WrapsUnder (Cipher.ofTable defaultDekTable) defaultScp03Keys.dek
      (workingPlatform defaultDekHost (keyFiles defaultDekKeys)) [ascii "newkeys.txt"]
      (cmdRotateScp03 (workingPlatform defaultDekHost (keyFiles defaultDekKeys))
        (ascii "/dev/i2c-3") [ascii "newkeys.txt"] (.start () (fun _ => none))).2.sent := by
  have computes : defaultDekHost.Computes (Cipher.ofTable defaultDekTable) := by
    intro key block
    rfl
  have sends := sends_newkeys defaultDekHost rfl (fun _ _ _ => rfl) defaultDekKeys
  refine ⟨sends, ?_⟩
  refine (rotate_scp03_wraps_iff _ (workingPlatform defaultDekHost (keyFiles defaultDekKeys))
    computes _ _ () _ defaultScp03Keys).mpr ?_
  intro session newKeys fileDek other tag
  rw [sends.unique other]
  rfl

/-- With the key file of `countingKeys` and a card that holds the default keys, the new keys
are wrapped under the DEK of the file. -/
theorem rotate_scp03_wrong_dek :
    (cmdRotateScp03 (workingPlatform workingHost (keyFiles countingKeys)) (ascii "/dev/i2c-3")
      [ascii "newkeys.txt"] (.start () (fun _ => none))).2.sent =
        [putKeyApdu (Cipher.ofTable aesTable) { fullSession with dek := countingKeys.dek }
          countingKeys] ∧
    ¬WrapsUnder (Cipher.ofTable aesTable) defaultScp03Keys.dek
      (workingPlatform workingHost (keyFiles countingKeys)) [ascii "newkeys.txt"]
      (cmdRotateScp03 (workingPlatform workingHost (keyFiles countingKeys)) (ascii "/dev/i2c-3")
        [ascii "newkeys.txt"] (.start () (fun _ => none))).2.sent := by
  have sends := sends_newkeys workingHost rfl (fun _ _ _ => rfl) countingKeys
  have sent := cmdRotateScp03_sent workingHost_computes sends (ascii "/dev/i2c-3")
    (.start () (fun _ => none))
  have different : (Cipher.ofTable aesTable).encrypt countingKey countingKey ≠
      (Cipher.ofTable aesTable).encrypt defaultScp03Keys.dek countingKey := by
    decide +kernel
  refine ⟨sent, ?_⟩
  intro wraps
  exact different
    ((wrapsUnder_iff_of_sends workingHost_computes sends _ _ () _).mp wraps .enc)

end Etlx.Se.Factory
