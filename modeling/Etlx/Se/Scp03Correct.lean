/-
What the card decodes from PUT KEY, and when the rotation is confirmed.

With a host that computes the cipher, the three blocks stand behind each other in
the command, each with the key encrypted under the DEK that was set, and the
expected response repeats their check values.
-/

import Etlx.Se.Scp03

namespace Etlx.Se

/-- `sss_host_cipher_one_go` with a zero IV is the cipher, and it leaves the IV buffer alone. -/
def Host.Computes (host : Host) (aes : Cipher) : Prop :=
  ∀ key block, host.cipherOneGo key (Key.filled 0) block = (aes.encrypt key block, Key.filled 0)

def Host.Succeeds (host : Host) : Prop :=
  host.setsCurrentDek = true ∧ ∀ index call, host.succeeds index call = true

def Host.Completes (host : Host) : Prop :=
  ∀ index, index < 3 → ∀ call, host.succeeds index call = true

/-- The check value of a key: three bytes of the encrypted block of ones. -/
def keyCheck (aes : Cipher) (key : Key) : Bytes :=
  (aes.encrypt key (Key.filled 1)).bytes.take 3

theorem keyCheck_length (aes : Cipher) (key : Key) : (keyCheck aes key).length = 3 := by
  rw [keyCheck, List.length_take, Key.size]
  rfl

def wrap (aes : Cipher) (dek key : Key) : KeyBlock :=
  { cipher := aes.encrypt dek key, kcv := keyCheck aes key, kcvSize := keyCheck_length aes key }

section

variable {aes : Cipher} {host : Host} {session : Session}

theorem genKcvAndEncryptKey_ok (computes : host.Computes aes) {index : Nat}
    (succeeds : ∀ call, host.succeeds index call = true) (key : Key) :
    genKcvAndEncryptKey host session index key =
      .ok (aes.encrypt session.dek key, keyCheck aes key) := by
  have none : hostCalls.find? (fun call => !host.succeeds index call) = none := by
    rw [List.find?_eq_none]
    intro call _
    rw [succeeds call]
    decide
  unfold genKcvAndEncryptKey
  rw [none]
  dsimp only
  rw [computes, computes]
  rfl

theorem genKcvAndEncryptKey_failed (session : Session) {index : Nat} {call : HostCall}
    (failed : host.succeeds index call = false) (key : Key) :
    ∃ e, genKcvAndEncryptKey host session index key = .error e := by
  have some : (hostCalls.find? (fun call => !host.succeeds index call)).isSome = true := by
    rw [List.find?_isSome]
    refine ⟨call, ?_, ?_⟩
    · cases call <;> decide
    · rw [failed]
      rfl
  obtain ⟨first, found⟩ := Option.isSome_iff_exists.mp some
  unfold genKcvAndEncryptKey
  rw [found]
  exact ⟨_, rfl⟩

theorem createKeyData_ok (computes : host.Computes aes) {index : Nat}
    (succeeds : ∀ call, host.succeeds index call = true) (key : Key) {written rest : Bytes}
    {offset : Nat} (place : written.length = offset) :
    createKeyData host session index key (written ++ rest) offset =
      .ok (23, (written ++ (wrap aes session.dek key).layout) ++ rest.drop 23,
        keyCheck aes key) := by
  have cipherSize := (aes.encrypt session.dek key).size
  have kcvSize := keyCheck_length aes key
  unfold createKeyData
  rw [genKcvAndEncryptKey_ok computes succeeds]
  dsimp only
  rw [Memory.write_behind place, Memory.write_behind, Memory.write_behind, Memory.write_behind]
  · simp [wrap, KeyBlock.layout, cipherSize, kcvSize]
  · simp [place, cipherSize]
  · simp [place, cipherSize]
  · simp [place]

theorem PutKey.add_ok (computes : host.Computes aes) (keys : List Key) (index : Nat)
    (succeeds : ∀ i, index ≤ i → i < index + keys.length → ∀ call, host.succeeds i call = true)
    {cmd rest expected behind : Bytes} {len expLen : Nat} (place : cmd.length = len)
    (expPlace : expected.length = expLen) :
    PutKey.add host session index keys
        { cmd := cmd ++ rest, len := len, expected := expected ++ behind, expLen := expLen } =
      .ok
        { cmd := (cmd ++ (keys.map (wrap aes session.dek)).flatMap KeyBlock.layout) ++
            rest.drop (23 * keys.length)
          len := len + 23 * keys.length
          expected := (expected ++ keys.flatMap (keyCheck aes)) ++ behind.drop (3 * keys.length)
          expLen := expLen + 3 * keys.length } := by
  induction keys generalizing index cmd rest expected behind len expLen with
  | nil => simp [PutKey.add]
  | cons key keys ih =>
      have cmdPlace : (cmd ++ (wrap aes session.dek key).layout).length = len + 23 := by
        rw [List.length_append, layout_length, place]
      have nextPlace : (expected ++ keyCheck aes key).length = expLen + 3 := by
        rw [List.length_append, keyCheck_length, expPlace]
      have now : ∀ call, host.succeeds index call = true :=
        succeeds index (Nat.le_refl index) (by rw [List.length_cons]; omega)
      have later : ∀ i, index + 1 ≤ i → i < index + 1 + keys.length →
          ∀ call, host.succeeds i call = true :=
        fun i above below => succeeds i (by omega) (by rw [List.length_cons]; omega)
      unfold PutKey.add
      rw [createKeyData_ok computes now key place]
      dsimp only
      rw [Memory.write_behind expPlace, ih (index + 1) later cmdPlace nextPlace, keyCheck_length]
      simp only [List.map_cons, List.flatMap_cons, List.length_cons, List.append_assoc,
        List.drop_drop, Nat.mul_add, Nat.mul_one, Except.ok.injEq, PutKey.mk.injEq]
      refine ⟨?_, ?_, ?_, ?_⟩
      · rw [Nat.add_comm 23]
      · omega
      · rw [Nat.add_comm 3]
      · omega

theorem PutKey.add_failed (session : Session) (keys : List Key) (index : Nat) {i : Nat}
    {call : HostCall} (failed : host.succeeds i call = false) (above : index ≤ i)
    (below : i < index + keys.length) (block : PutKey) :
    ∃ e, PutKey.add host session index keys block = .error e := by
  induction keys generalizing index block with
  | nil =>
      rw [List.length_nil] at below
      omega
  | cons key keys ih =>
      unfold PutKey.add createKeyData
      dsimp only
      cases made : genKcvAndEncryptKey host session index key with
      | error e => exact ⟨e, rfl⟩
      | ok result =>
          have different : i ≠ index := by
            rintro rfl
            obtain ⟨e, impossible⟩ := genKcvAndEncryptKey_failed session failed key
            rw [made] at impossible
            cases impossible
          rw [List.length_cons] at below
          exact ih (index + 1) (by omega) (by omega) _

end

/-! ### The response -/

theorem status_iff {high low : UInt8} :
    high.toNat * 256 + low.toNat = smOk ↔ high = 0x90 ∧ low = 0x00 := by
  have lowBound : low.toNat < 256 := low.toNat_lt
  have highBound : high.toNat < 256 := high.toNat_lt
  constructor
  · intro sum
    unfold smOk at sum
    constructor
    · apply UInt8.toNat.inj
      change high.toNat = 0x90
      omega
    · apply UInt8.toNat.inj
      change low.toNat = 0
      omega
  · rintro ⟨rfl, rfl⟩
    rfl

theorem drop_last_two {rsp : Bytes} (long : 2 ≤ rsp.length) :
    rsp.drop (rsp.length - 2) =
      [rsp.getD (rsp.length - 2) 0, rsp.getD (rsp.length - 1) 0] := by
  rw [List.drop_eq_getElem_cons (by omega), List.drop_eq_getElem_cons (by omega),
    List.drop_eq_nil_of_le (by omega), List.getD_eq_getElem _ _ (by omega),
    List.getD_eq_getElem _ _ (by omega)]
  simp only [List.cons.injEq, and_true, true_and]
  congr 1
  omega

theorem confirm_ok_iff (expected : Bytes) (expLen : Nat) (reply : Reply) :
    confirm expected expLen reply = .ok () ↔
      reply.txr = smOk ∧ expLen + 2 ≤ reply.rsp.length ∧
        reply.rsp.drop (reply.rsp.length - 2) = [0x90, 0x00] ∧
        reply.rsp.take expLen = expected.take expLen := by
  unfold confirm
  by_cases sent : reply.txr = smOk
  · rw [if_neg (not_not.mpr sent), and_iff_right sent]
    by_cases long : expLen + 2 ≤ reply.rsp.length
    · rw [if_neg (Nat.not_lt.mpr long), and_iff_right long, drop_last_two (by omega)]
      have same : ([reply.rsp.getD (reply.rsp.length - 2) 0,
          reply.rsp.getD (reply.rsp.length - 1) 0] = [0x90, 0x00]) ↔
            (reply.rsp.getD (reply.rsp.length - 2) 0).toNat * 256 +
              (reply.rsp.getD (reply.rsp.length - 1) 0).toNat = smOk := by
        rw [status_iff]
        simp
      rw [same]
      by_cases accepted : (reply.rsp.getD (reply.rsp.length - 2) 0).toNat * 256 +
          (reply.rsp.getD (reply.rsp.length - 1) 0).toNat = smOk
      · rw [if_neg (not_not.mpr accepted), and_iff_right accepted]
        by_cases checked : reply.rsp.take expLen = expected.take expLen
        · rw [if_neg (not_not.mpr checked)]
          exact ⟨fun _ => checked, fun _ => rfl⟩
        · rw [if_pos checked]
          exact ⟨fun impossible => (by cases impossible),
            fun impossible => absurd impossible checked⟩
      · rw [if_pos accepted]
        exact ⟨fun impossible => (by cases impossible),
          fun impossible => absurd impossible.1 accepted⟩
    · rw [if_pos (Nat.not_le.mp long)]
      exact ⟨fun impossible => (by cases impossible), fun impossible => absurd impossible.1 long⟩
  · rw [if_pos sent]
    exact ⟨fun impossible => (by cases impossible), fun impossible => absurd impossible.1 sent⟩

/-! ### The rotation -/

def putKeyApdu (aes : Cipher) (session : Session) (newKeys : Scp03KeySet) : Apdu :=
  { header := [0x80, 0xd8, session.keyVerNo, 0x81]
    body := session.keyVerNo ::
      ([newKeys.enc, newKeys.mac, newKeys.dek].map (wrap aes session.dek)).flatMap KeyBlock.layout }

theorem putKeyApdu_length (aes : Cipher) (session : Session) (newKeys : Scp03KeySet) :
    (putKeyApdu aes session newKeys).body.length = 70 := by
  simp [putKeyApdu, layout_length]

theorem PutKey.add_start {aes : Cipher} {host : Host} (computes : host.Computes aes)
    (completes : host.Completes) (session : Session)
    (newKeys : Scp03KeySet) :
    PutKey.add host session 0 [newKeys.enc, newKeys.mac, newKeys.dek] (.start session.keyVerNo) =
      .ok
        { cmd := (putKeyApdu aes session newKeys).body ++ List.replicate 58 0
          len := 70
          expected :=
            session.keyVerNo :: [newKeys.enc, newKeys.mac, newKeys.dek].flatMap (keyCheck aes)
          expLen := 10 } := by
  have start : PutKey.start session.keyVerNo =
      { cmd := [session.keyVerNo] ++ List.replicate 127 0
        len := 1
        expected := [session.keyVerNo] ++ List.replicate 9 0
        expLen := 1 } := rfl
  have one : [session.keyVerNo].length = 1 := rfl
  have succeeds : ∀ i, 0 ≤ i → i < 0 + [newKeys.enc, newKeys.mac, newKeys.dek].length →
      ∀ call, host.succeeds i call = true := fun i _ below => completes i (by simpa using below)
  rw [start, PutKey.add_ok computes _ 0 succeeds one one]
  simp only [Except.ok.injEq, PutKey.mk.injEq]
  refine ⟨rfl, rfl, ?_, rfl⟩
  exact List.append_nil _

theorem sendPutKey_eq {aes : Cipher} {host : Host} (computes : host.Computes aes)
    (completes : host.Completes) (card : Apdu → Reply)
    {session : Session} (level : session.securityLevel = some 0x33) (newKeys : Scp03KeySet) :
    sendPutKey host card session newKeys =
      (confirm (session.keyVerNo :: [newKeys.enc, newKeys.mac, newKeys.dek].flatMap (keyCheck aes))
        10 (card (putKeyApdu aes session newKeys)), [putKeyApdu aes session newKeys]) := by
  have body : ((putKeyApdu aes session newKeys).body ++ List.replicate 58 0).take 70 =
      (putKeyApdu aes session newKeys).body := by
    rw [← putKeyApdu_length aes session newKeys, List.take_left]
  unfold sendPutKey
  rw [if_neg (not_not.mpr level), PutKey.add_start computes completes]
  dsimp only
  rw [body]
  rfl

theorem sendPutKey_unsent {host : Host} {session : Session} (card : Apdu → Reply)
    (newKeys : Scp03KeySet)
    (stops : ¬(session.securityLevel = some 0x33 ∧ host.Completes)) :
    ∃ e, sendPutKey host card session newKeys = (.error e, []) := by
  unfold sendPutKey
  by_cases level : session.securityLevel = some 0x33
  · rw [if_neg (not_not.mpr level)]
    obtain ⟨i, below, call, failed⟩ :
        ∃ i, i < 3 ∧ ∃ call, host.succeeds i call = false := by
      by_contra none
      refine stops ⟨level, fun i below call => ?_⟩
      by_contra failed
      exact none ⟨i, below, call, Bool.eq_false_iff.mpr failed⟩
    obtain ⟨e, stopped⟩ := PutKey.add_failed session
      [newKeys.enc, newKeys.mac, newKeys.dek] 0 failed (Nat.zero_le i) below
      (.start session.keyVerNo)
    rw [stopped]
    exact ⟨e, rfl⟩
  · rw [if_pos level]
    exact ⟨_, rfl⟩

/-- The in-memory rotation: the card that holds the current DEK reads exactly the new keys from
the one command that is sent, and `Ok` means that it answered with their check values. -/
theorem rotate_in_memory_confirmed (aes : Cipher) (host : Host) (card : Apdu → Reply)
    (session : Session) (currentKeys newKeys : Scp03KeySet) (cardDek : Key)
    (held : currentKeys.dek = cardDek) (computes : host.Computes aes) (succeeds : host.Succeeds)
    (level : session.securityLevel = some 0x33) :
    ∃ apdu blocks,
      (rotateInMemory host card session currentKeys newKeys false).2 = [apdu] ∧
      Parses apdu.body session.keyVerNo blocks ∧
      (∀ other others, Parses apdu.body other others →
        other = session.keyVerNo ∧ others = blocks) ∧
      apdu.body.length = 70 ∧
      blocks.map (fun block => aes.decrypt cardDek block.cipher) =
        [newKeys.enc, newKeys.mac, newKeys.dek] ∧
      blocks.map KeyBlock.kcv =
        [newKeys.enc, newKeys.mac, newKeys.dek].map
          (fun key => (aes.encrypt key (Key.filled 1)).bytes.take 3) ∧
      ((rotateInMemory host card session currentKeys newKeys false).1 = .ok () ↔
        (card apdu).txr = smOk ∧ 12 ≤ (card apdu).rsp.length ∧
          (card apdu).rsp.drop ((card apdu).rsp.length - 2) = [0x90, 0x00] ∧
          (card apdu).rsp.take 10 = session.keyVerNo :: blocks.flatMap KeyBlock.kcv) := by
  have sent : rotateInMemory host card session currentKeys newKeys false =
      sendPutKey host card { session with dek := currentKeys.dek } newKeys := by
    unfold rotateInMemory setCurrentDek
    rw [if_pos succeeds.1]
    rfl
  have parses : Parses (putKeyApdu aes { session with dek := currentKeys.dek } newKeys).body
      session.keyVerNo
      ([newKeys.enc, newKeys.mac, newKeys.dek].map (wrap aes currentKeys.dek)) := rfl
  have full : ({ session with dek := currentKeys.dek } : Session).securityLevel = some 0x33 :=
    level
  rw [sent, sendPutKey_eq computes (fun index _ => succeeds.2 index) card full newKeys]
  refine ⟨_, _, rfl, parses, fun _ _ second => parses.unique second,
    putKeyApdu_length aes _ newKeys, ?_, rfl, ?_⟩
  · rw [List.map_map, ← held]
    simp only [List.map_cons, List.map_nil, Function.comp_apply, wrap, aes.inverse]
  · have checks : (session.keyVerNo ::
        [newKeys.enc, newKeys.mac, newKeys.dek].flatMap (keyCheck aes)).take 10 =
          session.keyVerNo :: ([newKeys.enc, newKeys.mac, newKeys.dek].map
            (wrap aes currentKeys.dek)).flatMap KeyBlock.kcv := by
      rw [List.take_of_length_le (by simp [keyCheck_length])]
      rfl
    rw [confirm_ok_iff]
    rw [checks]

/-! ### A cipher by its table -/

structure Exchange where
  key : Key
  plain : Key
  cipher : Key

def Exchange.apply (exchange : Exchange) (key block : Key) : Key :=
  if exchange.key = key then
    if block = exchange.plain then exchange.cipher
    else if block = exchange.cipher then exchange.plain
    else block
  else block

theorem Exchange.apply_apply (exchange : Exchange) (key block : Key) :
    exchange.apply key (exchange.apply key block) = block := by
  unfold Exchange.apply
  by_cases same : exchange.key = key
  · rw [if_pos same, if_pos same]
    by_cases plain : block = exchange.plain
    · rw [if_pos plain]
      by_cases fixed : exchange.cipher = exchange.plain
      · rw [if_pos fixed, plain, fixed]
      · rw [if_neg fixed, if_pos rfl, plain]
    · rw [if_neg plain]
      by_cases cipher : block = exchange.cipher
      · rw [if_pos cipher, if_pos rfl, cipher]
      · rw [if_neg cipher, if_neg plain, if_neg cipher]
  · rw [if_neg same, if_neg same]

/-- The cipher that makes the exchanges of a table. -/
def Cipher.ofTable (table : List Exchange) : Cipher :=
  { encrypt := fun key block => table.foldr (fun exchange block => exchange.apply key block) block
    decrypt := fun key block => table.foldl (fun block exchange => exchange.apply key block) block
    inverse := by
      intro key block
      induction table with
      | nil => rfl
      | cons exchange table ih =>
          rw [List.foldr_cons, List.foldl_cons, Exchange.apply_apply]
          exact ih }

def countingKey : Key :=
  { bytes := [0x00, 0x01, 0x02, 0x03, 0x04, 0x05, 0x06, 0x07, 0x08, 0x09, 0x0a, 0x0b, 0x0c, 0x0d,
      0x0e, 0x0f]
    size := rfl }

def countingKeys : Scp03KeySet :=
  { enc := countingKey, mac := countingKey, dek := countingKey }

/-- AES-128 on the blocks that a rotation from the default keys to `countingKeys` encrypts. -/
def aesTable : List Exchange :=
  [ { key := countingKey
      plain := countingKey
      cipher :=
        { bytes := [0x0a, 0x94, 0x0b, 0xb5, 0x41, 0x6e, 0xf0, 0x45, 0xf1, 0xc3, 0x94, 0x58, 0xc6,
            0x53, 0xea, 0x5a]
          size := rfl } },
    { key := countingKey
      plain := Key.filled 1
      cipher :=
        { bytes := [0xc3, 0x52, 0x80, 0x57, 0x54, 0x23, 0x7f, 0x31, 0x1a, 0xc0, 0xff, 0xf4, 0xe3,
            0xe0, 0x3e, 0x78]
          size := rfl } },
    { key := defaultScp03Keys.dek
      plain := countingKey
      cipher :=
        { bytes := [0xea, 0xa3, 0xb0, 0x07, 0xe3, 0x03, 0xa8, 0x2d, 0xbf, 0xa8, 0x47, 0x6f, 0xd1,
            0x83, 0xce, 0x73]
          size := rfl } } ]

def workingHost : Host :=
  { cipherOneGo := fun key iv block => ((Cipher.ofTable aesTable).encrypt key block, iv)
    setsCurrentDek := true
    succeeds := fun _ _ => true }

theorem workingHost_computes : workingHost.Computes (Cipher.ofTable aesTable) := by
  intro key block
  rfl

def confirmingCard (_ : Apdu) : Reply :=
  { txr := smOk
    rsp := [0x0b, 0xc3, 0x52, 0x80, 0xc3, 0x52, 0x80, 0xc3, 0x52, 0x80, 0x90, 0x00]
    fits := by decide }

def fullSession : Session :=
  { keyVerNo := 0x0b, securityLevel := some 0x33, dek := defaultScp03Keys.dek }

theorem rotate_in_memory_confirmed_counting :
    ∃ apdu blocks,
      (rotateInMemory workingHost confirmingCard fullSession defaultScp03Keys countingKeys
        false).2 = [apdu] ∧
      Parses apdu.body 0x0b blocks ∧ apdu.body.length = 70 ∧
      blocks.map (fun block =>
        (Cipher.ofTable aesTable).decrypt defaultScp03Keys.dek block.cipher) =
          [countingKey, countingKey, countingKey] ∧
      (rotateInMemory workingHost confirmingCard fullSession defaultScp03Keys countingKeys
        false).1 = .ok () := by
  obtain ⟨apdu, blocks, sent, parses, _, size, keys, _, _⟩ :=
    rotate_in_memory_confirmed (Cipher.ofTable aesTable) workingHost confirmingCard fullSession
      defaultScp03Keys countingKeys defaultScp03Keys.dek rfl workingHost_computes
      ⟨rfl, fun _ _ => rfl⟩ rfl
  exact ⟨apdu, blocks, sent, parses, size, keys, by decide +kernel⟩

end Etlx.Se
