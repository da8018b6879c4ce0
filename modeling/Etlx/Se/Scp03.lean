/-
The rotation of the SCP03 keys.

PUT KEY carries three key blocks, each a key encrypted under the DEK of the static
context and a check value. The command and the response that is expected for it are
built side by side in two buffers. The cipher and the calls of the host library are
parameters. The DEK is given by the caller, or read from a key file.
-/

import Etlx.Lib.Memory
import Etlx.Se.KeyFileWrite

namespace Etlx.Se

/-- `DefaultScp03Keys`, with which `Connection::Open` authenticates. -/
def defaultScp03Keys : Scp03KeySet :=
  { enc :=
      { bytes := [0xbf, 0xc2, 0xdb, 0xe1, 0x82, 0x8e, 0x03, 0x5d, 0x3e, 0x7f, 0xa3, 0x6b, 0x90,
          0x2a, 0x05, 0xc6]
        size := rfl }
    mac :=
      { bytes := [0xbe, 0xf8, 0x5b, 0xd7, 0xba, 0x04, 0x97, 0xd6, 0x28, 0x78, 0x1c, 0xe4, 0x7b,
          0x18, 0x8c, 0x96]
        size := rfl }
    dek :=
      { bytes := [0xd8, 0x73, 0xf3, 0x16, 0xbe, 0x29, 0x7f, 0x2f, 0xc9, 0xc0, 0xe4, 0x5f, 0x54,
          0x71, 0x06, 0x99]
        size := rfl } }

structure Cipher where
  encrypt : Key → Key → Key
  decrypt : Key → Key → Key
  inverse : ∀ key block, decrypt key (encrypt key block) = block

/-- The calls of the host library that one key takes, in their order. -/
inductive HostCall
  | objectInit
  | allocateHandle
  | setPlainKey
  | initKcv
  | cipherKcv
  | getDek
  | setDek
  | initWrap
  | cipherWrap
deriving DecidableEq, Repr

def hostCalls : List HostCall :=
  [.objectInit, .allocateHandle, .setPlainKey, .initKcv, .cipherKcv, .getDek, .setDek, .initWrap,
    .cipherWrap]

def HostCall.message : HostCall → String
  | .objectInit => "host key_object_init"
  | .allocateHandle => "host key_object_allocate_handle"
  | .setPlainKey => "set plain key (KCV)"
  | .initKcv => "symm_init (KCV)"
  | .cipherKcv => "cipher (KCV)"
  | .getDek => "get current DEK"
  | .setDek => "set DEK"
  | .initWrap => "symm_init (wrap)"
  | .cipherWrap => "cipher (wrap)"

/-- The host library: `sss_host_cipher_one_go` gives the output for a key, an IV and one block,
and what it leaves in the IV buffer; every other call succeeds or fails. -/
structure Host where
  cipherOneGo : Key → Key → Key → Key × Key
  setsCurrentDek : Bool
  succeeds : Nat → HostCall → Bool

structure Session where
  keyVerNo : UInt8
  securityLevel : Option UInt8
  dek : Key
deriving DecidableEq, Repr

def setCurrentDek (host : Host) (session : Session) (dek : Key) : Result Session :=
  if host.setsCurrentDek then .ok { session with dek := dek }
  else seFail .keyFailed "load current DEK into static ctx failed"

/-- `GenKcvAndEncryptKey`, for the key with the given index: the encrypted key and its check
value. Both ciphers are given the same IV buffer. -/
def genKcvAndEncryptKey (host : Host) (session : Session) (index : Nat) (plainKey : Key) :
    Result (Key × Bytes) :=
  match hostCalls.find? (fun call => !host.succeeds index call) with
  | some call => seFail .keyFailed call.message
  | none =>
      let kcvFull := host.cipherOneGo plainKey (Key.filled 0) (Key.filled 1)
      let encOut := host.cipherOneGo session.dek kcvFull.2 plainKey
      .ok (encOut.1, kcvFull.1.bytes.take 3)

/-- `CreateKeyData` at an offset of the command: the bytes written, the command and the check
value. -/
def createKeyData (host : Host) (session : Session) (index : Nat) (key : Key) (dst : Bytes)
    (offset : Nat) : Result (Nat × Bytes × Bytes) :=
  let tagged := Memory.write dst offset [0x88, 17, 16]
  match genKcvAndEncryptKey host session index key with
  | .error e => .error e
  | .ok (enc, kcv) =>
      let wrapped := Memory.write tagged (offset + 3) enc.bytes
      let counted := Memory.write wrapped (offset + 19) [3]
      .ok (23, Memory.write counted (offset + 20) kcv, kcv)

structure PutKey where
  cmd : Bytes
  len : Nat
  expected : Bytes
  expLen : Nat

def PutKey.start (keyVer : UInt8) : PutKey :=
  { cmd := Memory.write (List.replicate 128 0) 0 [keyVer]
    len := 1
    expected := Memory.write (List.replicate 10 0) 0 [keyVer]
    expLen := 1 }

def PutKey.add (host : Host) (session : Session) : Nat → List Key → PutKey → Result PutKey
  | _, [], block => .ok block
  | index, key :: keys, block =>
      match createKeyData host session index key block.cmd block.len with
      | .error e => .error e
      | .ok (written, cmd, kcv) =>
          PutKey.add host session (index + 1) keys
            { cmd := cmd
              len := block.len + written
              expected := Memory.write block.expected block.expLen kcv
              expLen := block.expLen + 3 }

structure Apdu where
  header : Bytes
  body : Bytes
deriving DecidableEq, Repr

/-- What `DoAPDUTxRx_s_Case4` returns, and the response in a buffer of 64 bytes. -/
structure Reply where
  txr : Nat
  rsp : Bytes
  fits : rsp.length ≤ 64

def smOk : Nat := 0x9000

def confirm (expected : Bytes) (expLen : Nat) (reply : Reply) : Status :=
  if reply.txr ≠ smOk then seFail .keyFailed "PUT KEY transport failed"
  else if reply.rsp.length < expLen + 2 then seFail .keyFailed "PUT KEY response too short"
  else if (reply.rsp.getD (reply.rsp.length - 2) 0).toNat * 256 +
      (reply.rsp.getD (reply.rsp.length - 1) 0).toNat ≠ smOk then
    seFail .keyFailed "PUT KEY rejected by SE"
  else if reply.rsp.take expLen ≠ expected.take expLen then
    seFail .keyFailed "PUT KEY key-check-value mismatch"
  else .ok ()

def sendPutKey (host : Host) (card : Apdu → Reply) (session : Session) (newKeys : Scp03KeySet) :
    Status × List Apdu :=
  if session.securityLevel ≠ some 0x33 then
    (seFail .keyFailed "SCP03 security level insufficient for PUT KEY", [])
  else
    match PutKey.add host session 0 [newKeys.enc, newKeys.mac, newKeys.dek]
        (.start session.keyVerNo) with
    | .error e => (.error e, [])
    | .ok block =>
        let apdu : Apdu :=
          { header := [0x80, 0xd8, session.keyVerNo, 0x81], body := block.cmd.take block.len }
        (confirm block.expected block.expLen (card apdu), [apdu])

/-- `Rotate(current_keys, new_keys, dry_run)`. -/
def rotateInMemory (host : Host) (card : Apdu → Reply) (session : Session)
    (currentKeys newKeys : Scp03KeySet) (dryRun : Bool) : Status × List Apdu :=
  match setCurrentDek host session currentKeys.dek with
  | .error e => (.error e, [])
  | .ok session => if dryRun then (.ok (), []) else sendPutKey host card session newKeys

/-- What a rotation finds outside the process: the files by their names, the value of
`EX_SSS_BOOT_SCP03_PATH`, the memory that the readers start with and how the calls of `Write`
turn out. -/
structure Outside where
  file : Bytes → Option Bytes
  bootScp03Path : Option Bytes
  memory : Tag → Bytes
  dekMemory : Bytes
  faults : Scp03Keyfile.Faults

def Outside.disk (outside : Outside) (path : Bytes) : Scp03Keyfile.Disk :=
  { path := outside.file path
    tmp := outside.file (path ++ ascii ".tmp")
    bak := outside.file (path ++ ascii ".bak") }

def loadCurrentDek (host : Host) (outside : Outside) (session : Session) (path : Bytes) :
    Result Session :=
  match Scp03Keyfile.readDek (outside.file path) outside.dekMemory with
  | .error e => .error e
  | .ok dek => setCurrentDek host session dek

/-- A rotation: its status, the commands sent to the card, and the disk after each call of
`Write`. -/
structure Rotation where
  status : Status
  sent : List Apdu
  disks : List Scp03Keyfile.Disk

def Rotation.unsent (status : Status) : Rotation := { status := status, sent := [], disks := [] }

/-- `Rotate(new_keys, dry_run, key_file)`. The path that the current DEK is read from is also
the one that the new keys are written to. -/
def rotate (host : Host) (card : Apdu → Reply) (outside : Outside) (session : Session)
    (newKeys : Scp03KeySet) (dryRun : Bool) (keyFile : Option Bytes) : Rotation :=
  if dryRun then .unsent (.ok ())
  else
    match keyFile.or outside.bootScp03Path with
    | none | some [] =>
        .unsent (seFail .keyFailed "SCP03 key file path unknown (set EX_SSS_BOOT_SCP03_PATH)")
    | some path =>
        match loadCurrentDek host outside session path with
        | .error e => .unsent (.error e)
        | .ok session =>
            match sendPutKey host card session newKeys with
            | (.error e, sent) => { status := .error e, sent := sent, disks := [] }
            | (.ok (), sent) =>
                match keyFile with
                | none => { status := .ok (), sent := sent, disks := [] }
                | some keyFile =>
                    let written := Scp03Keyfile.write outside.faults keyFile.length newKeys
                      (outside.disk keyFile)
                    { status := written.1, sent := sent, disks := written.2 }

/-! ### Key blocks -/

structure KeyBlock where
  cipher : Key
  kcv : Bytes
  kcvSize : kcv.length = 3

def KeyBlock.layout (block : KeyBlock) : Bytes :=
  0x88 :: 17 :: 16 :: (block.cipher.bytes ++ 3 :: block.kcv)

def Parses (body : Bytes) (keyVer : UInt8) (blocks : List KeyBlock) : Prop :=
  body = keyVer :: blocks.flatMap KeyBlock.layout

theorem layout_length (block : KeyBlock) : block.layout.length = 23 := by
  simp [KeyBlock.layout, block.cipher.size, block.kcvSize]

theorem layout_inj (first second : KeyBlock) (same : first.layout = second.layout) :
    first = second := by
  unfold KeyBlock.layout at same
  have inner : first.cipher.bytes ++ 3 :: first.kcv = second.cipher.bytes ++ 3 :: second.kcv := by
    simpa using same
  obtain ⟨cipher, rest⟩ := List.append_inj inner (by rw [first.cipher.size, second.cipher.size])
  cases first
  cases second
  cases Key.ext cipher
  cases (List.cons.inj rest).2
  rfl

theorem Parses.unique {body : Bytes} {keyVer other : UInt8} {blocks others : List KeyBlock}
    (first : Parses body keyVer blocks) (second : Parses body other others) :
    other = keyVer ∧ others = blocks := by
  unfold Parses at first second
  rw [first] at second
  obtain ⟨version, rest⟩ := List.cons.inj second
  exact ⟨version.symm,
    (Memory.flatMap_inj layout_length (by decide) layout_inj rest).symm⟩

end Etlx.Se
