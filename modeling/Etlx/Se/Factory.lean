/-
`se_factory`: the command line that provisions a secure element.

A process is followed through its effects: the connections it opens, the objects of
the element, the keys that are generated, the PUT KEY commands and what is printed.
What the middleware, the card and the file system answer is in `Platform`.
-/

import Etlx.Conf.CliRoundTrip
import Etlx.Se.ObjectStore
import Etlx.Se.Scp03

namespace Etlx.Se.Factory

open Ascii

/-! ### The command table -/

def option (name description parameter : String) : Conf.CliOption :=
  { longOption := ascii name, description := ascii description, parameter := ascii parameter }

def mandatory (name : String) : Option Conf.CliArgument :=
  some { name := ascii name, mandatory := true }

def provisionCommand : Conf.CliCommand :=
  { name := ascii "provision"
    description := ascii "Generate RSA key + print CSR PEM"
    argument := none
    options :=
      [option "--bits" "Key size: 2048 (default) or 4096" "BITS",
        option "--policy" "full | sign-only | sign-decrypt" "POLICY",
        option "--subject" "Subject DN for the CSR" "DN",
        option "--out" "Write CSR PEM to file (default: stdout)" "FILE"]
    few := by decide }

def writeCertCommand : Conf.CliCommand :=
  { name := ascii "write-cert"
    description := ascii "Write DER cert to SE cert object"
    argument := mandatory "cert.der", options := [], few := Conf.noOptions_few }

def writeInfoCommand : Conf.CliCommand :=
  { name := ascii "write-info"
    description := ascii "Write binary blob to SE device-info object"
    argument := mandatory "blob.bin", options := [], few := Conf.noOptions_few }

def readInfoCommand : Conf.CliCommand :=
  { name := ascii "read-info"
    description := ascii "Hex-dump the device-info object"
    argument := none, options := [], few := Conf.noOptions_few }

def rotateScp03Command : Conf.CliCommand :=
  { name := ascii "rotate-scp03"
    description := ascii "Rotate SCP03 keys via GP PUT KEY"
    argument := mandatory "newkeys.txt"
    options := [option "--dry-run" "Build APDU but do not send" ""]
    few := by decide }

def uidCommand : Conf.CliCommand :=
  { name := ascii "uid"
    description := ascii "Print the 18-byte chip UID"
    argument := none, options := [], few := Conf.noOptions_few }

def verifyCommand : Conf.CliCommand :=
  { name := ascii "verify"
    description := ascii "Verify SE key matches a DER certificate"
    argument := mandatory "cert.der", options := [], few := Conf.noOptions_few }

def app : Conf.CliApp :=
  { name := ascii "se_factory"
    shortDescription := ascii "Factory provisioning CLI for the NXP SE05x"
    longDescription := ascii "Global: --port <addr>  (default: EX_SSS_BOOT_SSS_PORT)"
    commands :=
      [provisionCommand, writeCertCommand, writeInfoCommand, readInfoCommand, rotateScp03Command,
        uidCommand, verifyCommand]
    few := by decide }

/-! ### Options -/

/-- The loop over the tokens of a command: what `add` collects from them, or the error of the
iterator. -/
def optionLoop {σ : Type} (command : Conf.CliCommand) (add : σ → Conf.OptionValue → σ)
    (it : Conf.CmdlineOptionsIterator) (collected : σ) : Result σ :=
  match _step : command.next it with
  | (.error e, _) => .error e
  | (.ok none, _) => .ok collected
  | (.ok (some ov), it') => optionLoop command add it' (add collected ov)
termination_by it.ahead.length
decreasing_by exact Conf.next_shrinks _step

inductive RsaBits
  | k2048
  | k4096
deriving DecidableEq, Repr

inductive KeyPolicy
  | full
  | signOnly
  | signDecrypt
deriving DecidableEq, Repr

structure ProvisionArgs where
  bits : RsaBits
  policy : KeyPolicy
  subjectDn : Bytes
  outPath : Option Bytes
deriving DecidableEq, Repr

def ProvisionArgs.start : ProvisionArgs :=
  { bits := .k2048, policy := .full, subjectDn := ascii "CN=SE05x-Device", outPath := none }

def ProvisionArgs.add (args : ProvisionArgs) (ov : Conf.OptionValue) : ProvisionArgs :=
  if ov.option = ascii "--bits" then
    if ov.value = ascii "4096" then { args with bits := .k4096 } else args
  else if ov.option = ascii "--policy" then
    if ov.value = ascii "full" then { args with policy := .full }
    else if ov.value = ascii "sign-decrypt" then { args with policy := .signDecrypt }
    else args
  else if ov.option = ascii "--subject" then { args with subjectDn := ov.value }
  else if ov.option = ascii "--out" then { args with outPath := some ov.value }
  else args

structure RotateArgs where
  keyfile : Option Bytes
  dryRun : Bool
deriving DecidableEq, Repr

def RotateArgs.start : RotateArgs := { keyfile := none, dryRun := false }

def RotateArgs.add (args : RotateArgs) (ov : Conf.OptionValue) : RotateArgs :=
  if ov.isArgument then { args with keyfile := some ov.value }
  else if ov.option = ascii "--dry-run" then { args with dryRun := true }
  else args

/-! ### The process -/

def rsaKeyId : UInt32 := 0xfe000001

def rsaCertId : UInt32 := 0xfe000002

def deviceInfoId : UInt32 := 0xfe000010

structure Policy where
  canSign : Bool
  canDecrypt : Bool
  canGen : Bool
  canRead : Bool
  canWrite : Bool
  canDelete : Bool
  reqSm : Bool
deriving DecidableEq, Repr

/-- The policy that the key is generated with, or none for `nullptr`. -/
def KeyPolicy.policy : KeyPolicy → Option Policy
  | .full => none
  | chosen =>
      some
        { canSign := true, canDecrypt := chosen == .signDecrypt, canGen := true, canRead := true,
          canWrite := false, canDelete := false, reqSm := true }

structure Generation where
  keyId : UInt32
  bits : RsaBits
  policy : Option Policy
deriving DecidableEq, Repr

/-- How the calls of `Connection::Open` turn out, and the session for the keys that it puts
into the static context. -/
structure Middleware where
  preparesHost : Bool
  opensSession : Bool
  initsKeyStore : Bool
  session : Scp03KeySet → Session

def connectionOpen (middleware : Middleware) (keys : Scp03KeySet) : Result Session :=
  if middleware.preparesHost then
    if middleware.opensSession then
      if middleware.initsKeyStore then .ok (middleware.session keys)
      else seFail .storeFailed "ex_sss_key_store_and_object_init failed"
    else seFail .openFailed "sss_session_open failed"
  else seFail .openFailed "prepare_host failed"

/-- Everything outside the process: `makeCsr`, `verifyBinding` and `getUid` are what these
functions return, `saves` whether a file can be written. -/
structure Platform where
  middleware : Middleware
  host : Host
  card : Apdu → Reply
  outside : Outside
  calls : Calls
  allocatesKey : Bool
  generatesKey : Generation → Option Bytes
  makeCsr : Bytes → Result Bytes
  verifyBinding : UInt32 → Bytes → Result Bool
  getUid : Result Bytes
  saves : Bytes → Bytes → Bool

/-- What the process has done so far. `out` is the state of the writer for the help texts, and
`opens` has the port of each connection and whether the applet is selected. -/
structure Process (τ : Type) where
  out : τ
  stdout : Bytes
  opens : List (Bytes × Bool)
  objects : Objects
  generated : List Generation
  sent : List Apdu
  disks : List Scp03Keyfile.Disk
  saved : List (Bytes × Bytes)

section

variable {τ : Type} (platform : Platform)

/-- `Connection::Open(port, select_applet)`, which uses the default keys. -/
def openConnection (port : Bytes) (selectApplet : Bool) (process : Process τ) :
    Result Session × Process τ :=
  (connectionOpen platform.middleware defaultScp03Keys,
    { process with opens := process.opens ++ [(port, selectApplet)] })

def readFile (path : Bytes) (capacity : Nat) : Bytes :=
  match platform.outside.file path with
  | none => []
  | some content => content.take capacity

def generateKey (bits : RsaBits) (policy : KeyPolicy) (process : Process τ) :
    Status × Process τ :=
  if platform.allocatesKey then
    let call : Generation := { keyId := rsaKeyId, bits := bits, policy := policy.policy }
    let called := { process with generated := process.generated ++ [call] }
    match platform.generatesKey call with
    | none =>
        (seFail .keyFailed
          (if policy = .full then "sss_key_store_generate_key failed"
            else "sss_key_store_generate_key (policy) failed"), called)
    | some object =>
        (.ok (), { called with objects := Function.update called.objects rsaKeyId (some object) })
  else (seFail .keyFailed "key_object_allocate_handle failed", process)

/-- The part of `CmdProvision` behind the erase. -/
def provisionKey (args : ProvisionArgs) (process : Process τ) : Int × Process τ :=
  match generateKey platform args.bits args.policy process with
  | (.error _, process) => (1, process)
  | (.ok (), process) =>
      match platform.makeCsr args.subjectDn with
      | .error _ => (1, process)
      | .ok csr =>
          match args.outPath with
          | none => (0, { process with stdout := process.stdout ++ csr })
          | some path =>
              if platform.saves path csr then
                (0, { process with saved := process.saved ++ [(path, csr)] })
              else (1, process)

def cmdProvision (argv : List Bytes) (process : Process τ) : Int × Process τ :=
  match optionLoop provisionCommand ProvisionArgs.add (.start argv) .start with
  | .error _ => (1, process)
  | .ok args =>
      if objectExists process.objects rsaKeyId then
        match erase platform.calls process.objects rsaKeyId with
        | (.error _, objects) => (1, { process with objects := objects })
        | (.ok (), objects) => provisionKey platform args { process with objects := objects }
      else provisionKey platform args process

def cmdWriteCert (path : Bytes) (process : Process τ) : Int × Process τ :=
  let buf := readFile platform path certCapacity
  if buf = [] then (1, process)
  else
    match writeCert platform.calls process.objects rsaCertId buf with
    | (.error _, objects) => (1, { process with objects := objects })
    | (.ok (), objects) => (0, { process with objects := objects })

def cmdWriteInfo (path : Bytes) (process : Process τ) : Int × Process τ :=
  let buf := readFile platform path blobCapacity
  if buf = [] then (1, process)
  else
    match writeBinary platform.calls process.objects deviceInfoId buf true with
    | (.error _, objects) => (1, { process with objects := objects })
    | (.ok _, objects) => (0, { process with objects := objects })

def hexDump : Nat → Bytes → Bytes
  | _, [] => [lineFeed]
  | i, byte :: blob =>
      (if i ≠ 0 ∧ i % 16 = 0 then [lineFeed] else []) ++ Hex.encode [byte] ++ space ::
        hexDump (i + 1) blob

def cmdReadInfo (process : Process τ) : Int × Process τ :=
  match readBinary process.objects deviceInfoId with
  | .error _ => (1, process)
  | .ok blob => (0, { process with stdout := process.stdout ++ hexDump 0 blob })

def cmdUid (process : Process τ) : Int × Process τ :=
  match platform.getUid with
  | .error _ => (1, process)
  | .ok uid => (0, { process with stdout := process.stdout ++ (Hex.encode uid ++ [lineFeed]) })

def cmdVerify (path : Bytes) (process : Process τ) : Int × Process τ :=
  let buf := readFile platform path certCapacity
  if buf = [] then (1, process)
  else
    match platform.verifyBinding rsaKeyId buf with
    | .error _ => (1, process)
    | .ok true => (0, { process with stdout := process.stdout ++ ascii "BINDING OK\n" })
    | .ok false => (2, { process with stdout := process.stdout ++ ascii "BINDING FAIL\n" })

/-- The part of `CmdRotateScp03` behind its arguments, which opens its own session. -/
def rotateFrom (port keyfile : Bytes) (dryRun : Bool) (process : Process τ) : Int × Process τ :=
  match openConnection platform port false process with
  | (.error _, process) => (1, process)
  | (.ok session, process) =>
      match Scp03Keyfile.read (platform.outside.file keyfile) platform.outside.memory with
      | .error _ => (1, process)
      | .ok newKeys =>
          let rotation := rotate platform.host platform.card platform.outside session newKeys
            dryRun (if dryRun then none else some keyfile)
          let process := { process with
            sent := process.sent ++ rotation.sent, disks := process.disks ++ rotation.disks }
          match rotation.status with
          | .error _ => (1, process)
          | .ok () => (0, process)

def cmdRotateScp03 (port : Bytes) (argv : List Bytes) (process : Process τ) : Int × Process τ :=
  match optionLoop rotateScp03Command RotateArgs.add (.start argv) .start with
  | .error _ => (1, process)
  | .ok args =>
      match args.keyfile with
      | none => (1, process)
      | some keyfile => rotateFrom platform port keyfile args.dryRun process

/-! ### `main` -/

/-- The loop over the leading words with two dashes: the port, and argv from the first word
that it leaves. -/
def skipGlobals : Bytes → List Bytes → Bytes × List Bytes
  | port, [] => (port, [])
  | port, [arg] => if Conf.startsWithDashDash arg then (port, []) else (port, [arg])
  | port, arg :: next :: argv =>
      if Conf.startsWithDashDash arg then
        if arg = ascii "--port" then skipGlobals next argv else skipGlobals port (next :: argv)
      else (port, arg :: next :: argv)

def isHelpFlag (arg : Bytes) : Bool := arg == ascii "-h" || arg == ascii "--help"

variable (out : Io.Writer τ)

def printHelp (process : Process τ) : Process τ :=
  { process with out := (Conf.printCliHelp app out process.out).2 }

def printCommandHelp (name : Bytes) (process : Process τ) : Process τ :=
  { process with out := (Conf.printCliCommandHelp app name out process.out).2 }

def runCommand (command : Conf.CliCommand) (argv : List Bytes) (process : Process τ) :
    Int × Process τ :=
  if command.name = ascii "provision" then cmdProvision platform argv process
  else
    match command.argument, argv with
    | some _, [] => (1, printCommandHelp out command.name process)
    | _, argv =>
        let path := argv.headD []
        if command.name = ascii "write-cert" then cmdWriteCert platform path process
        else if command.name = ascii "write-info" then cmdWriteInfo platform path process
        else if command.name = ascii "read-info" then cmdReadInfo process
        else if command.name = ascii "uid" then cmdUid platform process
        else if command.name = ascii "verify" then cmdVerify platform path process
        else (1, process)

def runWords (port : Bytes) (words : List Bytes) (process : Process τ) : Int × Process τ :=
  match words with
  | [] => (0, printHelp out process)
  | name :: argv =>
      if name = ascii "--help" ∨ name = ascii "-h" ∨ name = ascii "help" then
        (0, printHelp out process)
      else
        match app.findCommand name with
        | none => (1, printHelp out process)
        | some command =>
            if argv.any isHelpFlag then (0, printCommandHelp out name process)
            else if name = ascii "rotate-scp03" then cmdRotateScp03 platform port argv process
            else
              match openConnection platform port true process with
              | (.error _, process) => (1, process)
              | (.ok _, process) => runCommand platform out command argv process

def main (argv : List Bytes) (process : Process τ) : Int × Process τ :=
  let globals := skipGlobals (ascii "/dev/i2c-3") (argv.drop 1)
  runWords platform out globals.1 globals.2 process

end

end Etlx.Se.Factory
