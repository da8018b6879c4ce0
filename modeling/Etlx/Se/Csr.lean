/-
PKCS#10 requests that are signed inside the element.

`BuildCri` and `AssembleCsr` write their parts from the end of a buffer with the writers
of `mbedtls`, which are outside this repository, as is the element. What is built, if
it is built, reads as a request: a verifier that takes it apart finds the public key
of the element, and a signature of the element over the bytes that it hashes.
-/

import Etlx.Crypto.Sha2
import Etlx.Lib.Der
import Etlx.Se.KeyFile

namespace Etlx.Se

open Der (Lays Tail Writer Writes expect lengthBytes tlv)

def spkiCapacity : Nat := 512

def sigCapacity : Nat := 512

def csrPemCapacity : Nat := 2048

structure Mbedtls (Names : Type) where
  stringToNames : Bytes → Option Names
  writeNames : Names → Writer
  writeLen : Nat → Writer
  writeTag : UInt8 → Writer
  writeInt : Int → Writer
  writeBitstring : Bytes → Nat → Writer
  writeAlgorithmIdentifier : Bytes → Nat → Writer
  sha256 : Bytes → Option Bytes
  pemWriteBuffer : Bytes → Bytes → Bytes → Nat → Int × Bytes

namespace Csr

def sequence : UInt8 := 0x30

def bitString : UInt8 := 0x03

def integer : UInt8 := 0x02

def attributes : UInt8 := 0xa0

def objectIdentifier : UInt8 := 0x06

def null : UInt8 := 0x05

section

variable {Names : Type} (m : Mbedtls Names)

/-- The copy of `text` in front of the cursor, where there is room. -/
def copy (text : Bytes) : Writer := Der.writer (-1) text

/-- The length of what is written so far, and a tag. -/
def wrap (tag : UInt8) : Int → Writer := fun count =>
  Der.andThen (m.writeLen count.toNat)
    (Der.andThen (m.writeTag tag) (fun count tail => (count, tail))) count

def buildCri (memory subjectDn spki : Bytes) : Int × Tail :=
  match m.stringToNames subjectDn with
  | none => (-1, .start memory)
  | some names =>
      Der.andThen (m.writeLen 0)
        (Der.andThen (m.writeTag attributes)
          (Der.andThen (copy spki)
            (Der.andThen (m.writeNames names)
              (Der.andThen (m.writeInt 0) (wrap m sequence))))) 0 (.start memory)

def pemBegin : Bytes := ascii "-----BEGIN CERTIFICATE REQUEST-----\n"

def pemEnd : Bytes := ascii "-----END CERTIFICATE REQUEST-----\n"

/-- `AssembleCsr`: what is in `pem_out`, if it succeeds. -/
def assembleCsr (memory cri sig oid : Bytes) (capacity : Nat) : Option Bytes :=
  let (written, tail) :=
    Der.andThen (m.writeBitstring sig (sig.length * 8))
      (Der.andThen (m.writeAlgorithmIdentifier oid 0)
        (Der.andThen (copy cri) (wrap m sequence))) 0 (.start memory)
  if written < 0 then none
  else
    let (returned, text) :=
      m.pemWriteBuffer pemBegin pemEnd ((tail.buffer.drop tail.room).take written.toNat) capacity
    if returned = 0 then some text else none

/-- What the two buffers on the stack hold before they are written. -/
structure Stack where
  cri : Vector UInt8 csrPemCapacity
  buf : Vector UInt8 csrPemCapacity

def makeCsr (stack : Stack) (publicKeyDer : Result Bytes) (sign : Bytes → Result Bytes)
    (oid subjectDn : Bytes) : Result Bytes :=
  match publicKeyDer with
  | .error e => .error e
  | .ok spki =>
      let (len, tail) := buildCri m stack.cri.toList subjectDn spki
      if len < 0 then seFail .keyFailed "buildCri failed"
      else
        let cri := (tail.buffer.drop (csrPemCapacity - len.toNat)).take len.toNat
        match m.sha256 cri with
        | none => seFail .keyFailed "sha256 over CRI failed"
        | some digest =>
            match sign digest with
            | .error e => .error e
            | .ok sig =>
                match assembleCsr m stack.buf.toList cri sig oid csrPemCapacity with
                | none => seFail .keyFailed "AssembleCsr/PEM failed"
                | some pem => .ok (pem.takeWhile (fun byte => byte ≠ 0))

end

end Csr

/-! ### Keys -/

inductive Algorithm
  | rsassaPkcs1V15Sha256
  | ecdsaSha256
deriving DecidableEq, Repr

inductive Mode
  | sign
  | verify
deriving DecidableEq, Repr

/-- The calls of the middleware on one key of the element: each fails, or succeeds with what
it puts into a buffer of the given capacity. -/
structure KeyCalls where
  getKey : Nat → Option (Bytes × Nat)
  contextInit : Algorithm → Mode → Bool
  signDigest : Algorithm → Bytes → Nat → Option Bytes

def signWith (calls : KeyCalls) (algorithm : Algorithm) (capacity : Nat) (digest : Bytes) :
    Result Bytes :=
  if calls.contextInit algorithm .sign = false then
    seFail .signFailed "asymmetric_context_init(sign) failed"
  else
    match calls.signDigest algorithm digest capacity with
    | none => seFail .signFailed "asymmetric_sign_digest failed"
    | some sig => .ok sig

/-- `PublicKeyDer`, the same for either kind of key. -/
def exportKey (calls : KeyCalls) : Result Bytes :=
  match calls.getKey spkiCapacity with
  | none => seFail .keyFailed "sss_key_store_get_key(SPKI) failed"
  | some (spki, _) => .ok spki

structure RsaKey where
  bits : Nat
deriving DecidableEq, Repr

namespace RsaKey

def modulusBytes (key : RsaKey) : Nat := key.bits / 8

def sign (calls : KeyCalls) (key : RsaKey) (digest : Bytes) : Result Bytes :=
  signWith calls .rsassaPkcs1V15Sha256 key.modulusBytes digest

def publicKeyDer (calls : KeyCalls) : Result Bytes := exportKey calls

/-- `MBEDTLS_OID_PKCS1_SHA256`. -/
def signatureOid : Bytes := [0x2a, 0x86, 0x48, 0x86, 0xf7, 0x0d, 0x01, 0x01, 0x0b]

def makeCsr {Names : Type} (m : Mbedtls Names) (stack : Csr.Stack) (calls : KeyCalls)
    (key : RsaKey) (subjectDn : Bytes) : Result Bytes :=
  Csr.makeCsr m stack (publicKeyDer calls) (key.sign calls) signatureOid subjectDn

end RsaKey

inductive EcCurve
  | p256
  | p384
  | p521
deriving DecidableEq, Repr

structure EcKey where
  curve : EcCurve
deriving DecidableEq, Repr

namespace EcKey

def sign (calls : KeyCalls) (digest : Bytes) : Result Bytes :=
  signWith calls .ecdsaSha256 sigCapacity digest

def publicKeyDer (calls : KeyCalls) : Result Bytes := exportKey calls

/-- `MBEDTLS_OID_ECDSA_SHA256`. -/
def signatureOid : Bytes := [0x2a, 0x86, 0x48, 0xce, 0x3d, 0x04, 0x03, 0x02]

def makeCsr {Names : Type} (m : Mbedtls Names) (stack : Csr.Stack) (calls : KeyCalls)
    (subjectDn : Bytes) : Result Bytes :=
  Csr.makeCsr m stack (publicKeyDer calls) (sign calls) signatureOid subjectDn

end EcKey

/-! ### What a request says -/

namespace Csr

/-- The CertificationRequestInfo, with the encodings of the subject and of the key. -/
def info (subject spki : Bytes) : Bytes :=
  tlv sequence (tlv integer [0] ++ (tlv sequence subject ++ (spki ++ tlv attributes [])))

def identifier (oid : Bytes) : Bytes := tlv objectIdentifier oid ++ tlv null []

def request (cri oid sig : Bytes) : Bytes :=
  tlv sequence (cri ++ (tlv sequence (identifier oid) ++ tlv bitString (0 :: sig)))

/-- What a verifier takes out of a request. -/
structure Parts where
  cri : Bytes
  algorithm : Bytes
  subject : Bytes
  spki : Bytes
  sig : Bytes
deriving DecidableEq, Repr

/-- The object identifier of an algorithm without parameters, or with NULL in their place. -/
def readIdentifier (body : Bytes) : Option Bytes :=
  match expect objectIdentifier body with
  | none => none
  | some (_, oid, behind) => if behind = [] ∨ behind = tlv null [] then some oid else none

def read (der : Bytes) : Option Parts :=
  match expect sequence der with
  | some (_, body, []) =>
      match expect sequence body with
      | none => none
      | some (cri, info, behind) =>
          match expect sequence behind with
          | none => none
          | some (_, algorithm, behind) =>
              match readIdentifier algorithm, expect bitString behind with
              | some algorithm, some (_, unused :: sig, []) =>
                  match expect integer info with
                  | none => none
                  | some (_, version, behind) =>
                      match expect sequence behind with
                      | none => none
                      | some (_, subject, behind) =>
                          match expect sequence behind with
                          | none => none
                          | some (spki, _, behind) =>
                              if unused = 0 ∧ version = [0] ∧ behind = tlv attributes [] then
                                some { cri := cri, algorithm := algorithm, subject := subject
                                       spki := spki, sig := sig }
                              else none
              | _, _ => none
  | _ => none

/-- sha256WithRSAEncryption and ecdsa-with-SHA256. -/
def algorithmOid : Algorithm → Bytes
  | .rsassaPkcs1V15Sha256 => Der.oid [1, 2, 840, 113549, 1, 1, 11]
  | .ecdsaSha256 => Der.oid [1, 2, 840, 10045, 4, 3, 2]

def algorithmNamed (oid : Bytes) : Option Algorithm :=
  if oid = algorithmOid .rsassaPkcs1V15Sha256 then some .rsassaPkcs1V15Sha256
  else if oid = algorithmOid .ecdsaSha256 then some .ecdsaSha256
  else none

/-- The verifier of requests: the signature is checked with the key of the request and by the
algorithm that it names, over the digest of the bytes that contain the key. -/
def accepts (verifies : Algorithm → Bytes → Bytes → Bytes → Bool) (der : Bytes) :
    Option (Bytes × Bytes) :=
  match read der with
  | none => none
  | some parts =>
      match algorithmNamed parts.algorithm with
      | none => none
      | some algorithm =>
          if verifies algorithm parts.spki (Sha2.digest parts.cri) parts.sig then
            some (parts.subject, parts.spki)
          else none

theorem algorithmNamed_oid (algorithm : Algorithm) :
    algorithmNamed (algorithmOid algorithm) = some algorithm := by
  cases algorithm <;> decide +kernel

theorem expect_alone (tag : UInt8) (content : Bytes) (small : content.length < 2 ^ 16) :
    expect tag (tlv tag content) = some (tlv tag content, content, []) := by
  have front := Der.expect_tlv tag (Nat.lt_trans small (by decide)) []
  rw [List.append_nil] at front
  exact front

theorem expect_front (tag : UInt8) (content : Bytes) (small : content.length < 2 ^ 16)
    (rest : Bytes) : expect tag (tlv tag content ++ rest) = some (tlv tag content, content, rest) :=
  Der.expect_tlv tag (Nat.lt_trans small (by decide)) rest

theorem read_request {subject keyBody oid sig : Bytes}
    (small : (request (info subject (tlv sequence keyBody)) oid sig).length ≤ 2 ^ 16) :
    read (request (info subject (tlv sequence keyBody)) oid sig) =
      some { cri := info subject (tlv sequence keyBody), algorithm := oid, subject := subject
             spki := tlv sequence keyBody, sig := sig } := by
  have body := Nat.lt_of_lt_of_le (Der.length_le_tlv sequence _) small
  have infoBody := Der.length_le_tlv sequence (tlv integer [0] ++
    (tlv sequence subject ++ (tlv sequence keyBody ++ tlv attributes [])))
  have subjectBody := Der.length_le_tlv sequence subject
  have keyLength := Der.length_le_tlv sequence keyBody
  have algorithmLength := Der.length_le_tlv sequence (identifier oid)
  have oidLength := Der.length_le_tlv objectIdentifier oid
  have identified : (identifier oid).length = (tlv objectIdentifier oid).length + 2 := by
    rw [identifier, List.length_append]
    rfl
  have sigLength := Der.length_le_tlv bitString (0 :: sig)
  have parts := body
  rw [List.length_append, List.length_append, info] at parts
  rw [List.length_append, List.length_append, List.length_append] at infoBody
  have outer : expect sequence (request (info subject (tlv sequence keyBody)) oid sig) =
      some (_, _, []) := expect_alone sequence _ body
  have inner := expect_front sequence (tlv integer [0] ++
    (tlv sequence subject ++ (tlv sequence keyBody ++ tlv attributes [])))
    (by rw [List.length_append, List.length_append, List.length_append]; omega)
    (tlv sequence (identifier oid) ++ tlv bitString (0 :: sig))
  have algorithmRead := expect_front sequence (identifier oid) (by omega)
    (tlv bitString (0 :: sig))
  have named : readIdentifier (identifier oid) = some oid := by
    rw [readIdentifier, identifier, expect_front objectIdentifier oid (by omega)]
    exact if_pos (.inr rfl)
  have sigRead := expect_alone bitString (0 :: sig) (by omega)
  have versionRead := expect_front integer [0] (by decide)
    (tlv sequence subject ++ (tlv sequence keyBody ++ tlv attributes []))
  have subjectRead := expect_front sequence subject (by omega)
    (tlv sequence keyBody ++ tlv attributes [])
  have keyRead := expect_front sequence keyBody (by omega) (tlv attributes [])
  rw [read, outer]
  dsimp only
  rw [info, inner]
  dsimp only
  rw [algorithmRead]
  dsimp only
  rw [named, sigRead]
  dsimp only
  rw [versionRead]
  dsimp only
  rw [subjectRead]
  dsimp only
  rw [keyRead]
  exact if_pos ⟨rfl, rfl, rfl⟩

/-! ### The writers -/

/-- What the writers of `mbedtls` are documented to do. -/
structure Documented {Names : Type} (m : Mbedtls Names) (nameOf : Names → Bytes) :
    Prop where
  len : ∀ n, n < 2 ^ 32 → Writes (m.writeLen n) (lengthBytes n)
  tag : ∀ tag, Writes (m.writeTag tag) [tag]
  zero : Writes (m.writeInt 0) (tlv integer [0])
  names : ∀ names, Writes (m.writeNames names) (tlv sequence (nameOf names))
  bitstring : ∀ data, Writes (m.writeBitstring data (data.length * 8)) (tlv bitString (0 :: data))
  algorithm : ∀ oid, Writes (m.writeAlgorithmIdentifier oid 0) (tlv sequence (identifier oid))
  sha256 : ∀ data digest, m.sha256 data = some digest → digest = Sha2.digest data

section

variable {Names : Type} {m : Mbedtls Names} {nameOf : Names → Bytes}

theorem wrap_lays (documented : Documented m nameOf) (tag : UInt8) (count : Nat) :
    Lays csrPemCapacity (wrap m tag) count (tag :: lengthBytes count) := by
  by_cases small : count < 2 ^ 32
  · have row := Lays.andThen (documented.len count small)
      (Lays.andThen (documented.tag tag)
        (Der.lays_end csrPemCapacity (count + (lengthBytes count).length + [tag].length)))
    exact ⟨row.fits, row.full⟩
  · have beyond : ∀ tail : Tail, ¬count + tail.room ≤ csrPemCapacity := by
      intro tail
      unfold csrPemCapacity
      omega
    exact ⟨fun tail within => absurd within (beyond tail),
      fun tail within => absurd within (beyond tail)⟩

theorem Documented.wraps (documented : Documented m nameOf) (tag : UInt8)
    (content : Bytes) {count : Nat} (counted : count = content.length) :
    Lays csrPemCapacity (wrap m tag) count (tag :: lengthBytes content.length) := by
  rw [← counted]
  exact wrap_lays documented tag count

theorem copy_writes (text : Bytes) : Writes (copy text) text :=
  Der.writer_writes (by decide) text

theorem buildCri_eq (documented : Documented m nameOf) {memory subjectDn : Bytes}
    {names : Names} (size : memory.length = csrPemCapacity)
    (named : m.stringToNames subjectDn = some names) (spki : Bytes) :
    ((info (nameOf names) spki).length ≤ csrPemCapacity →
      buildCri m memory subjectDn spki = (((info (nameOf names) spki).length : Int),
        (Tail.start memory).put (info (nameOf names) spki))) ∧
    (csrPemCapacity < (info (nameOf names) spki).length →
      (buildCri m memory subjectDn spki).1 < 0) := by
  have attributesText : tlv attributes [] = attributes :: lengthBytes 0 := by
    rw [tlv, List.length_nil, List.append_nil]
  have row : Lays csrPemCapacity
      (Der.andThen (m.writeLen 0)
        (Der.andThen (m.writeTag attributes)
          (Der.andThen (copy spki)
            (Der.andThen (m.writeNames names)
              (Der.andThen (m.writeInt 0) (wrap m sequence)))))) 0 _ :=
    Lays.andThen (documented.len 0 (by decide))
      (Lays.andThen (documented.tag attributes)
        (Lays.andThen (copy_writes spki)
          (Lays.andThen (documented.names names)
            (Lays.andThen documented.zero
              (documented.wraps sequence (tlv integer [0] ++ (tlv sequence (nameOf names) ++
                (spki ++ tlv attributes []))) (by
                  rw [attributesText]
                  simp only [List.length_append, List.length_cons, List.length_nil]
                  omega))))))
  have text : sequence :: lengthBytes (tlv integer [0] ++ (tlv sequence (nameOf names) ++
      (spki ++ tlv attributes []))).length ++ tlv integer [0] ++ tlv sequence (nameOf names) ++
        spki ++ [attributes] ++ lengthBytes 0 = info (nameOf names) spki := by
    rw [info, Der.tlv_cons sequence (_ ++ _), attributesText]
    simp only [List.append_assoc, List.cons_append, List.nil_append]
  rw [text] at row
  have unfolded : buildCri m memory subjectDn spki =
      Der.andThen (m.writeLen 0)
        (Der.andThen (m.writeTag attributes)
          (Der.andThen (copy spki)
            (Der.andThen (m.writeNames names)
              (Der.andThen (m.writeInt 0) (wrap m sequence))))) 0 (.start memory) := by
    rw [buildCri, named]
  have within : 0 + (Tail.start memory).room ≤ csrPemCapacity := by
    change 0 + memory.length ≤ csrPemCapacity
    omega
  rw [unfolded]
  constructor
  · intro fits
    have built := row.fits (.start memory) within (fits.trans_eq size.symm)
    rw [Nat.zero_add] at built
    exact built
  · intro long
    exact row.full (.start memory) within (size.trans_lt long)

theorem assembleCsr_eq (documented : Documented m nameOf) {memory : Bytes}
    (size : memory.length = csrPemCapacity) (cri sig oid : Bytes) (capacity : Nat) :
    ((request cri oid sig).length ≤ csrPemCapacity →
      assembleCsr m memory cri sig oid capacity =
        (let (returned, text) :=
          m.pemWriteBuffer pemBegin pemEnd (request cri oid sig) capacity
        if returned = 0 then some text else none)) ∧
    (csrPemCapacity < (request cri oid sig).length →
      assembleCsr m memory cri sig oid capacity = none) := by
  have row : Lays csrPemCapacity
      (Der.andThen (m.writeBitstring sig (sig.length * 8))
        (Der.andThen (m.writeAlgorithmIdentifier oid 0)
          (Der.andThen (copy cri) (wrap m sequence)))) 0 _ :=
    Lays.andThen (documented.bitstring sig)
      (Lays.andThen (documented.algorithm oid)
        (Lays.andThen (copy_writes cri)
          (documented.wraps sequence (cri ++ (tlv sequence (identifier oid) ++
            tlv bitString (0 :: sig))) (by
              simp only [List.length_append]
              omega))))
  have text : sequence :: lengthBytes (cri ++ (tlv sequence (identifier oid) ++
      tlv bitString (0 :: sig))).length ++ cri ++ tlv sequence (identifier oid) ++
        tlv bitString (0 :: sig) = request cri oid sig := by
    rw [request, Der.tlv_cons sequence (_ ++ _)]
    simp only [List.append_assoc, List.cons_append]
  rw [text] at row
  have within : 0 + (Tail.start memory).room ≤ csrPemCapacity := by
    change 0 + memory.length ≤ csrPemCapacity
    omega
  constructor
  · intro fits
    have built := row.fits (.start memory) within (fits.trans_eq size.symm)
    rw [Nat.zero_add, Int.natCast_zero] at built
    have room : ((Tail.start memory).put (request cri oid sig)).room =
        memory.length - (request cri oid sig).length :=
      Tail.put_room (.start memory) _
    rw [assembleCsr, built]
    dsimp only
    rw [if_neg (Int.not_lt.mpr (Int.natCast_nonneg _)), room, Tail.start_put_drop,
      Int.toNat_natCast, List.take_length]
  · intro long
    have negative := row.full (.start memory) within (size.trans_lt long)
    rw [assembleCsr]
    dsimp only
    exact if_pos negative

theorem assembleCsr_iff (documented : Documented m nameOf) {memory : Bytes}
    (size : memory.length = csrPemCapacity) (cri sig oid : Bytes) (capacity : Nat)
    (text : Bytes) :
    assembleCsr m memory cri sig oid capacity = some text ↔
      (request cri oid sig).length ≤ csrPemCapacity ∧
        m.pemWriteBuffer pemBegin pemEnd (request cri oid sig) capacity =
          (0, text) := by
  have assembled := assembleCsr_eq documented size cri sig oid capacity
  by_cases fits : (request cri oid sig).length ≤ csrPemCapacity
  · rw [assembled.1 fits, and_iff_right fits]
    obtain ⟨returned, found⟩ :=
      m.pemWriteBuffer pemBegin pemEnd (request cri oid sig) capacity
    dsimp only
    rw [Option.ite_none_right_eq_some, Option.some_inj, Prod.mk.injEq]
  · rw [assembled.2 (Nat.not_le.mp fits)]
    exact ⟨nofun, fun both => absurd both.1 fits⟩

structure Made (m : Mbedtls Names) (nameOf : Names → Bytes)
    (sign : Bytes → Result Bytes) (oid subjectDn spki : Bytes) (names : Names)
    (digest sig csr text : Bytes) : Prop where
  named : m.stringToNames subjectDn = some names
  infoFits : (info (nameOf names) spki).length ≤ csrPemCapacity
  hashed : m.sha256 (info (nameOf names) spki) = some digest
  signed : sign digest = .ok sig
  isRequest : csr = request (info (nameOf names) spki) oid sig
  csrFits : csr.length ≤ csrPemCapacity
  encoded : m.pemWriteBuffer pemBegin pemEnd csr csrPemCapacity = (0, text)

theorem seFail_ne_ok {code : Code} {message : String} {value : Bytes} :
    seFail code message ≠ (.ok value : Result Bytes) := nofun

theorem makeCsr_built (documented : Documented m nameOf) (stack : Stack)
    (sign : Bytes → Result Bytes) (oid : Bytes) {subjectDn spki : Bytes} {names : Names}
    (named : m.stringToNames subjectDn = some names)
    (infoFits : (info (nameOf names) spki).length ≤ csrPemCapacity) :
    makeCsr m stack (.ok spki) sign oid subjectDn =
      (match m.sha256 (info (nameOf names) spki) with
      | none => seFail .keyFailed "sha256 over CRI failed"
      | some digest =>
          match sign digest with
          | .error e => .error e
          | .ok sig =>
              match assembleCsr m stack.buf.toList (info (nameOf names) spki) sig oid
                  csrPemCapacity with
              | none => seFail .keyFailed "AssembleCsr/PEM failed"
              | some pem => .ok (pem.takeWhile (fun byte => byte ≠ 0))) := by
  have size : stack.cri.toList.length = csrPemCapacity := Vector.length_toList
  have built := (buildCri_eq documented size named spki).1 infoFits
  have drop := Tail.start_put_drop stack.cri.toList (info (nameOf names) spki)
  rw [size] at drop
  rw [makeCsr, built]
  dsimp only
  rw [if_neg (Int.not_lt.mpr (Int.natCast_nonneg _)), Int.toNat_natCast, drop, List.take_length]

theorem makeCsr_iff (documented : Documented m nameOf) (stack : Stack)
    (publicKeyDer : Result Bytes) (sign : Bytes → Result Bytes) (oid subjectDn pem : Bytes) :
    makeCsr m stack publicKeyDer sign oid subjectDn = .ok pem ↔
      ∃ spki names digest sig csr text, publicKeyDer = .ok spki ∧
        Made m nameOf sign oid subjectDn spki names digest sig csr text ∧
        pem = text.takeWhile (fun byte => byte ≠ 0) := by
  have size : stack.buf.toList.length = csrPemCapacity := Vector.length_toList
  constructor
  · intro made
    cases exported : publicKeyDer with
    | error e =>
        rw [exported, makeCsr] at made
        exact nomatch made
    | ok spki =>
        rw [exported] at made
        cases named : m.stringToNames subjectDn with
        | none =>
            rw [makeCsr, buildCri, named] at made
            exact absurd made seFail_ne_ok
        | some names =>
            by_cases infoFits : (info (nameOf names) spki).length ≤ csrPemCapacity
            · rw [makeCsr_built documented stack sign oid named infoFits] at made
              cases hashed : m.sha256 (info (nameOf names) spki) with
              | none =>
                  rw [hashed] at made
                  exact absurd made seFail_ne_ok
              | some digest =>
                  rw [hashed] at made
                  dsimp only at made
                  cases signed : sign digest with
                  | error e =>
                      rw [signed] at made
                      exact nomatch made
                  | ok sig =>
                      rw [signed] at made
                      dsimp only at made
                      cases assembled : assembleCsr m stack.buf.toList
                          (info (nameOf names) spki) sig oid csrPemCapacity with
                      | none =>
                          rw [assembled] at made
                          exact absurd made seFail_ne_ok
                      | some text =>
                          rw [assembled] at made
                          have encoded := (assembleCsr_iff documented size _ sig oid
                            csrPemCapacity text).mp assembled
                          exact ⟨spki, names, digest, sig, _, text, rfl,
                            { named := named, infoFits := infoFits, hashed := hashed
                              signed := signed, isRequest := rfl, csrFits := encoded.1
                              encoded := encoded.2 },
                            (Except.ok.inj made).symm⟩
            · have size : stack.cri.toList.length = csrPemCapacity := Vector.length_toList
              have negative := (buildCri_eq documented size named spki).2 (Nat.not_le.mp infoFits)
              rw [makeCsr] at made
              dsimp only at made
              rw [if_pos negative] at made
              exact absurd made seFail_ne_ok
  · rintro ⟨spki, names, digest, sig, csr, text, exported, made, rfl⟩
    have assembled := (assembleCsr_iff documented size (info (nameOf names) spki) sig oid
      csrPemCapacity text).mpr
      ⟨made.isRequest ▸ made.csrFits, made.isRequest ▸ made.encoded⟩
    rw [exported, makeCsr_built documented stack sign oid made.named made.infoFits, made.hashed]
    dsimp only
    rw [made.signed]
    dsimp only
    rw [assembled]

theorem Made.accepts {sign : Bytes → Result Bytes} {subjectDn body digest sig csr text : Bytes}
    {algorithm : Algorithm} {names : Names} (documented : Documented m nameOf)
    (made : Made m nameOf sign (algorithmOid algorithm) subjectDn (tlv sequence body) names digest
      sig csr text)
    {verifies : Algorithm → Bytes → Bytes → Bytes → Bool}
    (verified : verifies algorithm (tlv sequence body) digest sig = true) :
    accepts verifies csr = some (nameOf names, tlv sequence body) := by
  have hashed := documented.sha256 _ digest made.hashed
  have short : csr.length ≤ 2 ^ 16 := Nat.le_trans made.csrFits (by decide)
  rw [made.isRequest] at short
  rw [Csr.accepts, made.isRequest, read_request short]
  dsimp only
  rw [algorithmNamed_oid]
  dsimp only
  rw [← hashed, if_pos verified]

end

end Csr

/-! ### The keys of the element -/

inductive SeKey
  | rsa (key : RsaKey)
  | ec (key : EcKey)
deriving DecidableEq, Repr

namespace SeKey

def algorithm : SeKey → Algorithm
  | .rsa _ => .rsassaPkcs1V15Sha256
  | .ec _ => .ecdsaSha256

def makeCsr {Names : Type} (m : Mbedtls Names) (stack : Csr.Stack) (calls : KeyCalls) :
    SeKey → Bytes → Result Bytes
  | .rsa key => key.makeCsr m stack calls
  | .ec _ => EcKey.makeCsr m stack calls

end SeKey

/-- An element that holds a key: it exports the encoding of the public half, and what it signs
with this algorithm verifies. -/
structure Genuine (calls : KeyCalls) (verifies : Algorithm → Bytes → Bytes → Bytes → Bool)
    (algorithm : Algorithm) (spki : Bytes) : Prop where
  encoded : ∃ body, spki = tlv Csr.sequence body
  exported : ∀ capacity found, calls.getKey capacity = some found → found.1 = spki
  signs : ∀ digest capacity sig, calls.signDigest algorithm digest capacity = some sig →
    verifies algorithm spki digest sig = true

theorem exportKey_ok {calls : KeyCalls} {spki : Bytes} (exported : exportKey calls = .ok spki) :
    ∃ bits, calls.getKey spkiCapacity = some (spki, bits) := by
  rw [exportKey] at exported
  cases found : calls.getKey spkiCapacity with
  | none =>
      rw [found] at exported
      exact absurd exported Csr.seFail_ne_ok
  | some pair =>
      rw [found] at exported
      exact ⟨pair.2, by rw [← Except.ok.inj exported]⟩

theorem signWith_ok {calls : KeyCalls} {algorithm : Algorithm} {capacity : Nat}
    {digest sig : Bytes} (signed : signWith calls algorithm capacity digest = .ok sig) :
    calls.signDigest algorithm digest capacity = some sig := by
  rw [signWith] at signed
  by_cases refused : calls.contextInit algorithm .sign = false
  · rw [if_pos refused] at signed
    exact absurd signed Csr.seFail_ne_ok
  · rw [if_neg refused] at signed
    cases found : calls.signDigest algorithm digest capacity with
    | none =>
        rw [found] at signed
        exact absurd signed Csr.seFail_ne_ok
    | some made =>
        rw [found] at signed
        rw [Except.ok.inj signed]

/-- The export, the algorithm and the capacity of the signature that a kind of key asks for. The
request names the algorithm by which it is signed. -/
theorem SeKey.makeCsr_eq {Names : Type} (m : Mbedtls Names) (stack : Csr.Stack)
    (calls : KeyCalls) (key : SeKey) (subjectDn : Bytes) :
    ∃ capacity, key.makeCsr m stack calls subjectDn = Csr.makeCsr m stack (exportKey calls)
      (signWith calls key.algorithm capacity) (Csr.algorithmOid key.algorithm) subjectDn := by
  have rsa : RsaKey.signatureOid = Csr.algorithmOid .rsassaPkcs1V15Sha256 := by decide +kernel
  have ec : EcKey.signatureOid = Csr.algorithmOid .ecdsaSha256 := by decide +kernel
  cases key with
  | rsa key =>
      refine ⟨key.modulusBytes, ?_⟩
      rw [SeKey.makeCsr, RsaKey.makeCsr, rsa]
      rfl
  | ec key =>
      refine ⟨sigCapacity, ?_⟩
      rw [SeKey.makeCsr, EcKey.makeCsr, ec]
      rfl

/-- Whatever request a key of the element makes, a verifier accepts it for that key. -/
theorem csr_accepted {Names : Type} {m : Mbedtls Names} {nameOf : Names → Bytes}
    (documented : Csr.Documented m nameOf) (key : SeKey) {calls : KeyCalls}
    {verifies : Algorithm → Bytes → Bytes → Bytes → Bool} {spki : Bytes}
    (genuine : Genuine calls verifies key.algorithm spki) (stack : Csr.Stack)
    {subjectDn pem : Bytes} (made : key.makeCsr m stack calls subjectDn = .ok pem) :
    ∃ names csr text, m.stringToNames subjectDn = some names ∧
      m.pemWriteBuffer Csr.pemBegin Csr.pemEnd csr csrPemCapacity = (0, text) ∧
      pem = text.takeWhile (fun byte => byte ≠ 0) ∧
      Csr.accepts verifies csr = some (nameOf names, spki) := by
  obtain ⟨capacity, same⟩ := key.makeCsr_eq m stack calls subjectDn
  rw [same, Csr.makeCsr_iff documented] at made
  obtain ⟨found, names, digest, sig, csr, text, exported, steps, rfl⟩ := made
  obtain ⟨bits, got⟩ := exportKey_ok exported
  have isKey : found = spki := genuine.exported spkiCapacity _ got
  obtain ⟨body, encoded⟩ := genuine.encoded
  have verified := genuine.signs digest capacity sig (signWith_ok steps.signed)
  rw [isKey, encoded] at steps
  rw [encoded] at verified ⊢
  exact ⟨names, csr, text, steps.named, steps.encoded, rfl, steps.accepts documented verified⟩

/-! ### A request of a P-256 key -/

namespace Csr.P256

/-- The key whose public point is the base point of the curve. -/
def spki : Bytes :=
  [
    0x30, 0x59, 0x30, 0x13, 0x06, 0x07, 0x2a, 0x86, 0x48, 0xce, 0x3d, 0x02, 0x01, 0x06, 0x08, 0x2a,
    0x86, 0x48, 0xce, 0x3d, 0x03, 0x01, 0x07, 0x03, 0x42, 0x00, 0x04, 0x6b, 0x17, 0xd1, 0xf2, 0xe1,
    0x2c, 0x42, 0x47, 0xf8, 0xbc, 0xe6, 0xe5, 0x63, 0xa4, 0x40, 0xf2, 0x77, 0x03, 0x7d, 0x81, 0x2d,
    0xeb, 0x33, 0xa0, 0xf4, 0xa1, 0x39, 0x45, 0xd8, 0x98, 0xc2, 0x96, 0x4f, 0xe3, 0x42, 0xe2, 0xfe,
    0x1a, 0x7f, 0x9b, 0x8e, 0xe7, 0xeb, 0x4a, 0x7c, 0x0f, 0x9e, 0x16, 0x2b, 0xce, 0x33, 0x57, 0x6b,
    0x31, 0x5e, 0xce, 0xcb, 0xb6, 0x40, 0x68, 0x37, 0xbf, 0x51, 0xf5]

def sig : Bytes :=
  [
    0x30, 0x44, 0x02, 0x20, 0x6b, 0x17, 0xd1, 0xf2, 0xe1, 0x2c, 0x42, 0x47, 0xf8, 0xbc, 0xe6, 0xe5,
    0x63, 0xa4, 0x40, 0xf2, 0x77, 0x03, 0x7d, 0x81, 0x2d, 0xeb, 0x33, 0xa0, 0xf4, 0xa1, 0x39, 0x45,
    0xd8, 0x98, 0xc2, 0x96, 0x02, 0x20, 0x53, 0x9f, 0x89, 0x4c, 0x29, 0x42, 0xb5, 0x2b, 0x6e, 0x20,
    0x95, 0x5e, 0xf0, 0x99, 0xf1, 0x88, 0x69, 0x2d, 0x85, 0xa8, 0xe9, 0x01, 0x7b, 0xe2, 0xc4, 0xa6,
    0x71, 0xdd, 0xd3, 0x53, 0xde, 0xb0]

def commonName : Bytes :=
  [0x31, 0x0d, 0x30, 0x0b, 0x06, 0x03, 0x55, 0x04, 0x03, 0x0c, 0x04, 0x65, 0x74, 0x6c, 0x78]

def pem : Bytes := ascii
  "-----BEGIN CERTIFICATE REQUEST-----
MIHKMHECAQAwDzENMAsGA1UEAwwEZXRseDBZMBMGByqGSM49AgEGCCqGSM49AwEH
A0IABGsX0fLhLEJH+Lzm5WOkQPJ3A32BLeszoPShOUXYmMKWT+NC4v4af5uO5+tK
fA+eFivOM1drMV7Oy7ZAaDe/UfWgADAMBggqhkjOPQQDAgUAA0cAMEQCIGsX0fLh
LEJH+Lzm5WOkQPJ3A32BLeszoPShOUXYmMKWAiBTn4lMKUK1K24glV7wmfGIaS2F
qOkBe+LEpnHd01PesA==
-----END CERTIFICATE REQUEST-----
"

def mbedtls : Mbedtls Bytes where
  stringToNames dn := if dn = ascii "CN=etlx" then some commonName else none
  writeNames names := Der.writer (-0x6c) (tlv sequence names)
  writeLen n := Der.writer (-0x6c) (lengthBytes n)
  writeTag tag := Der.writer (-0x6c) [tag]
  writeInt value := Der.writer (-0x6c) (tlv integer [UInt8.ofNat value.toNat])
  writeBitstring data _ := Der.writer (-0x6c) (tlv bitString (0 :: data))
  writeAlgorithmIdentifier oid _ := Der.writer (-0x6c) (tlv sequence (identifier oid))
  sha256 data := some (Sha2.digest data)
  pemWriteBuffer _ _ _ _ := (0, pem ++ [0])

theorem documented :
    Documented mbedtls id where
  len := fun _ _ => Der.writer_writes (by decide) _
  tag := fun _ => Der.writer_writes (by decide) _
  zero := Der.writer_writes (by decide) _
  names := fun _ => Der.writer_writes (by decide) _
  bitstring := fun _ => Der.writer_writes (by decide) _
  algorithm := fun _ => Der.writer_writes (by decide) _
  sha256 := fun _ _ hashed => (Option.some.inj hashed).symm

def calls : KeyCalls where
  getKey capacity := if spki.length ≤ capacity then some (spki, 256) else none
  contextInit _ _ := true
  signDigest _ _ _ := some sig

def verifies : Algorithm → Bytes → Bytes → Bytes → Bool := fun algorithm _ _ found =>
  algorithm = .ecdsaSha256 ∧ found = sig

def stack : Stack := { cri := Vector.replicate _ 0, buf := Vector.replicate _ 0 }

theorem genuine (key : EcKey) : Genuine calls verifies (SeKey.ec key).algorithm spki where
  encoded := ⟨spki.drop 2, by decide +kernel⟩
  exported := by
    intro capacity found got
    change (if spki.length ≤ capacity then some (spki, 256) else none) = some found at got
    rw [Option.ite_none_right_eq_some] at got
    rw [← Option.some.inj got.2]
  signs := by
    intro digest capacity found signed
    exact decide_eq_true ⟨rfl, (Option.some.inj signed).symm⟩

theorem named : mbedtls.stringToNames (ascii "CN=etlx") = some commonName := by
  change (if ascii "CN=etlx" = ascii "CN=etlx" then some commonName else none) = some commonName
  exact if_pos rfl

theorem exports : exportKey calls = .ok spki := by
  have short : spki.length ≤ spkiCapacity := by decide +kernel
  have got : (if spki.length ≤ spkiCapacity then some (spki, 256) else none) =
      some (spki, 256) := if_pos short
  rw [exportKey]
  change (match if spki.length ≤ spkiCapacity then some (spki, 256) else none with
    | none => seFail .keyFailed "sss_key_store_get_key(SPKI) failed"
    | some (found, _) => .ok found) = Except.ok spki
  rw [got]

theorem steps : Made mbedtls id
    (signWith calls .ecdsaSha256 sigCapacity) EcKey.signatureOid (ascii "CN=etlx") spki commonName
    (Sha2.digest (info commonName spki)) sig
    (request (info commonName spki) EcKey.signatureOid sig)
    (pem ++ [0]) where
  named := named
  infoFits := by decide +kernel
  hashed := rfl
  signed := rfl
  isRequest := rfl
  csrFits := by decide +kernel
  encoded := rfl

theorem makes : (SeKey.ec { curve := .p256 }).makeCsr mbedtls stack calls (ascii "CN=etlx") =
    .ok ((pem ++ [0]).takeWhile (fun byte => byte ≠ 0)) := by
  rw [SeKey.makeCsr, EcKey.makeCsr, EcKey.publicKeyDer, makeCsr_iff documented]
  exact ⟨spki, commonName, _, sig, _, pem ++ [0], exports, steps, rfl⟩

end Csr.P256

theorem p256_csr_accepted :
    ∃ names csr text, Csr.P256.mbedtls.stringToNames (ascii "CN=etlx") = some names ∧
      Csr.P256.mbedtls.pemWriteBuffer Csr.pemBegin Csr.pemEnd csr csrPemCapacity = (0, text) ∧
      (Csr.P256.pem ++ [0]).takeWhile (fun byte => byte ≠ 0) =
        text.takeWhile (fun byte => byte ≠ 0) ∧
      Csr.accepts Csr.P256.verifies csr = some (id names, Csr.P256.spki) :=
  csr_accepted Csr.P256.documented (.ec { curve := .p256 }) (Csr.P256.genuine _) Csr.P256.stack
    Csr.P256.makes

end Etlx.Se
