/-
Which RSA keys of the element can be used.

A public key is exported into a buffer of 512 bytes, and a handle that is opened on a
key learns the size of the modulus from that export. The key of 2048 bits fits; the
encoding of one of 4096 bits has more bytes than its modulus alone, which are 512. Such
a key is generated and signs through the handle that generated it, but it is never
exported or certified, and a handle that is opened later offers too small a buffer.
-/

import Etlx.Se.Csr
import Etlx.Se.FactoryProvision
import Etlx.Se.FactoryRuns

namespace Etlx.Se

open Der (digits lengthBytes tlv)
open Factory (RsaBits)

def Factory.RsaBits.value : RsaBits → Nat
  | .k2048 => 2048
  | .k4096 => 4096

/-! ### Handles -/

namespace RsaKey

/-- `Open`, with whether there is a handle for the id. The size stays 2048 unless the public key
can be exported. -/
def openKey (handle : Bool) (calls : KeyCalls) : Result RsaKey :=
  if handle = false then seFail .keyFailed "sss_key_object_get_handle failed"
  else
    match calls.getKey spkiCapacity with
    | some (_, bits) => if 0 < bits then .ok { bits := bits } else .ok { bits := 2048 }
    | none => .ok { bits := 2048 }

def generated (bits : RsaBits) : RsaKey := { bits := bits.value }

end RsaKey

namespace EcKey

def openKey (handle : Bool) (calls : KeyCalls) : Result EcKey :=
  if handle = false then seFail .keyFailed "sss_key_object_get_handle failed"
  else
    match calls.getKey spkiCapacity with
    | some (_, bits) =>
        if 521 ≤ bits then .ok { curve := .p521 }
        else if 384 ≤ bits then .ok { curve := .p384 }
        else .ok { curve := .p256 }
    | none => .ok { curve := .p256 }

end EcKey

def EcCurve.value : EcCurve → Nat
  | .p256 => 256
  | .p384 => 384
  | .p521 => 521

/-! ### The encoding of a key -/

/-- The contents of a positive INTEGER, which begin with a bit that is not set. -/
def unsigned (n : Nat) : Bytes :=
  match digits n with
  | [] => [0]
  | first :: rest => if first < 128 then first :: rest else 0 :: first :: rest

def rsaEncryption : Bytes := [0x2a, 0x86, 0x48, 0x86, 0xf7, 0x0d, 0x01, 0x01, 0x01]

def rsaSpki (modulus exponent : Nat) : Bytes :=
  tlv 0x30 (tlv 0x30 (tlv 0x06 rsaEncryption ++ [0x05, 0x00]) ++
    tlv 0x03 (0 :: tlv 0x30 (tlv 0x02 (unsigned modulus) ++ tlv 0x02 (unsigned exponent))))

/-- An element that holds an RSA key: what it exports is the key, if there is room, and its
signatures are as long as the modulus. -/
structure HoldsRsa (calls : KeyCalls) (bits : RsaBits) (modulus exponent : Nat) : Prop where
  high : 2 ^ (bits.value - 1) ≤ modulus
  low : modulus < 2 ^ bits.value
  small : exponent < 2 ^ 32
  exports : ∀ capacity, calls.getKey capacity =
    if (rsaSpki modulus exponent).length ≤ capacity then
      some (rsaSpki modulus exponent, bits.value)
    else none
  starts : calls.contextInit .rsassaPkcs1V15Sha256 .sign = true
  signs : ∀ digest capacity,
    (calls.signDigest .rsassaPkcs1V15Sha256 digest capacity).isSome =
      decide (bits.value / 8 ≤ capacity)

theorem length_tlv (tag : UInt8) (content : Bytes) :
    (tlv tag content).length = 1 + (lengthBytes content.length).length + content.length := by
  rw [tlv, List.cons_append, List.length_cons, List.length_append]
  omega

theorem length_tlv_le (tag : UInt8) (content : Bytes) (small : content.length < 65536) :
    (tlv tag content).length ≤ content.length + 4 := by
  have few : (lengthBytes content.length).length ≤ 3 := by
    unfold lengthBytes
    split
    · exact (by decide : 1 ≤ 3)
    · have two : (digits content.length).length ≤ 2 := Der.digits_length_le small
      rw [List.length_cons]
      omega
  rw [length_tlv]
  omega

theorem length_unsigned (n : Nat) :
    (digits n).length ≤ (unsigned n).length ∧ (unsigned n).length ≤ (digits n).length + 1 := by
  unfold unsigned
  split
  · next empty => rw [empty]; exact ⟨Nat.zero_le _, Nat.le_refl _⟩
  · next first rest some =>
      rw [some]
      split
      · exact ⟨Nat.le_refl _, Nat.le_succ _⟩
      · exact ⟨Nat.le_succ _, Nat.le_refl _⟩

theorem pow_bytes (count : Nat) : 2 ^ (8 * count) = 256 ^ count := Nat.pow_mul 2 8 count

theorem digits_of_bits {n bits count : Nat} (high : 2 ^ bits ≤ n) (whole : 8 * count ≤ bits) :
    count < (digits n).length := by
  have power := Nat.pow_le_pow_right (Nat.succ_pos 1) whole
  rw [pow_bytes] at power
  rw [digits, List.length_reverse, List.length_map]
  exact (Nat.lt_digits_length_iff (by decide) n).mpr (Nat.le_trans power high)

theorem digits_of_few_bits {n bits count : Nat} (low : n < 2 ^ bits) (few : bits ≤ 8 * count) :
    (digits n).length ≤ count := by
  have power := Nat.pow_le_pow_right (Nat.succ_pos 1) few
  rw [pow_bytes] at power
  exact Der.digits_length_le (Nat.lt_of_lt_of_le low power)

theorem rsaSpki_fits {bits modulus exponent : Nat} (few : bits ≤ 8 * 256) (low : modulus < 2 ^ bits)
    (small : exponent < 2 ^ 32) : (rsaSpki modulus exponent).length ≤ spkiCapacity := by
  have modulusDigits : (digits modulus).length ≤ 256 := digits_of_few_bits low few
  have exponentDigits : (digits exponent).length ≤ 4 :=
    digits_of_few_bits small (by decide)
  have modulusLength := (length_unsigned modulus).2
  have exponentLength := (length_unsigned exponent).2
  have modulusText := length_tlv_le 0x02 (unsigned modulus) (by omega)
  have exponentText := length_tlv_le 0x02 (unsigned exponent) (by omega)
  have pairLength : (tlv 0x02 (unsigned modulus) ++ tlv 0x02 (unsigned exponent)).length ≤ 270 := by
    rw [List.length_append]
    omega
  have pairText := length_tlv_le 0x30 (tlv 0x02 (unsigned modulus) ++ tlv 0x02 (unsigned exponent))
    (by omega)
  have keyText := length_tlv_le 0x03
    (0 :: tlv 0x30 (tlv 0x02 (unsigned modulus) ++ tlv 0x02 (unsigned exponent)))
    (by rw [List.length_cons]; omega)
  rw [List.length_cons] at keyText
  have algorithmText : (tlv 0x30 (tlv 0x06 rsaEncryption ++ [0x05, 0x00])).length = 15 := by
    decide +kernel
  have contentLength : (tlv 0x30 (tlv 0x06 rsaEncryption ++ [0x05, 0x00]) ++
      tlv 0x03 (0 :: tlv 0x30 (tlv 0x02 (unsigned modulus) ++
        tlv 0x02 (unsigned exponent)))).length ≤ 294 := by
    rw [List.length_append]
    omega
  have whole := length_tlv_le 0x30 _ (Nat.lt_of_le_of_lt contentLength (by decide : 294 < 65536))
  unfold rsaSpki spkiCapacity
  omega

theorem rsaSpki_too_long {bits modulus : Nat} (whole : 8 * 511 ≤ bits) (high : 2 ^ bits ≤ modulus)
    (exponent : Nat) : spkiCapacity < (rsaSpki modulus exponent).length := by
  have modulusDigits : 511 < (digits modulus).length := digits_of_bits high whole
  have modulusLength := (length_unsigned modulus).1
  have modulusText := Der.length_le_tlv 0x02 (unsigned modulus)
  have pairText := Der.length_le_tlv 0x30
    (tlv 0x02 (unsigned modulus) ++ tlv 0x02 (unsigned exponent))
  have keyText := Der.length_le_tlv 0x03
    (0 :: tlv 0x30 (tlv 0x02 (unsigned modulus) ++ tlv 0x02 (unsigned exponent)))
  have whole := Der.length_le_tlv 0x30 (tlv 0x30 (tlv 0x06 rsaEncryption ++ [0x05, 0x00]) ++
    tlv 0x03 (0 :: tlv 0x30 (tlv 0x02 (unsigned modulus) ++ tlv 0x02 (unsigned exponent))))
  rw [List.length_append] at pairText whole
  rw [List.length_cons] at keyText
  unfold rsaSpki spkiCapacity
  omega

section

variable {calls : KeyCalls} {bits : RsaBits} {modulus exponent : Nat}

theorem HoldsRsa.fits_iff (holds : HoldsRsa calls bits modulus exponent) :
    (rsaSpki modulus exponent).length ≤ spkiCapacity ↔ bits = .k2048 := by
  cases bits with
  | k2048 =>
      have few : RsaBits.k2048.value ≤ 8 * 256 := by decide
      exact iff_of_true (rsaSpki_fits few holds.low holds.small) rfl
  | k4096 =>
      have whole : 8 * 511 ≤ RsaBits.k4096.value - 1 := by decide
      exact iff_of_false (Nat.not_le.mpr (rsaSpki_too_long whole holds.high exponent)) nofun

theorem HoldsRsa.getKey (holds : HoldsRsa calls bits modulus exponent) :
    calls.getKey spkiCapacity =
      if bits = .k2048 then some (rsaSpki modulus exponent, 2048) else none := by
  rw [holds.exports]
  by_cases small : bits = .k2048
  · rw [if_pos small, if_pos (holds.fits_iff.mpr small), small]
    rfl
  · rw [if_neg small, if_neg (fun fits => small (holds.fits_iff.mp fits))]

theorem HoldsRsa.publicKeyDer (holds : HoldsRsa calls bits modulus exponent) :
    RsaKey.publicKeyDer calls =
      if bits = .k2048 then .ok (rsaSpki modulus exponent)
      else seFail .keyFailed "sss_key_store_get_key(SPKI) failed" := by
  rw [RsaKey.publicKeyDer, exportKey, holds.getKey]
  by_cases small : bits = .k2048
  · rw [if_pos small, if_pos small]
  · rw [if_neg small, if_neg small]

/-- A handle that is opened on the key takes it for the small one. -/
theorem HoldsRsa.opened (holds : HoldsRsa calls bits modulus exponent) :
    RsaKey.openKey true calls = .ok { bits := 2048 } := by
  rw [RsaKey.openKey, if_neg (by decide), holds.getKey]
  cases bits <;> rfl

theorem HoldsRsa.signs_iff (holds : HoldsRsa calls bits modulus exponent) (key : RsaKey)
    (digest : Bytes) :
    (∃ sig, key.sign calls digest = .ok sig) ↔ bits.value / 8 ≤ key.modulusBytes := by
  have signs := holds.signs digest key.modulusBytes
  rw [RsaKey.sign, signWith, if_neg (by rw [holds.starts]; decide)]
  cases found : calls.signDigest .rsassaPkcs1V15Sha256 digest key.modulusBytes with
  | none =>
      rw [found] at signs
      refine iff_of_false ?_ (of_decide_eq_false signs.symm)
      rintro ⟨sig, signed⟩
      exact Csr.seFail_ne_ok signed
  | some sig =>
      rw [found] at signs
      exact iff_of_true ⟨sig, rfl⟩ (of_decide_eq_true signs.symm)

theorem HoldsRsa.no_csr {Names : Type} (holds : HoldsRsa calls .k4096 modulus exponent)
    (m : Mbedtls Names) (stack : Csr.Stack) (key : RsaKey) (subjectDn : Bytes) :
    key.makeCsr m stack calls subjectDn =
      seFail .keyFailed "sss_key_store_get_key(SPKI) failed" := by
  rw [RsaKey.makeCsr, holds.publicKeyDer]
  rfl

/-- A key of either size signs through the handle that generated it. The small one is also
exported, and signs through a handle that is opened later; the large one never does either, and
no request is made for it. -/
theorem rsa_key_usable_iff (holds : HoldsRsa calls bits modulus exponent) :
    (∀ digest, ∃ sig, (RsaKey.generated bits).sign calls digest = .ok sig) ∧
    ((∃ spki, RsaKey.publicKeyDer calls = .ok spki) ↔ bits = .k2048) ∧
    (∃ key, RsaKey.openKey true calls = .ok key ∧
      ∀ digest, (∃ sig, key.sign calls digest = .ok sig) ↔ bits = .k2048) ∧
    (bits = .k4096 → ∀ {Names : Type} (m : Mbedtls Names) stack (key : RsaKey) subjectDn pem,
      key.makeCsr m stack calls subjectDn ≠ .ok pem) := by
  refine ⟨?_, ?_, ⟨_, holds.opened, ?_⟩, ?_⟩
  · intro digest
    exact (holds.signs_iff _ digest).mpr (Nat.le_refl _)
  · rw [holds.publicKeyDer]
    by_cases small : bits = .k2048
    · rw [if_pos small]
      exact iff_of_true ⟨_, rfl⟩ small
    · rw [if_neg small]
      exact iff_of_false (fun ⟨_, exported⟩ => Csr.seFail_ne_ok exported) small
  · intro digest
    rw [holds.signs_iff]
    cases bits with
    | k2048 => exact iff_of_true (by decide) rfl
    | k4096 => exact iff_of_false (by decide) nofun
  · rintro rfl Names m stack key subjectDn pem made
    rw [holds.no_csr] at made
    exact Csr.seFail_ne_ok made

end

theorem EcKey.openKey_curve {calls : KeyCalls} {curve : EcCurve} {spki : Bytes}
    (short : spki.length ≤ spkiCapacity)
    (exports : ∀ capacity, calls.getKey capacity =
      if spki.length ≤ capacity then some (spki, curve.value) else none) :
    EcKey.openKey true calls = .ok { curve := curve } := by
  rw [EcKey.openKey, if_neg (by decide), exports, if_pos short]
  cases curve <;> rfl

def smallest (bits : RsaBits) : Nat := 2 ^ (bits.value - 1)

def smallestModulus (bits : RsaBits) : KeyCalls where
  getKey capacity :=
    if (rsaSpki (smallest bits) 65537).length ≤ capacity then
      some (rsaSpki (smallest bits) 65537, bits.value)
    else none
  contextInit _ _ := true
  signDigest _ _ capacity :=
    if bits.value / 8 ≤ capacity then some (List.replicate (bits.value / 8) 0) else none

theorem smallestModulus_holds (bits : RsaBits) :
    HoldsRsa (smallestModulus bits) bits (smallest bits) 65537 where
  high := Nat.le_refl _
  low := by
    have fewer : bits.value - 1 < bits.value := by cases bits <;> decide
    exact Nat.pow_lt_pow_right (Nat.lt_succ_self 1) fewer
  small := by decide
  exports := fun _ => rfl
  starts := rfl
  signs := by
    intro digest capacity
    change (if bits.value / 8 ≤ capacity then some _ else none).isSome = _
    by_cases room : bits.value / 8 ≤ capacity
    · rw [if_pos room, decide_eq_true room]
      rfl
    · rw [if_neg room, decide_eq_false room]
      rfl

theorem rsa_key_usable_4096 :
    ¬(∃ spki, RsaKey.publicKeyDer (smallestModulus .k4096) = .ok spki) ∧
      ∃ key, RsaKey.openKey true (smallestModulus .k4096) = .ok key ∧
        ∀ digest, ¬∃ sig, key.sign (smallestModulus .k4096) digest = .ok sig := by
  obtain ⟨-, exported, ⟨key, opened, signs⟩, -⟩ :=
    rsa_key_usable_iff (smallestModulus_holds .k4096)
  exact ⟨fun exports => absurd (exported.mp exports) nofun, key, opened,
    fun digest signed => absurd ((signs digest).mp signed) nofun⟩

/-! ### `provision --bits 4096` -/

namespace Factory

theorem provisionKey_no_csr {τ : Type} {platform : Platform} {e : Error}
    (noCsr : ∀ subjectDn, platform.makeCsr subjectDn = .error e) (args : ProvisionArgs)
    (process : Process τ) :
    (provisionKey platform args process).1 = 1 ∧
      (provisionKey platform args process).2.stdout = process.stdout ∧
      (provisionKey platform args process).2.saved = process.saved ∧
      ∀ object, platform.allocatesKey = true → platform.generatesKey args.call = some object →
        (provisionKey platform args process).2.objects rsaKeyId = some object := by
  unfold provisionKey generateKey
  by_cases allocates : platform.allocatesKey = true
  · rw [if_pos allocates]
    dsimp only
    cases generates : platform.generatesKey args.call with
    | none =>
        change platform.generatesKey
          { keyId := rsaKeyId, bits := args.bits, policy := args.policy.policy } = none at generates
        rw [generates]
        exact ⟨rfl, rfl, rfl, fun object _ impossible => absurd impossible nofun⟩
    | some made =>
        change platform.generatesKey
          { keyId := rsaKeyId, bits := args.bits, policy := args.policy.policy } =
            some made at generates
        rw [generates]
        dsimp only
        rw [noCsr]
        refine ⟨rfl, rfl, rfl, ?_⟩
        intro object _ same
        rw [← Option.some.inj same]
        exact Function.update_self rsaKeyId (some made) process.objects
  · rw [if_neg allocates]
    exact ⟨rfl, rfl, rfl, fun object possible => absurd possible allocates⟩

theorem cmdProvision_no_csr {τ : Type} {platform : Platform} {e : Error}
    (noCsr : ∀ subjectDn, platform.makeCsr subjectDn = .error e) {argv : List Bytes}
    {args : ProvisionArgs}
    (collects : optionLoop provisionCommand ProvisionArgs.add (.start argv) .start = .ok args)
    (process : Process τ) :
    (cmdProvision platform argv process).1 = 1 ∧
      (cmdProvision platform argv process).2.stdout = process.stdout ∧
      (cmdProvision platform argv process).2.saved = process.saved ∧
      ∀ object, platform.calls.erases = true → platform.allocatesKey = true →
        platform.generatesKey args.call = some object →
        (cmdProvision platform argv process).2.objects rsaKeyId = some object := by
  unfold cmdProvision
  rw [collects]
  dsimp only
  rw [objectExists_eq]
  by_cases present : (process.objects rsaKeyId).isSome = true
  · rw [if_pos present, erase_present present]
    by_cases erases : platform.calls.erases = true
    · rw [if_pos erases]
      obtain ⟨status, stdout, saved, objects⟩ := provisionKey_no_csr noCsr args
        { process with objects := Function.update process.objects rsaKeyId none }
      exact ⟨status, stdout, saved, fun object _ => objects object⟩
    · rw [if_neg erases]
      exact ⟨rfl, rfl, rfl, fun object possible => absurd possible erases⟩
  · rw [if_neg present]
    obtain ⟨status, stdout, saved, objects⟩ := provisionKey_no_csr noCsr args process
    exact ⟨status, stdout, saved, fun object _ => objects object⟩

/-- A run of the tool that provisions with a key of 4096 bits exits with 1, whether it gets a
connection or not. -/
theorem main_provision_4096 {τ Names : Type} (platform : Platform) (out : Io.Writer τ)
    (m : Mbedtls Names) (stack : Csr.Stack) {argv rest : List Bytes}
    (runs : invoked argv = some (ascii "provision", rest)) {args : ProvisionArgs}
    (collects : optionLoop provisionCommand ProvisionArgs.add (.start rest) .start = .ok args)
    (large : args.bits = .k4096) {calls : KeyCalls} {modulus exponent : Nat}
    (holds : HoldsRsa calls args.bits modulus exponent)
    (makes : ∀ subjectDn, platform.makeCsr subjectDn =
      (RsaKey.generated args.bits).makeCsr m stack calls subjectDn)
    (process : Process τ) :
    (main platform out argv process).1 = 1 ∧
      (main platform out argv process).2.stdout = process.stdout ∧
      (main platform out argv process).2.saved = process.saved := by
  rw [large] at holds makes
  have named : app.findCommand (ascii "provision") = some provisionCommand := rfl
  obtain ⟨opens, whole⟩ := main_invoked platform out runs (by decide) named process
  rw [whole]
  cases connectionOpen platform.middleware defaultScp03Keys with
  | error e => exact ⟨rfl, rfl, rfl⟩
  | ok session =>
      obtain ⟨status, stdout, saved, -⟩ := cmdProvision_no_csr
        (fun subjectDn => (makes subjectDn).trans (holds.no_csr m stack _ subjectDn)) collects
        { process with opens := opens }
      exact ⟨status, stdout, saved⟩

/-- `provision` with a key of 4096 bits never succeeds and prints no request; if the element does
what it is asked for, the key that was there is gone and the new one is in its place. -/
theorem provision_4096_fails {τ Names : Type} (platform : Platform) (m : Mbedtls Names)
    (stack : Csr.Stack) {argv : List Bytes} {args : ProvisionArgs}
    (collects : optionLoop provisionCommand ProvisionArgs.add (.start argv) .start = .ok args)
    (large : args.bits = .k4096) {calls : KeyCalls} {modulus exponent : Nat}
    (holds : HoldsRsa calls args.bits modulus exponent)
    (makes : ∀ subjectDn, platform.makeCsr subjectDn =
      (RsaKey.generated args.bits).makeCsr m stack calls subjectDn)
    (process : Process τ) :
    (cmdProvision platform argv process).1 = 1 ∧
      (cmdProvision platform argv process).2.stdout = process.stdout ∧
      (cmdProvision platform argv process).2.saved = process.saved ∧
      ∀ object, platform.calls.erases = true → platform.allocatesKey = true →
        platform.generatesKey args.call = some object →
        (cmdProvision platform argv process).2.objects rsaKeyId = some object := by
  rw [large] at holds makes
  exact cmdProvision_no_csr
    (fun subjectDn => (makes subjectDn).trans (holds.no_csr m stack _ subjectDn)) collects process

def platform4096 : Platform :=
  { workingPlatform workingHost (fun _ => none) with
    makeCsr := (RsaKey.generated .k4096).makeCsr Csr.P256.mbedtls Csr.P256.stack
      (smallestModulus .k4096) }

theorem provision_4096_fails_first :
    (cmdProvision platform4096 [ascii "--bits", ascii "4096"]
      (.start () (Function.update (fun _ => none) rsaKeyId (some [0x31])))).1 = 1 ∧
    (cmdProvision platform4096 [ascii "--bits", ascii "4096"]
      (.start () (Function.update (fun _ => none) rsaKeyId (some [0x31])))).2.objects rsaKeyId =
        some [0x30] := by
  have collects : optionLoop provisionCommand ProvisionArgs.add
      (.start [ascii "--bits", ascii "4096"]) .start =
        .ok { ProvisionArgs.start with bits := .k4096 } := by decide +kernel
  have makes : platform4096.makeCsr = (RsaKey.generated .k4096).makeCsr Csr.P256.mbedtls
      Csr.P256.stack (smallestModulus .k4096) := by
    dsimp only [platform4096]
  obtain ⟨status, -, -, objects⟩ := provision_4096_fails platform4096 Csr.P256.mbedtls
    Csr.P256.stack collects rfl (smallestModulus_holds .k4096) (fun dn => congrFun makes dn)
    (.start () (Function.update (fun _ => none) rsaKeyId (some [0x31])))
  exact ⟨status, objects [0x30] rfl rfl rfl⟩

end Factory

end Etlx.Se
