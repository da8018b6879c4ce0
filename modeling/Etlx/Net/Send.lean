/-
Sending a span over a socket.

`::send` and `mbedtls_ssl_write` take a front of what they are given, or ask to be
called again, or fail. What they answer is outside this repository, so a socket is
given the list of the answers that it gets; where the list ends inside `Send`, the
call has not returned yet.
-/

import Etlx.Core.Result
import Etlx.Lib.Push

namespace Etlx.Net

open Push (Delivers Fits Outcome Primitive Reads Verdict delivered push push_delivers)

def category : Category := { name := "net" }

inductive Code
  | none
  | resolveFailed
  | connectFailed
  | sendFailed
  | recvFailed
  | closed
  | tlsError
deriving DecidableEq, Repr

def Code.value : Code → Int
  | .none => 0
  | .resolveFailed => 1
  | .connectFailed => 2
  | .sendFailed => 3
  | .recvFailed => 4
  | .closed => 5
  | .tlsError => 6

def sendFailed (message : String) : Error :=
  { category := category, code := Code.sendFailed.value, message := message }

namespace PosixTcpSocket

def eintr : Int := 4

structure SendAnswer where
  n : Int
  errno : Int
deriving DecidableEq, Repr

def SendAnswer.interrupted (answer : SendAnswer) : Prop := answer.n < 0 ∧ answer.errno = eintr

/-- What the kernel's answer means: a positive count is what it took, and -1 is an error unless
`errno` says that the call was interrupted. -/
def kernel (error : Int → Error) : Primitive SendAnswer Error where
  accepts answer := answer.n.toNat
  again answer := answer.interrupted
  error answer := if answer.n < 0 ∧ answer.errno ≠ eintr then some (error answer.errno) else none
  rests _ interrupted := Int.toNat_of_nonpos (Int.le_of_lt interrupted.1)

def verdict (strerror : Int → Bytes) (answer : SendAnswer) : Verdict Error :=
  if answer.n < 0 then
    if answer.errno = eintr then .again
    else .failed (sendFailed (messageOf (strerror answer.errno)))
  else .taken answer.n.toNat

def send (strerror : Int → Bytes) (src : Bytes) (answers : List SendAnswer) :
    Outcome UInt8 SendAnswer Error :=
  push (verdict strerror) src 0 answers

def primitive (strerror : Int → Bytes) : Primitive SendAnswer Error :=
  kernel (fun errno => sendFailed (messageOf (strerror errno)))

theorem kernel_reads {error : Int → Error} {verdict : SendAnswer → Verdict Error}
    (negative : ∀ answer, answer.n < 0 → verdict answer =
      if answer.errno = eintr then .again else .failed (error answer.errno))
    (counted : ∀ answer, ¬answer.n < 0 → verdict answer = .taken answer.n.toNat) :
    Reads verdict (kernel error) := by
  have rests : ∀ answer : SendAnswer, answer.n < 0 → answer.n.toNat = 0 :=
    fun _ below => Int.toNat_of_nonpos (Int.le_of_lt below)
  constructor
  · intro answer count taken
    by_cases below : answer.n < 0
    · rw [negative answer below] at taken
      split at taken
      · cases taken
      · cases taken
    · rw [counted answer below] at taken
      exact ⟨Verdict.taken.inj taken, if_neg fun both => below both.1⟩
  · intro answer again
    by_cases below : answer.n < 0
    · rw [negative answer below] at again
      split at again
      · next interrupted => exact ⟨rests answer below, if_neg fun both => both.2 interrupted⟩
      · cases again
    · rw [counted answer below] at again
      cases again
  · intro answer e failed
    by_cases below : answer.n < 0
    · rw [negative answer below] at failed
      split at failed
      · cases failed
      · next broken =>
          cases failed
          exact ⟨rests answer below, if_pos ⟨below, broken⟩⟩
    · rw [counted answer below] at failed
      cases failed

theorem verdict_reads (strerror : Int → Bytes) : Reads (verdict strerror) (primitive strerror) :=
  kernel_reads (fun _ below => if_pos below) (fun _ above => if_neg above)

end PosixTcpSocket

namespace TlsSocket

def wantRead : Int := -0x6900

def wantWrite : Int := -0x6880

def internalError : Int := -0x6C00

/-- What `mbedtls_ssl_write` returns when it is to be called again. -/
def wanted (ret : Int) : Prop := ret = wantRead ∨ ret = wantWrite

instance (ret : Int) : Decidable (wanted ret) := inferInstanceAs (Decidable (_ ∨ _))

def verdict (ret : Int) : Verdict Error :=
  if 0 < ret then .taken ret.toNat
  else if wanted ret then .again
  else .failed (sendFailed "ssl write failed")

def send (src : Bytes) (answers : List Int) : Outcome UInt8 Int Error :=
  push verdict src 0 answers

/-- `BioSend`: what the transport made of the buffer, for `mbedtls`. -/
def bioSend {ι : Type} (sent : Outcome UInt8 ι Error) (len : Nat) : Option Int :=
  sent.result.map fun status =>
    match status with
    | .error _ => internalError
    | .ok () => Int.bmod len (2 ^ 32)

/-- What an answer of `mbedtls_ssl_write` means: a positive one counts the bytes it took. -/
def primitive : Primitive Int Error where
  accepts ret := ret.toNat
  again := wanted
  error ret := if 0 < ret ∨ wanted ret then none else some (sendFailed "ssl write failed")
  rests ret again := by
    rcases again with rfl | rfl <;> rfl

theorem verdict_reads : Reads verdict primitive := by
  constructor
  · intro ret count taken
    unfold verdict at taken
    split at taken
    · next positive =>
        cases taken
        exact ⟨rfl, if_pos (.inl positive)⟩
    · split at taken
      · cases taken
      · cases taken
  · intro ret again
    unfold verdict at again
    split at again
    · cases again
    · split at again
      · next asked => exact ⟨primitive.rests ret asked, if_pos (.inr asked)⟩
      · cases again
  · intro ret e failed
    unfold verdict at failed
    split at failed
    · cases failed
    · next nothing =>
        split at failed
        · cases failed
        · next other =>
            cases failed
            exact ⟨Int.toNat_of_nonpos (Int.not_lt.mp nothing),
              if_neg fun either => either.elim nothing other⟩

end TlsSocket

/-! ### All or error -/

/-- The span goes out from its front on, each byte once, until `Send` returns; a call that is
asked for again gets the same bytes. -/
structure SendsOnce {ι : Type} (primitive : Primitive ι Error) (src : Bytes) (answers : List ι)
    (outcome : Outcome UInt8 ι Error) : Prop
    extends Delivers primitive src answers outcome where
  retries : ∀ front attempt next back, outcome.attempts = front ++ attempt :: next :: back →
    primitive.again attempt.answer → next.presented = attempt.presented

theorem push_sendsOnce {ι : Type} {verdict : ι → Verdict Error} {primitive : Primitive ι Error}
    (reads : Reads verdict primitive) (src : Bytes) (answers : List ι)
    (fits : Fits primitive src.length answers) :
    SendsOnce primitive src answers (push verdict src 0 answers) := by
  have delivers : Delivers primitive src answers (push verdict src 0 answers) :=
    push_delivers reads src answers 0 fits
  exact { delivers with retries := fun _ _ _ _ split asked => delivers.retries split asked }

/-- `Send` of either socket delivers the span exactly once, or fails behind a front of it. -/
theorem send_delivers_once (src : Bytes) :
    (∀ (strerror : Int → Bytes) (answers : List PosixTcpSocket.SendAnswer),
      Fits (PosixTcpSocket.primitive strerror) src.length answers →
      SendsOnce (PosixTcpSocket.primitive strerror) src answers
        (PosixTcpSocket.send strerror src answers)) ∧
    (∀ answers : List Int, Fits TlsSocket.primitive src.length answers →
      SendsOnce TlsSocket.primitive src answers (TlsSocket.send src answers)) := by
  constructor
  · intro strerror answers fits
    exact push_sendsOnce (PosixTcpSocket.verdict_reads strerror) src answers fits
  · intro answers fits
    exact push_sendsOnce TlsSocket.verdict_reads src answers fits

/-- Five bytes in two pieces around an interruption; and over TLS, where the connection breaks
behind the first three. -/
theorem send_delivers_once_in_pieces :
    (let answers : List PosixTcpSocket.SendAnswer := [⟨2, 0⟩, ⟨-1, PosixTcpSocket.eintr⟩, ⟨3, 0⟩]
     let sent := PosixTcpSocket.send (fun _ => ascii "Connection reset by peer") [1, 2, 3, 4, 5]
       answers
     sent.result = some (.ok ()) ∧
       delivered (PosixTcpSocket.primitive fun _ => ascii "Connection reset by peer")
         sent.attempts = [1, 2, 3, 4, 5]) ∧
    (let sent := TlsSocket.send [1, 2, 3, 4, 5]
       [3, TlsSocket.wantWrite, TlsSocket.internalError]
     sent.result = some (.error (sendFailed "ssl write failed")) ∧
       delivered TlsSocket.primitive sent.attempts <+: [1, 2, 3, 4, 5]) := by
  have plain := (send_delivers_once [1, 2, 3, 4, 5]).1
    (fun _ => ascii "Connection reset by peer")
    [⟨2, 0⟩, ⟨-1, PosixTcpSocket.eintr⟩, ⟨3, 0⟩] (by decide)
  have secured := (send_delivers_once [1, 2, 3, 4, 5]).2
    [3, TlsSocket.wantWrite, TlsSocket.internalError] (by decide)
  exact ⟨⟨rfl, plain.whole rfl⟩, rfl, secured.begins⟩

theorem TlsSocket.bioSend_all_or_error {ι : Type} {primitive : Primitive ι Error}
    {buf : Bytes} {answers : List ι} {sent : Outcome UInt8 ι Error}
    (sends : SendsOnce primitive buf answers sent) (small : buf.length < 2 ^ 31)
    {ret : Int} (returned : bioSend sent buf.length = some ret) :
    (ret = buf.length ∧ delivered primitive sent.attempts = buf) ∨
      (ret = internalError ∧ delivered primitive sent.attempts <+: buf) := by
  obtain ⟨status, result, same⟩ := Option.map_eq_some_iff.mp returned
  cases status with
  | error e => exact .inr ⟨same.symm, sends.begins⟩
  | ok done =>
      have cast : Int.bmod buf.length (2 ^ 32) = buf.length :=
        Int.bmod_eq_of_le (by omega) (by omega)
      exact .inl ⟨same.symm.trans cast, sends.whole result⟩

end Etlx.Net
