/-
The two sockets over a connection that moves what it likes.

The kernel answers `::send` and `::recv` with a count, or with -1 and `errno`; the
record layer of `mbedtls` answers its calls with a count, or with a negative code. Both
are media of a duplex connection, and over either the socket hands out the stream of
the peer in order.
-/

import Etlx.Http.Client
import Etlx.Lib.Duplex
import Etlx.Net.Send

namespace Etlx.Net

open Duplex (Event Inlet Medium Wire)
open Push (Primitive Reads Verdict)

def recvFailed (message : String) : Error :=
  { category := category, code := Code.recvFailed.value, message := message }

/-! ### The kernel -/

namespace PosixTcpSocket

def recvVerdict (strerror : Int → Bytes) (answer : SendAnswer) : Verdict Error :=
  if answer.n < 0 then
    if answer.errno = eintr then .again
    else .failed (recvFailed (messageOf (strerror answer.errno)))
  else .taken answer.n.toNat

def counted (count : Nat) : SendAnswer := { n := count, errno := 0 }

def refused (errno : Int) : SendAnswer := { n := -1, errno := errno }

theorem verdict_counted (strerror : Int → Bytes) (count : Nat) :
    verdict strerror (counted count) = .taken count := by
  have notNegative : ¬(counted count).n < 0 := Int.not_lt.mpr (Int.natCast_nonneg count)
  rw [verdict, if_neg notNegative]
  rfl

theorem recvVerdict_counted (strerror : Int → Bytes) (count : Nat) :
    recvVerdict strerror (counted count) = .taken count := by
  have notNegative : ¬(counted count).n < 0 := Int.not_lt.mpr (Int.natCast_nonneg count)
  rw [recvVerdict, if_neg notNegative]
  rfl

theorem verdict_refused (strerror : Int → Bytes) (errno : Int) :
    verdict strerror (refused errno) =
      if errno = eintr then .again else .failed (sendFailed (messageOf (strerror errno))) := by
  have negative : (refused errno).n < 0 := by
    change (-1 : Int) < 0
    decide
  rw [verdict, if_pos negative]
  rfl

theorem recvVerdict_refused (strerror : Int → Bytes) (errno : Int) :
    recvVerdict strerror (refused errno) =
      if errno = eintr then .again else .failed (recvFailed (messageOf (strerror errno))) := by
  have negative : (refused errno).n < 0 := by
    change (-1 : Int) < 0
    decide
  rw [recvVerdict, if_pos negative]
  rfl

def outlet (strerror : Int → Bytes) : Medium Int SendAnswer Error :=
  { ofCount := counted
    refusal := refused
    primitive := primitive strerror
    verdict := verdict strerror
    reads := verdict_reads strerror
    counts := fun count _ => verdict_counted strerror count
    refuses := by
      intro errno count
      rw [verdict_refused]
      exact Duplex.refused_ne_taken _ count }

def inlet (strerror : Int → Bytes) : Inlet Int SendAnswer Error :=
  { ofCount := counted
    refusal := refused
    primitive := kernel (fun errno => recvFailed (messageOf (strerror errno)))
    verdict := recvVerdict strerror
    reads := kernel_reads (fun _ below => if_pos below) (fun _ above => if_neg above)
    counts := fun count _ => recvVerdict_counted strerror count
    refuses := by
      intro errno count
      rw [recvVerdict_refused]
      exact Duplex.refused_ne_taken _ count
    ends := recvVerdict_counted strerror 0 }

end PosixTcpSocket

/-! ### The record layer -/

namespace TlsSocket

def peerCloseNotify : Int := -0x7880

def recvVerdict (ret : Int) : Verdict Error :=
  if 0 ≤ ret then .taken ret.toNat
  else if ret = peerCloseNotify then .taken 0
  else if wanted ret then .again
  else .failed (recvFailed "ssl read failed")

/-- What an answer of `mbedtls_ssl_read` means: one that is not negative counts the bytes it
handed out, and so does the alert that ends the stream. -/
def readPrimitive : Primitive Int Error where
  accepts ret := ret.toNat
  again := wanted
  error ret :=
    if 0 ≤ ret ∨ ret = peerCloseNotify ∨ wanted ret then none
    else some (recvFailed "ssl read failed")
  rests := primitive.rests

theorem recvVerdict_reads : Reads recvVerdict readPrimitive := by
  have cases' : ∀ ret : Int,
      (0 ≤ ret ∧ recvVerdict ret = .taken ret.toNat) ∨
      (ret = peerCloseNotify ∧ recvVerdict ret = .taken 0) ∨
      (wanted ret ∧ recvVerdict ret = .again) ∨
      (¬(0 ≤ ret ∨ ret = peerCloseNotify ∨ wanted ret) ∧
        recvVerdict ret = .failed (recvFailed "ssl read failed")) := by
    intro ret
    unfold recvVerdict
    by_cases counts : 0 ≤ ret
    · exact .inl ⟨counts, if_pos counts⟩
    · rw [if_neg counts]
      by_cases ends : ret = peerCloseNotify
      · exact .inr (.inl ⟨ends, if_pos ends⟩)
      · rw [if_neg ends]
        by_cases again : wanted ret
        · exact .inr (.inr (.inl ⟨again, if_pos again⟩))
        · exact .inr (.inr (.inr
            ⟨not_or.mpr ⟨counts, not_or.mpr ⟨ends, again⟩⟩, if_neg again⟩))
  constructor
  · intro ret count taken
    rcases cases' ret with ⟨counts, made⟩ | ⟨ends, made⟩ | ⟨-, made⟩ | ⟨-, made⟩
    · rw [made] at taken
      exact ⟨Verdict.taken.inj taken, if_pos (.inl counts)⟩
    · rw [made] at taken
      have negative : ret.toNat = 0 := by rw [ends]; rfl
      exact ⟨negative.trans (Verdict.taken.inj taken), if_pos (.inr (.inl ends))⟩
    · rw [made] at taken
      cases taken
    · rw [made] at taken
      cases taken
  · intro ret again
    rcases cases' ret with ⟨-, made⟩ | ⟨-, made⟩ | ⟨asked, -⟩ | ⟨-, made⟩
    · rw [made] at again
      cases again
    · rw [made] at again
      cases again
    · exact ⟨primitive.rests ret asked, if_pos (.inr (.inr asked))⟩
    · rw [made] at again
      cases again
  · intro ret e failed
    rcases cases' ret with ⟨-, made⟩ | ⟨-, made⟩ | ⟨-, made⟩ | ⟨none, made⟩
    · rw [made] at failed
      cases failed
    · rw [made] at failed
      cases failed
    · rw [made] at failed
      cases failed
    · rw [made] at failed
      cases failed
      exact ⟨Int.toNat_of_nonpos (Int.le_of_lt (Int.not_le.mp (not_or.mp none).1)), if_neg none⟩

/-- What `mbedtls` returns for a call that moves nothing, other than at the end of the
stream. -/
structure Refusal where
  code : Int
  negative : code < 0
  notEnd : code ≠ peerCloseNotify

/-- What `mbedtls_ssl_read` returns; a peer that ends the stream may say so with an alert. -/
def counted (alert : Bool) (count : Nat) : Int :=
  if count = 0 ∧ alert then peerCloseNotify else count

theorem verdict_counted {count : Nat} (positive : 0 < count) :
    verdict count = .taken count := by
  have positive' : (0 : Int) < count := Int.natCast_pos.mpr positive
  rw [verdict, if_pos positive']
  rfl

theorem recvVerdict_counted (alert : Bool) (count : Nat) :
    recvVerdict (counted alert count) = .taken count := by
  unfold counted
  split
  · next closed =>
      rw [closed.1]
      rfl
  · rw [recvVerdict, if_pos (Int.natCast_nonneg count)]
    rfl

theorem verdict_refused (refusal : Refusal) :
    verdict refusal.code =
      if wanted refusal.code then .again else .failed (sendFailed "ssl write failed") := by
  rw [verdict, if_neg (Int.not_lt.mpr (Int.le_of_lt refusal.negative))]

theorem recvVerdict_refused (refusal : Refusal) :
    recvVerdict refusal.code =
      if wanted refusal.code then .again else .failed (recvFailed "ssl read failed") := by
  rw [recvVerdict, if_neg (Int.not_le.mpr refusal.negative), if_neg refusal.notEnd]

def outlet : Medium Refusal Int Error :=
  { ofCount := fun count => count
    refusal := Refusal.code
    primitive := primitive
    verdict := verdict
    reads := verdict_reads
    counts := fun _ positive => verdict_counted positive
    refuses := by
      intro refusal count
      rw [verdict_refused]
      exact Duplex.refused_ne_taken _ count }

def inlet (alert : Bool) : Inlet Refusal Int Error :=
  { ofCount := counted alert
    refusal := Refusal.code
    primitive := readPrimitive
    verdict := recvVerdict
    reads := recvVerdict_reads
    counts := fun count _ => recvVerdict_counted alert count
    refuses := by
      intro refusal count
      rw [recvVerdict_refused]
      exact Duplex.refused_ne_taken _ count
    ends := recvVerdict_counted alert 0 }

end TlsSocket

/-! ### A socket on a wire -/

variable {ρ κ : Type}

/-- `Send` and `Recv` over the two directions of a connection. The peer answers what it gets
from one `Send`. -/
def wireSocket (outlet : Medium ρ κ Error) (inlet : Inlet ρ κ Error) (peer : Bytes → Bytes) :
    Socket (Wire UInt8 ρ) :=
  { send := fun wire src =>
      ((wire.send outlet src).1,
        { (wire.send outlet src).2 with
          incoming := wire.incoming ++
            peer ((wire.send outlet src).2.outgoing.drop wire.outgoing.length) })
    recv :=
      { read := fun wire offered => wire.recv inlet.toMedium offered
        left := Wire.incoming
        fits := by
          intro wire offered piece read
          exact ((wire.recv_receives inlet offered).comes piece read).2.1
        delivers := by
          intro wire offered piece read
          exact ((wire.recv_receives inlet offered).comes piece read).1
        ends := by
          intro wire offered room read
          exact ((wire.recv_receives inlet offered).comes [] read).2.2 rfl room } }

def posixSocket (strerror : Int → Bytes) (peer : Bytes → Bytes) : Socket (Wire UInt8 Int) :=
  wireSocket (PosixTcpSocket.outlet strerror) (PosixTcpSocket.inlet strerror) peer

def tlsSocket (alert : Bool) (peer : Bytes → Bytes) : Socket (Wire UInt8 TlsSocket.Refusal) :=
  wireSocket TlsSocket.outlet (TlsSocket.inlet alert) peer

end Etlx.Net
