/-
The socket transport of the secure element.

The functions of `smComSocket_fd.c` send a command in a frame and read the frame of the
answer. The socket moves what it likes at a time, fails or is interrupted, and a terminal
behind it takes the frames it gets one after another. What `sm_apdu.h` and its neighbours
define comes from outside and is collected in `Config`.
-/

import Etlx.Core.Result
import Etlx.Lib.Duplex
import Etlx.Lib.Framing
import Etlx.Lib.Machine

namespace Etlx.Se.SmComSocket

open Duplex (piece)
open Framing (Format)

/-- `REMOTE_JC_SHELL_HEADER_LEN` bytes, of which the last two are the length of what follows. -/
def rjctFrame : Format UInt8 where
  header := 4
  rest := fun header => (header.getD 2 0).toNat * 256 + (header.getD 3 0).toNat
  positive := by decide

structure Config where
  maxBufSize : Nat
  mtyClose : UInt8
  mtyWaitForCard : UInt8
  mytDefaultNad : UInt8
  roomy : 8 ≤ maxBufSize
  lengthFits : maxBufSize < 65536

inductive Status
  | ok
  | sndFailed
  | rcvFailed
  | comFailed
deriving DecidableEq, Repr

structure Apdu where
  pBuf : Bytes
  buflen : Nat
  rxlen : Nat
  offset : Nat
deriving DecidableEq, Repr

/-- A call of one of the functions; an APDU to send lies in its buffer. -/
inductive Command
  | getAtr (atrLen : Nat)
  | transceive (pApdu : Apdu) (held : pApdu.buflen ≤ pApdu.pBuf.length)
  | transceiveRaw (pTx : Bytes) (pRxLen : Nat)
  | close
deriving DecidableEq, Repr

/-- What a call returns. `GetATRFD` may leave `atrLen` as it was, and a read of the channel that
failed is not told from one that did not by its return value. -/
inductive Reply
  | atr (retval : UInt32) (pAtr : Option Bytes)
  | transceived (rv : Status) (pApdu : Apdu)
  | transceivedRaw (rv : Status) (pRx : Bytes)
  | closed (failure : Option Status)
deriving DecidableEq, Repr

/-- What a call of the socket comes to; the end is seen once nothing is left. -/
inductive Event
  | moves (more : Nat)
  | ended
  | fails (errno : Int)
deriving DecidableEq, Repr

def eintr : Int := 4

/-! ### One call -/

section

variable (config : Config)

def apduFrame (data : Bytes) : Bytes :=
  [0x01, 0x00, UInt8.ofNat (data.length / 256), UInt8.ofNat (data.length % 256)] ++ data

def Command.frame : Command → Bytes
  | .getAtr _ => [config.mtyWaitForCard, config.mytDefaultNad, 0, 4, 0, 0, 1, 0]
  | .transceive pApdu _ => apduFrame (pApdu.pBuf.take pApdu.buflen)
  | .transceiveRaw pTx _ => apduFrame pTx
  | .close => [config.mtyClose, config.mytDefaultNad, 0, 0]

def Command.oversized : Command → Option Reply
  | .transceive pApdu _ =>
      if pApdu.buflen ≤ config.maxBufSize - 4 then none else some (.transceived .sndFailed pApdu)
  | .transceiveRaw pTx _ =>
      if pTx.length ≤ config.maxBufSize - 4 then none else some (.transceivedRaw .comFailed [])
  | _ => none

def Apdu.sent (pApdu : Apdu) : Apdu := { pApdu with buflen := pApdu.buflen + 4 }

/-- After a `send` that failed. `CloseFD` does not close the descriptor then. -/
def Command.unsent : Command → Reply
  | .getAtr _ => .atr 0xFFFFFFFF none
  | .transceive pApdu _ => .transceived .sndFailed pApdu.sent
  | .transceiveRaw _ _ => .transceivedRaw .sndFailed []
  | .close => .closed (some .sndFailed)

def Command.broken : Command → Reply
  | .getAtr _ => .atr 0 none
  | .transceive pApdu _ => .transceived .rcvFailed pApdu.sent
  | .transceiveRaw _ _ => .transceivedRaw .rcvFailed []
  | .close => .closed (some .rcvFailed)

structure Loop where
  pRsp : Bytes
  expectedLength : Nat
  lengthReceived : Bool
deriving DecidableEq, Repr

def Loop.start : Loop := { pRsp := [], expectedLength := 4, lengthReceived := false }

def Loop.read (loop : Loop) (bytes : Bytes) : Loop :=
  let pRsp := loop.pRsp ++ bytes
  if 4 ≤ pRsp.length ∧ loop.lengthReceived = false then
    { pRsp := pRsp
      expectedLength := loop.expectedLength + rjctFrame.rest pRsp
      lengthReceived := true }
  else { loop with pRsp := pRsp }

/-- How much is read at the end of `pRsp`, unless the loop is left instead. `GetATRFD` asks for the
whole frame every time. -/
def Command.maxCommLength (loop : Loop) : Command → Option Nat
  | .getAtr _ =>
      if config.maxBufSize - loop.pRsp.length < loop.expectedLength then none
      else some loop.expectedLength
  | .close =>
      let maxCommLength :=
        if loop.lengthReceived = false then 4 - loop.pRsp.length
        else loop.expectedLength - loop.pRsp.length
      if config.maxBufSize - loop.pRsp.length < maxCommLength then none else some maxCommLength
  | _ => some (config.maxBufSize - loop.pRsp.length)

def Command.received (pRsp : Bytes) : Command → Reply
  | .getAtr atrLen =>
      if atrLen < pRsp.length - 4 ∨ config.maxBufSize - 4 < pRsp.length - 4 then .atr 0 (some [])
      else .atr 0 (some (pRsp.drop 4))
  | .transceive pApdu _ =>
      if pRsp.length - 4 ≤ pApdu.rxlen ∧ pRsp.length - 4 ≤ config.maxBufSize - 4 then
        .transceived .ok
          { pBuf := pRsp.drop 4 ++ pApdu.pBuf.drop (pRsp.length - 4)
            buflen := pApdu.buflen + 4
            rxlen := pRsp.length - 4
            offset := 0 }
      else .transceived .sndFailed pApdu.sent
  | .transceiveRaw _ pRxLen =>
      if pRsp.length - 4 ≤ pRxLen ∧ pRsp.length - 4 ≤ config.maxBufSize - 4 then
        .transceivedRaw .ok (pRsp.drop 4)
      else .transceivedRaw .comFailed []
  | .close => .closed none

end

/-! ### The transport and the terminal -/

inductive Phase
  | idle
  | sending (command : Command)
  | receiving (command : Command) (loop : Loop)
deriving DecidableEq, Repr

structure World (τ : Type) where
  phase : Phase
  isOpen : Bool
  errno : Int
  pending : Bytes
  terminal : τ
  incoming : Bytes
  log : List (Command × Reply)

namespace World

variable {τ : Type} (config : Config) (handle : τ → Bytes → Bytes × τ)

def opened (terminal : τ) : World τ :=
  { phase := .idle, isOpen := true, errno := 0, pending := [], terminal := terminal
    incoming := [], log := [] }

def returns (world : World τ) (command : Command) (reply : Reply) : World τ :=
  { world with phase := .idle, log := world.log ++ [(command, reply)] }

def call (world : World τ) (command : Command) (errno : Int) : World τ :=
  match world.phase with
  | .idle =>
      match command.oversized config with
      | some reply => world.returns command reply
      | none => { world with phase := .sending command, errno := errno }
  | _ => world

def handles (world : World τ) (frame : Bytes) : World τ :=
  { world with
    terminal := (handle world.terminal frame).2
    incoming := world.incoming ++ (handle world.terminal frame).1 }

def delivers (world : World τ) (bytes : Bytes) : World τ :=
  { (rjctFrame.split (world.pending ++ bytes)).1.foldl (handles handle) world with
    pending := (rjctFrame.split (world.pending ++ bytes)).2 }

def proceeds (world : World τ) (command : Command) (loop : Loop) : World τ :=
  if loop.pRsp.length < loop.expectedLength then
    match command.maxCommLength config loop, command with
    | none, .getAtr atrLen => world.returns (.getAtr atrLen) (.atr 0 (some []))
    | none, command => { world with isOpen := false }.returns command command.broken
    | some _, command => { world with phase := .receiving command loop }
  else if command = .close then
    { world with isOpen := false }.returns command (command.received config loop.pRsp)
  else world.returns command (command.received config loop.pRsp)

/-- `send` is called once; what it leaves is not sent. -/
def sends (world : World τ) (command : Command) (event : Event) : World τ :=
  if world.isOpen = false then world.returns command command.unsent
  else
    match event with
    | .moves more =>
        (world.delivers handle
          ((command.frame config).take (piece more (command.frame config).length))).proceeds
          config command .start
    | .ended => world
    | .fails errno => { world with errno := errno }.returns command command.unsent

/-- `retval <= 0`. At the end of the stream `errno` is that of an earlier failure. -/
def readsNothing (world : World τ) (command : Command) : World τ :=
  if world.errno = eintr then world
  else { world with isOpen := false }.returns command command.broken

/-- `recv` waits while there is nothing. -/
def receives (world : World τ) (command : Command) (loop : Loop) (event : Event) : World τ :=
  match command.maxCommLength config loop, event with
  | none, _ => world
  | some maxCommLength, .moves more =>
      let count := piece more (min maxCommLength world.incoming.length)
      if 0 < count then
        { world with incoming := world.incoming.drop count }.proceeds config command
          (loop.read (world.incoming.take count))
      else if maxCommLength = 0 then world.readsNothing command
      else world
  | some _, .ended => if world.incoming = [] then world.readsNothing command else world
  | some _, .fails errno => { world with errno := errno }.readsNothing command

end World

inductive Action
  | call (command : Command) (errno : Int)
  | event (event : Event)
deriving DecidableEq, Repr

def World.step {τ : Type} (config : Config) (handle : τ → Bytes → Bytes × τ) (world : World τ) :
    Action → Unit × World τ
  | .call command errno => ((), world.call config command errno)
  | .event event =>
      ((), match world.phase with
        | .idle => world
        | .sending command => world.sends config handle command event
        | .receiving command loop => world.receives config command loop event)

end Etlx.Se.SmComSocket
