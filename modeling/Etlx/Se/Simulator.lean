/-
The simulated secure element behind a TCP socket.

The stack of the middleware writes and reads T=1 frames with the functions of
`i2c_sim.c`; `handle_connection` serves each connection in a thread of its own, and the
threads share one store of objects behind a lock. Either side moves what the sockets
let it move at a time, and any step of any side can come next.
-/

import Etlx.Core.Result
import Etlx.Lib.Duplex
import Etlx.Lib.Framing
import Etlx.Lib.Machine
import Mathlib.Logic.Function.Basic

namespace Etlx.Se.Simulator

open Duplex (piece)
open Framing (Format)

/-- The third byte of a T=1 frame is the length of its payload, and two bytes of checksum
follow the payload. -/
def t1Frame : Format UInt8 where
  header := 3
  rest := fun header => (header.getD 2 0).toNat + 2
  positive := by decide

/-! ### The client -/

/-- Where the client is in `axI2CWrite`, `axI2CRead` or `axI2CWriteRead`, which goes on to read. -/
inductive Client
  | idle
  | writing (pTx : Bytes) (total : Nat) (next : Option Nat)
  | polling (rxLen : Nat)
  | scanning (rxLen : Nat)
  | reading (got : Bytes) (rxLen : Nat)
deriving DecidableEq, Repr

inductive Reply
  | wrote (pTx : Bytes)
  | writeFailed (pTx : Bytes) (total : Nat)
  | read (rxLen : Nat) (data : Bytes)
  | readFailed (data : Bytes)
deriving DecidableEq, Repr

/-- What is in `pRx` after a read that succeeded: a scan that gets less is filled up with zeros. -/
def Reply.pRx : Reply → Bytes
  | .read rxLen data => data ++ List.replicate (rxLen - data.length) 0
  | _ => []

inductive Command
  | axI2CWrite (pTx : Bytes)
  | axI2CRead (rxLen : Nat)
  | axI2CWriteRead (pTx : Bytes) (rxLen : Nat)
deriving DecidableEq, Repr

/-! ### The server -/

inductive Thread
  | readingHeader (got : Bytes)
  | readingPayload (header got : Bytes)
  | locking (frame : Bytes)
  | writing (left : Bytes)
deriving DecidableEq, Repr

/-- The frames are handled outside this repository, each against the store. -/
structure Card (σ τ : Type) where
  new : τ
  processFrame : τ → Bytes → σ → List Bytes × τ × σ

def Thread.wants : Thread → Nat
  | .readingHeader got => 3 - got.length
  | .readingPayload header got => t1Frame.rest header - got.length
  | _ => 0

def Thread.read (thread : Thread) (bytes : Bytes) : Thread :=
  match thread with
  | .readingHeader got =>
      if (got ++ bytes).length < 3 then .readingHeader (got ++ bytes)
      else .readingPayload (got ++ bytes) []
  | .readingPayload header got =>
      if (got ++ bytes).length < t1Frame.rest header then .readingPayload header (got ++ bytes)
      else .locking (header ++ (got ++ bytes))
  | thread => thread

def Thread.write (left : Bytes) : Thread := if left = [] then .readingHeader [] else .writing left

/-- The loop over `pending_chunks`. It is left by `break` while there are chunks, and by its
condition when there are none, so it writes at most one pair. -/
def Thread.respond : List Bytes → Thread × List Bytes
  | header :: payloadCrc :: left => (Thread.write (header ++ payloadCrc), left)
  | few => (.readingHeader [], few)

/-! ### A connection -/

structure Connection (τ : Type) where
  client : Client
  replies : List Reply
  toServer : Bytes
  toClient : Bytes
  thread : Thread
  running : Bool
  t1 : τ
  pendingChunks : List Bytes

namespace Connection

variable {τ : Type}

def opened (new : τ) : Connection τ :=
  { client := .idle, replies := [], toServer := [], toClient := [], thread := .readingHeader []
    running := true, t1 := new, pendingChunks := [] }

def reply (c : Connection τ) (client : Client) (reply : Reply) : Connection τ :=
  { c with client := client, replies := c.replies ++ [reply] }

def wrote (c : Connection τ) (pTx : Bytes) : Option Nat → Connection τ
  | none => c.reply .idle (.wrote pTx)
  | some rxLen => c.reply (.polling rxLen) (.wrote pTx)

def beginWrite (c : Connection τ) (pTx : Bytes) (next : Option Nat) : Connection τ :=
  if 0 < pTx.length then { c with client := .writing pTx 0 next } else c.wrote pTx next

def call (c : Connection τ) (command : Command) : Connection τ :=
  match c.client, command with
  | .idle, .axI2CWrite pTx => c.beginWrite pTx none
  | .idle, .axI2CRead rxLen => { c with client := .polling rxLen }
  | .idle, .axI2CWriteRead pTx rxLen => c.beginWrite pTx (some rxLen)
  | _, _ => c

def clientWrites (c : Connection τ) (event : Option Nat) : Connection τ :=
  match c.client, event with
  | .writing pTx total next, some more =>
      let count := piece more (pTx.length - total)
      let c := { c with toServer := c.toServer ++ (pTx.drop total).take count }
      if total + count < pTx.length then { c with client := .writing pTx (total + count) next }
      else c.wrote pTx next
  | .writing pTx total _, none => c.reply .idle (.writeFailed pTx total)
  | _, _ => c

def polls (c : Connection τ) (ready : Bool) : Connection τ :=
  match c.client with
  | .polling rxLen =>
      if ready = false then c.reply .idle (.readFailed [])
      else if 260 ≤ rxLen then { c with client := .scanning rxLen }
      else if 0 < rxLen then { c with client := .reading [] rxLen }
      else c.reply .idle (.read rxLen [])
  | _ => c

/-- `read` hands out a piece of what has arrived, and waits while there is nothing, or it fails. -/
def clientReads (c : Connection τ) (event : Option Nat) : Connection τ :=
  match c.client, event with
  | .scanning rxLen, some more =>
      let count := piece more (min rxLen c.toClient.length)
      if count = 0 then c
      else
        { c with toClient := c.toClient.drop count }.reply .idle
          (.read rxLen (c.toClient.take count))
  | .scanning _, none => c.reply .idle (.readFailed [])
  | .reading got rxLen, some more =>
      let count := piece more (min (rxLen - got.length) c.toClient.length)
      let got := got ++ c.toClient.take count
      let c := { c with toClient := c.toClient.drop count }
      if got.length < rxLen then { c with client := .reading got rxLen }
      else c.reply .idle (.read rxLen got)
  | .reading got _, none => c.reply .idle (.readFailed got)
  | _, _ => c

/-- The thread ends with its first error. -/
def threadReads (c : Connection τ) (event : Option Nat) : Connection τ :=
  match event with
  | some more =>
      let count := piece more (min c.thread.wants c.toServer.length)
      if c.running = true ∧ 0 < count then
        { c with
          thread := c.thread.read (c.toServer.take count)
          toServer := c.toServer.drop count }
      else c
  | none => if 0 < c.thread.wants then { c with running := false } else c

def threadWrites (c : Connection τ) (event : Option Nat) : Connection τ :=
  match c.thread, event with
  | .writing left, some more =>
      if c.running = true then
        let count := piece more left.length
        { c with
          thread := Thread.write (left.drop count)
          toClient := c.toClient ++ left.take count }
      else c
  | .writing _, none => { c with running := false }
  | _, _ => c

inductive Action
  | call (command : Command)
  | clientWrites (event : Option Nat)
  | polls (ready : Bool)
  | clientReads (event : Option Nat)
  | threadReads (event : Option Nat)
  | threadWrites (event : Option Nat)
deriving DecidableEq, Repr

def step (c : Connection τ) : Action → Connection τ
  | .call command => c.call command
  | .clientWrites event => c.clientWrites event
  | .polls ready => c.polls ready
  | .clientReads event => c.clientReads event
  | .threadReads event => c.threadReads event
  | .threadWrites event => c.threadWrites event

end Connection

/-! ### The simulator -/

structure World (σ τ : Type) where
  store : σ
  connections : Nat → Connection τ
  order : List (Nat × Bytes)

inductive Action
  | link (id : Nat) (action : Connection.Action)
  | locks (id : Nat)
deriving DecidableEq, Repr

section

variable {σ τ : Type} (card : Card σ τ)

def World.start (store : σ) : World σ τ :=
  { store := store, connections := fun _ => Connection.opened card.new, order := [] }

def World.locks (world : World σ τ) (id : Nat) : World σ τ :=
  let c := world.connections id
  match c.thread, c.running with
  | .locking frame, true =>
      let (responseChunks, t1, store) := card.processFrame c.t1 frame world.store
      let (thread, left) := Thread.respond (c.pendingChunks ++ responseChunks)
      { store := store
        connections := Function.update world.connections id
          { c with thread := thread, t1 := t1, pendingChunks := left }
        order := world.order ++ [(id, frame)] }
  | _, _ => world

def World.step (world : World σ τ) : Action → Unit × World σ τ
  | .link id action =>
      ((), { world with
        connections := Function.update world.connections id ((world.connections id).step action) })
  | .locks id => ((), world.locks card id)

end

end Etlx.Se.Simulator
