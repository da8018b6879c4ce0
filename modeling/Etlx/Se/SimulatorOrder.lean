/-
The order in which the simulator handles the frames of all its clients.

However the steps of the clients and of the threads interleave, the simulator is a
sequential one: it takes whole frames one after another, those of a client in the order
in which they were written, and each frame lets out the two chunks of one response.
What a connection has moved is accounted for step by step; only the lock adds a frame.
-/

import Etlx.Se.Simulator
import Mathlib.Data.List.Induction

namespace Etlx.Se.Simulator

open Duplex (piece piece_le)
open Framing (Format)

section

variable {σ τ : Type} (card : Card σ τ)

/-! ### A simulator that takes one frame after another -/

/-- What is kept for one client: the frames that were handled, the chunks of all their responses,
and how many pairs of chunks have been let out. -/
structure Session (τ : Type) where
  t1 : τ
  frames : List Bytes
  chunks : List Bytes
  pairs : Nat

/-- Every frame lets out one pair, if there is one. -/
def Session.handled (session : Session τ) (frame : Bytes) (responseChunks : List Bytes) (t1 : τ) :
    Session τ :=
  { t1 := t1
    frames := session.frames ++ [frame]
    chunks := session.chunks ++ responseChunks
    pairs :=
      if 2 * session.pairs + 2 ≤ session.chunks.length + responseChunks.length then
        session.pairs + 1
      else session.pairs }

def Session.sent (session : Session τ) : Bytes := (session.chunks.take (2 * session.pairs)).flatten

structure Served (σ τ : Type) where
  store : σ
  sessions : Nat → Session τ

def Served.start (store : σ) : Served σ τ :=
  { store := store
    sessions := fun _ => { t1 := card.new, frames := [], chunks := [], pairs := 0 } }

def Served.process (served : Served σ τ) (entry : Nat × Bytes) : Served σ τ :=
  let session := served.sessions entry.1
  let (responseChunks, t1, store) := card.processFrame session.t1 entry.2 served.store
  { store := store
    sessions := Function.update served.sessions entry.1
      (session.handled entry.2 responseChunks t1) }

def serve (store : σ) (order : List (Nat × Bytes)) : Served σ τ :=
  order.foldl (Served.process card) (Served.start card store)

end

/-! ### What has been moved -/

def Reply.accepted : Reply → Bytes
  | .wrote pTx => pTx
  | .writeFailed pTx total => pTx.take total
  | _ => []

def Reply.taken : Reply → Bytes
  | .read _ data => data
  | .readFailed data => data
  | _ => []

def Client.accepted : Client → Bytes
  | .writing pTx total _ => pTx.take total
  | _ => []

def Client.taken : Client → Bytes
  | .reading got _ => got
  | _ => []

/-- The bytes of a frame that the thread has and has not handled. -/
def Thread.held : Thread → Bytes
  | .readingHeader got => got
  | .readingPayload header got => header ++ got
  | .locking frame => frame
  | .writing _ => []

def Thread.unsent : Thread → Bytes
  | .writing left => left
  | _ => []

def Client.Sound : Client → Prop
  | .writing pTx total _ => total < pTx.length
  | .scanning rxLen => 260 ≤ rxLen
  | .reading got rxLen => got.length < rxLen
  | _ => True

/-- A scan takes what one `read` hands out, any other read is full. -/
def Reply.Sound : Reply → Prop
  | .read rxLen data =>
      (rxLen < 260 → data.length = rxLen) ∧
        (260 ≤ rxLen → 0 < data.length ∧ data.length ≤ rxLen)
  | _ => True

def Thread.Sound : Thread → Prop
  | .readingHeader got => got.length < 3
  | .readingPayload header got => header.length = 3 ∧ got.length < t1Frame.rest header
  | .locking frame => t1Frame.Whole frame
  | .writing _ => True

theorem Thread.Sound.read {thread : Thread} (sound : thread.Sound) (bytes : Bytes)
    (positive : 0 < bytes.length) (offered : bytes.length ≤ thread.wants) :
    (thread.read bytes).Sound ∧ (thread.read bytes).held = thread.held ++ bytes ∧
      (thread.read bytes).unsent = thread.unsent := by
  cases thread with
  | readingHeader got =>
      have wanted : bytes.length ≤ 3 - got.length := offered
      by_cases more : (got ++ bytes).length < 3
      · rw [Thread.read, if_pos more]
        exact ⟨more, rfl, rfl⟩
      · have length : (got ++ bytes).length = 3 := by
          rw [List.length_append] at more ⊢
          omega
        rw [Thread.read, if_neg more]
        exact ⟨⟨length, Nat.succ_pos _⟩, List.append_nil _, rfl⟩
  | readingPayload header got =>
      have wanted : bytes.length ≤ t1Frame.rest header - got.length := offered
      obtain ⟨headed, -⟩ := sound
      by_cases more : (got ++ bytes).length < t1Frame.rest header
      · rw [Thread.read, if_pos more]
        exact ⟨⟨headed, more⟩, (List.append_assoc _ _ _).symm, rfl⟩
      · have length : (got ++ bytes).length = t1Frame.rest header := by
          rw [List.length_append] at more ⊢
          omega
        have front : (header ++ (got ++ bytes)).take 3 = header := List.take_left' headed
        have whole : t1Frame.Whole (header ++ (got ++ bytes)) := by
          rw [Format.Whole, Format.size, List.length_append, length, headed]
          change _ = 3 + t1Frame.rest ((header ++ (got ++ bytes)).take 3)
          rw [front]
        rw [Thread.read, if_neg more]
        exact ⟨whole, (List.append_assoc _ _ _).symm, rfl⟩
  | locking frame => exact absurd offered (Nat.not_le.mpr positive)
  | writing left => exact absurd offered (Nat.not_le.mpr positive)

theorem Thread.write_sound (left : Bytes) :
    (Thread.write left).Sound ∧ (Thread.write left).held = [] ∧
      (Thread.write left).unsent = left := by
  unfold Thread.write
  by_cases nothing : left = []
  · rw [if_pos nothing]
    exact ⟨Nat.succ_pos 2, rfl, nothing.symm⟩
  · rw [if_neg nothing]
    exact ⟨trivial, rfl, rfl⟩

theorem Thread.respond_sound (chunks : List Bytes) : (Thread.respond chunks).1.Sound := by
  unfold Thread.respond
  split
  · exact (Thread.write_sound _).1
  · exact Nat.succ_pos 2

theorem Thread.respond_held (chunks : List Bytes) : (Thread.respond chunks).1.held = [] := by
  unfold Thread.respond
  split
  · exact (Thread.write_sound _).2.1
  · rfl

namespace Connection

variable {τ : Type}

def written (c : Connection τ) : Bytes := c.replies.flatMap Reply.accepted ++ c.client.accepted

def heard (c : Connection τ) : Bytes := c.replies.flatMap Reply.taken ++ c.client.taken

structure Sound (c : Connection τ) : Prop where
  client : c.client.Sound
  replies : ∀ reply ∈ c.replies, reply.Sound
  thread : c.thread.Sound

/-- What a step of the connection can do: bytes that are written are on their way to the thread,
and no byte is lost or added on the way back. -/
structure Moves (c next : Connection τ) (added : Bytes) : Prop where
  sound : next.Sound
  t1 : next.t1 = c.t1
  pending : next.pendingChunks = c.pendingChunks
  written : next.written = c.written ++ added
  arrives : next.thread.held ++ next.toServer = c.thread.held ++ (c.toServer ++ added)
  back : next.heard ++ (next.toClient ++ next.thread.unsent) =
    c.heard ++ (c.toClient ++ c.thread.unsent)

theorem Moves.refl {c : Connection τ} (sound : c.Sound) : Moves c c [] where
  sound := sound
  t1 := rfl
  pending := rfl
  written := (List.append_nil _).symm
  arrives := by rw [List.append_nil]
  back := rfl

theorem reply_written (c : Connection τ) (client : Client) (reply : Reply) :
    (c.reply client reply).written =
      c.replies.flatMap Reply.accepted ++ (reply.accepted ++ client.accepted) := by
  rw [written, Connection.reply]
  dsimp only
  rw [List.flatMap_append, List.flatMap_singleton, List.append_assoc]

theorem reply_heard (c : Connection τ) (client : Client) (reply : Reply) :
    (c.reply client reply).heard =
      c.replies.flatMap Reply.taken ++ (reply.taken ++ client.taken) := by
  rw [heard, Connection.reply]
  dsimp only
  rw [List.flatMap_append, List.flatMap_singleton, List.append_assoc]

theorem Sound.reply {c : Connection τ} (sound : c.Sound) {client : Client} {reply : Reply}
    (clientSound : client.Sound) (replySound : reply.Sound) : (c.reply client reply).Sound where
  client := clientSound
  replies := by
    intro other member
    rcases List.mem_append.mp member with before | last
    · exact sound.replies other before
    · rw [List.mem_singleton.mp last]
      exact replySound
  thread := sound.thread

theorem Sound.goes {c : Connection τ} (sound : c.Sound) (client : Client) (added toClient : Bytes)
    (clientSound : client.Sound)
    (accepts : client.accepted = c.client.accepted ++ added)
    (takes : client.taken ++ toClient = c.client.taken ++ c.toClient) :
    Moves c
      { c with client := client, toServer := c.toServer ++ added, toClient := toClient } added where
  sound := ⟨clientSound, sound.replies, sound.thread⟩
  t1 := rfl
  pending := rfl
  written := by
    rw [written, written]
    dsimp only
    rw [accepts, List.append_assoc]
  arrives := rfl
  back := by
    rw [heard, heard]
    dsimp only
    rw [List.append_assoc, ← List.append_assoc client.taken, takes, List.append_assoc,
      List.append_assoc]

theorem Sound.ends {c : Connection τ} (sound : c.Sound) (client : Client) (reply : Reply)
    (added toClient : Bytes) (clientSound : client.Sound) (replySound : reply.Sound)
    (accepts : reply.accepted ++ client.accepted = c.client.accepted ++ added)
    (takes : reply.taken ++ (client.taken ++ toClient) = c.client.taken ++ c.toClient) :
    Moves c
      ({ c with toServer := c.toServer ++ added, toClient := toClient }.reply client reply)
      added where
  sound :=
    Sound.reply (c := { c with toServer := c.toServer ++ added, toClient := toClient })
      ⟨sound.client, sound.replies, sound.thread⟩ clientSound replySound
  t1 := rfl
  pending := rfl
  written := by
    rw [reply_written, written]
    dsimp only
    rw [accepts, List.append_assoc]
  arrives := rfl
  back := by
    rw [reply_heard, heard]
    change _ ++ (toClient ++ c.thread.unsent) = _
    rw [List.append_assoc, List.append_assoc, ← List.append_assoc client.taken,
      ← List.append_assoc reply.taken, takes, List.append_assoc, List.append_assoc]

theorem Sound.wrote {c : Connection τ} (sound : c.Sound) (pTx added : Bytes)
    (accepts : pTx = c.client.accepted ++ added) (taken : c.client.taken = [])
    (next : Option Nat) :
    Moves c ({ c with toServer := c.toServer ++ added }.wrote pTx next) added := by
  cases next with
  | none =>
      refine sound.ends .idle (.wrote pTx) added c.toClient trivial trivial ?_ ?_
      · exact (List.append_nil pTx).trans accepts
      · rw [taken]
        rfl
  | some rxLen =>
      refine sound.ends (.polling rxLen) (.wrote pTx) added c.toClient trivial trivial ?_ ?_
      · exact (List.append_nil pTx).trans accepts
      · rw [taken]
        rfl

theorem Sound.stops {c : Connection τ} (sound : c.Sound) (reply : Reply) (replySound : reply.Sound)
    (accepts : reply.accepted = c.client.accepted) (takes : reply.taken = c.client.taken) :
    Moves c (c.reply .idle reply) [] := by
  have ends := sound.ends .idle reply [] c.toClient trivial replySound
    (by rw [accepts]; rfl) (by rw [takes]; rfl)
  rw [List.append_nil] at ends
  exact ends

theorem Sound.waits {c : Connection τ} (sound : c.Sound) (client : Client)
    (clientSound : client.Sound) (accepts : client.accepted = c.client.accepted)
    (takes : client.taken = c.client.taken) : Moves c { c with client := client } [] := by
  have goes := sound.goes client [] c.toClient clientSound
    (by rw [accepts, List.append_nil]) (by rw [takes])
  rw [List.append_nil] at goes
  exact goes

theorem beginWrite_moves {c : Connection τ} (sound : c.Sound) (idle : c.client = .idle)
    (pTx : Bytes) (next : Option Nat) : Moves c (c.beginWrite pTx next) [] := by
  rw [beginWrite]
  by_cases more : 0 < pTx.length
  · rw [if_pos more]
    exact sound.waits (.writing pTx 0 next) more (by rw [idle]; rfl) (by rw [idle]; rfl)
  · have empty : pTx = [] := List.eq_nil_of_length_eq_zero (Nat.eq_zero_of_not_pos more)
    have wrote := sound.wrote pTx [] (by rw [idle, empty]; rfl)
      (by rw [idle]; rfl) next
    rw [List.append_nil] at wrote
    rw [if_neg more]
    exact wrote

theorem call_moves {c : Connection τ} (sound : c.Sound) (command : Command) :
    Moves c (c.call command) [] := by
  unfold call
  split
  · next idle => exact beginWrite_moves sound idle _ none
  · next rxLen idle =>
      exact sound.waits (.polling rxLen) trivial (by rw [idle]; rfl) (by rw [idle]; rfl)
  · next idle => exact beginWrite_moves sound idle _ _
  · exact .refl sound

theorem clientWrites_moves {c : Connection τ} (sound : c.Sound) (event : Option Nat) :
    ∃ added, Moves c (c.clientWrites event) added := by
  unfold clientWrites
  split
  · next pTx total next more writing =>
      have left : total < pTx.length := by
        have clientSound := sound.client
        rw [writing] at clientSound
        exact clientSound
      have fits := piece_le more (pTx.length - total)
      have taken : c.client.taken = [] := by rw [writing]; rfl
      have parts : pTx.take (total + piece more (pTx.length - total)) = c.client.accepted ++
          (pTx.drop total).take (piece more (pTx.length - total)) := by
        rw [writing]
        exact List.take_add
      dsimp only
      by_cases further : total + piece more (pTx.length - total) < pTx.length
      · rw [if_pos further]
        exact ⟨_, sound.goes
          (.writing pTx (total + piece more (pTx.length - total)) next) _ c.toClient further parts
          (by rw [taken]; rfl)⟩
      · rw [if_neg further]
        have whole : pTx.take (total + piece more (pTx.length - total)) = pTx :=
          List.take_of_length_le (Nat.not_lt.mp further)
        rw [whole] at parts
        exact ⟨_, sound.wrote pTx _ parts taken next⟩
  · next pTx total next writing =>
      exact ⟨[], sound.stops (.writeFailed pTx total) trivial (by rw [writing]; rfl)
        (by rw [writing]; rfl)⟩
  · exact ⟨[], .refl sound⟩

theorem polls_moves {c : Connection τ} (sound : c.Sound) (ready : Bool) :
    Moves c (c.polls ready) [] := by
  unfold polls
  split
  · next rxLen polling =>
      have accepted : ([] : Bytes) = c.client.accepted := by rw [polling]; rfl
      have taken : ([] : Bytes) = c.client.taken := by rw [polling]; rfl
      by_cases quiet : ready = false
      · rw [if_pos quiet]
        exact sound.stops (.readFailed []) trivial accepted taken
      · rw [if_neg quiet]
        by_cases scan : 260 ≤ rxLen
        · rw [if_pos scan]
          exact sound.waits (.scanning rxLen) scan accepted taken
        · rw [if_neg scan]
          by_cases more : 0 < rxLen
          · rw [if_pos more]
            exact sound.waits (.reading [] rxLen) more accepted taken
          · have nothing : rxLen = 0 := Nat.eq_zero_of_not_pos more
            rw [if_neg more]
            exact sound.stops (.read rxLen [])
              ⟨fun _ => nothing.symm, fun large => absurd large scan⟩ accepted taken
  · exact .refl sound

theorem clientReads_moves {c : Connection τ} (sound : c.Sound) (event : Option Nat) :
    Moves c (c.clientReads event) [] := by
  unfold clientReads
  split
  · next rxLen more scanning =>
      have scan : 260 ≤ rxLen := by
        have clientSound := sound.client
        rw [scanning] at clientSound
        exact clientSound
      dsimp only
      by_cases nothing : piece more (min rxLen c.toClient.length) = 0
      · rw [if_pos nothing]
        exact .refl sound
      · rw [if_neg nothing]
        have within := piece_le more (min rxLen c.toClient.length)
        have length : (c.toClient.take (piece more (min rxLen c.toClient.length))).length =
            piece more (min rxLen c.toClient.length) :=
          List.length_take_of_le (Nat.le_trans within (Nat.min_le_right _ _))
        have ends := sound.ends .idle
          (.read rxLen (c.toClient.take (piece more (min rxLen c.toClient.length))))
          [] (c.toClient.drop (piece more (min rxLen c.toClient.length)))
          trivial
          ⟨fun short => absurd short (Nat.not_lt.mpr scan),
            fun _ => by
              rw [length]
              exact ⟨Nat.pos_of_ne_zero nothing, Nat.le_trans within (Nat.min_le_left _ _)⟩⟩
          (by rw [scanning]; rfl)
          (by rw [scanning]; exact List.take_append_drop _ _)
        rw [List.append_nil] at ends
        exact ends
  · next rxLen scanning =>
      exact sound.stops (.readFailed []) trivial (by rw [scanning]; rfl)
        (by rw [scanning]; rfl)
  · next got rxLen more reading =>
      have left : got.length < rxLen := by
        have clientSound := sound.client
        rw [reading] at clientSound
        exact clientSound
      have within := piece_le more (min (rxLen - got.length) c.toClient.length)
      dsimp only
      generalize piece more (min (rxLen - got.length) c.toClient.length) = count at within ⊢
      have accepted : ([] : Bytes) = c.client.accepted ++ [] := by rw [reading]; rfl
      have parts : got ++ c.toClient.take count ++ c.toClient.drop count =
          c.client.taken ++ c.toClient := by
        rw [List.append_assoc, List.take_append_drop, reading]
        rfl
      by_cases further : (got ++ c.toClient.take count).length < rxLen
      · have goes := sound.goes (.reading (got ++ c.toClient.take count) rxLen) []
          (c.toClient.drop count) further accepted parts
        rw [List.append_nil] at goes
        rw [if_pos further]
        exact goes
      · have length : (got ++ c.toClient.take count).length = rxLen := by
          rw [List.length_append, List.length_take] at further ⊢
          omega
        have ends := sound.ends .idle (.read rxLen (got ++ c.toClient.take count)) []
          (c.toClient.drop count) trivial
          ⟨fun _ => length, fun large => ⟨by omega, Nat.le_of_eq length⟩⟩ accepted parts
        rw [List.append_nil] at ends
        rw [if_neg further]
        exact ends
  · next got rxLen reading =>
      exact sound.stops (.readFailed got) trivial (by rw [reading]; rfl)
        (by rw [reading]; rfl)
  · exact .refl sound

theorem threadReads_moves {c : Connection τ} (sound : c.Sound) (event : Option Nat) :
    Moves c (c.threadReads event) [] := by
  cases event with
  | none =>
      unfold threadReads
      dsimp only
      split
      · exact { Moves.refl sound with sound := ⟨sound.client, sound.replies, sound.thread⟩ }
      · exact .refl sound
  | some more =>
      have within := piece_le more (min c.thread.wants c.toServer.length)
      unfold threadReads
      dsimp only
      generalize piece more (min c.thread.wants c.toServer.length) = count at within ⊢
      by_cases reads : c.running = true ∧ 0 < count
      · have length : (c.toServer.take count).length = count :=
          List.length_take_of_le (Nat.le_trans within (Nat.min_le_right _ _))
        obtain ⟨threadSound, held, unsent⟩ := sound.thread.read (c.toServer.take count)
          (by rw [length]; exact reads.2) (by rw [length]; omega)
        rw [if_pos reads]
        exact
          { sound := ⟨sound.client, sound.replies, threadSound⟩
            t1 := rfl
            pending := rfl
            written := (List.append_nil _).symm
            arrives := by
              dsimp only
              rw [held, List.append_assoc, List.take_append_drop, List.append_nil]
            back := by
              dsimp only
              rw [unsent]
              rfl }
      · rw [if_neg reads]
        exact .refl sound

theorem threadWrites_moves {c : Connection τ} (sound : c.Sound) (event : Option Nat) :
    Moves c (c.threadWrites event) [] := by
  unfold threadWrites
  split
  · next left more writing =>
      split
      · next running =>
          dsimp only
          generalize piece more left.length = count
          obtain ⟨threadSound, held, unsent⟩ := Thread.write_sound (left.drop count)
          exact
            { sound := ⟨sound.client, sound.replies, threadSound⟩
              t1 := rfl
              pending := rfl
              written := (List.append_nil _).symm
              arrives := by
                dsimp only
                rw [held, writing, List.append_nil]
                rfl
              back := by
                dsimp only
                rw [unsent, writing, List.append_assoc, List.take_append_drop]
                rfl }
      · exact .refl sound
  · exact { Moves.refl sound with sound := ⟨sound.client, sound.replies, sound.thread⟩ }
  · exact .refl sound

theorem step_moves {c : Connection τ} (sound : c.Sound) (action : Action) :
    ∃ added, Moves c (c.step action) added := by
  cases action with
  | call command => exact ⟨_, call_moves sound command⟩
  | clientWrites event => exact clientWrites_moves sound event
  | polls ready => exact ⟨_, polls_moves sound ready⟩
  | clientReads event => exact ⟨_, clientReads_moves sound event⟩
  | threadReads event => exact ⟨_, threadReads_moves sound event⟩
  | threadWrites event => exact ⟨_, threadWrites_moves sound event⟩

end Connection

/-! ### One order for all clients -/

section

variable {σ τ : Type}

/-- The connection is where the sequential simulator would have it, but for what is on the way. -/
structure Linked (c : Connection τ) (session : Session τ) : Prop where
  sound : c.Sound
  t1 : c.t1 = session.t1
  pairs : 2 * session.pairs ≤ session.chunks.length
  pending : c.pendingChunks = session.chunks.drop (2 * session.pairs)
  whole : ∀ frame ∈ session.frames, t1Frame.Whole frame
  written : c.written = session.frames.flatten ++ (c.thread.held ++ c.toServer)
  sent : session.sent = c.heard ++ (c.toClient ++ c.thread.unsent)

theorem linked_opened (new : τ) :
    Linked (Connection.opened new) { t1 := new, frames := [], chunks := [], pairs := 0 } where
  sound := ⟨trivial, fun _ impossible => absurd impossible List.not_mem_nil, Nat.succ_pos 2⟩
  t1 := rfl
  pairs := Nat.le_refl 0
  pending := rfl
  whole := fun _ impossible => absurd impossible List.not_mem_nil
  written := rfl
  sent := rfl

theorem Linked.step {c : Connection τ} {session : Session τ} (linked : Linked c session)
    (action : Connection.Action) : Linked (c.step action) session := by
  obtain ⟨added, moves⟩ := Connection.step_moves linked.sound action
  exact
    { sound := moves.sound
      t1 := moves.t1.trans linked.t1
      pairs := linked.pairs
      pending := moves.pending.trans linked.pending
      whole := linked.whole
      written := by
        rw [moves.written, linked.written, moves.arrives, List.append_assoc, List.append_assoc]
      sent := linked.sent.trans moves.back.symm }

theorem Session.handled_respond (session : Session τ)
    (pairs : 2 * session.pairs ≤ session.chunks.length) (frame : Bytes)
    (responseChunks : List Bytes) (t1 : τ) :
    2 * (session.handled frame responseChunks t1).pairs ≤
        (session.handled frame responseChunks t1).chunks.length ∧
      (Thread.respond (session.chunks.drop (2 * session.pairs) ++ responseChunks)).2 =
        (session.handled frame responseChunks t1).chunks.drop
          (2 * (session.handled frame responseChunks t1).pairs) ∧
      (session.handled frame responseChunks t1).sent = session.sent ++
        (Thread.respond (session.chunks.drop (2 * session.pairs) ++ responseChunks)).1.unsent := by
  have queue : session.chunks.drop (2 * session.pairs) ++ responseChunks =
      (session.chunks ++ responseChunks).drop (2 * session.pairs) :=
    (List.drop_append_of_le_length pairs).symm
  have before : (session.chunks ++ responseChunks).take (2 * session.pairs) =
      session.chunks.take (2 * session.pairs) := List.take_append_of_le_length pairs
  have length : (session.chunks ++ responseChunks).length =
      session.chunks.length + responseChunks.length := List.length_append
  rw [queue]
  unfold Session.sent Session.handled
  dsimp only
  rw [← length]
  by_cases more : 2 * session.pairs + 2 ≤ (session.chunks ++ responseChunks).length
  · obtain ⟨header, payloadCrc, left, parts⟩ : ∃ header payloadCrc left,
        (session.chunks ++ responseChunks).drop (2 * session.pairs) =
          header :: payloadCrc :: left := by
      have some' : 2 ≤ ((session.chunks ++ responseChunks).drop (2 * session.pairs)).length := by
        rw [List.length_drop]
        omega
      match (session.chunks ++ responseChunks).drop (2 * session.pairs), some' with
      | header :: payloadCrc :: left, _ => exact ⟨header, payloadCrc, left, rfl⟩
    have next : 2 * (session.pairs + 1) = 2 * session.pairs + 2 := Nat.mul_succ 2 session.pairs
    rw [if_pos more, next, parts, Thread.respond, List.take_add, ← List.drop_drop, parts, before,
      List.flatten_append, (Thread.write_sound _).2.2]
    refine ⟨more, rfl, ?_⟩
    rw [List.take_succ_cons, List.take_succ_cons, List.take_zero, List.flatten_cons,
      List.flatten_cons, List.flatten_nil, List.append_nil]
  · have few : ((session.chunks ++ responseChunks).drop (2 * session.pairs)).length < 2 := by
      rw [List.length_drop]
      omega
    have quiet : Thread.respond ((session.chunks ++ responseChunks).drop (2 * session.pairs)) =
        (.readingHeader [], (session.chunks ++ responseChunks).drop (2 * session.pairs)) := by
      match (session.chunks ++ responseChunks).drop (2 * session.pairs), few with
      | [], _ => rfl
      | [_], _ => rfl
    rw [if_neg more, quiet, before]
    exact ⟨Nat.le_trans pairs (by rw [length]; omega), rfl, (List.append_nil _).symm⟩

theorem Linked.locks {c : Connection τ} {session : Session τ} (linked : Linked c session)
    {frame : Bytes} (locking : c.thread = .locking frame) (responseChunks : List Bytes) (t1 : τ) :
    Linked
      { c with
        thread := (Thread.respond (c.pendingChunks ++ responseChunks)).1
        t1 := t1
        pendingChunks := (Thread.respond (c.pendingChunks ++ responseChunks)).2 }
      (session.handled frame responseChunks t1) := by
  obtain ⟨pairs, pending, sent⟩ :=
    session.handled_respond linked.pairs frame responseChunks t1
  have threadSound := linked.sound.thread
  have back := linked.sent
  have arrives := linked.written
  rw [locking] at threadSound back arrives
  rw [linked.pending]
  exact
    { sound := ⟨linked.sound.client, linked.sound.replies, Thread.respond_sound _⟩
      t1 := rfl
      pairs := pairs
      pending := pending
      whole := by
        intro other member
        rcases List.mem_append.mp member with before | last
        · exact linked.whole other before
        · rw [List.mem_singleton.mp last]
          exact threadSound
      written := by
        change c.written = (session.frames ++ [frame]).flatten ++ _
        rw [arrives, Thread.respond_held, List.flatten_append, List.flatten_singleton,
          List.append_assoc]
        rfl
      sent := by
        rw [sent, back]
        change c.heard ++ (c.toClient ++ []) ++ _ = c.heard ++ (c.toClient ++ _)
        rw [List.append_nil, List.append_assoc] }

variable (card : Card σ τ)

theorem serve_append (store : σ) (order : List (Nat × Bytes)) (entry : Nat × Bytes) :
    serve card store (order ++ [entry]) = (serve card store order).process card entry := by
  rw [serve, List.foldl_append]
  rfl

def framesOf (id : Nat) (order : List (Nat × Bytes)) : List Bytes :=
  (order.filter (fun entry => entry.1 = id)).map Prod.snd

theorem serve_frames (store : σ) (order : List (Nat × Bytes)) (id : Nat) :
    ((serve card store order).sessions id).frames = framesOf id order := by
  induction order using List.reverseRecOn with
  | nil => rfl
  | append_singleton order entry ih =>
      rw [serve_append, Served.process]
      dsimp only
      by_cases mine : entry.1 = id
      · rw [← mine] at ih ⊢
        rw [Function.update_self, Session.handled, ih, framesOf, framesOf, List.filter_append,
          List.map_append, List.filter_singleton, decide_eq_true rfl]
        rfl
      · rw [Function.update_of_ne (Ne.symm mine), ih, framesOf, framesOf, List.filter_append,
          List.map_append, List.filter_singleton, decide_eq_false mine]
        exact (List.append_nil _).symm

structure Sequential (store : σ) (world : World σ τ) : Prop where
  objects : world.store = (serve card store world.order).store
  linked : ∀ id, Linked (world.connections id) ((serve card store world.order).sessions id)

theorem Sequential.locks {store : σ} {world : World σ τ} (sequential : Sequential card store world)
    (id : Nat) : Sequential card store (world.locks card id) := by
  unfold World.locks
  dsimp only
  split
  · next frame locking running =>
      have mine := sequential.linked id
      have locks := mine.locks locking
        (card.processFrame (world.connections id).t1 frame world.store).1
        (card.processFrame (world.connections id).t1 frame world.store).2.1
      constructor
      · dsimp only
        rw [serve_append, Served.process, ← mine.t1, ← sequential.objects]
      · intro other
        dsimp only
        rw [serve_append, Served.process]
        dsimp only
        rw [← mine.t1, ← sequential.objects]
        by_cases same : other = id
        · rw [same, Function.update_self, Function.update_self]
          exact locks
        · rw [Function.update_of_ne same, Function.update_of_ne same]
          exact sequential.linked other
  · exact sequential

theorem Sequential.step {store : σ} {world : World σ τ} (sequential : Sequential card store world)
    (action : Action) : Sequential card store (world.step card action).2 := by
  cases action with
  | locks id => exact sequential.locks card id
  | link id action =>
      refine ⟨sequential.objects, ?_⟩
      intro other
      change Linked (Function.update world.connections id _ other) _
      by_cases same : other = id
      · rw [same, Function.update_self]
        exact (sequential.linked id).step action
      · rw [Function.update_of_ne same]
        exact sequential.linked other

theorem sequential_run (store : σ) (actions : List Action) :
    Sequential card store (Machine.run (World.step card) (World.start card store) actions).2 := by
  have started : Sequential card store (World.start card store) :=
    ⟨rfl, fun _ => linked_opened card.new⟩
  have runs : ∀ world, Sequential card store world →
      Sequential card store (Machine.run (World.step card) world actions).2 := by
    induction actions with
    | nil => exact fun _ sequential => sequential
    | cons action actions ih => exact fun _ sequential => ih _ (sequential.step card action)
  exact runs _ started

/-- What one client can see of the simulator: its frames are handled whole and in order, none is
left waiting when all that it wrote has arrived, and what it reads is the next part of what the
sequential simulator answered, of the size it asked for, or some of it with zeros behind. -/
structure Consistent (c : Connection τ) (handled : List Bytes) (session : Session τ) : Prop where
  inOrder : handled <+: (t1Frame.split c.written).1
  upToDate : 0 < c.thread.wants → c.toServer = [] → handled = (t1Frame.split c.written).1
  heard : c.heard <+: session.sent
  conserved : session.sent = c.heard ++ (c.toClient ++ c.thread.unsent)
  exact : ∀ rxLen data, Reply.read rxLen data ∈ c.replies → rxLen < 260 →
    (Reply.read rxLen data).pRx = data ∧ data.length = rxLen
  scanned : ∀ rxLen data, Reply.read rxLen data ∈ c.replies → 260 ≤ rxLen →
    0 < data.length ∧ data.length ≤ rxLen ∧
      (Reply.read rxLen data).pRx = data ++ List.replicate (rxLen - data.length) 0

theorem Thread.Sound.short {thread : Thread} (sound : thread.Sound) (waits : 0 < thread.wants) :
    t1Frame.Short thread.held := by
  cases thread with
  | readingHeader got =>
      have few : got.length < 3 := sound
      exact Nat.lt_of_lt_of_le few (Nat.le_add_right _ _)
  | readingPayload header got =>
      obtain ⟨headed, few⟩ := sound
      have size := t1Frame.size_append header (Nat.le_of_eq headed.symm) got
      have front : header.take 3 = header := List.take_of_length_le (Nat.le_of_eq headed)
      have whole : t1Frame.size header = 3 + t1Frame.rest header := by
        rw [Format.size]
        change 3 + t1Frame.rest (header.take 3) = _
        rw [front]
      change (header ++ got).length < t1Frame.size (header ++ got)
      rw [size, whole, List.length_append, headed]
      omega
  | locking frame => exact absurd waits (Nat.lt_irrefl 0)
  | writing left => exact absurd waits (Nat.lt_irrefl 0)

theorem Linked.consistent {c : Connection τ} {session : Session τ} (linked : Linked c session) :
    Consistent c session.frames session where
  inOrder := by
    rw [linked.written, t1Frame.split_flatten linked.whole]
    exact List.prefix_append _ _
  upToDate := by
    intro waits arrived
    rw [linked.written, t1Frame.split_flatten linked.whole, arrived, List.append_nil,
      t1Frame.split_short (linked.sound.thread.short waits), List.append_nil]
  heard := by
    rw [linked.sent]
    exact List.prefix_append _ _
  conserved := linked.sent
  exact := by
    intro rxLen data member short
    obtain ⟨full, -⟩ := linked.sound.replies _ member
    have length : data.length = rxLen := full short
    refine ⟨?_, length⟩
    rw [Reply.pRx, length, Nat.sub_self, List.replicate_zero, List.append_nil]
  scanned := by
    intro rxLen data member large
    obtain ⟨-, scan⟩ := linked.sound.replies _ member
    obtain ⟨some', within⟩ := scan large
    exact ⟨some', within, rfl⟩

/-- However the steps of the clients and of the threads interleave, and wherever they fail: the
store is the one, and each client sees the answers, of a simulator that takes the frames one
after another in the order in which they got the lock. -/
theorem simulator_linearized (store : σ) (actions : List Action) :
    let world := (Machine.run (World.step card) (World.start card store) actions).2
    world.store = (serve card store world.order).store ∧
      ∀ id, Consistent (world.connections id) (framesOf id world.order)
        ((serve card store world.order).sessions id) := by
  have sequential := sequential_run card store actions
  refine ⟨sequential.objects, ?_⟩
  intro id
  rw [← serve_frames card store]
  exact (sequential.linked id).consistent

/-- Where each frame is answered with one pair of chunks, all of them have been let out. -/
theorem serve_inStep (store : σ)
    (pairs : ∀ t1 frame store, (card.processFrame t1 frame store).1.length = 2)
    (order : List (Nat × Bytes)) (id : Nat) :
    ((serve card store order).sessions id).sent =
      ((serve card store order).sessions id).chunks.flatten := by
  have even : ((serve card store order).sessions id).chunks.length =
      2 * ((serve card store order).sessions id).pairs := by
    induction order using List.reverseRecOn with
    | nil => rfl
    | append_singleton order entry ih =>
        rw [serve_append, Served.process]
        dsimp only
        by_cases mine : entry.1 = id
        · rw [← mine] at ih ⊢
          rw [Function.update_self, Session.handled]
          dsimp only
          rw [List.length_append, ih, pairs, if_pos (Nat.le_refl _)]
          omega
        · rw [Function.update_of_ne (Ne.symm mine)]
          exact ih
  rw [Session.sent, ← even, List.take_length]

end

end Etlx.Se.Simulator
