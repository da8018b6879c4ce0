/-
The receive buffer of the client, byte for byte, and the calls it makes.

Every piece that `Recv` delivers is written at the offset the pieces before it
ended at. The loop over the buffer computes what the loop over the received bytes
does, so the response does not depend on where the transport cut the stream. A
socket that writes down its calls tells what was sent and which answer failed.
-/

import Etlx.Http.Client
import Etlx.Lib.Memory

namespace Etlx.Net

inductive Call
  | send (data : Bytes)
  | recv (answer : Result Bytes)

def Socket.logged {σ : Type} (sock : Socket σ) : Socket (σ × List Call) :=
  { send := fun s data =>
      ((sock.send s.1 data).1, (sock.send s.1 data).2, s.2 ++ [.send data])
    recv :=
      { read := fun s offered =>
          ((sock.recv.read s.1 offered).1, (sock.recv.read s.1 offered).2,
            s.2 ++ [.recv (sock.recv.read s.1 offered).1])
        left := fun s => sock.recv.left s.1
        fits := fun s => sock.recv.fits s.1
        delivers := fun s => sock.recv.delivers s.1
        ends := fun s => sock.recv.ends s.1 } }

end Etlx.Net

namespace Etlx.Http

open Net

variable {σ : Type}

section

variable (sock : Socket σ)

/-- `while (total < recv_buf.size())`, over the caller's buffer. -/
def recvInto (buffer : Bytes) (total : Nat) (s : σ) : Result Nat × Bytes × σ :=
  if total < buffer.length then
    match _read : sock.recv.read s (buffer.length - total) with
    | (.error e, s') => (.error e, buffer, s')
    | (.ok [], s') => (.ok total, buffer, s')
    | (.ok (byte :: bytes), s') =>
        recvInto (Memory.write buffer total (byte :: bytes)) (total + (byte :: bytes).length) s'
  else (.ok total, buffer, s)
termination_by (sock.recv.left s).length
decreasing_by
  have shrinks := sock.recv.shrinks (congrArg Prod.fst _read) (List.cons_ne_nil byte bytes)
  rw [_read] at shrinks
  exact shrinks

def Client.doInto (memory : Vector UInt8 1024) (s : σ) (req : Request) (recvBuf : Bytes) :
    Result Response × Bytes × σ :=
  match buildRequest req memory.toList with
  | (.error e, _) => (.error e, recvBuf, s)
  | (.ok count, reqbuf) =>
      match sock.send s (reqbuf.take count) with
      | (.error e, s') => (.error e, recvBuf, s')
      | (.ok (), s') =>
          match recvInto sock recvBuf 0 s' with
          | (.error e, filled, s'') => (.error e, filled, s'')
          | (.ok total, filled, s'') => (parseResponse (filled.take total), filled, s'')

end

/-! ### The buffer against the bytes received -/

/-- The two loops agree: the received bytes stand at the front of the buffer and the
memory behind them is the caller's. -/
def Agree (buffer : Bytes) : Result Bytes × σ → Result Nat × Bytes × σ → Prop
  | (.ok raw, s), (.ok total, filled, t) =>
      s = t ∧ total = raw.length ∧ filled = raw ++ buffer.drop raw.length
  | (.error e, s), (.error f, _, t) => s = t ∧ e = f
  | _, _ => False

theorem recvLoop_error {sock : Socket σ} {capacity : Nat} {received : Bytes} {s s' : σ} {e : Error}
    (room : received.length < capacity)
    (read : sock.recv.read s (capacity - received.length) = (.error e, s')) :
    recvLoop sock capacity received s = (.error e, s') := by
  unfold recvLoop
  rw [if_pos room]
  split <;> simp_all

theorem recvLoop_closed {sock : Socket σ} {capacity : Nat} {received : Bytes} {s s' : σ}
    (room : received.length < capacity)
    (read : sock.recv.read s (capacity - received.length) = (.ok [], s')) :
    recvLoop sock capacity received s = (.ok received, s') := by
  unfold recvLoop
  rw [if_pos room]
  split <;> simp_all

theorem recvLoop_piece {sock : Socket σ} {capacity : Nat} {received bytes : Bytes} {byte : UInt8}
    {s s' : σ} (room : received.length < capacity)
    (read : sock.recv.read s (capacity - received.length) = (.ok (byte :: bytes), s')) :
    recvLoop sock capacity received s = recvLoop sock capacity (received ++ byte :: bytes) s' := by
  rw [recvLoop, if_pos room]
  split <;> simp_all

theorem recvLoop_full {sock : Socket σ} {capacity : Nat} {received : Bytes} {s : σ}
    (full : ¬received.length < capacity) :
    recvLoop sock capacity received s = (.ok received, s) := by
  unfold recvLoop
  rw [if_neg full]

theorem agree_here {buffer original : Bytes} {total : Nat} (s : σ)
    (inside : total ≤ buffer.length) (behind : buffer.drop total = original.drop total) :
    Agree original (.ok (buffer.take total), s) (.ok total, buffer, s) := by
  have size : (buffer.take total).length = total := List.length_take_of_le inside
  refine ⟨rfl, size.symm, ?_⟩
  rw [size, ← behind, List.take_append_drop]

theorem recvInto_agrees (sock : Socket σ) (buffer : Bytes) (total : Nat) (s : σ)
    (inside : total ≤ buffer.length) (original : Bytes)
    (behind : buffer.drop total = original.drop total) :
    Agree original (recvLoop sock buffer.length (buffer.take total) s)
      (recvInto sock buffer total s) := by
  have size : ∀ {buffer : Bytes} {total : Nat}, total ≤ buffer.length →
      (buffer.take total).length = total := fun inside => List.length_take_of_le inside
  fun_induction recvInto sock buffer total s with
  | case1 buffer total s room e next read =>
      rw [recvLoop_error (by rw [size inside]; exact room) (by rw [size inside]; exact read)]
      exact ⟨rfl, rfl⟩
  | case2 buffer total s room next read =>
      rw [recvLoop_closed (by rw [size inside]; exact room) (by rw [size inside]; exact read)]
      exact agree_here next inside behind
  | case3 buffer total s room byte bytes next read ih =>
      have fits := sock.recv.fits s _ _ (congrArg Prod.fst read)
      have same := Memory.write_length inside fits
      rw [recvLoop_piece (by rw [size inside]; exact room) (by rw [size inside]; exact read)]
      rw [same, Memory.write_take inside] at ih
      apply ih
      · omega
      · rw [Memory.write_drop inside _ (Nat.le_refl _), ← List.drop_drop, behind, List.drop_drop]
  | case4 buffer total s full =>
      rw [recvLoop_full (by rw [size inside]; exact full)]
      exact agree_here s inside behind

theorem Client.doInto_eq (sock : Socket σ) (memory : Vector UInt8 1024) (s : σ) (req : Request)
    (recvBuf : Bytes) :
    (Client.doInto sock memory s req recvBuf).1 =
        (Client.do sock memory s req recvBuf.length).1 ∧
      (Client.doInto sock memory s req recvBuf).2.2 =
        (Client.do sock memory s req recvBuf.length).2 := by
  unfold Client.doInto Client.do
  rcases buildRequest req memory.toList with ⟨_ | count, reqbuf⟩
  · exact ⟨rfl, rfl⟩
  dsimp only
  rcases sock.send s (reqbuf.take count) with ⟨_ | _, s'⟩
  · exact ⟨rfl, rfl⟩
  have agrees := recvInto_agrees sock recvBuf 0 s' (Nat.zero_le _) recvBuf rfl
  rw [List.take_zero] at agrees
  dsimp only
  revert agrees
  rcases recvLoop sock recvBuf.length [] s' with ⟨_ | raw, t⟩ <;>
    rcases recvInto sock recvBuf 0 s' with ⟨_ | total, filled, t'⟩
  · rintro ⟨same, equal⟩
    exact ⟨congrArg _ equal.symm, same.symm⟩
  · exact False.elim
  · exact False.elim
  · rintro ⟨same, count, stored⟩
    dsimp only
    rw [stored, count, List.take_left]
    exact ⟨rfl, same.symm⟩

/-! ### The calls of one exchange -/

theorem logged_send {sock : Socket σ} {s : σ × List Call} {data : Bytes} {status : Status}
    {next : σ} (send : sock.send s.1 data = (status, next)) :
    sock.logged.send s data = (status, next, s.2 ++ [.send data]) := by
  change ((sock.send s.1 data).1, (sock.send s.1 data).2, _) = _
  rw [send]

theorem logged_read {sock : Socket σ} {s next : σ × List Call} {offered : Nat}
    {answer : Result Bytes} (read : sock.logged.recv.read s offered = (answer, next)) :
    sock.recv.read s.1 offered = (answer, next.1) ∧ next.2 = s.2 ++ [.recv answer] := by
  cases read
  exact ⟨rfl, rfl⟩

theorem recvLoop_logged (sock : Socket σ) (capacity : Nat) (received : Bytes)
    (s : σ × List Call) :
    (recvLoop sock.logged capacity received s).1 = (recvLoop sock capacity received s.1).1 := by
  fun_induction recvLoop sock.logged capacity received s with
  | case1 received s room e next read =>
      rw [recvLoop_error room (logged_read read).1]
  | case2 received s room next read =>
      rw [recvLoop_closed room (logged_read read).1]
  | case3 received s room byte bytes next read ih =>
      rw [recvLoop_piece room (logged_read read).1]
      exact ih
  | case4 received s full =>
      rw [recvLoop_full full]

theorem Client.do_logged (sock : Socket σ) (memory : Vector UInt8 1024) (s : σ × List Call)
    (req : Request) (capacity : Nat) :
    (Client.do sock.logged memory s req capacity).1 =
      (Client.do sock memory s.1 req capacity).1 := by
  unfold Client.do
  rcases buildRequest req memory.toList with ⟨_ | count, reqbuf⟩
  · rfl
  cases answer : sock.send s.1 (reqbuf.take count) with
  | mk status s' =>
      dsimp only
      rw [logged_send answer, answer]
      cases status with
      | error refused => rfl
      | ok value =>
          have same := recvLoop_logged sock capacity [] (s', s.2 ++ [.send (reqbuf.take count)])
          dsimp only at same ⊢
          rcases received : recvLoop sock.logged capacity []
            (s', s.2 ++ [.send (reqbuf.take count)]) with ⟨outcome, t⟩
          rcases plain : recvLoop sock capacity [] s' with ⟨outcome', t'⟩
          rw [received, plain] at same
          dsimp only at same
          subst same
          rw [received]
          cases outcome with
          | error e => rfl
          | ok raw => rfl

structure Reports (answers : List (Result Bytes)) (outcome : Result Bytes) (filled : Bytes) :
    Prop where
  fails : ∀ e, .error e ∈ answers → outcome = .error e
  fills : (∀ e, .error e ∉ answers) → outcome = .ok filled

theorem Reports.delivered {answers : List (Result Bytes)} {outcome : Result Bytes}
    {filled : Bytes} (reports : Reports answers outcome filled) (piece : Bytes) :
    Reports (.ok piece :: answers) outcome filled where
  fails := by
    intro e member
    rcases List.mem_cons.mp member with impossible | later
    · cases impossible
    · exact reports.fails e later
  fills := by
    intro steady
    exact reports.fills (fun e later => steady e (List.mem_cons_of_mem _ later))

theorem recvLoop_calls (sock : Socket σ) (capacity : Nat) (received : Bytes)
    (s : σ × List Call) :
    ∃ answers : List (Result Bytes),
      (recvLoop sock.logged capacity received s).2.2 = s.2 ++ answers.map Call.recv ∧
      Reports answers (recvLoop sock.logged capacity received s).1
        (received ++ (sock.recv.left s.1).take (capacity - received.length)) := by
  fun_induction recvLoop sock.logged capacity received s with
  | case1 received s room e next read =>
      obtain ⟨_answer, recorded⟩ := logged_read read
      refine ⟨[.error e], recorded, ?_, ?_⟩
      · intro f member
        rw [Except.error.inj (List.mem_singleton.mp member)]
      · intro steady
        exact absurd (List.mem_singleton_self _) (steady e)
  | case2 received s room next read =>
      obtain ⟨answer, recorded⟩ := logged_read read
      have nothing := sock.recv.ends s.1 (capacity - received.length) (by omega)
        (congrArg Prod.fst answer)
      refine ⟨[.ok []], recorded, ?_, ?_⟩
      · intro f member
        cases List.mem_singleton.mp member
      · intro _steady
        rw [nothing, List.take_nil, List.append_nil]
  | case3 received s room byte bytes next read ih =>
      obtain ⟨answer, recorded⟩ := logged_read read
      obtain ⟨answers, calls, reports⟩ := ih
      have fits := sock.recv.fits s.1 _ _ (congrArg Prod.fst answer)
      have front := sock.recv.delivers s.1 _ _ (congrArg Prod.fst answer)
      rw [answer] at front
      have length : (received ++ byte :: bytes).length =
          received.length + (byte :: bytes).length := List.length_append
      refine ⟨.ok (byte :: bytes) :: answers, ?_, ?_⟩
      · rw [calls, recorded, List.map_cons, List.append_assoc]
        rfl
      · rw [front, List.take_append, List.take_of_length_le fits, ← List.append_assoc,
          Nat.sub_sub, ← length]
        exact reports.delivered (byte :: bytes)
  | case4 received s full =>
      have none : capacity - received.length = 0 := by omega
      refine ⟨[], (List.append_nil _).symm, ?_, ?_⟩
      · intro e member
        cases member
      · intro _steady
        rw [none, List.take_zero, List.append_nil]

/-- What `Do` owes its caller: a request that was not built is not sent; else exactly the
built bytes are sent, an answer that fails is reported, and a stream that the buffer holds
is parsed as if it had come in one piece. -/
structure Exchanged (sock : Socket σ) (s : σ) (built : Result Nat × Bytes) (capacity : Nat)
    (outcome : Result Response) (calls : List Call) : Prop where
  unbuilt : ∀ e, built.1 = .error e → outcome = .error e ∧ calls = []
  unsent : ∀ count e, built.1 = .ok count → (sock.send s (built.2.take count)).1 = .error e →
    outcome = .error e ∧ calls = [.send (built.2.take count)]
  sent : ∀ count, built.1 = .ok count → (sock.send s (built.2.take count)).1 = .ok () →
    ∃ answers : List (Result Bytes),
      calls = .send (built.2.take count) :: answers.map Call.recv ∧
      (∀ e, .error e ∈ answers → outcome = .error e) ∧
      ((∀ e, .error e ∉ answers) →
        (sock.recv.left (sock.send s (built.2.take count)).2).length ≤ capacity →
        outcome = parseResponse (sock.recv.left (sock.send s (built.2.take count)).2))

theorem Client.do_exchanged (sock : Socket σ) (memory : Vector UInt8 1024) (s : σ)
    (req : Request) (capacity : Nat) :
    Exchanged sock s (buildRequest req memory.toList) capacity
      (Client.do sock.logged memory (s, []) req capacity).1
      (Client.do sock.logged memory (s, []) req capacity).2.2 := by
  unfold Client.do
  rcases buildRequest req memory.toList with ⟨failed | count, reqbuf⟩
  · refine ⟨?_, ?_, ?_⟩
    · intro e same
      cases same
      exact ⟨rfl, rfl⟩
    · intro count e impossible
      cases impossible
    · intro count impossible
      cases impossible
  · dsimp only
    cases answer : sock.send s (reqbuf.take count) with
    | mk status s' =>
        rw [logged_send answer, List.nil_append]
        cases status with
        | error refused =>
            refine ⟨?_, ?_, ?_⟩
            · intro e impossible
              cases impossible
            · intro n e same failed
              cases same
              rw [answer] at failed
              cases failed
              exact ⟨rfl, rfl⟩
            · intro n same done
              cases same
              rw [answer] at done
              cases done
        | ok value =>
            obtain ⟨answers, calls, reports⟩ := recvLoop_calls sock capacity []
              (s', [.send (reqbuf.take count)])
            dsimp only
            refine ⟨?_, ?_, ?_⟩
            · intro e impossible
              cases impossible
            · intro n e same failed
              cases same
              rw [answer] at failed
              cases failed
            · intro n same done
              cases same
              rw [answer]
              rcases received : recvLoop sock.logged capacity [] (s', [.send (reqbuf.take count)])
                with ⟨outcome, s'', recorded⟩
              rw [received] at calls reports
              refine ⟨answers, ?_, ?_, ?_⟩
              · cases outcome <;> exact calls
              · intro e member
                cases reports.fails e member
                rfl
              · intro steady fits
                cases reports.fills steady
                rw [List.nil_append, List.length_nil, Nat.sub_zero, List.take_of_length_le fits]

/-- However the socket cuts the stream, the client over its buffer sends the built request
and returns the response that the whole stream parses to. -/
theorem client_do_any_chunks (sock : Socket σ) (memory : Vector UInt8 1024) (s : σ)
    (req : Request) (recvBuf : Bytes) :
    Exchanged sock s (buildRequest req memory.toList) recvBuf.length
      (Client.doInto sock memory s req recvBuf).1
      (Client.doInto sock.logged memory (s, []) req recvBuf).2.2.2 ∧
    (req.wire.length ≤ 1024 → ∃ count reqbuf, buildRequest req memory.toList = (.ok count, reqbuf) ∧
      reqbuf.take count = req.wire) := by
  have exchanged := Client.do_exchanged sock memory s req recvBuf.length
  rw [Client.do_logged, ← (Client.doInto_eq sock memory s req recvBuf).1,
    ← (Client.doInto_eq sock.logged memory (s, []) req recvBuf).2] at exchanged
  refine ⟨exchanged, ?_⟩
  intro fits
  have size : memory.toList.length = 1024 := Vector.length_toList
  rcases buildRequest_eq req memory.toList with ⟨-, built⟩ | ⟨long, -⟩
  · exact ⟨_, _, built, List.take_left⟩
  · omega

end Etlx.Http
