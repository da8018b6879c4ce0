/-
The client: send a request, fill the receive buffer, parse what is in it.

The receive loop ends when the peer closes or when the buffer is full, and the
parser sees the same bytes in both cases. The head of a response is parsed from
its own bytes alone, so a response that was cut behind its head looks complete
unless its length says otherwise.
-/

import Etlx.Http.Head
import Etlx.Http.Request
import Etlx.Io.Io

namespace Etlx.Net

/-- The calls of a socket that a client makes: `Send`, which may change what the
peer has to say, and `Recv`. -/
structure Socket (σ : Type) where
  send : Io.Writer σ
  recv : Io.Reader σ

end Etlx.Net

namespace Etlx.Http

section

variable {σ : Type} (sock : Net.Socket σ)

/-- `while (total < recv_buf.size())`, with the bytes received so far. -/
def recvLoop (capacity : Nat) (received : Bytes) (s : σ) : Result Bytes × σ :=
  if received.length < capacity then
    match _read : sock.recv.read s (capacity - received.length) with
    | (.error e, s') => (.error e, s')
    | (.ok [], s') => (.ok received, s')
    | (.ok (byte :: bytes), s') => recvLoop capacity (received ++ byte :: bytes) s'
  else (.ok received, s)
termination_by (sock.recv.left s).length
decreasing_by
  have shrinks := sock.recv.shrinks (congrArg Prod.fst _read) (List.cons_ne_nil byte bytes)
  rw [_read] at shrinks
  exact shrinks

/-- `Client::Do`. The request is built in 1024 bytes of whatever memory holds. -/
def Client.do (memory : Vector UInt8 1024) (s : σ) (req : Request) (capacity : Nat) :
    Result Response × σ :=
  match buildRequest req memory.toList with
  | (.error e, _) => (.error e, s)
  | (.ok count, reqbuf) =>
      match sock.send s (reqbuf.take count) with
      | (.error e, s') => (.error e, s')
      | (.ok (), s') =>
          match recvLoop sock capacity [] s' with
          | (.error e, s'') => (.error e, s'')
          | (.ok raw, s'') => (parseResponse raw, s'')

/-- No `Recv` fails. -/
def Steady : Prop := ∀ s offered e, (sock.recv.read s offered).1 ≠ .error e

variable {sock}

/-- The buffer takes as much of the stream as it can hold, in whatever pieces. -/
theorem recvLoop_eq (steady : Steady sock) (capacity : Nat) (received : Bytes) (s : σ) :
    (recvLoop sock capacity received s).1 =
      .ok (received ++ (sock.recv.left s).take (capacity - received.length)) := by
  fun_induction recvLoop sock capacity received s with
  | case1 received s room e next read =>
      exact absurd (congrArg Prod.fst read) (steady s _ e)
  | case2 received s room next read =>
      have nothing := sock.recv.ends s (capacity - received.length) (by omega)
        (congrArg Prod.fst read)
      rw [nothing, List.take_nil, List.append_nil]
  | case3 received s room byte bytes next read ih =>
      have got := congrArg Prod.fst read
      have fits := sock.recv.fits s _ _ got
      have front := sock.recv.delivers s _ _ got
      rw [read] at front
      have length : (received ++ byte :: bytes).length =
          received.length + (byte :: bytes).length := List.length_append
      rw [ih, front, List.take_append, List.take_of_length_le fits, List.append_assoc, length,
        Nat.sub_add_eq]
  | case4 received s full =>
      have none : capacity - received.length = 0 := by omega
      rw [none, List.take_zero, List.append_nil]

end

/-! ### Truncated responses -/

/-- The result is that of the complete stream, and a response with its head and
body beyond the buffer is an error. -/
def NotTruncated (capacity : Nat) (stream : Bytes) (outcome : Result Response) : Prop :=
  (∀ r, outcome = .ok r → ∃ full, parseResponse stream = .ok full ∧ r.status = full.status ∧
    r.headers = full.headers ∧ r.contentLength = full.contentLength ∧ r.body = full.body) ∧
  ∀ full boundary, parseResponse stream = .ok full →
    Search.find stream (crlf ++ crlf) 0 = some boundary →
    capacity < boundary + 4 + full.body.length → ∃ e, outcome = .error e

/-- The buffer holds the stream, or not even its head, or the head is refused, or
the head announces a body that the buffer holds. -/
def Whole (capacity : Nat) (stream : Bytes) : Prop :=
  stream.length ≤ capacity ∨
  (∀ boundary, Search.find stream (crlf ++ crlf) 0 = some boundary → capacity < boundary + 4) ∨
  (∃ e, parseResponse stream = .error e) ∨
  ∃ boundary full len, Search.find stream (crlf ++ crlf) 0 = some boundary ∧
    parseResponse stream = .ok full ∧ full.contentLength = some len ∧
    boundary + 4 + len ≤ capacity

theorem notTruncated_error (capacity : Nat) (stream : Bytes) (e : Error) :
    NotTruncated capacity stream (.error e) := by
  refine ⟨?_, fun _ _ _ _ _ => ⟨e, rfl⟩⟩
  intro r impossible
  cases impossible

theorem notTruncated_fits {capacity : Nat} {stream : Bytes} (fits : stream.length ≤ capacity) :
    NotTruncated capacity stream (parseResponse stream) := by
  refine ⟨fun r parsed => ⟨r, parsed, rfl, rfl, rfl, rfl⟩, ?_⟩
  intro full boundary parsed found beyond
  rw [find_zero] at found
  have inside : boundary + 4 ≤ stream.length := (Search.search_some found).1
  have whole := parseResponse_head (isHead_of_search found) (stream.drop (boundary + 4))
  rw [List.take_append_drop, parsed] at whole
  have bodyLength : full.body.length ≤ stream.length - (boundary + 4) := by
    cases heads : parseHead (stream.take (boundary + 4)) boundary with
    | error e =>
        rw [heads] at whole
        cases whole
    | ok head =>
        rw [heads] at whole
        rw [Except.ok.inj whole, frameResponse_body]
        split
        · exact Nat.le_of_eq List.length_drop
        · rw [List.length_take, List.length_drop]
          omega
  omega

theorem parseResponse_take_short {capacity : Nat} {stream : Bytes}
    (beyond : ∀ boundary, Search.find stream (crlf ++ crlf) 0 = some boundary →
      capacity < boundary + 4) :
    ∃ e, parseResponse (stream.take capacity) = .error e := by
  cases found : Search.search (crlf ++ crlf) (stream.take capacity) with
  | none => exact ⟨_, parseResponse_incomplete found⟩
  | some boundary =>
      have inside : boundary + 4 ≤ (stream.take capacity).length := (Search.search_some found).1
      have later := Search.search_append (by decide) found (stream.drop capacity)
      rw [List.take_append_drop, ← find_zero] at later
      have outside := beyond boundary later
      rw [List.length_take] at inside
      omega

theorem parseResponse_take {capacity boundary : Nat} {stream : Bytes}
    (found : Search.find stream (crlf ++ crlf) 0 = some boundary)
    (inside : boundary + 4 ≤ capacity) :
    parseResponse stream = (parseHead (stream.take (boundary + 4)) boundary).map
        (fun parsed => frameResponse parsed (stream.drop (boundary + 4))) ∧
      parseResponse (stream.take capacity) = (parseHead (stream.take (boundary + 4)) boundary).map
        (fun parsed => frameResponse parsed
          ((stream.drop (boundary + 4)).take (capacity - (boundary + 4)))) := by
  rw [find_zero] at found
  have isHead := isHead_of_search found
  have shape : stream.take (boundary + 4) ++
      (stream.drop (boundary + 4)).take (capacity - (boundary + 4)) = stream.take capacity := by
    rw [← List.take_add, Nat.add_sub_cancel' inside]
  refine ⟨?_, ?_⟩
  · rw [← parseResponse_head isHead, List.take_append_drop]
  · rw [← parseResponse_head isHead, shape]

theorem notTruncated_cut_iff {capacity boundary : Nat} {stream : Bytes}
    (longer : capacity < stream.length)
    (found : Search.find stream (crlf ++ crlf) 0 = some boundary)
    (inside : boundary + 4 ≤ capacity) :
    NotTruncated capacity stream (parseResponse (stream.take capacity)) ↔
      (∃ e, parseResponse stream = .error e) ∨
        ∃ full len, parseResponse stream = .ok full ∧ full.contentLength = some len ∧
          boundary + 4 + len ≤ capacity := by
  obtain ⟨complete, cut⟩ := parseResponse_take found inside
  have shorter : capacity - (boundary + 4) < (stream.drop (boundary + 4)).length := by
    rw [List.length_drop]
    omega
  cases heads : parseHead (stream.take (boundary + 4)) boundary with
  | error e =>
      rw [heads] at complete cut
      rw [cut]
      exact ⟨fun _ => Or.inl ⟨e, complete⟩, fun _ => notTruncated_error capacity stream e⟩
  | ok head =>
      have same := frameResponse_take_iff head shorter
      rw [heads, Except.map] at complete cut
      rw [cut]
      constructor
      · rintro ⟨equal, -⟩
        obtain ⟨full, parsed, -, -, -, body⟩ := equal _ rfl
        rw [complete] at parsed
        cases parsed
        obtain ⟨len, announced, bound⟩ := same.mp body
        refine Or.inr ⟨_, len, complete, ?_, by omega⟩
        rw [frameResponse_length, announced]
      · rintro (⟨e, impossible⟩ | ⟨full, len, parsed, announced, bound⟩)
        · rw [complete] at impossible
          cases impossible
        · rw [complete] at parsed
          cases parsed
          rw [frameResponse_length] at announced
          have body := same.mpr ⟨len, announced, by omega⟩
          refine ⟨?_, ?_⟩
          · intro r done
            cases done
            refine ⟨_, complete, rfl, rfl, ?_, body⟩
            rw [frameResponse_length, frameResponse_length]
          · intro full place parsedFull foundPlace large
            rw [found] at foundPlace
            cases foundPlace
            rw [complete] at parsedFull
            cases parsedFull
            rw [← body, frameResponse_body, announced] at large
            dsimp only at large
            rw [List.length_take, List.length_take] at large
            omega

theorem notTruncated_iff (capacity : Nat) (stream : Bytes) :
    NotTruncated capacity stream (parseResponse (stream.take capacity)) ↔
      Whole capacity stream := by
  unfold Whole
  by_cases fits : stream.length ≤ capacity
  · rw [List.take_of_length_le fits]
    exact ⟨fun _ => Or.inl fits, fun _ => notTruncated_fits fits⟩
  · by_cases beyond : ∀ boundary, Search.find stream (crlf ++ crlf) 0 = some boundary →
        capacity < boundary + 4
    · obtain ⟨e, failed⟩ := parseResponse_take_short beyond
      rw [failed]
      exact ⟨fun _ => Or.inr (Or.inl beyond), fun _ => notTruncated_error capacity stream e⟩
    · obtain ⟨boundary, outside⟩ := not_forall.mp beyond
      obtain ⟨found, inside⟩ := Classical.not_imp.mp outside
      rw [notTruncated_cut_iff (Nat.not_le.mp fits) found (Nat.not_lt.mp inside)]
      constructor
      · rintro (refused | ⟨full, len, parsed, announced, bound⟩)
        · exact Or.inr (Or.inr (Or.inl refused))
        · exact Or.inr (Or.inr (Or.inr ⟨boundary, full, len, found, parsed, announced, bound⟩))
      · rintro (impossible | impossible | refused |
          ⟨other, full, len, foundOther, parsed, announced, bound⟩)
        · exact absurd impossible fits
        · exact absurd impossible beyond
        · exact Or.inl refused
        · rw [found] at foundOther
          cases foundOther
          exact Or.inr ⟨full, len, parsed, announced, bound⟩

/-! ### The client -/

section

variable {σ : Type} {sock : Net.Socket σ}

theorem Client.do_eq (steady : Steady sock) (memory : Vector UInt8 1024) (s : σ) (req : Request)
    (capacity : Nat) (fits : req.wire.length ≤ 1024)
    (sent : (sock.send s req.wire).1 = .ok ()) :
    (Client.do sock memory s req capacity).1 =
      parseResponse ((sock.recv.left (sock.send s req.wire).2).take capacity) := by
  have size : memory.toList.length = 1024 := Vector.length_toList
  rcases buildRequest_eq req memory.toList with ⟨-, built⟩ | ⟨long, -⟩
  · have received := recvLoop_eq steady capacity [] (sock.send s req.wire).2
    rw [List.nil_append, List.length_nil, Nat.sub_zero] at received
    unfold Client.do
    rw [built]
    dsimp only
    rw [List.take_left]
    split
    · next e s' refused =>
        rw [refused] at sent
        cases sent
    · next s' done =>
        rw [done] at received ⊢
        split
        · next e s'' failed =>
            rw [failed] at received
            cases received
        · next raw s'' filled =>
            rw [filled] at received
            rw [Except.ok.inj received]
  · omega

theorem Client.do_unsent (memory : Vector UInt8 1024) (s : σ) (req : Request) (capacity : Nat)
    (unsent : 1024 < req.wire.length ∨ ∃ e, (sock.send s req.wire).1 = .error e) :
    ∃ e, (Client.do sock memory s req capacity).1 = .error e := by
  have size : memory.toList.length = 1024 := Vector.length_toList
  unfold Client.do
  rcases buildRequest_eq req memory.toList with ⟨fits, built⟩ | ⟨long, refused⟩
  · obtain ⟨e, failed⟩ := unsent.resolve_left (by omega)
    rw [built]
    dsimp only
    rw [List.take_left]
    split
    · exact ⟨_, rfl⟩
    · next s' done =>
        rw [done] at failed
        cases failed
  · split
    · exact ⟨_, rfl⟩
    · next count reqbuf built =>
        rw [built] at refused
        cases refused

/-- `Do` reports the complete response, or an error, exactly when the request does
not go out or the buffer holds what the stream announces. -/
theorem client_do_notTruncated_iff (sock : Net.Socket σ) (steady : Steady sock)
    (memory : Vector UInt8 1024) (s : σ) (req : Request) (capacity : Nat) :
    NotTruncated capacity (sock.recv.left (sock.send s req.wire).2)
        (Client.do sock memory s req capacity).1 ↔
      (1024 < req.wire.length ∨ ∃ e, (sock.send s req.wire).1 = .error e) ∨
        Whole capacity (sock.recv.left (sock.send s req.wire).2) := by
  by_cases unsent : 1024 < req.wire.length ∨ ∃ e, (sock.send s req.wire).1 = .error e
  · obtain ⟨e, failed⟩ := Client.do_unsent memory s req capacity unsent
    rw [failed]
    exact ⟨fun _ => Or.inl unsent, fun _ => notTruncated_error capacity _ e⟩
  · obtain ⟨fits, noError⟩ := not_or.mp unsent
    have sent : (sock.send s req.wire).1 = .ok () := by
      cases answer : (sock.send s req.wire).1 with
      | error e => exact absurd ⟨e, answer⟩ noError
      | ok value => rfl
    rw [Client.do_eq steady memory s req capacity (Nat.not_lt.mp fits) sent, notTruncated_iff]
    exact (or_iff_right unsent).symm

end

def cannedSocket : Net.Socket Io.SpanReader :=
  { send := fun s _ => (.ok (), s), recv := Io.spanReader }

theorem cannedSocket_steady : Steady cannedSocket := by
  intro s offered e failed
  cases failed

def rootRequest : Request :=
  { method := .get, host := [0x68], path := [Ascii.slash], headers := [], body := [],
    few := by decide }

def shortAnswer : Bytes :=
  [0x48, 0x54, 0x54, 0x50, 0x2f, 0x31, 0x2e, 0x31, 0x20, 0x32, 0x30, 0x30, 0x20, 0x4f, 0x4b,
    0x0d, 0x0a, 0x0d, 0x0a, 0x61, 0x62]

theorem client_do_whole :
    NotTruncated 64 shortAnswer
      (Client.do cannedSocket (Vector.replicate 1024 7) (Io.SpanReader.construct shortAnswer)
        rootRequest 64).1 :=
  (client_do_notTruncated_iff cannedSocket cannedSocket_steady (Vector.replicate 1024 7)
    (Io.SpanReader.construct shortAnswer) rootRequest 64).mpr (Or.inr (Or.inl (by decide)))

/-- The body of this answer is "ab". With one byte less of room it is "a". -/
theorem client_do_cut :
    (Client.do cannedSocket (Vector.replicate 1024 7) (Io.SpanReader.construct shortAnswer)
        rootRequest 20).1 =
      .ok { status := 200, reason := [0x4f, 0x4b], headers := [], body := [0x61],
            contentLength := none } ∧
    ¬NotTruncated 20 shortAnswer
      (Client.do cannedSocket (Vector.replicate 1024 7) (Io.SpanReader.construct shortAnswer)
        rootRequest 20).1 := by
  have answered : (Client.do cannedSocket (Vector.replicate 1024 7)
      (Io.SpanReader.construct shortAnswer) rootRequest 20).1 =
        .ok { status := 200, reason := [0x4f, 0x4b], headers := [], body := [0x61],
              contentLength := none } := by
    decide +kernel
  have complete : parseResponse shortAnswer =
      .ok { status := 200, reason := [0x4f, 0x4b], headers := [], body := [0x61, 0x62],
            contentLength := none } := by
    decide +kernel
  refine ⟨answered, ?_⟩
  rintro ⟨equal, -⟩
  obtain ⟨full, parsed, -, -, -, body⟩ := equal _ answered
  rw [complete] at parsed
  cases parsed
  cases body

end Etlx.Http
