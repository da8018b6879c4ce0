/-
A whole exchange over the sockets of this repository.

The kernel, or the record layer, moves the request and the response in pieces and has
calls made again as it likes. Whatever it does, a response that `Do` returns is that of
an exchange in which the peer got the request once and the client read what the peer
answered; and every error is that of the request, of an event that broke the connection,
or of the response.
-/

import Etlx.Http.ClientChunks
import Etlx.Net.Sockets

namespace Etlx.Http

open Duplex (Event Inlet Medium Wire)
open Net (Socket posixSocket tlsSocket wireSocket)

theorem noHeaders_few : ([] : List Header).length ≤ maxHeaders := Nat.zero_le _

def Request.ofGet (host path : Bytes) : Request :=
  { method := .get, host := host, path := path, headers := [], body := [], few := noHeaders_few }

def Client.get {σ : Type} (sock : Socket σ) (memory : Vector UInt8 1024) (s : σ)
    (host path recvBuf : Bytes) : Result Response × Bytes × σ :=
  Client.doInto sock memory s (Request.ofGet host path) recvBuf

theorem recvLoop_filled {σ : Type} (sock : Socket σ) (capacity : Nat) (received : Bytes) (s : σ)
    (raw : Bytes) (filled : (recvLoop sock capacity received s).1 = .ok raw) :
    raw = received ++ (sock.recv.left s).take (capacity - received.length) := by
  fun_induction recvLoop sock capacity received s with
  | case1 received s room e next read => cases filled
  | case2 received s room next read =>
      have nothing := sock.recv.ends s (capacity - received.length) (by omega)
        (congrArg Prod.fst read)
      rw [nothing, List.take_nil, List.append_nil]
      exact (Except.ok.inj filled).symm
  | case3 received s room byte bytes next read ih =>
      have got := congrArg Prod.fst read
      have fits := sock.recv.fits s _ _ got
      have front := sock.recv.delivers s _ _ got
      rw [read] at front
      have length : (received ++ byte :: bytes).length =
          received.length + (byte :: bytes).length := List.length_append
      rw [ih filled, front, List.take_append, List.take_of_length_le fits, List.append_assoc,
        length, Nat.sub_add_eq]
  | case4 received s full =>
      have none : capacity - received.length = 0 := by omega
      rw [none, List.take_zero, List.append_nil]
      exact (Except.ok.inj filled).symm

section

variable {ρ κ : Type} (outlet : Medium ρ κ Error) (inlet : Inlet ρ κ Error)
  (peer : Bytes → Bytes)

theorem recvLoop_wire (capacity : Nat) (received : Bytes) (wire : Wire UInt8 ρ) :
    (recvLoop (wireSocket outlet inlet peer) capacity received wire).2.outgoing = wire.outgoing ∧
      ∀ e, (recvLoop (wireSocket outlet inlet peer) capacity received wire).1 = .error e →
        ∃ event ∈ wire.events, inlet.Breaks event e := by
  fun_induction recvLoop (wireSocket outlet inlet peer) capacity received wire with
  | case1 received wire room e next read =>
      have receives := wire.recv_receives inlet (capacity - received.length)
      have same : wire.recv inlet.toMedium (capacity - received.length) = (.error e, next) := read
      rw [same] at receives
      refine ⟨receives.keeps, ?_⟩
      intro other failed
      cases failed
      exact (receives.fails e rfl).2
  | case2 received wire room next read =>
      have receives := wire.recv_receives inlet (capacity - received.length)
      have same : wire.recv inlet.toMedium (capacity - received.length) = (.ok [], next) := read
      rw [same] at receives
      refine ⟨receives.keeps, ?_⟩
      intro e impossible
      cases impossible
  | case3 received wire room byte bytes next read ih =>
      have receives := wire.recv_receives inlet (capacity - received.length)
      have same : wire.recv inlet.toMedium (capacity - received.length) =
        (.ok (byte :: bytes), next) := read
      rw [same] at receives
      refine ⟨ih.1.trans receives.keeps, ?_⟩
      intro e failed
      obtain ⟨event, member, breaks⟩ := ih.2 e failed
      exact ⟨event, receives.ahead.subset member, breaks⟩
  | case4 received wire full =>
      refine ⟨rfl, ?_⟩
      intro e impossible
      cases impossible

/-- What an exchange on a fresh connection comes to, with what `BuildRequest` came to. -/
structure Exchange (built : Result Nat) (events : List (Event ρ)) (req : Request)
    (capacity : Nat) (outcome : Result Response) (after : Wire UInt8 ρ) : Prop where
  sent : after.outgoing <+: req.wire
  answered : ∀ r, outcome = .ok r →
    after.outgoing = req.wire ∧ parseResponse ((peer req.wire).take capacity) = .ok r
  unbroken : req.wire.length ≤ 1024 →
    (∀ event ∈ events, ∀ e, ¬outlet.Breaks event e ∧ ¬inlet.Breaks event e) →
    after.outgoing = req.wire ∧ outcome = parseResponse ((peer req.wire).take capacity)
  unbuilt : (∃ e, built = .error e) ↔ 1024 < req.wire.length
  refuses : ∀ e, built = .error e → outcome = .error e ∧ after.outgoing = []
  fails : ∀ e, outcome = .error e → built = .error e ∨
    (∃ event ∈ events, outlet.Breaks event e ∨ inlet.Breaks event e) ∨
    parseResponse ((peer req.wire).take capacity) = .error e

/-- The parts of an exchange whose request fits, by how far it came. -/
inductive Course (events : List (Event ρ)) (req : Request) (capacity : Nat) :
    Result Response → Wire UInt8 ρ → Prop
  | unsent (e : Error) (after : Wire UInt8 ρ) (front : after.outgoing <+: req.wire)
      (broke : ∃ event ∈ events, outlet.Breaks event e) :
      Course events req capacity (.error e) after
  | cut (e : Error) (after : Wire UInt8 ρ) (whole : after.outgoing = req.wire)
      (broke : ∃ event ∈ events, inlet.Breaks event e) : Course events req capacity (.error e) after
  | done (after : Wire UInt8 ρ) (whole : after.outgoing = req.wire) :
      Course events req capacity (parseResponse ((peer req.wire).take capacity)) after

theorem Client.do_course (memory : Vector UInt8 1024) (events : List (Event ρ)) (req : Request)
    (capacity : Nat) (fits : req.wire.length ≤ 1024) :
    Course outlet inlet peer events req capacity
      (Client.do (wireSocket outlet inlet peer) memory (Wire.opened events) req capacity).1
      (Client.do (wireSocket outlet inlet peer) memory (Wire.opened events) req capacity).2 := by
  have size : memory.toList.length = 1024 := Vector.length_toList
  rcases buildRequest_eq req memory.toList with ⟨-, built⟩ | ⟨long, -⟩
  · have sends := Wire.send_sends outlet (Wire.opened events) req.wire
    obtain ⟨front, begins, gone, whole⟩ := sends.gone
    have sent : ∃ status after,
        (wireSocket outlet inlet peer).send (Wire.opened events) req.wire = (status, after) ∧
        after.outgoing = front ∧ after.incoming = peer front ∧ after.events <:+ events ∧
        status = ((Wire.opened events).send outlet req.wire).1 := by
      refine ⟨_, _, rfl, gone, ?_, sends.ahead, rfl⟩
      change [] ++ peer (List.drop 0 _) = peer front
      rw [List.nil_append, List.drop_zero, gone]
      rfl
    obtain ⟨status, after, sent, outgoing, incoming, ahead, same⟩ := sent
    unfold Client.do
    rw [built]
    dsimp only
    rw [List.take_left, sent]
    cases status with
    | error e =>
        exact .unsent e after (by rw [outgoing]; exact begins) (sends.fails e same.symm)
    | ok value =>
        have all : front = req.wire := whole same.symm
        obtain ⟨kept, breaks⟩ := recvLoop_wire outlet inlet peer capacity [] after
        have filled := fun raw =>
          recvLoop_filled (wireSocket outlet inlet peer) capacity [] after raw
        dsimp only
        rcases received : recvLoop (wireSocket outlet inlet peer) capacity [] after with
          ⟨_ | raw, t⟩
        · rw [received] at kept breaks
          obtain ⟨event, member, broke⟩ := breaks _ rfl
          exact .cut _ t (by rw [kept, outgoing, all]) ⟨event, ahead.subset member, broke⟩
        · rw [received] at kept filled
          have stream : raw = (peer req.wire).take capacity := by
            have front := filled raw rfl
            rw [List.nil_append, List.length_nil, Nat.sub_zero] at front
            rw [front]
            change after.incoming.take capacity = _
            rw [incoming, all]
          rw [stream]
          exact .done t (by rw [kept, outgoing, all])
  · omega

theorem Client.do_exchange (memory : Vector UInt8 1024) (events : List (Event ρ)) (req : Request)
    (capacity : Nat) :
    Exchange outlet inlet peer (buildRequest req memory.toList).1 events req capacity
      (Client.do (wireSocket outlet inlet peer) memory (Wire.opened events) req capacity).1
      (Client.do (wireSocket outlet inlet peer) memory (Wire.opened events) req capacity).2 := by
  have size : memory.toList.length = 1024 := Vector.length_toList
  by_cases fits : req.wire.length ≤ 1024
  · have built : (buildRequest req memory.toList).1 = .ok req.wire.length := by
      rcases buildRequest_eq req memory.toList with ⟨-, whole⟩ | ⟨long, -⟩
      · rw [whole]
      · omega
    have unbuilt : (∃ e, (.ok req.wire.length : Result Nat) = .error e) ↔ 1024 < req.wire.length :=
      iff_of_false (fun ⟨_, impossible⟩ => by cases impossible) (Nat.not_lt.mpr fits)
    rw [built]
    have course := Client.do_course outlet inlet peer memory events req capacity fits
    revert course
    rcases Client.do (wireSocket outlet inlet peer) memory (Wire.opened events) req capacity with
      ⟨outcome, after⟩
    intro course
    cases course with
    | unsent e after front broke =>
        obtain ⟨event, member, breaks⟩ := broke
        exact
          { sent := front
            answered := by intro r impossible; cases impossible
            unbroken := fun _ calm => absurd breaks (calm event member e).1
            unbuilt := unbuilt
            refuses := by intro e impossible; cases impossible
            fails := by
              intro other same
              cases same
              exact .inr (.inl ⟨event, member, .inl breaks⟩) }
    | cut e after whole broke =>
        obtain ⟨event, member, breaks⟩ := broke
        exact
          { sent := ⟨[], (List.append_nil _).trans whole⟩
            answered := by intro r impossible; cases impossible
            unbroken := fun _ calm => absurd breaks (calm event member e).2
            unbuilt := unbuilt
            refuses := by intro e impossible; cases impossible
            fails := by
              intro other same
              cases same
              exact .inr (.inl ⟨event, member, .inr breaks⟩) }
    | done after whole =>
        exact
          { sent := ⟨[], (List.append_nil _).trans whole⟩
            answered := fun r parsed => ⟨whole, parsed⟩
            unbroken := fun _ _ => ⟨whole, rfl⟩
            unbuilt := unbuilt
            refuses := by intro e impossible; cases impossible
            fails := fun e parsed => .inr (.inr parsed) }
  · have long : 1024 < req.wire.length := Nat.not_le.mp fits
    have refused : (buildRequest req memory.toList).1 =
        fail category Code.bufferTooSmall.value "request buffer too small" := by
      rcases buildRequest_eq req memory.toList with ⟨short, -⟩ | ⟨-, refused⟩
      · omega
      · exact refused
    have unsent : Client.do (wireSocket outlet inlet peer) memory (Wire.opened events) req
        capacity = (fail category Code.bufferTooSmall.value "request buffer too small",
          Wire.opened events) := by
      unfold Client.do
      split
      · next e reqbuf built =>
          rw [built] at refused
          rw [Except.error.inj refused]
          rfl
      · next count reqbuf built =>
          rw [built] at refused
          cases refused
    rw [unsent, refused]
    exact
      { sent := List.nil_prefix
        answered := by intro r impossible; cases impossible
        unbroken := fun short => absurd short fits
        unbuilt := iff_of_true ⟨_, rfl⟩ long
        refuses := by
          intro e same
          cases same
          exact ⟨rfl, rfl⟩
        fails := by
          intro e same
          cases same
          exact .inl rfl }

end

/-- However the kernel or the record layer cuts and interrupts it, an exchange that ends with
a response is one whole exchange with the peer. -/
theorem client_over_sockets (memory : Vector UInt8 1024) (peer : Bytes → Bytes) (req : Request)
    (recvBuf : Bytes) :
    (∀ (strerror : Int → Bytes) (events : List (Event Int)),
      Exchange (Net.PosixTcpSocket.outlet strerror) (Net.PosixTcpSocket.inlet strerror) peer
        (buildRequest req memory.toList).1 events req recvBuf.length
        (Client.doInto (posixSocket strerror peer) memory (Wire.opened events) req recvBuf).1
        (Client.doInto (posixSocket strerror peer) memory (Wire.opened events) req recvBuf).2.2) ∧
    (∀ (alert : Bool) (events : List (Event Net.TlsSocket.Refusal)),
      Exchange Net.TlsSocket.outlet (Net.TlsSocket.inlet alert) peer
        (buildRequest req memory.toList).1 events req recvBuf.length
        (Client.doInto (tlsSocket alert peer) memory (Wire.opened events) req recvBuf).1
        (Client.doInto (tlsSocket alert peer) memory (Wire.opened events) req recvBuf).2.2) := by
  constructor
  · intro strerror events
    obtain ⟨outcome, after⟩ := Client.doInto_eq (posixSocket strerror peer) memory
      (Wire.opened events) req recvBuf
    rw [outcome, after]
    exact Client.do_exchange _ _ peer memory events req recvBuf.length
  · intro alert events
    obtain ⟨outcome, after⟩ := Client.doInto_eq (tlsSocket alert peer) memory
      (Wire.opened events) req recvBuf
    rw [outcome, after]
    exact Client.do_exchange _ _ peer memory events req recvBuf.length

theorem Request.ofGet_wire (host path : Bytes) :
    (Request.ofGet host path).wire = ascii "GET " ++ (path ++ (ascii " HTTP/1.1\r\nHost: " ++
      (host ++ ascii "\r\nConnection: close\r\n\r\n"))) := by
  have get : ascii "GET " = Method.get.name ++ [Ascii.space] := by decide
  have version : ascii " HTTP/1.1\r\nHost: " = versionText ++ (crlf ++ hostText) := by decide
  have close : ascii "\r\nConnection: close\r\n\r\n" =
      crlf ++ (connectionText ++ (crlf ++ crlf)) := by
    decide
  rw [get, version, close]
  change (Method.get.name ++ Ascii.space :: (path ++ versionText) ++ crlf) ++
    ((hostText ++ host ++ crlf) ++ ((connectionText ++ crlf) ++ [])) ++ (crlf ++ []) = _
  simp only [List.append_assoc, List.append_nil, List.cons_append, List.nil_append]

theorem Client.get_sends (strerror : Int → Bytes) (peer : Bytes → Bytes)
    (memory : Vector UInt8 1024) (events : List (Event Int)) (host path recvBuf : Bytes)
    {r : Response}
    (answered : (Client.get (posixSocket strerror peer) memory (Wire.opened events) host path
      recvBuf).1 = .ok r) :
    (Client.get (posixSocket strerror peer) memory (Wire.opened events) host path
      recvBuf).2.2.outgoing = ascii "GET " ++ (path ++ (ascii " HTTP/1.1\r\nHost: " ++
        (host ++ ascii "\r\nConnection: close\r\n\r\n"))) := by
  obtain ⟨outcome, after⟩ := Client.doInto_eq (posixSocket strerror peer) memory
    (Wire.opened events) (Request.ofGet host path) recvBuf
  unfold Client.get at answered ⊢
  rw [outcome] at answered
  rw [after, ← Request.ofGet_wire]
  exact ((Client.do_exchange _ _ peer memory events _ recvBuf.length).answered r answered).1

/-- One byte, an interruption, the rest of the request; and the answer in pieces of four. -/
example :
    (Client.get (posixSocket (fun _ => []) (fun _ => shortAnswer)) (Vector.replicate 1024 7)
      (Wire.opened [.moves 0, .refuses Net.PosixTcpSocket.eintr, .moves 1023, .moves 3, .moves 3])
      [0x68] [Ascii.slash] (List.replicate 64 0)).1 =
    .ok { status := 200, reason := [0x4f, 0x4b], headers := [], body := [0x61, 0x62],
          contentLength := none } := by
  decide +kernel

end Etlx.Http
