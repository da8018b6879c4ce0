/-
The life of the descriptors of `PosixTcpSocket`.

A program makes and destroys sockets and calls them in any order; what it asks of the
kernel is a log. The kernel promises one thing: `::socket` does not return a
descriptor that is open. Then every descriptor that is used is open, the open ones are
those that the sockets hold, each held by one of them, and none is left behind when the
sockets are gone. The class can be copied, and a copy of an open socket breaks this.
-/

import Etlx.Lib.Machine
import Etlx.Lib.Transition
import Etlx.Net.Sockets
import Mathlib.Logic.Function.Basic

namespace Etlx.Net

open Push (Outcome push)
open Transition (Each each_nil each_snoc)

namespace PosixTcpSocket

inductive Syscall
  | getaddrinfo (node service : Bytes)
  | socket (fd : Int)
  | connect (fd : Int) (result : Int)
  | freeaddrinfo
  | send (fd : Int) (offered : Nat)
  | recv (fd : Int) (offered : Nat)
  | close (fd : Int)
deriving DecidableEq, Repr

structure Try where
  socket : Int
  connect : Int
deriving DecidableEq, Repr

/-! ### The calls -/

def close (fd : Int) : Int × List Syscall :=
  if 0 ≤ fd then (-1, [.close fd]) else (fd, [])

def tryAddresses (fd : Int) : List Try → Int × List Syscall
  | [] => (fd, [])
  | ai :: rest =>
      if ai.socket < 0 then
        let (found, calls) := tryAddresses ai.socket rest
        (found, .socket ai.socket :: calls)
      else if ai.connect = 0 then
        (ai.socket, [.socket ai.socket, .connect ai.socket ai.connect])
      else
        let (found, calls) := tryAddresses (-1) rest
        (found, .socket ai.socket :: .connect ai.socket ai.connect :: .close ai.socket :: calls)

def hostCapacity : Nat := 256

def hostName (host : Bytes) : Bytes := (host.take hostCapacity).takeWhile (fun byte => byte ≠ 0)

/-- `Connect`, with `fd_` after it. `getaddrinfo` fails, or gives a list of addresses. -/
def connect (fd : Int) (host : Bytes) (port : UInt16) (resolved : Option (List Try)) :
    Status × Int × List Syscall :=
  let (fd, closing) := close fd
  let asking := closing ++ [.getaddrinfo (hostName host) (ascii (toString port.toNat))]
  match resolved with
  | none | some [] =>
      (fail category Code.resolveFailed.value "getaddrinfo failed", fd, asking)
  | some res =>
      let (found, trying) := tryAddresses (-1) res
      let calls := asking ++ trying ++ [.freeaddrinfo]
      if found < 0 then (fail category Code.connectFailed.value "connect failed", fd, calls)
      else (.ok (), found, calls)

/-- `Recv`, as far as its loop has come. -/
def recv (strerror : Int → Bytes) (answers : List SendAnswer) : Option (Result Nat) × Nat :=
  Duplex.retry (recvVerdict strerror) answers

end PosixTcpSocket

/-! ### A program with sockets -/

open PosixTcpSocket

/-- The sockets that are alive with their `fd_`, and the calls made so far. -/
structure Program where
  sockets : Nat → Option Int
  log : List Syscall

inductive Action
  | construct (id : Nat)
  | copy (source id : Nat)
  | connect (id : Nat) (host : Bytes) (port : UInt16) (resolved : Option (List Try))
  | send (id : Nat) (src : Bytes) (answers : List SendAnswer)
  | recv (id : Nat) (size : Nat) (answers : List SendAnswer)
  | close (id : Nat)
  | destroy (id : Nat)
deriving DecidableEq, Repr

/-- What a call returned; nothing where it has not returned or there is no such socket. -/
inductive Reply
  | nothing
  | status (status : Status)
  | received (count : Result Nat)

def Program.start : Program := { sockets := fun _ => none, log := [] }

def Program.calls (program : Program) (id : Nat) (fd : Option Int) (calls : List Syscall) :
    Program :=
  { sockets := Function.update program.sockets id fd, log := program.log ++ calls }

variable (strerror : Int → Bytes)

def Program.step (program : Program) : Action → Reply × Program
  | .construct id =>
      match program.sockets id with
      | some _ => (.nothing, program)
      | none => (.nothing, program.calls id (some (-1)) [])
  | .copy source id =>
      match program.sockets source, program.sockets id with
      | some fd, none => (.nothing, program.calls id (some fd) [])
      | _, _ => (.nothing, program)
  | .connect id host port resolved =>
      match program.sockets id with
      | none => (.nothing, program)
      | some fd =>
          let (status, fd, calls) := PosixTcpSocket.connect fd host port resolved
          (.status status, program.calls id (some fd) calls)
  | .send id src answers =>
      match program.sockets id with
      | none => (.nothing, program)
      | some fd =>
          let sent := PosixTcpSocket.send strerror src answers
          (match sent.result with
            | none => .nothing
            | some status => .status status,
            program.calls id (some fd)
              (sent.attempts.map fun attempt => .send fd attempt.presented.length))
  | .recv id size answers =>
      match program.sockets id with
      | none => (.nothing, program)
      | some fd =>
          let (result, count) := PosixTcpSocket.recv strerror answers
          (match result with
            | none => .nothing
            | some count => .received count,
            program.calls id (some fd) (List.replicate count (.recv fd size)))
  | .close id =>
      match program.sockets id with
      | none => (.nothing, program)
      | some fd =>
          let (fd, calls) := PosixTcpSocket.close fd
          (.nothing, program.calls id (some fd) calls)
  | .destroy id =>
      match program.sockets id with
      | none => (.nothing, program)
      | some fd => (.nothing, program.calls id none (PosixTcpSocket.close fd).2)

/-! ### The kernel -/

inductive Descriptor
  | closed
  | opened
  | connected
deriving DecidableEq, Repr

def Descriptor.after (table : Int → Descriptor) : Syscall → Int → Descriptor
  | .socket fd => if 0 ≤ fd then Function.update table fd .opened else table
  | .connect fd result => if result = 0 then Function.update table fd .connected else table
  | .close fd => Function.update table fd .closed
  | _ => table

def table (log : List Syscall) : Int → Descriptor :=
  log.foldl Descriptor.after (fun _ => .closed)

/-- What the kernel promises of a call. -/
def Promised (before : List Syscall) : Syscall → Prop
  | .socket fd => 0 ≤ fd → table before fd = .closed
  | _ => True

/-- What the program owes the kernel with a call. -/
def Owed (before : List Syscall) : Syscall → Prop
  | .connect fd _ => table before fd = .opened
  | .close fd => table before fd ≠ .closed
  | .send fd _ => 0 ≤ fd → table before fd = .connected
  | .recv fd _ => 0 ≤ fd → table before fd = .connected
  | _ => True

theorem table_snoc (log : List Syscall) (call : Syscall) :
    table (log ++ [call]) = Descriptor.after (table log) call := by
  rw [table, List.foldl_append]
  rfl

/-- The log is in order, and the descriptors that are not closed are connected and held. -/
structure Kept (log : List Syscall) (Held : Int → Prop) : Prop where
  owed : Each Owed log
  held : ∀ fd, Held fd → table log fd = .connected
  free : ∀ fd, ¬Held fd → table log fd = .closed

theorem negativeOne : (-1 : Int) < 0 := by decide

theorem promised_front {log calls : List Syscall} {call : Syscall}
    (promised : Each Promised (log ++ call :: calls)) :
    Promised log call ∧ Each Promised ((log ++ [call]) ++ calls) := by
  refine ⟨promised log call calls rfl, ?_⟩
  rw [List.append_assoc]
  exact promised

theorem Kept.idle {log : List Syscall} {Held : Int → Prop} (kept : Kept log Held)
    {call : Syscall} (owed : Owed log call)
    (same : Descriptor.after (table log) call = table log) : Kept (log ++ [call]) Held where
  owed := each_snoc.mpr ⟨kept.owed, owed⟩
  held := by
    intro fd holds
    rw [table_snoc, same]
    exact kept.held fd holds
  free := by
    intro fd not
    rw [table_snoc, same]
    exact kept.free fd not

theorem Kept.idles {log : List Syscall} {Held : Int → Prop} (kept : Kept log Held)
    (calls : List Syscall)
    (owed : ∀ call ∈ calls, ∀ before, table before = table log → Owed before call)
    (same : ∀ call ∈ calls, Descriptor.after (table log) call = table log) :
    Kept (log ++ calls) Held := by
  induction calls generalizing log with
  | nil =>
      rw [List.append_nil]
      exact kept
  | cons call calls ih =>
      have table_same : table (log ++ [call]) = table log := by
        rw [table_snoc]
        exact same call List.mem_cons_self
      have next := kept.idle (owed call List.mem_cons_self log rfl)
        (same call List.mem_cons_self)
      have rest := ih next
        (by
          intro later member before equal
          exact owed later (List.mem_cons_of_mem _ member) before (equal.trans table_same))
        (by
          intro later member
          rw [table_same]
          exact same later (List.mem_cons_of_mem _ member))
      rw [List.append_assoc] at rest
      exact rest

theorem Kept.closes {log : List Syscall} {Held : Int → Prop} (kept : Kept log Held) {fd : Int}
    (holds : Held fd) : Kept (log ++ [.close fd]) (fun other => Held other ∧ other ≠ fd) where
  owed := by
    refine each_snoc.mpr ⟨kept.owed, ?_⟩
    change table log fd ≠ .closed
    rw [kept.held fd holds]
    decide
  held := by
    intro other still
    rw [table_snoc]
    change Function.update (table log) fd .closed other = .connected
    rw [Function.update_of_ne still.2]
    exact kept.held other still.1
  free := by
    intro other gone
    rw [table_snoc]
    change Function.update (table log) fd .closed other = .closed
    by_cases same : other = fd
    · rw [same, Function.update_self]
    · rw [Function.update_of_ne same]
      exact kept.free other (fun holds => gone ⟨holds, same⟩)

/-- What the two calls for one address leave, before the second has its result. -/
theorem Kept.opens {log : List Syscall} {Held : Int → Prop} (kept : Kept log Held) {fd : Int}
    (valid : 0 ≤ fd) (promised : Promised log (.socket fd)) (result : Int) :
    ¬Held fd ∧ Each Owed (log ++ [.socket fd] ++ [.connect fd result]) ∧
      table (log ++ [.socket fd] ++ [.connect fd result]) =
        Function.update (table log) fd (if result = 0 then .connected else .opened) := by
  have closed : table log fd = .closed := promised valid
  have opened : table (log ++ [.socket fd]) = Function.update (table log) fd .opened := by
    rw [table_snoc, Descriptor.after, if_pos valid]
  refine ⟨?_, ?_, ?_⟩
  · intro holds
    rw [kept.held fd holds] at closed
    cases closed
  · refine each_snoc.mpr ⟨each_snoc.mpr ⟨kept.owed, trivial⟩, ?_⟩
    change table _ fd = .opened
    rw [opened, Function.update_self]
  · rw [table_snoc, Descriptor.after, opened]
    split
    · rw [Function.update_idem]
    · rfl

theorem Kept.connects {log : List Syscall} {Held : Int → Prop} (kept : Kept log Held) {fd : Int}
    (valid : 0 ≤ fd) (promised : Promised log (.socket fd)) {result : Int} (done : result = 0) :
    ¬Held fd ∧
      Kept (log ++ [.socket fd, .connect fd result]) (fun other => Held other ∨ other = fd) := by
  obtain ⟨fresh, owed, after⟩ := kept.opens valid promised result
  rw [List.append_assoc, List.singleton_append] at owed after
  rw [if_pos done] at after
  refine ⟨fresh, owed, ?_, ?_⟩
  · intro other holds
    rw [after]
    by_cases same : other = fd
    · rw [same, Function.update_self]
    · rw [Function.update_of_ne same]
      exact kept.held other (holds.resolve_right same)
  · intro other free
    obtain ⟨not, different⟩ := not_or.mp free
    rw [after, Function.update_of_ne different]
    exact kept.free other not

theorem Kept.abandons {log : List Syscall} {Held : Int → Prop} (kept : Kept log Held) {fd : Int}
    (valid : 0 ≤ fd) (promised : Promised log (.socket fd)) {result : Int} (failed : result ≠ 0) :
    Kept (log ++ [.socket fd, .connect fd result, .close fd]) Held := by
  obtain ⟨fresh, owed, after⟩ := kept.opens valid promised result
  rw [List.append_assoc, List.singleton_append] at owed after
  rw [if_neg failed] at after
  have closed : table log fd = .closed := kept.free fd fresh
  have split : log ++ [.socket fd, .connect fd result, .close fd] =
      (log ++ [.socket fd, .connect fd result]) ++ [.close fd] := by
    rw [List.append_assoc]
    rfl
  have back : table (log ++ [.socket fd, .connect fd result, .close fd]) = table log := by
    rw [split, table_snoc, Descriptor.after, after, Function.update_idem, ← closed,
      Function.update_eq_self]
  refine ⟨?_, ?_, ?_⟩
  · rw [split]
    refine each_snoc.mpr ⟨owed, ?_⟩
    change table _ fd ≠ .closed
    rw [after, Function.update_self]
    decide
  · rw [back]
    exact kept.held
  · rw [back]
    exact kept.free

theorem Kept.tries {log : List Syscall} {Held : Int → Prop} (kept : Kept log Held) {fd : Int}
    (negative : fd < 0) (res : List Try)
    (promised : Each Promised (log ++ (tryAddresses fd res).2)) :
    ((tryAddresses fd res).1 < 0 ∧ Kept (log ++ (tryAddresses fd res).2) Held) ∨
      (0 ≤ (tryAddresses fd res).1 ∧ ¬Held (tryAddresses fd res).1 ∧
        Kept (log ++ (tryAddresses fd res).2)
          (fun other => Held other ∨ other = (tryAddresses fd res).1)) := by
  induction res generalizing log fd with
  | nil =>
      left
      rw [tryAddresses, List.append_nil]
      exact ⟨negative, kept⟩
  | cons ai rest ih =>
      rw [tryAddresses] at promised ⊢
      by_cases refused : ai.socket < 0
      · rw [if_pos refused] at promised ⊢
        obtain ⟨promise, later⟩ := promised_front promised
        have idle : Kept (log ++ [.socket ai.socket]) Held := by
          apply kept.idle
          · exact trivial
          · rw [Descriptor.after, if_neg (Int.not_le.mpr refused)]
        have rest := ih idle refused later
        rw [List.append_assoc] at rest
        exact rest
      · have valid : 0 ≤ ai.socket := Int.not_lt.mp refused
        rw [if_neg refused] at promised ⊢
        by_cases connects : ai.connect = 0
        · rw [if_pos connects] at promised ⊢
          right
          exact ⟨valid, kept.connects valid (promised_front promised).1 connects⟩
        · rw [if_neg connects] at promised ⊢
          have abandoned := kept.abandons valid (promised_front promised).1 connects
          have rest := ih abandoned negativeOne (by rw [List.append_assoc]; exact promised)
          rw [List.append_assoc] at rest
          exact rest

def AllPromised (before : List Syscall) : List Syscall → Prop
  | [] => True
  | call :: calls => Promised before call ∧ AllPromised (before ++ [call]) calls

theorem AllPromised.each {before calls : List Syscall} (earlier : Each Promised before)
    (promised : AllPromised before calls) : Each Promised (before ++ calls) := by
  induction calls generalizing before with
  | nil =>
      rw [List.append_nil]
      exact earlier
  | cons call calls ih =>
      have rest := ih (each_snoc.mpr ⟨earlier, promised.1⟩) promised.2
      rw [List.append_assoc] at rest
      exact rest

theorem Kept.congr {log : List Syscall} {Held Held' : Int → Prop} (kept : Kept log Held)
    (same : ∀ fd, Held' fd ↔ Held fd) : Kept log Held' where
  owed := kept.owed
  held := fun fd holds => kept.held fd ((same fd).mp holds)
  free := fun fd not => kept.free fd (fun holds => not ((same fd).mpr holds))

theorem Kept.close {log : List Syscall} {Held : Int → Prop} (kept : Kept log Held) {fd : Int}
    (holds : 0 ≤ fd → Held fd) (valid : ∀ other, Held other → 0 ≤ other) :
    (close fd).1 < 0 ∧ Kept (log ++ (close fd).2) (fun other => Held other ∧ other ≠ fd) := by
  unfold PosixTcpSocket.close
  split
  · next nonneg =>
      refine ⟨?_, kept.closes (holds nonneg)⟩
      exact negativeOne
  · next negative =>
      refine ⟨Int.not_le.mp negative, ?_⟩
      rw [List.append_nil]
      apply kept.congr
      intro other
      refine and_iff_left_of_imp ?_
      rintro held rfl
      exact negative (valid other held)

theorem Kept.connect {log : List Syscall} {Held : Int → Prop} (kept : Kept log Held) {fd : Int}
    (holds : 0 ≤ fd → Held fd) (valid : ∀ other, Held other → 0 ≤ other) (host : Bytes)
    (port : UInt16) (resolved : Option (List Try)) {status : Status} {found : Int}
    {calls : List Syscall} (connected : connect fd host port resolved = (status, found, calls))
    (promised : Each Promised (log ++ calls)) :
    (found < 0 ∧ (∃ e, status = .error e) ∧
      Kept (log ++ calls) (fun other => Held other ∧ other ≠ fd)) ∨
    (0 ≤ found ∧ status = .ok () ∧ ¬(Held found ∧ found ≠ fd) ∧
      Kept (log ++ calls) (fun other => (Held other ∧ other ≠ fd) ∨ other = found)) := by
  obtain ⟨negative, closed⟩ := kept.close holds valid
  have asked : Kept (log ++ (PosixTcpSocket.close fd).2 ++
      [.getaddrinfo (hostName host) (ascii (toString port.toNat))])
      (fun other => Held other ∧ other ≠ fd) := by
    apply closed.idle
    · exact trivial
    · rfl
  rw [List.append_assoc] at asked
  unfold PosixTcpSocket.connect at connected
  dsimp only at connected
  split at connected
  · cases connected
    exact .inl ⟨negative, ⟨_, rfl⟩, asked⟩
  · cases connected
    exact .inl ⟨negative, ⟨_, rfl⟩, asked⟩
  · next res _some =>
      have shape : log ++ (((PosixTcpSocket.close fd).2 ++
          [.getaddrinfo (hostName host) (ascii (toString port.toNat))]) ++
            (tryAddresses (-1) res).2 ++ [.freeaddrinfo]) =
          (log ++ ((PosixTcpSocket.close fd).2 ++
            [.getaddrinfo (hostName host) (ascii (toString port.toNat))]) ++
              (tryAddresses (-1) res).2) ++ [.freeaddrinfo] := by
        simp only [List.append_assoc]
      have freed : ∀ {Held' : Int → Prop}, Kept (log ++ ((PosixTcpSocket.close fd).2 ++
          [.getaddrinfo (hostName host) (ascii (toString port.toNat))]) ++
            (tryAddresses (-1) res).2) Held' →
          Kept (log ++ (((PosixTcpSocket.close fd).2 ++
            [.getaddrinfo (hostName host) (ascii (toString port.toNat))]) ++
              (tryAddresses (-1) res).2 ++ [.freeaddrinfo])) Held' := by
        intro Held' tried
        rw [shape]
        apply tried.idle
        · exact trivial
        · rfl
      split at connected
      · next failed =>
          cases connected
          rw [shape] at promised
          rcases asked.tries (by decide) res (promised.of_prefix ⟨_, rfl⟩) with
            ⟨-, tried⟩ | ⟨nonneg, -, -⟩
          · exact .inl ⟨negative, ⟨_, rfl⟩, freed tried⟩
          · exact absurd failed (Int.not_lt.mpr nonneg)
      · next done =>
          cases connected
          rw [shape] at promised
          rcases asked.tries (by decide) res (promised.of_prefix ⟨_, rfl⟩) with
            ⟨failed, -⟩ | ⟨nonneg, fresh, tried⟩
          · exact absurd failed done
          · exact .inr ⟨nonneg, rfl, fresh, freed tried⟩

/-! ### Programs -/

def Program.Holds (program : Program) (fd : Int) : Prop :=
  0 ≤ fd ∧ ∃ id, program.sockets id = some fd

def Program.HoldsElsewhere (program : Program) (id : Nat) (fd : Int) : Prop :=
  0 ≤ fd ∧ ∃ other, other ≠ id ∧ program.sockets other = some fd

/-- What the calls keep: each open descriptor is connected and held by one socket, and every
call of the kernel was in order. -/
structure Conserved (program : Program) : Prop where
  kept : Kept program.log program.Holds
  alone : ∀ id other fd, 0 ≤ fd → program.sockets id = some fd →
    program.sockets other = some fd → id = other

/-- The action does not copy a socket that is open. -/
def Unshared (program : Program) : Action → Prop
  | .copy source _ => ∀ fd, program.sockets source = some fd → fd < 0
  | _ => True

theorem conserved_start : Conserved Program.start where
  kept :=
    { owed := each_nil _
      held := by
        rintro fd ⟨-, id, impossible⟩
        cases impossible
      free := fun _ _ => rfl }
  alone := by
    intro id other fd _ impossible
    cases impossible

theorem Conserved.elsewhere {program : Program} (conserved : Conserved program) {id : Nat}
    {fd : Int} (alive : program.sockets id = some fd) (other : Int) :
    program.HoldsElsewhere id other ↔ program.Holds other ∧ other ≠ fd := by
  constructor
  · rintro ⟨nonneg, place, different, held⟩
    refine ⟨⟨nonneg, place, held⟩, ?_⟩
    rintro rfl
    exact different (conserved.alone place id other nonneg held alive)
  · rintro ⟨⟨nonneg, place, held⟩, different⟩
    refine ⟨nonneg, place, ?_, held⟩
    rintro rfl
    rw [alive] at held
    cases held
    exact different rfl

theorem Program.calls_self (program : Program) (id : Nat) (fd : Option Int)
    (calls : List Syscall) : (program.calls id fd calls).sockets id = fd := by
  change Function.update program.sockets id fd id = fd
  rw [Function.update_self]

theorem Program.calls_of_ne (program : Program) {id other : Nat} (different : other ≠ id)
    (fd : Option Int) (calls : List Syscall) :
    (program.calls id fd calls).sockets other = program.sockets other := by
  change Function.update program.sockets id fd other = program.sockets other
  rw [Function.update_of_ne different]

/-- One socket gets another descriptor, which is negative or held by no other socket. -/
theorem Conserved.update {program : Program} (conserved : Conserved program) (id : Nat)
    (fd : Option Int) (calls : List Syscall)
    (kept : Kept (program.log ++ calls)
      (fun other => program.HoldsElsewhere id other ∨ (0 ≤ other ∧ fd = some other)))
    (fresh : ∀ other, fd = some other → 0 ≤ other → ¬program.HoldsElsewhere id other) :
    Conserved (program.calls id fd calls) where
  kept := by
    apply kept.congr
    intro other
    constructor
    · rintro ⟨nonneg, place, held⟩
      by_cases here : place = id
      · rw [here, Program.calls_self] at held
        exact .inr ⟨nonneg, held⟩
      · rw [Program.calls_of_ne _ here] at held
        exact .inl ⟨nonneg, place, here, held⟩
    · rintro (⟨nonneg, place, different, held⟩ | ⟨nonneg, held⟩)
      · exact ⟨nonneg, place, (Program.calls_of_ne _ different _ _).trans held⟩
      · exact ⟨nonneg, id, (Program.calls_self _ _ _ _).trans held⟩
  alone := by
    intro place other same nonneg held also
    by_cases here : place = id
    · by_cases there : other = id
      · rw [here, there]
      · rw [here, Program.calls_self] at held
        rw [Program.calls_of_ne _ there] at also
        exact absurd ⟨nonneg, other, there, also⟩ (fresh same held nonneg)
    · rw [Program.calls_of_ne _ here] at held
      by_cases there : other = id
      · rw [there, Program.calls_self] at also
        exact absurd ⟨nonneg, place, here, held⟩ (fresh same also nonneg)
      · rw [Program.calls_of_ne _ there] at also
        exact conserved.alone place other same nonneg held also

theorem Conserved.unheld {program : Program} (conserved : Conserved program) (id : Nat)
    (fd : Option Int) (calls : List Syscall) (negative : ∀ other, fd = some other → other < 0)
    (kept : Kept (program.log ++ calls) (program.HoldsElsewhere id)) :
    Conserved (program.calls id fd calls) := by
  apply conserved.update
  · apply kept.congr
    intro other
    refine or_iff_left ?_
    rintro ⟨nonneg, given⟩
    exact absurd (negative other given) (Int.not_lt.mpr nonneg)
  · intro other given nonneg
    exact absurd (negative other given) (Int.not_lt.mpr nonneg)

theorem Program.elsewhere_of_dead {program : Program} {id : Nat}
    (dead : program.sockets id = none) (fd : Int) :
    program.HoldsElsewhere id fd ↔ program.Holds fd := by
  constructor
  · rintro ⟨nonneg, place, -, held⟩
    exact ⟨nonneg, place, held⟩
  · rintro ⟨nonneg, place, held⟩
    refine ⟨nonneg, place, ?_, held⟩
    rintro rfl
    rw [dead] at held
    cases held

theorem Conserved.spawned {program : Program} (conserved : Conserved program) {id : Nat}
    (dead : program.sockets id = none) {fd : Int} (negative : fd < 0) :
    Conserved (program.calls id (some fd) []) := by
  apply conserved.unheld
  · intro other given
    cases given
    exact negative
  · rw [List.append_nil]
    exact conserved.kept.congr (Program.elsewhere_of_dead dead)

theorem Conserved.closed {program : Program} (conserved : Conserved program) {id : Nat} {fd : Int}
    (alive : program.sockets id = some fd) (left : Option Int)
    (none_left : left = none ∨ left = some (PosixTcpSocket.close fd).1) :
    Conserved (program.calls id left (PosixTcpSocket.close fd).2) := by
  obtain ⟨negative, kept⟩ := conserved.kept.close (fun nonneg => ⟨nonneg, id, alive⟩)
    (fun other held => held.1)
  apply conserved.unheld
  · rintro other rfl
    rcases none_left with impossible | given
    · cases impossible
    · cases given
      exact negative
  · exact kept.congr (conserved.elsewhere alive)

theorem Conserved.used {program : Program} (conserved : Conserved program) {id : Nat} {fd : Int}
    (alive : program.sockets id = some fd) (calls : List Syscall)
    (uses : ∀ call ∈ calls, ∃ offered, call = .send fd offered ∨ call = .recv fd offered) :
    Conserved (program.calls id (some fd) calls) := by
  have kept : Kept (program.log ++ calls) program.Holds := by
    apply conserved.kept.idles
    · intro call member before same
      obtain ⟨offered, rfl | rfl⟩ := uses call member
      · intro nonneg
        rw [same]
        exact conserved.kept.held fd ⟨nonneg, id, alive⟩
      · intro nonneg
        rw [same]
        exact conserved.kept.held fd ⟨nonneg, id, alive⟩
    · intro call member
      obtain ⟨offered, rfl | rfl⟩ := uses call member
      · rfl
      · rfl
  apply conserved.update
  · apply kept.congr
    intro other
    rw [conserved.elsewhere alive]
    constructor
    · rintro (⟨held, -⟩ | ⟨nonneg, same⟩)
      · exact held
      · cases same
        exact ⟨nonneg, id, alive⟩
    · intro held
      by_cases same : other = fd
      · subst same
        exact .inr ⟨held.1, rfl⟩
      · exact .inl ⟨held, same⟩
  · rintro other same nonneg elsewhere
    cases same
    exact ((conserved.elsewhere alive fd).mp elsewhere).2 rfl

theorem Conserved.connected {program : Program} (conserved : Conserved program) {id : Nat}
    {fd found : Int} (alive : program.sockets id = some fd) {host : Bytes} {port : UInt16}
    {resolved : Option (List Try)} {status : Status} {calls : List Syscall}
    (answered : connect fd host port resolved = (status, found, calls))
    (promised : Each Promised (program.log ++ calls)) :
    Conserved (program.calls id (some found) calls) ∧ (status = .ok () ↔ 0 ≤ found) := by
  rcases conserved.kept.connect (fun nonneg => ⟨nonneg, id, alive⟩) (fun other held => held.1)
    host port resolved answered promised with
    ⟨negative, ⟨e, failed⟩, kept⟩ | ⟨nonneg, done, fresh, kept⟩
  · refine ⟨?_, ?_⟩
    · apply conserved.unheld
      · intro other given
        cases given
        exact negative
      · exact kept.congr (conserved.elsewhere alive)
    · constructor
      · intro impossible
        rw [failed] at impossible
        cases impossible
      · intro valid
        exact absurd negative (Int.not_lt.mpr valid)
  · refine ⟨?_, fun _ => nonneg, fun _ => done⟩
    apply conserved.update
    · apply kept.congr
      intro other
      rw [conserved.elsewhere alive]
      constructor
      · rintro (elsewhere | ⟨-, same⟩)
        · exact .inl elsewhere
        · cases same
          exact .inr rfl
      · rintro (elsewhere | rfl)
        · exact .inl elsewhere
        · exact .inr ⟨nonneg, rfl⟩
    · intro other given _ elsewhere
      cases given
      exact fresh ((conserved.elsewhere alive _).mp elsewhere)

variable {strerror}

theorem Conserved.step {program : Program} (conserved : Conserved program) (action : Action)
    (unshared : Unshared program action)
    (promised : Each Promised (program.step strerror action).2.log) :
    Conserved (program.step strerror action).2 := by
  cases action with
  | construct id =>
      rw [Program.step]
      cases alive : program.sockets id with
      | some fd => exact conserved
      | none => exact conserved.spawned alive negativeOne
  | copy source id =>
      rw [Program.step]
      cases original : program.sockets source with
      | none => exact conserved
      | some fd =>
          cases alive : program.sockets id with
          | some other => exact conserved
          | none => exact conserved.spawned alive (unshared fd original)
  | connect id host port resolved =>
      rw [Program.step] at promised ⊢
      cases alive : program.sockets id with
      | none => exact conserved
      | some fd =>
          rw [alive] at promised
          rcases answered : connect fd host port resolved with ⟨status, found, calls⟩
          dsimp only at promised ⊢
          rw [answered] at promised
          rw [answered]
          exact (conserved.connected alive answered promised).1
  | send id src answers =>
      rw [Program.step]
      cases alive : program.sockets id with
      | none => exact conserved
      | some fd =>
          apply conserved.used alive
          intro call member
          obtain ⟨attempt, -, rfl⟩ := List.mem_map.mp member
          exact ⟨_, .inl rfl⟩
  | recv id size answers =>
      rw [Program.step]
      cases alive : program.sockets id with
      | none => exact conserved
      | some fd =>
          apply conserved.used alive
          intro call member
          rw [List.eq_of_mem_replicate member]
          exact ⟨_, .inr rfl⟩
  | close id =>
      rw [Program.step]
      cases alive : program.sockets id with
      | none => exact conserved
      | some fd => exact conserved.closed alive _ (.inr rfl)
  | destroy id =>
      rw [Program.step]
      cases alive : program.sockets id with
      | none => exact conserved
      | some fd => exact conserved.closed alive _ (.inl rfl)

theorem Program.step_log (program : Program) (action : Action) :
    program.log <+: (program.step strerror action).2.log := by
  cases action <;> unfold Program.step <;> dsimp only <;> (try split) <;>
    first
    | exact List.prefix_refl _
    | exact List.prefix_append _ _

theorem Program.run_log (program : Program) (actions : List Action) :
    program.log <+: (Machine.run (Program.step strerror) program actions).2.log := by
  induction actions generalizing program with
  | nil => exact List.prefix_refl _
  | cons action actions ih =>
      exact (Program.step_log program action).trans (ih (program.step strerror action).2)

theorem Conserved.run {program : Program} (conserved : Conserved program) (actions : List Action)
    (unshared : Machine.Meets (Program.step strerror) Unshared program actions)
    (promised : Each Promised (Machine.run (Program.step strerror) program actions).2.log) :
    Conserved (Machine.run (Program.step strerror) program actions).2 := by
  induction actions generalizing program with
  | nil => exact conserved
  | cons action actions ih =>
      obtain ⟨now, later⟩ := unshared
      have here : Each Promised (program.step strerror action).2.log :=
        promised.of_prefix (Program.run_log (program.step strerror action).2 actions)
      exact ih (conserved.step action now here) later promised

variable (strerror)

/-- Whatever a program does with its sockets, short of copying an open one: each descriptor it
uses is open, the open ones are those that its sockets hold, each held by one, and when the
sockets are gone none is left. -/
theorem descriptors_conserved (actions : List Action)
    (unshared : Machine.Meets (Program.step strerror) Unshared Program.start actions)
    (promised : Each Promised (Machine.run (Program.step strerror) Program.start actions).2.log) :
    Conserved (Machine.run (Program.step strerror) Program.start actions).2 ∧
      ((∀ id, (Machine.run (Program.step strerror) Program.start actions).2.sockets id = none) →
        ∀ fd, table (Machine.run (Program.step strerror) Program.start actions).2.log fd =
          .closed) := by
  have conserved := conserved_start.run actions unshared promised
  refine ⟨conserved, ?_⟩
  intro gone fd
  apply conserved.kept.free
  rintro ⟨-, id, held⟩
  rw [gone id] at held
  cases held

/-- One socket, two addresses of which the first refuses; the descriptor of that one is given
out again. -/
def oneConnection : List Action :=
  [.construct 0, .connect 0 [0x68] 80 (some [⟨3, -1⟩, ⟨3, 0⟩]), .send 0 [1, 2] [⟨2, 0⟩], .destroy 0]

theorem oneConnection_conserved :
    Conserved (Machine.run (Program.step fun _ => []) Program.start oneConnection).2 ∧
      ∀ fd, table (Machine.run (Program.step fun _ => []) Program.start oneConnection).2.log fd =
        .closed := by
  have unshared : Machine.Meets (Program.step fun _ => []) Unshared Program.start oneConnection :=
    ⟨trivial, trivial, trivial, trivial, trivial⟩
  have log : (Machine.run (Program.step fun _ => []) Program.start oneConnection).2.log =
      [] ++ [.getaddrinfo [0x68] (ascii (toString (80 : UInt16).toNat)), .socket 3, .connect 3 (-1),
        .close 3, .socket 3, .connect 3 0, .freeaddrinfo, .send 3 2, .close 3] := rfl
  have promised : Each Promised
      (Machine.run (Program.step fun _ => []) Program.start oneConnection).2.log := by
    rw [log]
    exact AllPromised.each (each_nil _) ⟨trivial, fun _ => rfl, trivial, trivial, fun _ => rfl,
      trivial, trivial, trivial, trivial, trivial⟩
  obtain ⟨conserved, closed⟩ := descriptors_conserved (fun _ => []) oneConnection unshared promised
  refine ⟨conserved, closed ?_⟩
  intro id
  cases id with
  | zero => rfl
  | succ id => rfl

/-- A copy of the open socket closes its descriptor a second time. -/
example :
    (Machine.run (Program.step fun _ => []) Program.start
      [.construct 0, .connect 0 [0x68] 80 (some [⟨3, 0⟩]), .copy 0 1, .destroy 0,
        .destroy 1]).2.log =
    [.getaddrinfo [0x68] (ascii (toString (80 : UInt16).toNat)), .socket 3, .connect 3 0,
      .freeaddrinfo, .close 3, .close 3] :=
  rfl

end Etlx.Net
