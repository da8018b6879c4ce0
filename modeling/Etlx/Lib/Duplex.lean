/-
Connections whose medium moves as much as it likes at a time.

While the medium is busy it goes by a list of events. An event lets a call move a part
of what it could, or refuses it, which has the call made again or breaks the connection.
Once the list is used up the medium is calm and moves all it can, so every use of a
connection that comes to an end is a use under some list.
-/

import Etlx.Lib.Push
import Mathlib.Tactic.ByContra

namespace Etlx.Duplex

open Push (Fits Primitive Reads Verdict delivered push push_delivers)

variable {α ρ κ ε : Type}

/-- A call moves a piece of at most `more + 1` items, or is refused. -/
inductive Event (ρ : Type)
  | moves (more : Nat)
  | refuses (reason : ρ)
deriving DecidableEq, Repr

def piece (more able : Nat) : Nat := min (more + 1) able

/-- What a primitive returns for a count and for a refusal, what that means, and what a loop
makes of it. -/
structure Medium (ρ κ ε : Type) where
  ofCount : Nat → κ
  refusal : ρ → κ
  primitive : Primitive κ ε
  verdict : κ → Verdict ε
  reads : Reads verdict primitive
  counts : ∀ count, 0 < count → verdict (ofCount count) = .taken count
  refuses : ∀ reason count, verdict (refusal reason) ≠ .taken count

/-- A medium that hands items out; a call that finds the end moves nothing and succeeds. -/
structure Inlet (ρ κ ε : Type) extends Medium ρ κ ε where
  ends : verdict (ofCount 0) = .taken 0

def Medium.answer (medium : Medium ρ κ ε) (able : Nat) : Event ρ → κ
  | .moves more => medium.ofCount (piece more able)
  | .refuses reason => medium.refusal reason

def Medium.Breaks (medium : Medium ρ κ ε) (event : Event ρ) (e : ε) : Prop :=
  ∃ reason, event = .refuses reason ∧ medium.verdict (medium.refusal reason) = .failed e

theorem refused_ne_taken {retried : Prop} [Decidable retried] (e : ε) (count : Nat) :
    (if retried then Verdict.again else .failed e) ≠ .taken count := by
  split
  · intro impossible
    cases impossible
  · intro impossible
    cases impossible

theorem piece_le (more able : Nat) : piece more able ≤ able := Nat.min_le_right _ _

theorem piece_pos {more able : Nat} (positive : 0 < able) : 0 < piece more able := by
  unfold piece
  omega

theorem Medium.answer_cases (medium : Medium ρ κ ε) {able : Nat} (positive : 0 < able)
    (event : Event ρ) :
    (∃ count, medium.verdict (medium.answer able event) = .taken count ∧ 0 < count ∧
      count ≤ able) ∨
    medium.verdict (medium.answer able event) = .again ∨
    ∃ e, medium.verdict (medium.answer able event) = .failed e ∧ medium.Breaks event e := by
  cases event with
  | moves more =>
      exact .inl ⟨piece more able, medium.counts _ (piece_pos positive), piece_pos positive,
        piece_le more able⟩
  | refuses reason =>
      cases answered : medium.verdict (medium.refusal reason) with
      | taken count => exact absurd answered (medium.refuses reason count)
      | again => exact .inr (.inl answered)
      | failed e => exact .inr (.inr ⟨e, answered, reason, rfl, answered⟩)

/-- One end of a connection: what comes in, what has gone out, and the events ahead. -/
structure Wire (α ρ : Type) where
  incoming : List α
  outgoing : List α
  events : List (Event ρ)
deriving DecidableEq, Repr

def Wire.opened (events : List (Event ρ)) : Wire α ρ :=
  { incoming := [], outgoing := [], events := events }

/-! ### Sending -/

def Medium.answers (medium : Medium ρ κ ε) : Nat → List (Event ρ) → List κ
  | able, [] => [medium.ofCount able]
  | able, event :: events =>
      medium.answer able event ::
        match medium.verdict (medium.answer able event) with
        | .taken count => medium.answers (able - count) events
        | _ => medium.answers able events

/-- A loop over the primitive, from the first item to the last. The calm medium comes last
among the answers, so the loop has a result. -/
def Wire.send (medium : Medium ρ κ ε) (wire : Wire α ρ) (src : List α) :
    Except ε Unit × Wire α ρ :=
  let sent := push medium.verdict src 0 (medium.answers src.length wire.events)
  (sent.result.getD (.ok ()),
    { incoming := wire.incoming
      outgoing := wire.outgoing ++ delivered medium.primitive sent.attempts
      events := wire.events.drop sent.attempts.length })

theorem Medium.answers_fit (medium : Medium ρ κ ε) (able : Nat) (events : List (Event ρ)) :
    Fits medium.primitive able (medium.answers able events) := by
  induction events generalizing able with
  | nil =>
      cases able with
      | zero => exact trivial
      | succ left =>
          obtain ⟨accepts, goesOn⟩ :=
            medium.reads.taken _ _ (medium.counts (left + 1) (Nat.succ_pos left))
          rw [Medium.answers, Fits, goesOn, accepts, Nat.sub_self]
          exact ⟨Nat.le_refl _, trivial⟩
  | cons event events ih =>
      cases able with
      | zero => exact trivial
      | succ left =>
          rw [Medium.answers, Fits]
          rcases medium.answer_cases (Nat.succ_pos left) event with
            ⟨count, taken, -, fits⟩ | again | ⟨e, failed, -⟩
          · obtain ⟨accepts, goesOn⟩ := medium.reads.taken _ _ taken
            rw [goesOn, accepts, taken]
            exact ⟨fits, ih _⟩
          · obtain ⟨nothing, goesOn⟩ := medium.reads.again _ again
            rw [goesOn, nothing, again]
            exact ⟨Nat.zero_le _, ih _⟩
          · obtain ⟨-, refused⟩ := medium.reads.failed _ _ failed
            rw [refused]
            exact trivial

theorem Medium.push_result (medium : Medium ρ κ ε) (src : List α) (events : List (Event ρ))
    (sent : Nat) :
    ∃ result,
      (push medium.verdict src sent (medium.answers (src.length - sent) events)).result =
        some result ∧
      ∀ e, result = .error e → ∃ event ∈ events, medium.Breaks event e := by
  induction events generalizing sent with
  | nil =>
      by_cases more : sent < src.length
      · have all : sent + (src.length - sent) = src.length := Nat.add_sub_of_le (Nat.le_of_lt more)
        rw [Medium.answers, push, if_pos more, medium.counts _ (Nat.sub_pos_of_lt more)]
        dsimp only
        rw [push, if_neg (by omega)]
        exact ⟨.ok (), rfl, by intro e impossible; cases impossible⟩
      · rw [Medium.answers, push, if_neg more]
        exact ⟨.ok (), rfl, by intro e impossible; cases impossible⟩
  | cons event events ih =>
      by_cases more : sent < src.length
      · rw [Medium.answers, push, if_pos more]
        rcases medium.answer_cases (Nat.sub_pos_of_lt more) event with
          ⟨count, taken, -, -⟩ | again | ⟨e, failed, breaks⟩
        · obtain ⟨result, returned, fails⟩ := ih (sent + count)
          rw [Nat.sub_add_eq] at returned
          rw [taken]
          exact ⟨result, returned, fun e broke => List.exists_mem_cons_of_exists (fails e broke)⟩
        · obtain ⟨result, returned, fails⟩ := ih sent
          rw [again]
          exact ⟨result, returned, fun e broke => List.exists_mem_cons_of_exists (fails e broke)⟩
        · rw [failed]
          refine ⟨.error e, rfl, ?_⟩
          intro other same
          cases same
          exact ⟨event, List.mem_cons_self, breaks⟩
      · rw [Medium.answers, push, if_neg more]
        exact ⟨.ok (), rfl, by intro e impossible; cases impossible⟩

/-- What a send comes to: the items went out once and in order, all of them unless an event
broke it. -/
structure Wire.Sends (medium : Medium ρ κ ε) (wire : Wire α ρ) (src : List α)
    (status : Except ε Unit) (after : Wire α ρ) : Prop where
  keeps : after.incoming = wire.incoming
  gone : ∃ front, front <+: src ∧ after.outgoing = wire.outgoing ++ front ∧
    (status = .ok () → front = src)
  ahead : after.events <:+ wire.events
  fails : ∀ e, status = .error e → ∃ event ∈ wire.events, medium.Breaks event e

theorem Wire.send_sends (medium : Medium ρ κ ε) (wire : Wire α ρ) (src : List α) :
    Wire.Sends medium wire src (wire.send medium src).1 (wire.send medium src).2 := by
  have delivers := push_delivers medium.reads src (medium.answers src.length wire.events) 0
    (medium.answers_fit src.length wire.events)
  obtain ⟨result, returned, fails⟩ := medium.push_result src wire.events 0
  rw [Nat.sub_zero] at returned
  have status : (wire.send medium src).1 = result := by
    rw [Wire.send, returned]
    rfl
  rw [status]
  exact
    { keeps := rfl
      gone := by
        refine ⟨_, delivers.begins, rfl, ?_⟩
        intro done
        rw [done] at returned
        exact delivers.whole returned
      ahead := List.drop_suffix _ _
      fails := fails }

/-! ### Receiving -/

/-- `for (;;)`: the primitive is called until it moves items or fails; with the number of calls. -/
def retry (verdict : κ → Verdict ε) : List κ → Option (Except ε Nat) × Nat
  | [] => (none, 0)
  | answer :: answers =>
      match verdict answer with
      | .taken count => (some (.ok count), 1)
      | .failed e => (some (.error e), 1)
      | .again => ((retry verdict answers).1, (retry verdict answers).2 + 1)

def Wire.after (wire : Wire α ρ) (calls : Nat) : Except ε Nat → Except ε (List α) × Wire α ρ
  | .ok count =>
      (.ok (wire.incoming.take count),
        { incoming := wire.incoming.drop count
          outgoing := wire.outgoing
          events := wire.events.drop calls })
  | .error e => (.error e, { wire with events := wire.events.drop calls })

def Wire.recv (medium : Medium ρ κ ε) (wire : Wire α ρ) (offered : Nat) :
    Except ε (List α) × Wire α ρ :=
  let able := min offered wire.incoming.length
  let tried := retry medium.verdict (wire.events.map (medium.answer able) ++ [medium.ofCount able])
  wire.after tried.2 (tried.1.getD (.ok 0))

theorem Inlet.counts_all (inlet : Inlet ρ κ ε) (count : Nat) :
    inlet.verdict (inlet.ofCount count) = .taken count := by
  cases count with
  | zero => exact inlet.ends
  | succ count => exact inlet.counts _ (Nat.succ_pos count)

theorem Inlet.retry_result (inlet : Inlet ρ κ ε) (able : Nat) (events : List (Event ρ)) :
    ∃ result,
      (retry inlet.verdict (events.map (inlet.answer able) ++ [inlet.ofCount able])).1 =
        some result ∧
      (∀ count, result = .ok count → count ≤ able ∧ (0 < able → 0 < count)) ∧
      ∀ e, result = .error e → ∃ event ∈ events, inlet.Breaks event e := by
  induction events with
  | nil =>
      refine ⟨.ok able, ?_, ?_, ?_⟩
      · rw [List.map_nil, List.nil_append, retry, inlet.counts_all]
      · intro count same
        cases same
        exact ⟨Nat.le_refl able, id⟩
      · intro e impossible
        cases impossible
  | cons event events ih =>
      rw [List.map_cons, List.cons_append, retry]
      cases event with
      | moves more =>
          rw [Medium.answer, inlet.counts_all]
          refine ⟨.ok (piece more able), rfl, ?_, ?_⟩
          · intro count same
            cases same
            exact ⟨piece_le more able, piece_pos⟩
          · intro e impossible
            cases impossible
      | refuses reason =>
          rw [Medium.answer]
          cases answered : inlet.verdict (inlet.refusal reason) with
          | taken count => exact absurd answered (inlet.refuses reason count)
          | again =>
              obtain ⟨result, returned, fits, fails⟩ := ih
              exact ⟨result, returned, fits, fun e broke =>
                List.exists_mem_cons_of_exists (fails e broke)⟩
          | failed e =>
              refine ⟨.error e, rfl, ?_, ?_⟩
              · intro count impossible
                cases impossible
              · intro other same
                cases same
                exact ⟨_, List.mem_cons_self, reason, rfl, answered⟩

structure Wire.Receives (medium : Medium ρ κ ε) (wire : Wire α ρ) (offered : Nat)
    (status : Except ε (List α)) (after : Wire α ρ) : Prop where
  keeps : after.outgoing = wire.outgoing
  comes : ∀ piece, status = .ok piece → wire.incoming = piece ++ after.incoming ∧
    piece.length ≤ offered ∧ (piece = [] → 0 < offered → wire.incoming = [])
  ahead : after.events <:+ wire.events
  fails : ∀ e, status = .error e →
    after.incoming = wire.incoming ∧ ∃ event ∈ wire.events, medium.Breaks event e

theorem Wire.recv_receives (inlet : Inlet ρ κ ε) (wire : Wire α ρ) (offered : Nat) :
    Wire.Receives inlet.toMedium wire offered (wire.recv inlet.toMedium offered).1
      (wire.recv inlet.toMedium offered).2 := by
  obtain ⟨result, returned, fits, fails⟩ :=
    inlet.retry_result (min offered wire.incoming.length) wire.events
  unfold Wire.recv
  dsimp only
  rw [returned, Option.getD_some]
  cases result with
  | error e =>
      exact
        { keeps := rfl
          comes := by intro piece impossible; cases impossible
          ahead := List.drop_suffix _ _
          fails := by
            intro other same
            cases same
            exact ⟨rfl, fails e rfl⟩ }
  | ok count =>
      obtain ⟨within, positive⟩ := fits count rfl
      exact
        { keeps := rfl
          comes := by
            intro piece same
            cases same
            refine ⟨(List.take_append_drop count wire.incoming).symm, ?_, ?_⟩
            · rw [List.length_take]
              omega
            · intro nothing room
              rcases List.take_eq_nil_iff.mp nothing with none | nothing
              · by_contra someLeft
                have length := List.length_pos_iff.mpr someLeft
                have taken := positive (by omega)
                omega
              · exact nothing
          ahead := List.drop_suffix _ _
          fails := by intro e impossible; cases impossible }

end Etlx.Duplex
