/-
Which event sequences finish the update and which abort it.

The machine is read as a deterministic automaton: each state is characterised by
the words that lead to it from the state before, and the two final states by the
event that enters them.
-/

import Etlx.Sm.UpdateFsm
import Etlx.Lib.Automaton

namespace Etlx.Sm

open Automaton

def UpdateFsm.run (events : List Message) : State :=
  read State.receive .idle events

/-! ### What one event can do -/

@[simp] theorem receive_done (event : Message) : State.done.receive event = .done := by
  cases event <;> rfl

@[simp] theorem receive_failed (event : Message) : State.failed.receive event = .failed := by
  cases event <;> rfl

theorem receive_eq_done_iff {state : State} {event : Message} :
    state.receive event = .done ↔ state = .done ∨ state = .awaitCommit ∧ event = .commit := by
  cases state <;> cases event <;> decide

theorem receive_eq_failed_iff {state : State} {event : Message} :
    state.receive event = .failed ↔
      state = .failed ∨ (state = .download ∨ state = .verify ∨ state = .install) ∧ event = .abort ∨
        state = .awaitCommit ∧ (event = .rollback ∨ event = .abort) := by
  cases state <;> cases event <;> decide

/-! ### The words between two states -/

def Idles (word : List Message) : Prop :=
  .next ∉ word ∧ .abort ∉ word

/-- The words that take the machine from the download to the commit decision. -/
def Prepares (word : List Message) : Prop :=
  ∃ u2 u3 u4 u5, word = u2 ++ .next :: (u3 ++ .next :: (u4 ++ .next :: u5)) ∧
    Idles u2 ∧ Idles u3 ∧ Idles u4 ∧ (.commit ∉ u5 ∧ .rollback ∉ u5 ∧ .abort ∉ u5)

def State.Working (state next : State) : Prop :=
  ∀ event, state.receive event = match event with
    | .next => next
    | .abort => .failed
    | _ => state

theorem working_download : State.Working .download .verify := by
  intro event
  cases event <;> rfl

theorem working_verify : State.Working .verify .install := by
  intro event
  cases event <;> rfl

theorem working_install : State.Working .install .awaitCommit := by
  intro event
  cases event <;> rfl

theorem read_failed (word : List Message) : read State.receive .failed word = .failed :=
  read_eq_self (fun event _ => receive_failed event)

theorem read_done (word : List Message) : read State.receive .done word = .done :=
  read_eq_self (fun event _ => receive_done event)

theorem State.Working.stays_iff {state next : State} (working : State.Working state next)
    (moves : next ≠ state) (fails : state ≠ .failed) (word : List Message) :
    (∀ event ∈ word, state.receive event = state) ↔ Idles word := by
  constructor
  · intro stays
    constructor
    · intro member
      have kept := stays .next member
      rw [working] at kept
      exact moves kept
    · intro member
      have kept := stays .abort member
      rw [working] at kept
      exact fails kept.symm
  · intro idles event member
    rw [working]
    cases event with
    | next => exact absurd member idles.1
    | abort => exact absurd member idles.2
    | start => rfl
    | commit => rfl
    | rollback => rfl

theorem State.Working.read_iff {state next target : State} (working : State.Working state next)
    (moves : next ≠ state) (fails : state ≠ .failed) (different : state ≠ target)
    (succeeds : target ≠ .failed) (word : List Message) :
    read State.receive state word = target ↔
      ∃ front rest, word = front ++ .next :: rest ∧ Idles front ∧
        read State.receive next rest = target := by
  rw [read_eq_iff_leaves different]
  constructor
  · rintro ⟨front, event, rest, split, before, leaves, onward⟩
    rw [working.stays_iff moves fails] at before
    rw [working] at leaves onward
    cases event with
    | next => exact ⟨front, rest, split, before, onward⟩
    | abort => exact absurd ((read_failed rest).symm.trans onward).symm succeeds
    | start => exact absurd rfl leaves
    | commit => exact absurd rfl leaves
    | rollback => exact absurd rfl leaves
  · rintro ⟨front, rest, split, before, onward⟩
    refine ⟨front, .next, rest, split, (working.stays_iff moves fails front).mpr before, ?_, ?_⟩
    · rw [working]
      exact moves
    · rw [working]
      exact onward

theorem read_awaitCommit_iff (word : List Message) :
    read State.receive .awaitCommit word = .awaitCommit ↔
      .commit ∉ word ∧ .rollback ∉ word ∧ .abort ∉ word := by
  induction word with
  | nil => simp
  | cons event word ih =>
      rw [read_cons]
      cases event with
      | start => simpa [State.receive] using ih
      | next => simpa [State.receive] using ih
      | commit => simp [State.receive, read_done]
      | rollback => simp [State.receive, read_failed]
      | abort => simp [State.receive, read_failed]

theorem read_download_awaitCommit_iff (word : List Message) :
    read State.receive .download word = .awaitCommit ↔ Prepares word := by
  rw [working_download.read_iff (by decide) (by decide) (by decide) (by decide)]
  constructor
  · rintro ⟨u2, rest, split, idle2, onward⟩
    rw [working_verify.read_iff (by decide) (by decide) (by decide) (by decide)] at onward
    obtain ⟨u3, rest, split3, idle3, onward⟩ := onward
    rw [working_install.read_iff (by decide) (by decide) (by decide) (by decide)] at onward
    obtain ⟨u4, u5, split4, idle4, onward⟩ := onward
    rw [read_awaitCommit_iff] at onward
    exact ⟨u2, u3, u4, u5, by rw [split, split3, split4], idle2, idle3, idle4, onward⟩
  · rintro ⟨u2, u3, u4, u5, split, idle2, idle3, idle4, waits⟩
    refine ⟨u2, _, split, idle2, ?_⟩
    rw [working_verify.read_iff (by decide) (by decide) (by decide) (by decide)]
    refine ⟨u3, _, rfl, idle3, ?_⟩
    rw [working_install.read_iff (by decide) (by decide) (by decide) (by decide)]
    exact ⟨u4, u5, rfl, idle4, (read_awaitCommit_iff u5).mpr waits⟩

/-- How many Next events a working state takes before the commit decision waits. -/
def State.ahead : State → Option Nat
  | .download => some 2
  | .verify => some 1
  | .install => some 0
  | _ => none

theorem ahead_isSome_iff {state : State} :
    state.ahead.isSome ↔ state = .download ∨ state = .verify ∨ state = .install := by
  cases state <;> decide

theorem read_awaitCommit_ahead (word : List Message) :
    (read State.receive .awaitCommit word).ahead = none := by
  induction word with
  | nil => rfl
  | cons event word ih =>
      cases event with
      | start => exact ih
      | next => exact ih
      | commit => exact congrArg State.ahead (read_done word)
      | rollback => exact congrArg State.ahead (read_failed word)
      | abort => exact congrArg State.ahead (read_failed word)

theorem read_ahead_iff (word : List Message) (state : State) (left : Nat)
    (working : state.ahead = some left) :
    (read State.receive state word).ahead.isSome ↔
      word.count .next ≤ left ∧ .abort ∉ word := by
  induction word generalizing state left with
  | nil => simp [working]
  | cons event word ih =>
      have failing : (read State.receive .failed word).ahead.isSome = false := by
        rw [read_failed]
        rfl
      cases event with
      | start =>
          have stays : state.receive .start = state := by
            cases state <;> first | rfl | cases working
          simpa [stays] using ih state left working
      | commit =>
          have stays : state.receive .commit = state := by
            cases state <;> first | rfl | cases working
          simpa [stays] using ih state left working
      | rollback =>
          have stays : state.receive .rollback = state := by
            cases state <;> first | rfl | cases working
          simpa [stays] using ih state left working
      | abort =>
          have fails : state.receive .abort = .failed := by
            cases state <;> first | rfl | cases working
          simp [fails, failing]
      | next =>
          cases state with
          | download =>
              cases working
              simpa [State.receive] using ih .verify 1 rfl
          | verify =>
              cases working
              simpa [State.receive] using ih .install 0 rfl
          | install =>
              cases working
              simp [State.receive, read_awaitCommit_ahead]
          | idle => cases working
          | awaitCommit => cases working
          | done => cases working
          | failed => cases working

/-! ### The whole workflow -/

theorem receive_idle_eq_iff {event : Message} :
    State.idle.receive event = .idle ↔ event ≠ .start := by
  cases event <;> decide

theorem idle_stays_iff (word : List Message) :
    (∀ event ∈ word, State.idle.receive event = .idle) ↔ .start ∉ word := by
  simp only [receive_idle_eq_iff]
  constructor
  · intro stays member
    exact stays .start member rfl
  · intro absent event member isStart
    rw [isStart] at member
    exact absent member

theorem run_iff_started {target : State} (different : State.idle ≠ target)
    (events : List Message) :
    UpdateFsm.run events = target ↔
      ∃ u1 rest, events = u1 ++ .start :: rest ∧ .start ∉ u1 ∧
        read State.receive .download rest = target := by
  unfold UpdateFsm.run
  rw [read_eq_iff_leaves different]
  constructor
  · rintro ⟨u1, event, rest, split, before, leaves, onward⟩
    rw [idle_stays_iff] at before
    rw [Ne, receive_idle_eq_iff, Decidable.not_not] at leaves
    subst leaves
    exact ⟨u1, rest, split, before, onward⟩
  · rintro ⟨u1, rest, split, before, onward⟩
    exact ⟨u1, .start, rest, split, (idle_stays_iff u1).mpr before, by decide, onward⟩

theorem read_download_done_iff (word : List Message) :
    read State.receive .download word = .done ↔
      ∃ v u6, word = v ++ .commit :: u6 ∧ Prepares v := by
  rw [read_eq_iff_enters receive_done (by decide)]
  constructor
  · rintro ⟨v, event, u6, split, outside, enters⟩
    rw [receive_eq_done_iff] at enters
    obtain ⟨waiting, committed⟩ := enters.resolve_left outside
    rw [committed] at split
    exact ⟨v, u6, split, (read_download_awaitCommit_iff v).mp waiting⟩
  · rintro ⟨v, u6, split, prepares⟩
    have waiting := (read_download_awaitCommit_iff v).mpr prepares
    refine ⟨v, .commit, u6, split, ?_, ?_⟩
    · rw [waiting]
      decide
    · rw [waiting]
      rfl

def GivesUp (word : List Message) (event : Message) : Prop :=
  (word.count .next ≤ 2 ∧ .abort ∉ word) ∧ event = .abort ∨
    Prepares word ∧ (event = .rollback ∨ event = .abort)

theorem read_download_failed_iff (word : List Message) :
    read State.receive .download word = .failed ↔
      ∃ v event u6, word = v ++ event :: u6 ∧ GivesUp v event := by
  rw [read_eq_iff_enters receive_failed (by decide)]
  constructor
  · rintro ⟨v, event, u6, split, outside, enters⟩
    refine ⟨v, event, u6, split, ?_⟩
    rw [receive_eq_failed_iff] at enters
    rcases enters.resolve_left outside with ⟨working, aborted⟩ | ⟨waiting, refused⟩
    · rw [← ahead_isSome_iff, read_ahead_iff v .download 2 rfl] at working
      exact Or.inl ⟨working, aborted⟩
    · exact Or.inr ⟨(read_download_awaitCommit_iff v).mp waiting, refused⟩
  · rintro ⟨v, event, u6, split, given⟩
    have enters : (read State.receive .download v ≠ .failed) ∧
        (read State.receive .download v).receive event = .failed := by
      rw [receive_eq_failed_iff]
      rcases given with ⟨calm, aborted⟩ | ⟨prepares, refused⟩
      · have working := (read_ahead_iff v .download 2 rfl).mpr calm
        rw [ahead_isSome_iff] at working
        constructor
        · rcases working with at1 | at2 | at3
          · simp [at1]
          · simp [at2]
          · simp [at3]
        · exact Or.inr (Or.inl ⟨working, aborted⟩)
      · have waiting := (read_download_awaitCommit_iff v).mpr prepares
        constructor
        · simp [waiting]
        · exact Or.inr (Or.inr ⟨waiting, refused⟩)
    exact ⟨v, event, u6, split, enters⟩

theorem run_append (events later : List Message) :
    UpdateFsm.run (events ++ later) = read State.receive (UpdateFsm.run events) later :=
  read_append State.receive .idle events later

/-- The update is done after exactly the words that start it, take it through download,
verification and installation in this order and then commit; it has failed after exactly
those that give it up on the way; and neither end is ever left. -/
theorem update_follows_order (events : List Message) :
    (UpdateFsm.run events = .done ↔
      ∃ u1 v u6, events = u1 ++ .start :: (v ++ .commit :: u6) ∧ .start ∉ u1 ∧ Prepares v) ∧
    (UpdateFsm.run events = .failed ↔
      ∃ u1 v event u6, events = u1 ++ .start :: (v ++ event :: u6) ∧ .start ∉ u1 ∧
        GivesUp v event) ∧
    (∀ later, UpdateFsm.run events = .done → UpdateFsm.run (events ++ later) = .done) ∧
    ∀ later, UpdateFsm.run events = .failed → UpdateFsm.run (events ++ later) = .failed := by
  refine ⟨?_, ?_, ?_, ?_⟩
  · rw [run_iff_started (by decide)]
    simp only [read_download_done_iff]
    constructor
    · rintro ⟨u1, rest, split, before, v, u6, inner, prepares⟩
      exact ⟨u1, v, u6, by rw [split, inner], before, prepares⟩
    · rintro ⟨u1, v, u6, split, before, prepares⟩
      exact ⟨u1, _, split, before, v, u6, rfl, prepares⟩
  · rw [run_iff_started (by decide)]
    simp only [read_download_failed_iff]
    constructor
    · rintro ⟨u1, rest, split, before, v, event, u6, inner, given⟩
      exact ⟨u1, v, event, u6, by rw [split, inner], before, given⟩
    · rintro ⟨u1, v, event, u6, split, before, given⟩
      exact ⟨u1, _, split, before, v, event, u6, rfl, given⟩
  · intro later finished
    rw [run_append, finished]
    exact read_done later
  · intro later gaveUp
    rw [run_append, gaveUp]
    exact read_failed later

end Etlx.Sm
