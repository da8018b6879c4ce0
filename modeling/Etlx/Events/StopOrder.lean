/-
When `Stop` ends `Run`.

`Stop` clears `running_`, which `Run` tests only at the head of its loop. Between
the end of a pass and that test `Run` may sleep for the earliest timer, so a `Stop`
called by a callback takes effect at once exactly when the pass ends with work in
the queue or with no timer left.
-/

import Etlx.Events.DueOrder

namespace Etlx.Events

open Transition (Each each_nil each_snoc Meets run)

variable {β : Type}

/-- Inside `Run`, whether one of its callbacks has called `Stop`; outside it, nothing. -/
def runStatus (trace : List (Event β)) : Option Bool :=
  trace.foldl
    (fun status event =>
      match event with
      | .enterRun => some false
      | .leaveRun => none
      | .stopped => status.map (fun _ => true)
      | _ => status)
    none

/-- After `Stop`, `Run` neither sleeps nor starts another pass. -/
def StopEnds (before : List (Event β)) : Event β → Prop
  | .slept _ => runStatus before ≠ some true
  | .enterRunOnce => runStatus before ≠ some true
  | _ => True

/-- A stopped pass ends with work in the queue or with no timer left. -/
def AwakeAtStop (s : System β) (action : Action β) : Prop :=
  action = .proceed → s.control = .deciding → s.loop.running = false →
    s.loop.immediate.items ≠ [] ∨ s.loop.timers.items = []

instance [DecidableEq β] (s : System β) (action : Action β) : Decidable (AwakeAtStop s action) :=
  inferInstanceAs (Decidable (_ → _ → _ → _ ∨ _))

/-! ### The flag against the history -/

structure StatusKept (s : System β) : Prop where
  status : runStatus s.trace = if s.inRun then some (!s.loop.running) else none
  inside : s.control.isRun = true → s.inRun = true
  outside : s.control = .driver → s.inRun = false

theorem runStatus_snoc (trace : List (Event β)) (event : Event β) :
    runStatus (trace ++ [event]) =
      match event with
      | .enterRun => some false
      | .leaveRun => none
      | .stopped => (runStatus trace).map (fun _ => true)
      | _ => runStatus trace := by
  unfold runStatus
  rw [List.foldl_append]
  rfl

theorem StatusKept.step {s next : System β} (kept : StatusKept s) (moved : Step s next) :
    StatusKept next := by
  obtain ⟨status, inside, outside⟩ := kept
  cases moved with
  | stopped calling =>
      refine ⟨?_, inside, outside⟩
      change runStatus (s.trace ++ [.stopped]) = if s.inRun then some (!false) else none
      rw [runStatus_snoc]
      dsimp only
      rw [status]
      cases s.inRun <;> rfl
  | enteredRun fromDriver =>
      exact ⟨by simp [runStatus_snoc], fun _ => rfl, by simp⟩
  | halted atTest notRunning =>
      exact ⟨by simp [runStatus_snoc], by simp [Control.isRun], fun _ => rfl⟩
  | finished afterPass noWork noTimers =>
      exact ⟨by simp [runStatus_snoc], by simp [Control.isRun], fun _ => rfl⟩
  | leftRunOnce now ran inScan noneDue =>
      refine ⟨(runStatus_snoc s.trace _).trans status, ?_, ?_⟩
      · intro back
        by_cases within : s.inRun = true
        · exact within
        · simp [within, Control.isRun] at back
      · intro back
        by_cases within : s.inRun = true
        · simp [within] at back
        · exact Bool.eq_false_iff.mpr within
  | ticked elapsed => exact ⟨status, inside, outside⟩
  | _ =>
      refine ⟨?_, ?_, ?_⟩
      · first
          | exact status
          | exact (runStatus_snoc s.trace _).trans status
      · simp_all [Control.isRun]
      · simp_all [Control.isRun]

theorem StatusKept.initial (clock : Int) : StatusKept (System.initial clock : System β) :=
  { status := rfl
    inside := by intro within; cases within
    outside := fun _ => rfl }

theorem StatusKept.stopped_iff {s : System β} (kept : StatusKept s) :
    runStatus s.trace = some true ↔ s.inRun = true ∧ s.loop.running = false := by
  rw [kept.status]
  cases s.inRun <;> cases s.loop.running <;> simp

theorem earliestTimer_ne_nil {loop : EventLoop β} {found : Nat × TimerEntry β}
    (earliest : loop.earliestTimer = some found) : loop.timers.items ≠ [] := by
  intro empty
  rw [EventLoop.earliestTimer, empty] at earliest
  cases earliest

theorem proceed_of_deciding {s next : System β} {action : Action β}
    (stepped : step s action = some next) (afterPass : s.control = .deciding)
    (grown : next.trace ≠ s.trace) : action = .proceed := by
  cases action with
  | proceed => rfl
  | tick elapsed =>
      cases stepped
      exact absurd rfl grown
  | post cb => simp [step, afterPass, Control.calling] at stepped
  | postAfter delay cb => simp [step, afterPass, Control.calling] at stepped
  | stop => simp [step, afterPass, Control.calling] at stepped
  | runOnce => simp [step, afterPass] at stepped
  | run => simp [step, afterPass] at stepped

theorem stopEnds_step {s next : System β} {action : Action β}
    (kept : StatusKept s) (awake : AwakeAtStop s action) (stepped : step s action = some next)
    (ends : Each StopEnds s.trace) : Each StopEnds next.trace := by
  cases step_inv stepped with
  | slept index timer afterPass noWork earliest =>
      refine each_snoc.mpr ⟨ends, ?_⟩
      intro stopped
      obtain ⟨_, cleared⟩ := kept.stopped_iff.mp stopped
      have byLoop := proceed_of_deciding stepped afterPass (by simp)
      rcases awake byLoop afterPass cleared with work | noTimers
      · exact work noWork
      · exact earliestTimer_ne_nil earliest noTimers
  | iterated atTest running =>
      refine each_snoc.mpr ⟨ends, ?_⟩
      intro stopped
      obtain ⟨_, cleared⟩ := kept.stopped_iff.mp stopped
      rw [cleared] at running
      cases running
  | enteredRunOnce fromDriver =>
      refine each_snoc.mpr ⟨ends, ?_⟩
      intro stopped
      obtain ⟨within, _⟩ := kept.stopped_iff.mp stopped
      rw [kept.outside fromDriver] at within
      cases within
  | _ =>
      first
        | exact ends
        | exact each_snoc.mpr ⟨ends, trivial⟩

theorem not_stopEnds_of_missed {s next : System β} {action : Action β} (kept : StatusKept s)
    (missed : ¬AwakeAtStop s action) (stepped : step s action = some next) :
    ¬Each StopEnds next.trace := by
  unfold AwakeAtStop at missed
  simp only [Classical.not_imp, not_or, not_not] at missed
  obtain ⟨byLoop, afterPass, cleared, noWork, timersLeft⟩ := missed
  subst byLoop
  have stopped : runStatus s.trace = some true :=
    kept.stopped_iff.mpr ⟨kept.inside (by rw [afterPass]; rfl), cleared⟩
  cases found : s.loop.earliestTimer with
  | none => simp [step, System.proceed, afterPass, noWork, timersLeft, found] at stepped
  | some entry =>
      simp only [step, System.proceed, afterPass, noWork, timersLeft, found, if_true, if_false,
        Option.some.injEq] at stepped
      intro ends
      rw [← stepped] at ends
      exact (each_snoc.mp ends).2 stopped

/-! ### Whole runs -/

theorem returns_of_stopped {s : System β} (kept : StatusKept s)
    (stopped : runStatus s.trace = some true) (awake : AwakeAtStop s .proceed)
    (place : s.control = .deciding ∨ s.control = .checking) :
    ∃ count ≤ 2, ∃ final, run step s (List.replicate count .proceed) = some final ∧
      final.control = .driver ∧ final.inRun = false ∧ final.now = s.now ∧
      final.trace = s.trace ++ [.leaveRun] := by
  obtain ⟨_, cleared⟩ := kept.stopped_iff.mp stopped
  rcases place with afterPass | atTest
  · by_cases work : s.loop.immediate.items = []
    · have noTimers := (awake rfl afterPass cleared).resolve_left (not_not.mpr work)
      refine ⟨1, by decide, s.leaveRun, ?_, rfl, rfl, rfl, rfl⟩
      simp [run, step, System.proceed, afterPass, work, noTimers]
    · refine ⟨2, by decide, s.leaveRun, ?_, rfl, rfl, rfl, rfl⟩
      simp [run, step, System.proceed, afterPass, work, cleared]
  · refine ⟨1, by decide, s.leaveRun, ?_, rfl, rfl, rfl, rfl⟩
    simp [run, step, System.proceed, atTest, cleared]

/-- `Stop` takes effect before the next sleep along exactly the runs whose stopped passes end
with work in the queue or with no timer left; then `Run` returns in at most two steps. -/
theorem stop_before_sleep_iff (clock : Int) (actions : List (Action β)) (s : System β)
    (ran : run step (System.initial clock) actions = some s) :
    (Each StopEnds s.trace ↔ Meets step AwakeAtStop (System.initial clock) actions) ∧
    (runStatus s.trace = some true → AwakeAtStop s .proceed →
      s.control = .deciding ∨ s.control = .checking →
      ∃ count ≤ 2, ∃ final, run step s (List.replicate count .proceed) = some final ∧
        final.control = .driver ∧ final.inRun = false ∧ final.now = s.now ∧
        final.trace = s.trace ++ [.leaveRun]) := by
  have kept : StatusKept s := holds_of_steps StatusKept
    (fun _ _ kept moved => kept.step moved) (StatusKept.initial clock) actions s ran
  refine ⟨⟨?_, ?_⟩, returns_of_stopped kept⟩
  · intro ends
    exact Transition.meets_of_trap_after StatusKept (fun state => ¬Each StopEnds state.trace)
      (fun _ _ _ kept _ stepped => kept.step (step_inv stepped))
      (fun _ _ _ kept missed stepped => not_stopEnds_of_missed kept missed stepped)
      (fun _ _ _ off stepped ends => by
        have moved := step_inv stepped
        exact off (ends.of_prefix moved.trace_prefix))
      actions _ s (StatusKept.initial clock)
      (Transition.meets_of_forall (fun _ _ => trivial) _ actions) ran (not_not.mpr ends)
  · intro awake
    have final := Transition.run_invariant_of_meets
      (fun state => StatusKept state ∧ Each StopEnds state.trace)
      (fun _ _ _ both meets stepped =>
        ⟨both.1.step (step_inv stepped), stopEnds_step both.1 meets stepped both.2⟩)
      actions _ s ⟨StatusKept.initial clock, each_nil _⟩ awake ran
    exact final.2

/-- A callback that stops the loop, with a timer that is not due yet or none. -/
def stopsIn (timers : List (Action Nat)) : List (Action Nat) :=
  timers ++ [.post 1, .run, .proceed, .proceed, .stop, .proceed, .proceed, .proceed, .proceed]

theorem stop_before_sleep_iff_no_timer :
    ∃ s, run step (System.initial 0) (stopsIn []) = some s ∧
      s.trace.getLast? = some .leaveRun ∧ Each StopEnds s.trace := by
  have reached : (run step (System.initial 0) (stopsIn [])).any
      (fun s => s.trace.getLast? = some .leaveRun) = true := by
    decide +kernel
  obtain ⟨s, ran, seen⟩ := (Option.any_eq_true _ _).mp reached
  exact ⟨s, ran, of_decide_eq_true seen,
    (stop_before_sleep_iff 0 (stopsIn []) s ran).1.mpr (by decide +kernel)⟩

/-- With a timer left, `Run` sleeps for it after it was stopped. -/
theorem stop_then_sleep :
    ∃ s, run step (System.initial 0) (stopsIn [.postAfter 5 2]) = some s ∧
      ¬Each StopEnds s.trace := by
  have reached : (run step (System.initial 0) (stopsIn [.postAfter 5 2])).any
      (fun s => s.trace = [.armed 0 5 2, .posted 1, .enterRun, .enterRunOnce, .drained 1, .stopped,
        .leaveRunOnce 1] ++ [.slept 5]) = true := by
    decide +kernel
  obtain ⟨s, ran, seen⟩ := (Option.any_eq_true _ _).mp reached
  refine ⟨s, ran, ?_⟩
  intro ends
  have last := ends _ _ _ (of_decide_eq_true seen)
  exact last (by decide)

end Etlx.Events
