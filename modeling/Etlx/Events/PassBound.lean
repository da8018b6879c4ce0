/-
How much one `RunOnce` can do.

A pass is a run of the loop from the head of `RunOnce`, in two phases. The batch
phase invokes the callbacks that were queued at entry. The timer phase fires what
is due at its one reading of the clock, and a callback that arms a timer due at
that reading is fired in the same pass; as long as none does, the pass is bounded
by the queue at entry and the table at the start of the timer phase.
-/

import Etlx.Events.DueOrder

namespace Etlx.Events

open Transition (Meets run)

variable {β : Type}

def InBatch (s : System β) (_ : Action β) : Prop := s.control.remaining.isSome = true

def InTimers (s : System β) (_ : Action β) : Prop := s.control.snapshot.isSome = true

instance (s : System β) (action : Action β) : Decidable (InBatch s action) :=
  inferInstanceAs (Decidable (_ = true))

instance (s : System β) (action : Action β) : Decidable (InTimers s action) :=
  inferInstanceAs (Decidable (_ = true))

/-- A `RunOnce` entered in the state `entry`, up to `s`: every step is taken inside it. The
timer phase begins in `middle`, once it is reached. -/
structure Pass (entry middle s : System β) (batch timers : List (Action β)) : Prop where
  batchRan : run step entry.enterRunOnce batch = some middle
  inBatch : Meets step InBatch entry.enterRunOnce batch
  timersRan : run step middle timers = some s
  inTimers : Meets step InTimers middle timers

def arms (s : System β) : Action β → List (TimerEntry β)
  | .postAfter delay cb =>
      if s.loop.timers.full then [] else [{ due := s.now + delay, cb := cb }]
  | _ => []

/-- A timer callback arms only timers that are due after the reading of the clock. -/
def ArmsLater (s : System β) (action : Action β) : Prop :=
  ∀ now, s.control.snapshot = some now → ∀ timer ∈ arms s action, now < timer.due

instance (s : System β) (action : Action β) : Decidable (ArmsLater s action) :=
  match taken : s.control.snapshot with
  | none => isTrue (by intro now same; rw [taken] at same; cases same)
  | some now => decidable_of_iff (∀ timer ∈ arms s action, now < timer.due) (by
      unfold ArmsLater
      rw [taken]
      simp)

def Action.isProceed : Action β → Bool
  | .proceed => true
  | _ => false

structure BoundedPass (entry middle s : System β) (batch timers : List (Action β)) : Prop where
  invokes : ∃ during, s.trace = entry.trace ++ .enterRunOnce :: during ∧
    drained during <+: entry.loop.immediate.items ∧
    (fired during : Multiset (TimerEntry β)) ≤ middle.loop.timers.items ∧
    (invoked during).length ≤
      entry.loop.immediate.items.length + middle.loop.timers.items.length
  proceeds : (batch ++ timers).countP Action.isProceed ≤
    2 * (entry.loop.immediate.items.length + middle.loop.timers.items.length) + 2
  unstuck : s.control.remaining.isSome = true ∨ s.control.snapshot.isSome = true →
    s.proceed.isSome = true

/-! ### The batch phase -/

structure BatchLeft (entry s : System β) : Prop where
  phase : s.control.remaining.isSome = true ∨ ∃ ran, s.control = .scanning s.now ran
  queue : ∃ during left extra, s.trace = entry.trace ++ .enterRunOnce :: during ∧
    entry.loop.immediate.items = drained during ++ left ∧
    s.loop.immediate.items = left ++ extra ∧ fired during = [] ∧
    left.length = s.control.remaining.getD 0

theorem BatchLeft.enter (entry : System β) : BatchLeft entry entry.enterRunOnce :=
  { phase := Or.inl rfl
    queue := ⟨[], entry.loop.immediate.items, [], rfl, rfl, (List.append_nil _).symm, rfl, rfl⟩ }

theorem BatchLeft.call {entry s next : System β} {event : Event β} {more : List β}
    (kept : BatchLeft entry s) (inBatch : s.control.remaining.isSome = true)
    (control : next.control = s.control) (trace : next.trace = s.trace ++ [event])
    (queue : next.loop.immediate.items = s.loop.immediate.items ++ more)
    (silent : drained [event] = [] ∧ fired [event] = []) : BatchLeft entry next := by
  obtain ⟨during, left, extra, recorded, batch, items, unfired, count⟩ := kept.queue
  refine ⟨Or.inl (by rw [control]; exact inBatch),
    during ++ [event], left, extra ++ more, ?_, ?_, ?_, ?_, ?_⟩
  · rw [trace, recorded, List.append_assoc, List.cons_append]
  · rw [drained_append, silent.1, List.append_nil]
    exact batch
  · rw [queue, items, List.append_assoc]
  · rw [fired_append, silent.2, List.append_nil]
    exact unfired
  · rw [control]
    exact count

theorem BatchLeft.step {entry s next : System β} (kept : BatchLeft entry s)
    (inBatch : s.control.remaining.isSome = true) (moved : Step s next) :
    BatchLeft entry next := by
  cases moved with
  | posted cb calling room => exact kept.call inBatch rfl rfl rfl ⟨rfl, rfl⟩
  | armed delay cb calling room =>
      exact kept.call inBatch rfl rfl (List.append_nil _).symm ⟨rfl, rfl⟩
  | rejected message calling =>
      exact kept.call inBatch rfl rfl (List.append_nil _).symm ⟨rfl, rfl⟩
  | stopped calling => exact kept.call inBatch rfl rfl (List.append_nil _).symm ⟨rfl, rfl⟩
  | ticked elapsed => exact ⟨Or.inl inBatch, kept.queue⟩
  | batchDone ran atEnd =>
      obtain ⟨during, left, extra, recorded, batch, items, unfired, count⟩ := kept.queue
      rw [atEnd] at count
      exact ⟨Or.inr ⟨ran, rfl⟩, during, left, extra, recorded, batch, items, unfired, count⟩
  | drained remaining ran cb rest atFront front =>
      obtain ⟨during, left, extra, recorded, batch, items, unfired, count⟩ := kept.queue
      rw [atFront] at count
      change left.length = remaining + 1 at count
      cases left with
      | nil => cases count
      | cons first others =>
          rw [front, List.cons_append] at items
          cases items
          refine ⟨Or.inl rfl, during ++ [.drained cb], others, extra, ?_, ?_, ?_, ?_, ?_⟩
          · change s.trace ++ [.drained cb] = _
            rw [recorded, List.append_assoc, List.cons_append]
          · rw [drained_append, batch, List.append_assoc]
            rfl
          · change s.loop.immediate.items.tail = _
            rw [front, List.tail_cons]
          · rw [fired_append, unfired]
            rfl
          · exact Nat.succ.inj count
  | immediateReturned remaining ran inside =>
      obtain ⟨during, left, extra, recorded, batch, items, unfired, count⟩ := kept.queue
      rw [inside] at count
      exact ⟨Or.inl rfl, during, left, extra, recorded, batch, items, unfired, count⟩
  | enteredRunOnce fromDriver => rw [fromDriver] at inBatch; cases inBatch
  | enteredRun fromDriver => rw [fromDriver] at inBatch; cases inBatch
  | fired now ran timer inScan found => rw [inScan] at inBatch; cases inBatch
  | leftRunOnce now ran inScan noneDue => rw [inScan] at inBatch; cases inBatch
  | timerReturned now ran inside => rw [inside] at inBatch; cases inBatch
  | iterated atTest running => rw [atTest] at inBatch; cases inBatch
  | halted atTest notRunning => rw [atTest] at inBatch; cases inBatch
  | finished afterPass noWork noTimers => rw [afterPass] at inBatch; cases inBatch
  | slept index timer afterPass noWork earliest => rw [afterPass] at inBatch; cases inBatch
  | requeued afterPass work => rw [afterPass] at inBatch; cases inBatch
  | woke target asleep => rw [asleep] at inBatch; cases inBatch

/-- What the batch phase has before it, in steps of the loop. -/
def batchSteps (s : System β) : Nat :=
  match s.control with
  | .draining remaining _ => 2 * remaining + 1
  | .inImmediate remaining _ => 2 * remaining + 2
  | _ => 0

/-- Inside a pass every action but `proceed` leaves the loop where it is, and adds what it arms
to the table. -/
theorem step_quiet {s next : System β} {action : Action β} (inside : s.control ≠ .driver)
    (quiet : action.isProceed = false) (stepped : step s action = some next) :
    next.control = s.control ∧
      next.loop.timers.items = s.loop.timers.items ++ arms s action := by
  have nothing : s.loop.timers.items = s.loop.timers.items ++ [] := (List.append_nil _).symm
  cases action with
  | post cb =>
      obtain ⟨_, same⟩ := Option.ite_none_right_eq_some.mp stepped
      cases same
      unfold System.post EventLoop.post
      by_cases full : s.loop.immediate.full = true
      · rw [dif_pos full]
        exact ⟨rfl, nothing⟩
      · rw [dif_neg full]
        exact ⟨rfl, nothing⟩
  | postAfter delay cb =>
      obtain ⟨_, same⟩ := Option.ite_none_right_eq_some.mp stepped
      cases same
      rw [arms]
      unfold System.postAfter EventLoop.postAfter
      by_cases full : s.loop.timers.full = true
      · rw [dif_pos full, if_pos full]
        exact ⟨rfl, nothing⟩
      · rw [dif_neg full, if_neg full]
        exact ⟨rfl, rfl⟩
  | stop =>
      obtain ⟨_, same⟩ := Option.ite_none_right_eq_some.mp stepped
      cases same
      exact ⟨rfl, nothing⟩
  | tick elapsed =>
      cases stepped
      exact ⟨rfl, nothing⟩
  | runOnce =>
      obtain ⟨fromDriver, _⟩ := Option.ite_none_right_eq_some.mp stepped
      exact absurd fromDriver inside
  | run =>
      obtain ⟨fromDriver, _⟩ := Option.ite_none_right_eq_some.mp stepped
      exact absurd fromDriver inside
  | proceed => cases quiet

theorem eq_proceed {action : Action β} (proceeds : action.isProceed = true) :
    action = .proceed := by
  cases action with
  | proceed => rfl
  | _ => cases proceeds

theorem batchSteps_lowers {s next : System β} {action : Action β} (inBatch : InBatch s action)
    (stepped : step s action = some next) :
    batchSteps next + (if action.isProceed then 1 else 0) ≤ batchSteps s := by
  cases moves : action.isProceed with
  | false =>
      have inside : s.control ≠ .driver := by
        intro fromDriver
        rw [InBatch, fromDriver] at inBatch
        cases inBatch
      rw [batchSteps, batchSteps, (step_quiet inside moves stepped).1]
      exact Nat.le_refl _
  | true =>
      cases eq_proceed moves
      cases control : s.control with
      | draining remaining ran =>
          cases remaining with
          | zero =>
              simp only [step, System.proceed, control, Option.some.injEq] at stepped
              simp [← stepped, batchSteps, control]
          | succ remaining =>
              cases front : s.loop.immediate.items with
              | nil => simp [step, System.proceed, control, front] at stepped
              | cons cb rest =>
                  simp only [step, System.proceed, control, front, Option.some.injEq] at stepped
                  simp [← stepped, batchSteps, control]
                  omega
      | inImmediate remaining ran =>
          simp only [step, System.proceed, control, Option.some.injEq] at stepped
          simp [← stepped, batchSteps, control]
      | _ => simp [InBatch, control, Control.remaining] at inBatch

/-! ### The timer phase -/

/-- Whether a timer armed since `middle` is due at the reading. -/
def Rearmed (reading : Int) (middle s : System β) : Prop :=
  ∃ during, s.trace = middle.trace ++ during ∧ ∃ timer ∈ armed during, timer.due ≤ reading

/-- What was in the table or has been armed is still there or has fired; a pass is left only
when nothing in the table is due at its reading. -/
structure TimersLeft (reading : Int) (middle s : System β) : Prop where
  phase : s.control.snapshot = some reading ∨
    s.control.snapshot = none ∧ s.control.remaining = none ∧
      ∀ timer ∈ s.loop.timers.items, reading < timer.due
  table : ∃ during, s.trace = middle.trace ++ during ∧ drained during = [] ∧
    (fired during ++ s.loop.timers.items).Perm (middle.loop.timers.items ++ armed during) ∧
    ∀ timer ∈ fired during, timer.due ≤ reading

theorem TimersLeft.start {reading : Int} {middle : System β}
    (scans : middle.control.snapshot = some reading) : TimersLeft reading middle middle :=
  { phase := Or.inl scans
    table := ⟨[], (List.append_nil _).symm, rfl, by simp [fired, armed], by simp [fired]⟩ }

theorem TimersLeft.scans {reading : Int} {middle s : System β}
    (kept : TimersLeft reading middle s) (inTimers : s.control.snapshot.isSome = true) :
    s.control.snapshot = some reading := by
  rcases kept.phase with here | ⟨outside, _⟩
  · exact here
  · rw [outside] at inTimers
    cases inTimers

theorem TimersLeft.record {reading : Int} {middle s next : System β} {event : Event β}
    (kept : TimersLeft reading middle s)
    (phase : next.control.snapshot = some reading ∨
      next.control.snapshot = none ∧ next.control.remaining = none ∧
        ∀ timer ∈ next.loop.timers.items, reading < timer.due)
    (trace : next.trace = s.trace ++ [event]) (silent : drained [event] = [])
    (moved : (fired [event] ++ next.loop.timers.items).Perm
      (s.loop.timers.items ++ armed [event]))
    (early : ∀ timer ∈ fired [event], timer.due ≤ reading) : TimersLeft reading middle next := by
  obtain ⟨during, recorded, undrained, balance, due⟩ := kept.table
  refine ⟨phase, during ++ [event], ?_, ?_, ?_, ?_⟩
  · rw [trace, recorded, List.append_assoc]
  · rw [drained_append, undrained, silent, List.append_nil]
  · rw [fired_append, armed_append, List.append_assoc, ← List.append_assoc middle.loop.timers.items]
    apply (moved.append_left (fired during)).trans
    rw [← List.append_assoc]
    exact balance.append_right (armed [event])
  · intro timer member
    rw [fired_append] at member
    rcases List.mem_append.mp member with earlier | last
    · exact due timer earlier
    · exact early timer last

theorem TimersLeft.emit {reading : Int} {middle s next : System β} {event : Event β}
    (kept : TimersLeft reading middle s)
    (phase : next.control.snapshot = some reading ∨
      next.control.snapshot = none ∧ next.control.remaining = none ∧
        ∀ timer ∈ next.loop.timers.items, reading < timer.due)
    (trace : next.trace = s.trace ++ [event]) (timers : next.loop.timers = s.loop.timers)
    (silent : drained [event] = [] ∧ fired [event] = [] ∧ armed [event] = []) :
    TimersLeft reading middle next := by
  apply kept.record phase trace silent.1
  · rw [silent.2.1, silent.2.2, timers, List.nil_append, List.append_nil]
  · rw [silent.2.1]
    intro timer impossible
    cases impossible

theorem TimersLeft.step {reading : Int} {middle s next : System β}
    (kept : TimersLeft reading middle s) (inTimers : s.control.snapshot.isSome = true)
    (moved : Step s next) : TimersLeft reading middle next := by
  have scans : s.control.snapshot = some reading := kept.scans inTimers
  cases moved with
  | posted cb calling room => exact kept.emit kept.phase rfl rfl ⟨rfl, rfl, rfl⟩
  | rejected message calling => exact kept.emit kept.phase rfl rfl ⟨rfl, rfl, rfl⟩
  | stopped calling => exact kept.emit kept.phase rfl rfl ⟨rfl, rfl, rfl⟩
  | ticked elapsed => exact ⟨kept.phase, kept.table⟩
  | armed delay cb calling room =>
      refine kept.record (Or.inl scans) rfl rfl ?_ ?_
      · exact List.Perm.refl _
      · intro timer impossible
        cases impossible
  | fired now ran timer inScan found =>
      obtain ⟨dueNow, front, back, split, erased, _⟩ := find_expired found
      rw [inScan] at scans
      cases scans
      refine kept.record (Or.inl rfl) rfl rfl ?_ ?_
      · change (timer :: s.loop.timers.items.eraseP (expired reading)).Perm
          (s.loop.timers.items ++ [])
        rw [erased, split, List.append_nil]
        exact List.perm_middle.symm
      · intro other member
        cases List.mem_singleton.mp member
        exact dueNow
  | timerReturned now ran inside =>
      rw [inside] at scans
      cases scans
      exact ⟨Or.inl rfl, kept.table⟩
  | leftRunOnce now ran inScan noneDue =>
      rw [inScan] at scans
      cases scans
      have outside : (s.leaveRunOnce ran).control.snapshot = none ∧
          (s.leaveRunOnce ran).control.remaining = none := by
        unfold System.leaveRunOnce System.emit
        dsimp only
        split
        · exact ⟨rfl, rfl⟩
        · exact ⟨rfl, rfl⟩
      have later : ∀ timer ∈ s.loop.timers.items, reading < timer.due := by
        intro timer member
        have notDue := List.find?_eq_none.mp noneDue timer member
        exact Int.not_le.mp (fun early => notDue (expired_iff.mpr early))
      exact kept.emit (Or.inr ⟨outside.1, outside.2, later⟩) rfl rfl ⟨rfl, rfl, rfl⟩
  | enteredRunOnce fromDriver => rw [fromDriver] at scans; cases scans
  | enteredRun fromDriver => rw [fromDriver] at scans; cases scans
  | batchDone ran atEnd => rw [atEnd] at scans; cases scans
  | drained remaining ran cb rest inBatch front => rw [inBatch] at scans; cases scans
  | immediateReturned remaining ran inside => rw [inside] at scans; cases scans
  | iterated atTest running => rw [atTest] at scans; cases scans
  | halted atTest notRunning => rw [atTest] at scans; cases scans
  | finished afterPass noWork noTimers => rw [afterPass] at scans; cases scans
  | slept index timer afterPass noWork earliest => rw [afterPass] at scans; cases scans
  | requeued afterPass work => rw [afterPass] at scans; cases scans
  | woke target asleep => rw [asleep] at scans; cases scans

theorem rearmed_append {reading : Int} {middle s next : System β} {events : List (Event β)}
    {during : List (Event β)} (recorded : s.trace = middle.trace ++ during)
    (trace : next.trace = s.trace ++ events) :
    Rearmed reading middle next ↔
      Rearmed reading middle s ∨ ∃ timer ∈ armed events, timer.due ≤ reading := by
  have whole : next.trace = middle.trace ++ (during ++ events) := by
    rw [trace, recorded, List.append_assoc]
  constructor
  · rintro ⟨other, split, timer, member, early⟩
    rw [whole] at split
    rw [← List.append_cancel_left split, armed_append] at member
    rcases List.mem_append.mp member with before | new
    · exact Or.inl ⟨during, recorded, timer, before, early⟩
    · exact Or.inr ⟨timer, new, early⟩
  · rintro (⟨other, split, timer, member, early⟩ | ⟨timer, member, early⟩)
    · rw [recorded] at split
      rw [← List.append_cancel_left split] at member
      refine ⟨during ++ events, whole, timer, ?_, early⟩
      rw [armed_append]
      exact List.mem_append_left _ member
    · refine ⟨during ++ events, whole, timer, ?_, early⟩
      rw [armed_append]
      exact List.mem_append_right _ member

theorem proceed_armed {s next : System β} (proceeded : s.proceed = some next) :
    ∃ events, next.trace = s.trace ++ events ∧ armed events = [] := by
  unfold System.proceed at proceeded
  repeat' split at proceeded
  all_goals
    first
      | cases proceeded; done
      | cases proceeded; exact ⟨[], (List.append_nil _).symm, rfl⟩
      | cases proceeded; exact ⟨[_], rfl, rfl⟩

theorem step_armed {s next : System β} {action : Action β}
    (stepped : step s action = some next) :
    ∃ events, next.trace = s.trace ++ events ∧ armed events = arms s action := by
  cases action with
  | post cb =>
      obtain ⟨_, same⟩ := Option.ite_none_right_eq_some.mp stepped
      cases same
      unfold System.post
      split
      · exact ⟨[_], rfl, rfl⟩
      · exact ⟨[_], rfl, rfl⟩
  | postAfter delay cb =>
      obtain ⟨_, same⟩ := Option.ite_none_right_eq_some.mp stepped
      cases same
      unfold System.postAfter EventLoop.postAfter
      by_cases full : s.loop.timers.full = true
      · rw [dif_pos full]
        exact ⟨[_], rfl, (if_pos full).symm⟩
      · rw [dif_neg full]
        exact ⟨[_], rfl, (if_neg full).symm⟩
  | stop =>
      obtain ⟨_, same⟩ := Option.ite_none_right_eq_some.mp stepped
      cases same
      exact ⟨[_], rfl, rfl⟩
  | tick elapsed =>
      cases stepped
      exact ⟨[], (List.append_nil _).symm, rfl⟩
  | runOnce =>
      obtain ⟨_, same⟩ := Option.ite_none_right_eq_some.mp stepped
      cases same
      exact ⟨[_], rfl, rfl⟩
  | run =>
      obtain ⟨_, same⟩ := Option.ite_none_right_eq_some.mp stepped
      cases same
      exact ⟨[_], rfl, rfl⟩
  | proceed => exact proceed_armed stepped

theorem Rearmed.step {reading : Int} {middle s next : System β}
    (off : Rearmed reading middle s) (moved : Step s next) : Rearmed reading middle next := by
  obtain ⟨during, recorded, early⟩ := off
  obtain ⟨events, trace⟩ := moved.trace_prefix
  exact (rearmed_append recorded trace.symm).mpr (Or.inl ⟨during, recorded, early⟩)

theorem inTimers_of_not_armsLater {s : System β} {action : Action β}
    (missed : ¬ArmsLater s action) : s.control.snapshot.isSome = true := by
  cases taken : s.control.snapshot with
  | some now => rfl
  | none =>
      refine absurd ?_ missed
      intro now impossible
      rw [taken] at impossible
      cases impossible

theorem rearmed_step_iff {reading : Int} {middle s next : System β} {action : Action β}
    (kept : TimersLeft reading middle s) (scans : s.control.snapshot = some reading)
    (stepped : step s action = some next) :
    Rearmed reading middle next ↔ Rearmed reading middle s ∨ ¬ArmsLater s action := by
  obtain ⟨during, recorded, _⟩ := kept.table
  obtain ⟨events, trace, new⟩ := step_armed stepped
  rw [rearmed_append recorded trace, new]
  apply or_congr_right
  unfold ArmsLater
  rw [scans]
  simp

def timerSteps (s : System β) : Nat :=
  match s.control with
  | .scanning now _ => 2 * (s.loop.timers.items.filter (expired now)).length + 1
  | .inTimer now _ => 2 * (s.loop.timers.items.filter (expired now)).length + 2
  | _ => 0

theorem timerSteps_eq {s next : System β} (control : next.control = s.control)
    (timers : ∀ now, s.control.snapshot = some now →
      next.loop.timers.items.filter (expired now) = s.loop.timers.items.filter (expired now)) :
    timerSteps next = timerSteps s := by
  unfold timerSteps
  rw [control]
  cases place : s.control with
  | scanning now ran =>
      dsimp only
      rw [timers now (by rw [place]; rfl)]
  | inTimer now ran =>
      dsimp only
      rw [timers now (by rw [place]; rfl)]
  | _ => rfl

theorem filter_arms {s : System β} {action : Action β} (later : ArmsLater s action) {now : Int}
    (taken : s.control.snapshot = some now) :
    (s.loop.timers.items ++ arms s action).filter (expired now) =
      s.loop.timers.items.filter (expired now) := by
  have notDue : (arms s action).filter (expired now) = [] := by
    rw [List.filter_eq_nil_iff]
    intro timer armed early
    exact Int.not_le.mpr (later now taken timer armed) (expired_iff.mp early)
  rw [List.filter_append, notDue, List.append_nil]

theorem timerSteps_lowers {s next : System β} {action : Action β}
    (inside : InTimers s action ∧ ArmsLater s action) (stepped : step s action = some next) :
    timerSteps next + (if action.isProceed then 1 else 0) ≤ timerSteps s := by
  obtain ⟨inTimers, later⟩ := inside
  cases moves : action.isProceed with
  | false =>
      have inside : s.control ≠ .driver := by
        intro fromDriver
        rw [InTimers, fromDriver] at inTimers
        cases inTimers
      obtain ⟨control, table⟩ := step_quiet inside moves stepped
      apply Nat.le_of_eq
      apply timerSteps_eq control
      intro now taken
      rw [table, filter_arms later taken]
  | true =>
      cases eq_proceed moves
      cases control : s.control with
      | scanning now ran =>
          cases found : s.loop.timers.items.find? (expired now) with
          | none =>
              simp only [step, System.proceed, control, found, Option.some.injEq] at stepped
              have left : timerSteps next = 0 := by
                rw [← stepped]
                unfold timerSteps System.leaveRunOnce System.emit
                dsimp only
                cases s.inRun <;> rfl
              rw [left]
              simp [timerSteps, control]
          | some timer =>
              simp only [step, System.proceed, control, found, Option.some.injEq] at stepped
              have shorter := congrArg List.length (filter_expired found)
              rw [List.length_cons] at shorter
              simp [← stepped, timerSteps, control, shorter]
              omega
      | inTimer now ran =>
          simp only [step, System.proceed, control, Option.some.injEq] at stepped
          simp [← stepped, timerSteps, control]
      | _ => simp [InTimers, control, Control.snapshot] at inTimers

/-! ### Whole passes -/

theorem Pass.batchLeft {entry middle s : System β} {batch timers : List (Action β)}
    (pass : Pass entry middle s batch timers) : BatchLeft entry middle :=
  Transition.run_invariant_of_meets (BatchLeft entry)
    (fun _ _ _ kept inBatch stepped => kept.step inBatch (step_inv stepped))
    batch _ middle (BatchLeft.enter entry) pass.inBatch pass.batchRan

theorem Pass.phase {entry middle s : System β} {batch timers : List (Action β)}
    (pass : Pass entry middle s batch timers) :
    middle.control.remaining.isSome = true ∧ timers = [] ∧ s = middle ∨
      ∃ ran, middle.control = .scanning middle.now ran := by
  rcases pass.batchLeft.phase with inBatch | scans
  · left
    cases timers with
    | nil => exact ⟨inBatch, rfl, (Option.some.inj pass.timersRan).symm⟩
    | cons action rest =>
        have inTimers := pass.inTimers.1
        cases control : middle.control with
        | draining remaining ran => simp [InTimers, control, Control.snapshot] at inTimers
        | inImmediate remaining ran => simp [InTimers, control, Control.snapshot] at inTimers
        | _ => simp [control, Control.remaining] at inBatch
  · exact Or.inr scans

theorem Pass.timersLeft {entry middle s : System β} {batch timers : List (Action β)}
    {ran : Nat} (pass : Pass entry middle s batch timers)
    (scans : middle.control = .scanning middle.now ran) : TimersLeft middle.now middle s :=
  Transition.run_invariant_of_meets (TimersLeft middle.now middle)
    (fun _ _ _ kept inTimers stepped => kept.step inTimers (step_inv stepped))
    timers middle s (TimersLeft.start (by rw [scans]; rfl)) pass.inTimers pass.timersRan

/-- The timers due at the reading: those that fired or are left, and those that stood in the
table or were armed. -/
theorem due_balance {reading : Int} {firings left table arming : List (TimerEntry β)}
    (balance : (firings ++ left).Perm (table ++ arming))
    (due : ∀ timer ∈ firings, timer.due ≤ reading) :
    (firings ++ left.filter (expired reading)).Perm
      (table.filter (expired reading) ++ arming.filter (expired reading)) := by
  have dueAll : firings.filter (expired reading) = firings :=
    List.filter_eq_self.mpr (fun timer member => expired_iff.mpr (due timer member))
  have filtered := balance.filter (expired reading)
  rw [List.filter_append, List.filter_append, dueAll] at filtered
  exact filtered

theorem fired_le_of_later {reading : Int} {firings left table arming : List (TimerEntry β)}
    (balance : (firings ++ left).Perm (table ++ arming))
    (due : ∀ timer ∈ firings, timer.due ≤ reading)
    (later : ∀ timer ∈ arming, reading < timer.due) :
    (firings : Multiset (TimerEntry β)) ≤ table := by
  have none : arming.filter (expired reading) = [] := by
    rw [List.filter_eq_nil_iff]
    intro timer member early
    exact Int.not_le.mpr (later timer member) (expired_iff.mp early)
  have filtered := due_balance balance due
  rw [none, List.append_nil] at filtered
  have front : firings.Subperm (firings ++ left.filter (expired reading)) :=
    (List.sublist_append_left _ _).subperm
  exact Multiset.coe_le.mpr
    ((front.trans filtered.subperm).trans List.filter_sublist.subperm)

theorem later_of_fired_le {reading : Int} {firings left table arming : List (TimerEntry β)}
    (balance : (firings ++ left).Perm (table ++ arming))
    (due : ∀ timer ∈ firings, timer.due ≤ reading)
    (noneLeft : ∀ timer ∈ left, reading < timer.due)
    (fits : (firings : Multiset (TimerEntry β)) ≤ table) :
    ∀ timer ∈ arming, reading < timer.due := by
  have empty : left.filter (expired reading) = [] := by
    rw [List.filter_eq_nil_iff]
    intro timer member early
    exact Int.not_le.mpr (noneLeft timer member) (expired_iff.mp early)
  have dueAll : firings.filter (expired reading) = firings :=
    List.filter_eq_self.mpr (fun timer member => expired_iff.mpr (due timer member))
  have filtered := due_balance balance due
  rw [empty, List.append_nil] at filtered
  have counted := filtered.length_eq
  have shorter := ((Multiset.coe_le.mp fits).filter (expired reading)).length_le
  rw [dueAll] at shorter
  rw [List.length_append] at counted
  have nothing : arming.filter (expired reading) = [] :=
    List.eq_nil_of_length_eq_zero (by omega)
  intro timer member
  exact Int.not_le.mp (fun early =>
    List.filter_eq_nil_iff.mp nothing timer member (expired_iff.mpr early))

theorem not_rearmed_iff {reading : Int} {middle s : System β} {during : List (Event β)}
    (recorded : s.trace = middle.trace ++ during) :
    ¬Rearmed reading middle s ↔ ∀ timer ∈ armed during, reading < timer.due := by
  constructor
  · intro calm timer member
    exact Int.not_le.mp (fun early => calm ⟨during, recorded, timer, member, early⟩)
  · rintro later ⟨other, split, timer, member, early⟩
    rw [recorded] at split
    rw [← List.append_cancel_left split] at member
    exact Int.not_le.mpr (later timer member) early

theorem Pass.not_rearmed {entry middle s : System β} {batch timers : List (Action β)}
    {ran : Nat} (pass : Pass entry middle s batch timers)
    (scans : middle.control = .scanning middle.now ran)
    (meets : Meets step ArmsLater middle timers) : ¬Rearmed middle.now middle s := by
  have start : TimersLeft middle.now middle middle := TimersLeft.start (by rw [scans]; rfl)
  have calm : ¬Rearmed middle.now middle middle :=
    (not_rearmed_iff (List.append_nil _).symm).mpr (by simp [armed])
  have final := Transition.run_invariant_of_meets
    (fun s => TimersLeft middle.now middle s ∧ ¬Rearmed middle.now middle s)
    (fun s action next kept inside stepped => by
      refine ⟨kept.1.step inside.1 (step_inv stepped), ?_⟩
      rw [rearmed_step_iff kept.1 (kept.1.scans inside.1) stepped]
      rintro (already | missed)
      · exact kept.2 already
      · exact missed inside.2)
    timers middle s ⟨start, calm⟩ (pass.inTimers.and meets) pass.timersRan
  exact final.2

theorem Pass.proceeds {entry middle s : System β} {batch timers : List (Action β)}
    (pass : Pass entry middle s batch timers) (meets : Meets step ArmsLater middle timers) :
    (batch ++ timers).countP Action.isProceed ≤
      2 * (entry.loop.immediate.items.length + middle.loop.timers.items.length) + 2 := by
  have first : batch.countP Action.isProceed + batchSteps middle ≤
      2 * entry.loop.immediate.items.length + 1 :=
    Transition.countP_add_le_of_meets batchSteps Action.isProceed
      (fun _ _ _ inBatch stepped => batchSteps_lowers inBatch stepped)
      batch entry.enterRunOnce middle pass.inBatch pass.batchRan
  have second : timers.countP Action.isProceed + timerSteps s ≤ timerSteps middle :=
    Transition.countP_add_le_of_meets timerSteps Action.isProceed
      (fun _ _ _ inside stepped => timerSteps_lowers inside stepped)
      timers middle s (pass.inTimers.and meets) pass.timersRan
  have table : timerSteps middle ≤ 2 * middle.loop.timers.items.length + 1 ∨ timers = [] := by
    rcases pass.phase with ⟨_, none, _⟩ | ⟨ran, scans⟩
    · exact Or.inr none
    · left
      have fewer := List.length_filter_le (expired middle.now) middle.loop.timers.items
      simp only [timerSteps, scans]
      omega
  rw [List.countP_append]
  rcases table with bound | none
  · omega
  · rw [none, List.countP_nil]
    omega

theorem Pass.invokes {entry middle s : System β} {batch timers : List (Action β)}
    (pass : Pass entry middle s batch timers) (meets : Meets step ArmsLater middle timers) :
    ∃ during, s.trace = entry.trace ++ .enterRunOnce :: during ∧
      drained during <+: entry.loop.immediate.items ∧
      (fired during : Multiset (TimerEntry β)) ≤ middle.loop.timers.items := by
  obtain ⟨first, left, _, recorded, queue, _, unfired, _⟩ := pass.batchLeft.queue
  rcases pass.phase with ⟨_, _, here⟩ | ⟨ran, scans⟩
  · refine ⟨first, by rw [here]; exact recorded, ⟨left, queue.symm⟩, ?_⟩
    rw [unfired]
    exact Multiset.zero_le _
  · obtain ⟨second, extended, undrained, balance, due⟩ := (pass.timersLeft scans).table
    have later := (not_rearmed_iff extended).mp (pass.not_rearmed scans meets)
    refine ⟨first ++ second, ?_, ?_, ?_⟩
    · rw [extended, recorded, List.append_assoc, List.cons_append]
    · rw [drained_append, undrained, List.append_nil]
      exact ⟨left, queue.symm⟩
    · rw [fired_append, unfired, List.nil_append]
      exact fired_le_of_later balance due later

theorem invoked_length_le {during : List (Event β)} {queue : List β}
    {table : List (TimerEntry β)} (front : drained during <+: queue)
    (fits : (fired during : Multiset (TimerEntry β)) ≤ table) :
    (invoked during).length ≤ queue.length + table.length := by
  have counted := (invoked_perm during).length_eq
  have drains := front.length_le
  have fires := Multiset.card_le_card fits
  rw [Multiset.coe_card, Multiset.coe_card] at fires
  rw [List.length_append, List.length_map] at counted
  omega

theorem Pass.unstuck {entry middle s : System β} {batch timers : List (Action β)}
    (pass : Pass entry middle s batch timers)
    (inside : s.control.remaining.isSome = true ∨ s.control.snapshot.isSome = true) :
    s.proceed.isSome = true := by
  unfold System.proceed
  cases control : s.control with
  | draining remaining ran =>
      cases remaining with
      | zero => rfl
      | succ remaining =>
          obtain ⟨_, left, extra, _, _, items, _, count⟩ := pass.batchLeft.queue
          rcases pass.phase with ⟨_, _, here⟩ | ⟨ran', scans⟩
          · rw [← here, control] at count
            rw [← here] at items
            cases left with
            | nil => cases count
            | cons cb others =>
                rw [items]
                rfl
          · rcases (pass.timersLeft scans).phase with taken | ⟨_, outside, _⟩
            · rw [control] at taken
              cases taken
            · rw [control] at outside
              cases outside
  | inImmediate remaining ran => rfl
  | scanning now ran =>
      dsimp only
      cases s.loop.timers.items.find? (expired now) <;> rfl
  | inTimer now ran => rfl
  | _ => simp [control, Control.remaining, Control.snapshot] at inside

theorem Pass.bounded {entry middle s : System β} {batch timers : List (Action β)}
    (pass : Pass entry middle s batch timers) (meets : Meets step ArmsLater middle timers) :
    BoundedPass entry middle s batch timers := by
  obtain ⟨during, recorded, front, fits⟩ := pass.invokes meets
  exact
    { invokes := ⟨during, recorded, front, fits, invoked_length_le front fits⟩
      proceeds := pass.proceeds meets
      unstuck := pass.unstuck }

theorem Pass.armsLater {entry middle s : System β} {batch timers : List (Action β)}
    (pass : Pass entry middle s batch timers) (left : s.control.snapshot = none)
    (bounded : BoundedPass entry middle s batch timers) :
    Meets step ArmsLater middle timers := by
  rcases pass.phase with ⟨_, none, _⟩ | ⟨ran, scans⟩
  · rw [none]
    exact trivial
  · obtain ⟨first, _, _, before, _, _, unfired, _⟩ := pass.batchLeft.queue
    have final := pass.timersLeft scans
    obtain ⟨second, extended, undrained, balance, due⟩ := final.table
    obtain ⟨during, recorded, _, fits, _⟩ := bounded.invokes
    have whole : first ++ second = during := by
      rw [extended, before, List.append_assoc, List.cons_append] at recorded
      have same := List.append_cancel_left recorded
      exact (List.cons.inj same).2
    rw [← whole, fired_append, unfired, List.nil_append] at fits
    have noneLeft : ∀ timer ∈ s.loop.timers.items, middle.now < timer.due := by
      rcases final.phase with taken | ⟨_, _, noneDue⟩
      · rw [left] at taken
        cases taken
      · exact noneDue
    have later := later_of_fired_le balance due noneLeft fits
    exact Transition.meets_of_trap_after (TimersLeft middle.now middle)
      (Rearmed middle.now middle)
      (fun _ _ _ kept inTimers stepped => kept.step inTimers (step_inv stepped))
      (fun _ _ _ kept missed stepped =>
        (rearmed_step_iff kept (kept.scans (inTimers_of_not_armsLater missed)) stepped).mpr
          (Or.inr missed))
      (fun _ _ _ off stepped => off.step (step_inv stepped))
      timers middle s (TimersLeft.start (by rw [scans]; rfl)) pass.inTimers pass.timersRan
      ((not_rearmed_iff extended).mpr later)

/-- Every `RunOnce` whose timer callbacks arm only timers due after its reading of the clock
is bounded, at each of its points; and a finished one that is bounded is of this kind. -/
theorem runOnce_bounded_iff (entry middle s : System β) (batch timers : List (Action β))
    (pass : Pass entry middle s batch timers) :
    (Meets step ArmsLater middle timers → BoundedPass entry middle s batch timers) ∧
      (s.control.snapshot = none → BoundedPass entry middle s batch timers →
        Meets step ArmsLater middle timers) :=
  ⟨pass.bounded, pass.armsLater⟩

def dueEntry : System Nat :=
  { loop :=
      { EventLoop.initial with
        timers := { items := [{ due := 0, cb := 1 }], bound := by decide } }
    now := 0
    control := .driver
    inRun := false
    trace := [] }

def dueMiddle : System Nat :=
  { dueEntry with control := .scanning 0 0, trace := [.enterRunOnce] }

def armsAgain (delay : Int) : List (Action Nat) :=
  [.proceed, .postAfter delay 1, .proceed, .proceed]

theorem runOnce_bounded_iff_later :
    ∃ s, Pass dueEntry dueMiddle s [.proceed] (armsAgain 3) ∧
      s.trace.getLast? = some (.leaveRunOnce 1) ∧
      BoundedPass dueEntry dueMiddle s [.proceed] (armsAgain 3) := by
  have reached : (run step dueMiddle (armsAgain 3)).any
      (fun s => s.trace.getLast? = some (.leaveRunOnce 1)) = true := by
    decide +kernel
  obtain ⟨s, ran, seen⟩ := (Option.any_eq_true _ _).mp reached
  have pass : Pass dueEntry dueMiddle s [.proceed] (armsAgain 3) :=
    { batchRan := by decide +kernel
      inBatch := by decide +kernel
      timersRan := ran
      inTimers := by decide +kernel }
  exact ⟨s, pass, of_decide_eq_true seen,
    (runOnce_bounded_iff dueEntry dueMiddle s [.proceed] (armsAgain 3) pass).1
      (by decide +kernel)⟩

/-- The timer fires and its callback arms it again with no delay, over and over. -/
def rearms : Nat → List (Action Nat)
  | 0 => []
  | count + 1 => .proceed :: .postAfter 0 1 :: .proceed :: rearms count

theorem rearms_step {s : System Nat} {ran : Nat} (scans : s.control = .scanning 0 ran)
    (clock : s.now = 0) (table : s.loop.timers.items = [{ due := 0, cb := 1 }]) :
    ∃ first second third, step s .proceed = some first ∧
      step first (.postAfter 0 1) = some second ∧ step second .proceed = some third ∧
      InTimers first (.postAfter 0 1) ∧ InTimers second .proceed ∧
      third.control = .scanning 0 (ran + 1) ∧ third.now = 0 ∧
      third.loop.timers.items = [{ due := 0, cb := 1 }] ∧
      (invoked third.trace).length = (invoked s.trace).length + 1 := by
  obtain ⟨first, fire, inFirst, firstClock, noTimers, fired⟩ :
      ∃ first, step s .proceed = some first ∧
      first.control = .inTimer 0 ran ∧ first.now = 0 ∧ first.loop.timers.items = [] ∧
      (invoked first.trace).length = (invoked s.trace).length + 1 := by
    have found : s.loop.timers.items.find? (expired 0) = some { due := 0, cb := 1 } := by
      rw [table]
      decide
    have erased : s.loop.timers.items.eraseP (expired 0) = [] := by
      rw [table]
      decide
    simp only [step, System.proceed, scans, found]
    exact ⟨_, rfl, rfl, clock, erased, by simp [invoked]⟩
  obtain ⟨second, arm, inSecond, secondClock, oneTimer, armed⟩ :
      ∃ second, step first (.postAfter 0 1) = some second ∧
      second.control = .inTimer 0 ran ∧ second.now = 0 ∧
      second.loop.timers.items = [{ due := 0, cb := 1 }] ∧
      (invoked second.trace).length = (invoked first.trace).length := by
    have room : ¬first.loop.timers.full = true := by
      rw [Bounded.full, noTimers]
      decide
    simp only [step, inFirst, Control.calling, System.postAfter, EventLoop.postAfter, dif_neg room]
    refine ⟨_, rfl, rfl, firstClock, ?_, by simp [invoked]⟩
    change first.loop.timers.items ++ [{ due := first.now + 0, cb := 1 }] = _
    rw [noTimers, firstClock]
    rfl
  have back : step second .proceed = some { second with control := .scanning 0 (ran + 1) } := by
    simp only [step, System.proceed, inSecond]
  refine ⟨first, second, _, fire, arm, back, ?_, ?_, rfl, secondClock, oneTimer, ?_⟩
  · rw [InTimers, inFirst]
    rfl
  · rw [InTimers, inSecond]
    rfl
  · change (invoked second.trace).length = _
    omega

theorem rearms_run (count : Nat) {s : System Nat} {ran : Nat}
    (scans : s.control = .scanning 0 ran) (clock : s.now = 0)
    (table : s.loop.timers.items = [{ due := 0, cb := 1 }]) :
    ∃ final, run step s (rearms count) = some final ∧ Meets step InTimers s (rearms count) ∧
      (invoked final.trace).length = (invoked s.trace).length + count := by
  induction count generalizing s ran with
  | zero => exact ⟨s, rfl, trivial, rfl⟩
  | succ count ih =>
      obtain ⟨first, second, third, fire, arm, back, inFirst, inSecond, again, clockAgain,
        tableAgain, counted⟩ := rearms_step scans clock table
      obtain ⟨final, ranOn, inside, total⟩ := ih again clockAgain tableAgain
      refine ⟨final, ?_, ?_, by omega⟩
      · simp only [rearms, run, fire, arm, back]
        exact ranOn
      · simp only [rearms, Meets, fire, arm, back]
        refine ⟨?_, inFirst, inSecond, inside⟩
        rw [InTimers, scans]
        rfl

/-- A callback that arms its timer again with no delay keeps the pass going for ever, and after
two rounds more has been invoked than was there. -/
theorem runOnce_unbounded :
    (∀ count, ∃ s, Pass dueEntry dueMiddle s [.proceed] (rearms count) ∧
      (invoked s.trace).length = count) ∧
    ∃ s, Pass dueEntry dueMiddle s [.proceed] (rearms 2) ∧
      ¬BoundedPass dueEntry dueMiddle s [.proceed] (rearms 2) := by
  have passes : ∀ count, ∃ s, Pass dueEntry dueMiddle s [.proceed] (rearms count) ∧
      (invoked s.trace).length = count := by
    intro count
    obtain ⟨s, ran, inside, total⟩ := rearms_run count (s := dueMiddle) rfl rfl rfl
    refine ⟨s, ⟨by decide +kernel, by decide +kernel, ran, inside⟩, ?_⟩
    rw [total]
    exact Nat.zero_add count
  refine ⟨passes, ?_⟩
  obtain ⟨s, pass, total⟩ := passes 2
  refine ⟨s, pass, ?_⟩
  intro bounded
  obtain ⟨during, recorded, _, _, few⟩ := bounded.invokes
  have more : (invoked during).length = 2 := by
    rw [recorded] at total
    exact total
  rw [more] at few
  exact absurd few (by decide)

end Etlx.Events
