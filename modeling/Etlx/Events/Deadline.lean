/-
What `Run` sleeps for, and what it does when it wakes up.

`Run` goes to sleep with nothing queued, until the soonest timer of the table is due;
so the pass that follows finds a timer to fire. A pass that follows another without a
sleep finds the queue filled. The clock is one that keeps what `SleepUntil` promises:
when it returns, the time it was called with has come.
-/

import Etlx.Events.PassBound
import Etlx.Events.StopOrder

namespace Etlx.Events

open Transition (Each each_nil each_snoc Meets run)

variable {β : Type}

/-- `SleepUntil` returns only when the clock has reached the time it was called with. -/
def WakesInTime (s : System β) (action : Action β) : Prop :=
  action = .proceed → ∀ target, s.control = .sleeping target → target ≤ s.now

instance [DecidableEq β] (s : System β) (action : Action β) : Decidable (WakesInTime s action) :=
  match asleep : s.control with
  | .sleeping target => decidable_of_iff (action = .proceed → target ≤ s.now) (by
      unfold WakesInTime
      rw [asleep]
      simp)
  | .driver | .draining _ _ | .inImmediate _ _ | .scanning _ _ | .inTimer _ _ | .checking
  | .deciding => isTrue (by
      intro _ target same
      rw [asleep] at same
      cases same)

/-- With nothing queued, the time is that of the soonest timer. -/
structure SleepsToEarliest (loop : EventLoop β) (target : Int) : Prop where
  noWork : loop.immediate.items = []
  earliest : ∃ timer ∈ loop.timers.items, timer.due = target
  least : ∀ timer ∈ loop.timers.items, target ≤ timer.due

/-- Whatever happens from here on, the loop is not stuck before it has made four steps, and with
the fourth the pass that it entered has fired a timer. -/
structure FiresNext (s : System β) : Prop where
  unstuck : ∀ (more : List (Action β)) (middle : System β), run step s more = some middle →
    Meets step WakesInTime s more → more.countP Action.isProceed < 4 →
    middle.proceed.isSome = true
  fires : ∀ (more : List (Action β)) (final : System β), run step s more = some final →
    Meets step WakesInTime s more → 4 ≤ more.countP Action.isProceed →
    ∃ clock timer others, s.trace ++ [.enterRunOnce, .fired clock timer others] <+: final.trace ∧
      timer ∈ s.loop.timers.items ∧ timer.due ≤ clock

/-- Inside `Run`, a pass that is not its first begins with a callback, and behind a sleep with
a timer that is due. -/
def WorksEachPass (before : List (Event β)) (event : Event β) : Prop :=
  ∀ front, before = front ++ [.enterRunOnce] → runStatus front ≠ none →
    front.getLast? ≠ some .enterRun →
    (∃ cb, event = .drained cb ∧ ∀ target, front.getLast? ≠ some (.slept target)) ∨
    (∃ clock timer others, event = .fired clock timer others ∧ timer.due ≤ clock)

/-! ### From the sleep to the timer -/

theorem SleepsToEarliest.of_earliest {loop : EventLoop β} {index : Nat} {timer : TimerEntry β}
    (noWork : loop.immediate.items = []) (earliest : loop.earliestTimer = some (index, timer)) :
    SleepsToEarliest loop timer.due := by
  obtain ⟨_, _, found, here, least⟩ := earliestTimer_spec (earliestTimer_ne_nil earliest)
  rw [earliest] at found
  cases found
  exact
    { noWork := noWork
      earliest := ⟨timer, List.mem_of_getElem? here, rfl⟩
      least := least }

/-- Where the loop stands when it has made `count` steps since it slept in the state `s`. -/
def Waking (s : System β) (target : Int) : Nat → System β → Prop
  | 0, middle =>
      middle.control = .sleeping target ∧ middle.loop = s.loop ∧ middle.trace = s.trace
  | 1, middle =>
      middle.control = .checking ∧ middle.loop = s.loop ∧ middle.trace = s.trace ∧
        target ≤ middle.now
  | 2, middle =>
      middle.control = .draining 0 0 ∧ middle.loop = s.loop ∧
        middle.trace = s.trace ++ [.enterRunOnce] ∧ target ≤ middle.now
  | 3, middle =>
      ∃ reading, middle.control = .scanning reading 0 ∧ middle.loop = s.loop ∧
        middle.trace = s.trace ++ [.enterRunOnce] ∧ target ≤ reading ∧ reading ≤ middle.now
  | _ + 4, middle =>
      ∃ clock timer others, s.trace ++ [.enterRunOnce, .fired clock timer others] <+:
        middle.trace ∧ timer ∈ s.loop.timers.items ∧ timer.due ≤ clock

theorem step_of_not_calling {s next : System β} {action : Action β}
    (alone : s.control.calling = false) (stepped : step s action = some next) :
    (action = .proceed ∧ s.proceed = some next) ∨
      (action.isProceed = false ∧ ∃ elapsed : Nat, next = { s with now := s.now + elapsed }) := by
  cases action with
  | proceed => exact .inl ⟨rfl, stepped⟩
  | tick elapsed =>
      cases stepped
      exact .inr ⟨rfl, elapsed, rfl⟩
  | post cb => simp [step, alone] at stepped
  | postAfter delay cb => simp [step, alone] at stepped
  | stop => simp [step, alone] at stepped
  | runOnce =>
      obtain ⟨fromDriver, _⟩ := Option.ite_none_right_eq_some.mp stepped
      rw [fromDriver] at alone
      cases alone
  | run =>
      obtain ⟨fromDriver, _⟩ := Option.ite_none_right_eq_some.mp stepped
      rw [fromDriver] at alone
      cases alone

theorem find_due {timers : List (TimerEntry β)} {reading : Int}
    (due : ∃ timer ∈ timers, timer.due ≤ reading) :
    ∃ timer, timers.find? (expired reading) = some timer := by
  obtain ⟨timer, member, early⟩ := due
  exact Option.isSome_iff_exists.mp
    (List.find?_isSome.mpr ⟨timer, member, expired_iff.mpr early⟩)

theorem SleepsToEarliest.due {loop : EventLoop β} {target reading : Int}
    (sleeps : SleepsToEarliest loop target) (reached : target ≤ reading) :
    ∃ timer ∈ loop.timers.items, timer.due ≤ reading := by
  obtain ⟨timer, member, same⟩ := sleeps.earliest
  exact ⟨timer, member, same ▸ reached⟩

theorem Waking.tick {s middle : System β} {target : Int} {count : Nat}
    (waking : Waking s target count middle) (elapsed : Nat) :
    Waking s target count { middle with now := middle.now + elapsed } := by
  have later : middle.now ≤ middle.now + elapsed := by omega
  match count with
  | 0 => exact waking
  | 1 =>
      obtain ⟨control, loop, trace, reached⟩ := waking
      exact ⟨control, loop, trace, Int.le_trans reached later⟩
  | 2 =>
      obtain ⟨control, loop, trace, reached⟩ := waking
      exact ⟨control, loop, trace, Int.le_trans reached later⟩
  | 3 =>
      obtain ⟨reading, control, loop, trace, reached, passed⟩ := waking
      exact ⟨reading, control, loop, trace, reached, Int.le_trans passed later⟩
  | _ + 4 => exact waking

theorem Waking.proceed {s middle : System β} {target : Int} {count : Nat}
    (sleeps : SleepsToEarliest s.loop target) (running : s.loop.running = true)
    (waking : Waking s target count middle) (short : count < 4)
    (inTime : WakesInTime middle .proceed) :
    ∃ next, middle.proceed = some next ∧ Waking s target (count + 1) next := by
  match count with
  | 0 =>
      obtain ⟨control, loop, trace⟩ := waking
      refine ⟨{ middle with control := .checking }, ?_, rfl, loop, trace, ?_⟩
      · rw [System.proceed, control]
      · exact inTime rfl target control
  | 1 =>
      obtain ⟨control, loop, trace, reached⟩ := waking
      refine ⟨middle.enterRunOnce, ?_, ?_, loop, ?_, reached⟩
      · rw [System.proceed, control]
        simp [loop, running]
      · simp [loop, sleeps.noWork]
      · simp [trace]
  | 2 =>
      obtain ⟨control, loop, trace, reached⟩ := waking
      refine ⟨{ middle with control := .scanning middle.now 0 }, ?_, middle.now, rfl, loop, trace,
        reached, Int.le_refl _⟩
      rw [System.proceed, control]
  | 3 =>
      obtain ⟨reading, control, loop, trace, reached, passed⟩ := waking
      obtain ⟨timer, found⟩ := find_due (sleeps.due reached)
      rw [← loop] at found
      obtain ⟨early, front, back, split, _, _⟩ := find_expired found
      refine ⟨_, by rw [System.proceed, control]; simp only [found]; rfl, middle.now, timer,
        middle.loop.timers.items.eraseP (expired reading), ?_, ?_, Int.le_trans early passed⟩
      · simp [trace]
      · rw [← loop, split]
        exact List.mem_append_right front List.mem_cons_self

theorem Waking.not_calling {s middle : System β} {target : Int} {count : Nat}
    (waking : Waking s target count middle) (short : count < 4) :
    middle.control.calling = false := by
  match count with
  | 0 => rw [waking.1]; rfl
  | 1 => rw [waking.1]; rfl
  | 2 => rw [waking.1]; rfl
  | 3 =>
      obtain ⟨reading, control, _⟩ := waking
      rw [control]
      rfl

theorem Waking.step {s middle next : System β} {target : Int} {count : Nat} {action : Action β}
    (sleeps : SleepsToEarliest s.loop target) (running : s.loop.running = true)
    (waking : Waking s target count middle) (inTime : WakesInTime middle action)
    (stepped : Events.step middle action = some next) :
    Waking s target (count + if action.isProceed then 1 else 0) next := by
  by_cases short : count < 4
  · rcases step_of_not_calling (waking.not_calling short) stepped with
      ⟨rfl, proceeded⟩ | ⟨quiet, elapsed, rfl⟩
    · obtain ⟨after, reached, further⟩ := waking.proceed sleeps running short inTime
      rw [reached] at proceeded
      cases proceeded
      exact further
    · rw [quiet]
      exact waking.tick elapsed
  -- From the fourth step on the timer is in the history, which only grows.
  · obtain ⟨extra, rfl⟩ := Nat.exists_eq_add_of_le' (Nat.le_of_not_lt short)
    obtain ⟨clock, timer, others, recorded, member, early⟩ := waking
    have moved := step_inv stepped
    have kept : Waking s target (extra + 4) next :=
      ⟨clock, timer, others, recorded.trans moved.trace_prefix, member, early⟩
    cases action.isProceed with
    | false => exact kept
    | true => exact kept

theorem Waking.of_run {s final : System β} {target : Int} {more : List (Action β)}
    (asleep : s.control = .sleeping target) (sleeps : SleepsToEarliest s.loop target)
    (running : s.loop.running = true) (inTime : Meets Events.step WakesInTime s more)
    (ran : run Events.step s more = some final) :
    Waking s target (more.countP Action.isProceed) final := by
  have start : Waking s target 0 s := ⟨asleep, rfl, rfl⟩
  have reached := Transition.run_counted_of_meets (Waking s target) Action.isProceed
    (fun _ _ _ _ waking meets stepped => waking.step sleeps running meets stepped)
    more 0 s final start inTime ran
  rw [Nat.zero_add] at reached
  exact reached

theorem firesNext_of_sleeping {clock : Int} {actions : List (Action β)} {s : System β}
    (reached : run step (System.initial clock) actions = some s) {target : Int}
    (asleep : s.control = .sleeping target) (sleeps : SleepsToEarliest s.loop target)
    (running : s.loop.running = true) : FiresNext s :=
  { unstuck := by
      intro more middle ran inTime short
      have alone : middle.control.calling = false :=
        (Waking.of_run asleep sleeps running inTime ran).not_calling short
      apply proceeds_of_run (Transition.run_trans reached ran)
      intro fromDriver
      rw [fromDriver] at alone
      cases alone
    fires := by
      intro more final ran inTime enough
      obtain ⟨extra, counted⟩ := Nat.exists_eq_add_of_le' enough
      have fired := Waking.of_run asleep sleeps running inTime ran
      rw [counted] at fired
      exact fired }

/-! ### Where `Run` stands -/

/-- What has just happened where `Run` sleeps, has ended a pass, or is at the head of its
loop. -/
def Placed (s : System β) : Control → Prop
  | .sleeping target =>
      s.trace.getLast? = some (.slept target) ∧ SleepsToEarliest s.loop target
  | .deciding => ∃ ran, s.trace.getLast? = some (.leaveRunOnce ran)
  | .checking =>
      s.trace.getLast? = some .enterRun ∨
        (∃ ran, s.trace.getLast? = some (.leaveRunOnce ran) ∧ s.loop.immediate.items ≠ []) ∨
        ∃ target, s.trace.getLast? = some (.slept target) ∧ SleepsToEarliest s.loop target
  | _ => True

def PlaceKept (s : System β) : Prop := Placed s s.control

theorem placed_of_calling (s : System β) {control : Control} (calling : control.calling = true) :
    Placed s control := by
  cases control with
  | checking => cases calling
  | deciding => cases calling
  | sleeping target => cases calling
  | _ => exact trivial

theorem PlaceKept.step {s next : System β} (kept : PlaceKept s) (moved : Step s next) :
    PlaceKept next := by
  cases moved with
  | posted cb calling room => exact placed_of_calling _ calling
  | armed delay cb calling room => exact placed_of_calling _ calling
  | rejected message calling => exact placed_of_calling _ calling
  | stopped calling => exact placed_of_calling _ calling
  | ticked elapsed => exact kept
  | enteredRun fromDriver => exact .inl List.getLast?_concat
  | leftRunOnce now ran inScan noneDue =>
      change Placed _ (if s.inRun then .deciding else .driver)
      cases s.inRun with
      | false => exact trivial
      | true => exact ⟨ran, List.getLast?_concat⟩
  | slept index timer afterPass noWork earliest =>
      exact ⟨List.getLast?_concat, SleepsToEarliest.of_earliest noWork earliest⟩
  | requeued afterPass work =>
      rw [PlaceKept, afterPass] at kept
      obtain ⟨ran, last⟩ := kept
      exact .inr (.inl ⟨ran, last, work⟩)
  | woke target asleep =>
      rw [PlaceKept, asleep] at kept
      exact .inr (.inr ⟨target, kept⟩)
  | _ => exact trivial

theorem PlaceKept.of_run {clock : Int} {actions : List (Action β)} {s : System β}
    (ran : run Events.step (System.initial clock) actions = some s) : PlaceKept s :=
  holds_of_steps PlaceKept (fun _ _ kept moved => kept.step moved) trivial actions s ran

/-! ### Going round without a callback -/

/-- What the pass that was entered behind `front` is about to do. -/
inductive AboutTo (s : System β) (front : List (Event β)) : Prop
  | drain (remaining ran : Nat) (inBatch : s.control = .draining (remaining + 1) ran)
      (awake : ∀ target, front.getLast? ≠ some (.slept target))
  | expire (ran : Nat) (atEnd : s.control = .draining 0 ran)
      (due : ∃ timer ∈ s.loop.timers.items, timer.due ≤ s.now)
  | fire (reading : Int) (ran : Nat) (inScan : s.control = .scanning reading ran)
      (due : ∃ timer ∈ s.loop.timers.items, timer.due ≤ reading) (passed : reading ≤ s.now)

def EntersToWork (s : System β) : Prop :=
  ∀ front, s.trace = front ++ [.enterRunOnce] → runStatus front ≠ none →
    front.getLast? ≠ some .enterRun → AboutTo s front

def WokenInTime (s : System β) : Prop :=
  s.control = .checking → ∀ target, s.trace.getLast? = some (.slept target) → target ≤ s.now

def Control.scans : Control → Bool
  | .draining _ _ => true
  | .scanning _ _ => true
  | _ => false

theorem AboutTo.scans {s : System β} {front : List (Event β)} (about : AboutTo s front) :
    s.control.scans = true := by
  cases about with
  | drain remaining ran inBatch => rw [inBatch]; rfl
  | expire ran atEnd => rw [atEnd]; rfl
  | fire reading ran inScan => rw [inScan]; rfl

theorem AboutTo.tick {s : System β} {front : List (Event β)} (about : AboutTo s front)
    (elapsed : Nat) : AboutTo { s with now := s.now + elapsed } front := by
  have later : s.now ≤ s.now + elapsed := by omega
  cases about with
  | drain remaining ran inBatch awake => exact .drain remaining ran inBatch awake
  | expire ran atEnd due =>
      obtain ⟨timer, member, early⟩ := due
      exact .expire ran atEnd ⟨timer, member, Int.le_trans early later⟩
  | fire reading ran inScan due passed =>
      exact .fire reading ran inScan due (Int.le_trans passed later)

theorem AboutTo.enter {s : System β} (place : PlaceKept s) (woken : WokenInTime s)
    (atTest : s.control = .checking) (notFirst : s.trace.getLast? ≠ some .enterRun) :
    AboutTo s.enterRunOnce s.trace := by
  rw [PlaceKept, atTest] at place
  rcases place with first | ⟨ran, last, work⟩ | ⟨target, last, sleeps⟩
  · exact absurd first notFirst
  · obtain ⟨remaining, counted⟩ := Nat.exists_eq_succ_of_ne_zero
      (mt List.length_eq_zero_iff.mp work)
    refine .drain remaining 0 ?_ ?_
    · change Control.draining _ 0 = _
      rw [counted]
    · intro target same
      rw [last] at same
      cases same
  · refine .expire 0 ?_ (sleeps.due (woken atTest target last))
    change Control.draining _ 0 = _
    rw [sleeps.noWork]
    rfl

theorem ne_checking_of_calling {control : Control} (calling : control.calling = true) :
    control ≠ .checking := by
  intro atTest
  rw [atTest] at calling
  cases calling

theorem WokenInTime.step {s next : System β} {action : Action β} (kept : WokenInTime s)
    (place : PlaceKept s) (inTime : WakesInTime s action)
    (stepped : Events.step s action = some next) : WokenInTime next := by
  have moved := step_inv stepped
  intro atTest target last
  cases moved with
  | posted cb calling room => exact absurd atTest (ne_checking_of_calling calling)
  | armed delay cb calling room => exact absurd atTest (ne_checking_of_calling calling)
  | rejected message calling => exact absurd atTest (ne_checking_of_calling calling)
  | stopped calling => exact absurd atTest (ne_checking_of_calling calling)
  | ticked elapsed =>
      have reached := kept atTest target last
      exact Int.le_trans reached (by change s.now ≤ s.now + elapsed; omega)
  | enteredRun fromDriver =>
      rw [System.enterRun, System.emit, List.getLast?_concat] at last
      cases last
  | leftRunOnce now ran inScan noneDue =>
      change (if s.inRun then Control.deciding else .driver) = .checking at atTest
      split at atTest <;> cases atTest
  | requeued afterPass work =>
      rw [PlaceKept, afterPass] at place
      obtain ⟨ran, passed⟩ := place
      cases passed.symm.trans last
  | woke _ asleep =>
      rw [PlaceKept, asleep] at place
      cases place.1.symm.trans last
      rcases step_of_not_calling (by rw [asleep]; rfl) stepped with ⟨rfl, _⟩ | ⟨_, elapsed, same⟩
      · exact inTime rfl target asleep
      · have control := congrArg System.control same
        change Control.checking = s.control at control
        rw [asleep] at control
        cases control
  | _ => cases atTest

theorem EntersToWork.idle {s : System β} (kept : EntersToWork s)
    (outside : s.control.scans = false) {front : List (Event β)}
    (split : s.trace = front ++ [.enterRunOnce]) (within : runStatus front ≠ none)
    (notFirst : front.getLast? ≠ some .enterRun) : False := by
  have scans := (kept front split within notFirst).scans
  rw [outside] at scans
  cases scans

theorem EntersToWork.step {s next : System β} (kept : EntersToWork s) (status : StatusKept s)
    (place : PlaceKept s) (woken : WokenInTime s) (moved : Step s next) : EntersToWork next := by
  intro front split within notFirst
  cases moved with
  | ticked elapsed => exact (kept front split within notFirst).tick elapsed
  | iterated atTest running =>
      obtain ⟨rfl, _⟩ := List.append_inj' split rfl
      exact AboutTo.enter place woken atTest notFirst
  | enteredRunOnce fromDriver =>
      obtain ⟨rfl, _⟩ := List.append_inj' split rfl
      rw [status.status, status.outside fromDriver] at within
      exact absurd rfl within
  | batchDone ran atEnd =>
      cases kept front split within notFirst with
      | drain remaining done inBatch => rw [atEnd] at inBatch; cases inBatch
      | expire done _ due => exact .fire s.now ran rfl due (Int.le_refl _)
      | fire reading done inScan => rw [atEnd] at inScan; cases inScan
  | immediateReturned remaining ran inside =>
      exact (kept.idle (by rw [inside]; rfl) split within notFirst).elim
  | timerReturned now ran inside =>
      exact (kept.idle (by rw [inside]; rfl) split within notFirst).elim
  | requeued afterPass work =>
      exact (kept.idle (by rw [afterPass]; rfl) split within notFirst).elim
  | woke target asleep =>
      exact (kept.idle (by rw [asleep]; rfl) split within notFirst).elim
  -- Every other step records an event that is not the mark of an entry.
  | _ =>
      obtain ⟨_, mark⟩ := List.append_inj' split rfl
      cases mark

theorem EntersToWork.emit {s : System β} {event : Event β} (kept : EntersToWork s)
    (outside : s.control.scans = false) (works : Each WorksEachPass s.trace) :
    Each WorksEachPass (s.trace ++ [event]) := by
  refine each_snoc.mpr ⟨works, ?_⟩
  intro front split within notFirst
  exact (kept.idle outside split within notFirst).elim

theorem scans_of_calling {control : Control} (calling : control.calling = true) :
    control.scans = false := by
  cases control with
  | draining remaining ran => cases calling
  | scanning now ran => cases calling
  | _ => rfl

theorem EntersToWork.scanning {s : System β} (kept : EntersToWork s) {now : Int} {ran : Nat}
    (inScan : s.control = .scanning now ran) {front : List (Event β)}
    (split : s.trace = front ++ [.enterRunOnce]) (within : runStatus front ≠ none)
    (notFirst : front.getLast? ≠ some .enterRun) :
    (∃ timer ∈ s.loop.timers.items, timer.due ≤ now) ∧ now ≤ s.now := by
  cases kept front split within notFirst with
  | drain remaining done inBatch => rw [inScan] at inBatch; cases inBatch
  | expire done atEnd => rw [inScan] at atEnd; cases atEnd
  | fire reading done scanning due passed =>
      rw [inScan] at scanning
      cases scanning
      exact ⟨due, passed⟩

theorem EntersToWork.works {s next : System β} (kept : EntersToWork s) (moved : Step s next)
    (works : Each WorksEachPass s.trace) : Each WorksEachPass next.trace := by
  cases moved with
  | posted cb calling room =>
      exact kept.emit (scans_of_calling calling) works
  | armed delay cb calling room =>
      exact kept.emit (scans_of_calling calling) works
  | rejected message calling =>
      exact kept.emit (scans_of_calling calling) works
  | stopped calling => exact kept.emit (scans_of_calling calling) works
  | enteredRunOnce fromDriver =>
      exact kept.emit (by rw [fromDriver]; rfl) works
  | enteredRun fromDriver =>
      exact kept.emit (by rw [fromDriver]; rfl) works
  | iterated atTest running =>
      exact kept.emit (by rw [atTest]; rfl) works
  | halted atTest notRunning =>
      exact kept.emit (by rw [atTest]; rfl) works
  | finished afterPass noWork noTimers =>
      exact kept.emit (by rw [afterPass]; rfl) works
  | slept index timer afterPass noWork earliest =>
      exact kept.emit (by rw [afterPass]; rfl) works
  | drained remaining ran cb rest inBatch front =>
      refine each_snoc.mpr ⟨works, ?_⟩
      intro before split within notFirst
      cases kept before split within notFirst with
      | drain _ _ _ awake => exact .inl ⟨cb, rfl, awake⟩
      | expire _ atEnd => rw [inBatch] at atEnd; cases atEnd
      | fire _ _ inScan => rw [inBatch] at inScan; cases inScan
  | fired now ran timer inScan found =>
      refine each_snoc.mpr ⟨works, ?_⟩
      intro before split within notFirst
      have passed := (kept.scanning inScan split within notFirst).2
      have early := (find_expired found).1
      exact .inr ⟨s.now, timer, _, rfl, Int.le_trans early passed⟩
  | leftRunOnce now ran inScan noneDue =>
      refine each_snoc.mpr ⟨works, ?_⟩
      intro before split within notFirst
      obtain ⟨timer, found⟩ := find_due (kept.scanning inScan split within notFirst).1
      rw [noneDue] at found
      cases found
  | _ => exact works

structure CyclesKept (s : System β) : Prop where
  status : StatusKept s
  place : PlaceKept s
  woken : WokenInTime s
  enters : EntersToWork s
  works : Each WorksEachPass s.trace

theorem CyclesKept.step {s next : System β} {action : Action β} (kept : CyclesKept s)
    (inTime : WakesInTime s action) (stepped : Events.step s action = some next) :
    CyclesKept next :=
  have moved := step_inv stepped
  { status := kept.status.step moved
    place := kept.place.step moved
    woken := kept.woken.step kept.place inTime stepped
    enters := kept.enters.step kept.status kept.place kept.woken moved
    works := kept.enters.works moved kept.works }

theorem CyclesKept.initial (clock : Int) : CyclesKept (System.initial clock : System β) :=
  { status := StatusKept.initial clock
    place := trivial
    woken := by intro atTest; cases atTest
    enters := by
      intro front split
      exact absurd split.symm (List.append_ne_nil_of_right_ne_nil front (List.cons_ne_nil _ _))
    works := each_nil _ }

/-! ### Whole runs -/

/-- `Run` sleeps with nothing queued until the soonest timer is due, and unless it was stopped it
then fires a timer; no pass of it but the first ends without a callback. -/
theorem run_sleeps_to_earliest (clock : Int) (actions : List (Action β)) (s : System β)
    (ran : run step (System.initial clock) actions = some s) :
    (∀ target, s.control = .sleeping target →
      SleepsToEarliest s.loop target ∧ (runStatus s.trace = some false → FiresNext s)) ∧
    (Meets step WakesInTime (System.initial clock) actions → Each WorksEachPass s.trace) := by
  constructor
  · intro target asleep
    have place : PlaceKept s := PlaceKept.of_run ran
    rw [PlaceKept, asleep] at place
    refine ⟨place.2, ?_⟩
    intro notStopped
    have status : StatusKept s := holds_of_steps StatusKept
      (fun _ _ kept moved => kept.step moved) (StatusKept.initial clock) actions s ran
    rw [status.status, status.inside (by rw [asleep]; rfl), if_pos rfl] at notStopped
    have running : s.loop.running = true := by simpa using notStopped
    exact firesNext_of_sleeping ran asleep place.2 running
  · intro inTime
    exact (Transition.run_invariant_of_meets CyclesKept
      (fun _ _ _ kept meets stepped => kept.step meets stepped)
      actions _ s (CyclesKept.initial clock) inTime ran).works

/-- Two timers, the later one armed first; `Run` passes once and goes to sleep. -/
def sleepsFor : List (Action Nat) :=
  [.postAfter 5 1, .postAfter 3 2, .run] ++ List.replicate 4 .proceed

theorem run_sleeps_to_earliest_two_timers :
    (∃ s, run step (System.initial 0) sleepsFor = some s ∧ s.control = .sleeping 3 ∧
      SleepsToEarliest s.loop 3 ∧ FiresNext s) ∧
    (∃ s, run step (System.initial 0) (sleepsFor ++ .tick 4 :: List.replicate 4 .proceed) =
        some s ∧ s.trace.getLast? = some (.fired 4 { due := 3, cb := 2 } [{ due := 5, cb := 1 }]) ∧
      Each WorksEachPass s.trace) := by
  constructor
  · have reached : (run step (System.initial 0) sleepsFor).any
        (fun s => s.control = .sleeping 3 ∧ runStatus s.trace = some false) = true := by
      decide +kernel
    obtain ⟨s, ran, seen⟩ := (Option.any_eq_true _ _).mp reached
    obtain ⟨asleep, notStopped⟩ := of_decide_eq_true seen
    obtain ⟨sleeps, fires⟩ := (run_sleeps_to_earliest 0 sleepsFor s ran).1 3 asleep
    exact ⟨s, ran, asleep, sleeps, fires notStopped⟩
  · have reached : (run step (System.initial 0)
        (sleepsFor ++ .tick 4 :: List.replicate 4 .proceed)).any (fun s => s.trace.getLast? =
          some (.fired 4 { due := 3, cb := 2 } [{ due := 5, cb := 1 }])) = true := by
      decide +kernel
    obtain ⟨s, ran, seen⟩ := (Option.any_eq_true _ _).mp reached
    exact ⟨s, ran, of_decide_eq_true seen,
      (run_sleeps_to_earliest 0 _ s ran).2 (by decide +kernel)⟩

end Etlx.Events
