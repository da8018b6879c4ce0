/-
The event loop, with its callers.

`RunOnce` and `Run` call back into code that posts, arms timers and stops the
loop, so they are steps of a system and not functions of the loop. A callback is
whatever calls are made between its invocation and its return; the driver is
whatever calls are made between two runs of the loop. The clock may move at any
point. Time points are integers: the sums `now + delay` are those that fit.

The system carries the history of what happened, which the code does not keep.
-/

import Etlx.Core.Result
import Etlx.Lib.Bounded
import Etlx.Lib.Transition

namespace Etlx.Events

def category : Category := { name := "events" }

inductive Code
  | none
  | queueFull
  | noTimers
deriving DecidableEq, Repr

def Code.value : Code → Int
  | .none => 0
  | .queueFull => 1
  | .noTimers => 2

def queueDepth : Nat := 16

def maxTimers : Nat := 8

variable {β : Type}

structure TimerEntry (β : Type) where
  due : Int
  cb : β
deriving DecidableEq, Repr

structure EventLoop (β : Type) where
  immediate : Bounded queueDepth β
  timers : Bounded maxTimers (TimerEntry β)
  running : Bool
deriving DecidableEq

namespace EventLoop

def initial : EventLoop β :=
  { immediate := Bounded.empty, timers := Bounded.empty, running := false }

def post (loop : EventLoop β) (cb : β) : Status × EventLoop β :=
  if full : loop.immediate.full then
    (fail category Code.queueFull.value "immediate queue full", loop)
  else (.ok (), { loop with immediate := loop.immediate.push cb full })

/-- `PostAfter`, with the reading of the clock that it takes. -/
def postAfter (loop : EventLoop β) (now delay : Int) (cb : β) : Status × EventLoop β :=
  if full : loop.timers.full then
    (fail category Code.queueFull.value "timer table full", loop)
  else
    (.ok (), { loop with timers := loop.timers.push { due := now + delay, cb := cb } full })

@[simp]
def stop (loop : EventLoop β) : EventLoop β := { loop with running := false }

/-- The scan of `EarliestTimer` from an index on, with the best entry so far. -/
def earliestFrom (index : Nat) (best : Option (Nat × TimerEntry β)) :
    List (TimerEntry β) → Option (Nat × TimerEntry β)
  | [] => best
  | timer :: rest =>
      match best with
      | none => earliestFrom (index + 1) (some (index, timer)) rest
      | some (position, found) =>
          if timer.due < found.due then earliestFrom (index + 1) (some (index, timer)) rest
          else earliestFrom (index + 1) (some (position, found)) rest

def earliestTimer (loop : EventLoop β) : Option (Nat × TimerEntry β) :=
  earliestFrom 0 none loop.timers.items

end EventLoop

def expired (now : Int) (timer : TimerEntry β) : Bool := !decide (now < timer.due)

theorem expired_iff {now : Int} {timer : TimerEntry β} :
    expired now timer = true ↔ timer.due ≤ now := by
  simp [expired]

theorem find_expired {now : Int} {timers : List (TimerEntry β)} {timer : TimerEntry β}
    (found : timers.find? (expired now) = some timer) :
    timer.due ≤ now ∧ ∃ front back, timers = front ++ timer :: back ∧
      timers.eraseP (expired now) = front ++ back ∧ ∀ other ∈ front, now < other.due := by
  obtain ⟨due, front, back, split, skipped⟩ := List.find?_eq_some_iff_append.mp found
  have passed : ∀ other ∈ front, ¬expired now other = true := by
    intro other member
    have notDue := skipped other member
    rw [Bool.not_eq_true'] at notDue
    exact Bool.eq_false_iff.mp notDue
  refine ⟨expired_iff.mp due, front, back, split, ?_, ?_⟩
  · rw [split, List.eraseP_append_right _ passed, List.eraseP_cons_of_pos due]
  · intro other member
    exact Int.not_le.mp (fun early => passed other member (expired_iff.mpr early))

def Earliest (timers : List (TimerEntry β)) (index : Nat) (timer : TimerEntry β) : Prop :=
  timers[index]? = some timer ∧ ∀ other ∈ timers, timer.due ≤ other.due

theorem Earliest.keep {front : List (TimerEntry β)} {position : Nat} {found timer : TimerEntry β}
    (best : Earliest front position found) (later : ¬timer.due < found.due) :
    Earliest (front ++ [timer]) position found := by
  obtain ⟨here, least⟩ := best
  constructor
  · rw [List.getElem?_append_left (List.getElem?_eq_some_iff.mp here).1]
    exact here
  · intro other member
    rcases List.mem_append.mp member with earlier | last
    · exact least other earlier
    · rw [List.mem_singleton.mp last]
      exact Int.not_lt.mp later

theorem Earliest.replace {front : List (TimerEntry β)} {position : Nat}
    {found timer : TimerEntry β} (best : Earliest front position found)
    (sooner : timer.due < found.due) : Earliest (front ++ [timer]) front.length timer := by
  obtain ⟨_, least⟩ := best
  constructor
  · exact List.getElem?_concat_length
  · intro other member
    rcases List.mem_append.mp member with earlier | last
    · exact Int.le_trans (Int.le_of_lt sooner) (least other earlier)
    · cases List.mem_singleton.mp last
      exact Int.le_refl _

theorem earliestFrom_spec (front rest : List (TimerEntry β)) (position : Nat)
    (found : TimerEntry β) (best : Earliest front position found) :
    ∃ index timer, EventLoop.earliestFrom front.length (some (position, found)) rest =
      some (index, timer) ∧ Earliest (front ++ rest) index timer := by
  induction rest generalizing front position found with
  | nil =>
      rw [List.append_nil]
      exact ⟨position, found, rfl, best⟩
  | cons next rest ih =>
      have grown : front.length + 1 = (front ++ [next]).length := by simp
      have joined : front ++ next :: rest = front ++ [next] ++ rest := by simp
      unfold EventLoop.earliestFrom
      dsimp only
      rw [joined, grown]
      by_cases sooner : next.due < found.due
      · rw [if_pos sooner]
        exact ih (front ++ [next]) _ _ (best.replace sooner)
      · rw [if_neg sooner]
        exact ih (front ++ [next]) _ _ (best.keep sooner)

theorem earliestTimer_spec {loop : EventLoop β} (timersLeft : loop.timers.items ≠ []) :
    ∃ index timer, loop.earliestTimer = some (index, timer) ∧
      Earliest loop.timers.items index timer := by
  unfold EventLoop.earliestTimer
  cases listed : loop.timers.items with
  | nil => exact absurd listed timersLeft
  | cons first rest => exact earliestFrom_spec [first] rest 0 first ⟨rfl, by simp⟩

/-- Where the loop stands; `ran` is the count that `RunOnce` returns. -/
inductive Control
  | driver
  | draining (remaining ran : Nat)
  | inImmediate (remaining ran : Nat)
  | scanning (now : Int) (ran : Nat)
  | inTimer (now : Int) (ran : Nat)
  | checking
  | deciding
  | sleeping (target : Int)
deriving DecidableEq, Repr

/-- The driver or a callback is running and may call the loop. -/
def Control.calling : Control → Bool
  | .driver => true
  | .inImmediate _ _ => true
  | .inTimer _ _ => true
  | _ => false

inductive Event (β : Type)
  | posted (cb : β)
  | armed (clock delay : Int) (cb : β)
  | rejected (error : Error)
  | stopped
  | drained (cb : β)
  | fired (clock : Int) (timer : TimerEntry β) (pending : List (TimerEntry β))
  | enterRunOnce
  | leaveRunOnce (ran : Nat)
  | enterRun
  | leaveRun
  | slept (target : Int)
deriving DecidableEq

structure System (β : Type) where
  loop : EventLoop β
  now : Int
  control : Control
  inRun : Bool
  trace : List (Event β)
deriving DecidableEq

namespace System

def initial (clock : Int) : System β :=
  { loop := EventLoop.initial, now := clock, control := .driver, inRun := false, trace := [] }

@[simp]
def emit (s : System β) (event : Event β) : System β := { s with trace := s.trace ++ [event] }

def post (s : System β) (cb : β) : System β :=
  match s.loop.post cb with
  | (.ok (), loop) => { s with loop := loop }.emit (.posted cb)
  | (.error e, loop) => { s with loop := loop }.emit (.rejected e)

def postAfter (s : System β) (delay : Int) (cb : β) : System β :=
  match s.loop.postAfter s.now delay cb with
  | (.ok (), loop) => { s with loop := loop }.emit (.armed s.now delay cb)
  | (.error e, loop) => { s with loop := loop }.emit (.rejected e)

@[simp]
def stop (s : System β) : System β := { s with loop := s.loop.stop }.emit .stopped

/-- The head of `RunOnce`: the batch is the queue as it is found. -/
@[simp]
def enterRunOnce (s : System β) : System β :=
  { s with control := .draining s.loop.immediate.items.length 0 }.emit .enterRunOnce

@[simp]
def leaveRunOnce (s : System β) (ran : Nat) : System β :=
  { s with control := if s.inRun then .deciding else .driver }.emit (.leaveRunOnce ran)

@[simp]
def enterRun (s : System β) : System β :=
  { s with
    loop := { s.loop with running := true }
    control := .checking
    inRun := true }.emit .enterRun

@[simp]
def leaveRun (s : System β) : System β :=
  { s with
    loop := { s.loop with running := false }
    control := .driver
    inRun := false }.emit .leaveRun

def proceed (s : System β) : Option (System β) :=
  match s.control with
  | .driver => none
  | .draining 0 ran => some { s with control := .scanning s.now ran }
  | .draining (remaining + 1) ran =>
      match s.loop.immediate.items with
      | [] => none
      | cb :: _ =>
          some ({ s with
            loop := { s.loop with immediate := s.loop.immediate.pop }
            control := .inImmediate remaining ran }.emit (.drained cb))
  | .inImmediate remaining ran => some { s with control := .draining remaining (ran + 1) }
  | .scanning now ran =>
      match s.loop.timers.items.find? (expired now) with
      | none => some (s.leaveRunOnce ran)
      | some timer =>
          some ({ s with
            loop := { s.loop with timers := s.loop.timers.eraseP (expired now) }
            control := .inTimer now ran }.emit
              (.fired s.now timer (s.loop.timers.items.eraseP (expired now))))
  | .inTimer now ran => some { s with control := .scanning now (ran + 1) }
  | .checking => if s.loop.running then some s.enterRunOnce else some s.leaveRun
  | .deciding =>
      if s.loop.immediate.items = [] then
        if s.loop.timers.items = [] then some s.leaveRun
        else
          match s.loop.earliestTimer with
          | none => none
          | some (_, timer) =>
              some ({ s with control := .sleeping timer.due }.emit (.slept timer.due))
      else some { s with control := .checking }
  | .sleeping _ => some { s with control := .checking }

end System

inductive Action (β : Type)
  | post (cb : β)
  | postAfter (delay : Int) (cb : β)
  | stop
  | tick (elapsed : Nat)
  | runOnce
  | run
  | proceed
deriving DecidableEq

def step (s : System β) : Action β → Option (System β)
  | .post cb => if s.control.calling then some (s.post cb) else none
  | .postAfter delay cb => if s.control.calling then some (s.postAfter delay cb) else none
  | .stop => if s.control.calling then some s.stop else none
  | .tick elapsed => some { s with now := s.now + elapsed }
  | .runOnce => if s.control = .driver then some s.enterRunOnce else none
  | .run => if s.control = .driver then some s.enterRun else none
  | .proceed => s.proceed

/-! ### What a step does -/

inductive Step (s : System β) : System β → Prop
  | posted (cb : β) (calling : s.control.calling = true)
      (room : ¬s.loop.immediate.full = true) :
      Step s ({ s with
        loop := { s.loop with immediate := s.loop.immediate.push cb room } }.emit (.posted cb))
  | armed (delay : Int) (cb : β) (calling : s.control.calling = true)
      (room : ¬s.loop.timers.full = true) :
      Step s ({ s with
        loop := { s.loop with
          timers := s.loop.timers.push { due := s.now + delay, cb := cb } room } }.emit
            (.armed s.now delay cb))
  | rejected (message : String) (calling : s.control.calling = true) :
      Step s (s.emit (.rejected
        { category := category, code := Code.queueFull.value, message := message }))
  | stopped (calling : s.control.calling = true) : Step s s.stop
  | ticked (elapsed : Nat) : Step s { s with now := s.now + elapsed }
  | enteredRunOnce (fromDriver : s.control = .driver) : Step s s.enterRunOnce
  | enteredRun (fromDriver : s.control = .driver) : Step s s.enterRun
  | batchDone (ran : Nat) (atEnd : s.control = .draining 0 ran) :
      Step s { s with control := .scanning s.now ran }
  | drained (remaining ran : Nat) (cb : β) (rest : List β)
      (inBatch : s.control = .draining (remaining + 1) ran)
      (front : s.loop.immediate.items = cb :: rest) :
      Step s ({ s with
        loop := { s.loop with immediate := s.loop.immediate.pop }
        control := .inImmediate remaining ran }.emit (.drained cb))
  | immediateReturned (remaining ran : Nat) (inside : s.control = .inImmediate remaining ran) :
      Step s { s with control := .draining remaining (ran + 1) }
  | fired (now : Int) (ran : Nat) (timer : TimerEntry β)
      (inScan : s.control = .scanning now ran)
      (found : s.loop.timers.items.find? (expired now) = some timer) :
      Step s ({ s with
        loop := { s.loop with timers := s.loop.timers.eraseP (expired now) }
        control := .inTimer now ran }.emit
          (.fired s.now timer (s.loop.timers.items.eraseP (expired now))))
  | leftRunOnce (now : Int) (ran : Nat) (inScan : s.control = .scanning now ran)
      (noneDue : s.loop.timers.items.find? (expired now) = none) :
      Step s (s.leaveRunOnce ran)
  | timerReturned (now : Int) (ran : Nat) (inside : s.control = .inTimer now ran) :
      Step s { s with control := .scanning now (ran + 1) }
  | iterated (atTest : s.control = .checking) (running : s.loop.running = true) :
      Step s s.enterRunOnce
  | halted (atTest : s.control = .checking) (notRunning : s.loop.running = false) :
      Step s s.leaveRun
  | finished (afterPass : s.control = .deciding) (noWork : s.loop.immediate.items = [])
      (noTimers : s.loop.timers.items = []) : Step s s.leaveRun
  | slept (index : Nat) (timer : TimerEntry β) (afterPass : s.control = .deciding)
      (noWork : s.loop.immediate.items = [])
      (earliest : s.loop.earliestTimer = some (index, timer)) :
      Step s ({ s with control := .sleeping timer.due }.emit (.slept timer.due))
  | requeued (afterPass : s.control = .deciding) (work : s.loop.immediate.items ≠ []) :
      Step s { s with control := .checking }
  | woke (target : Int) (asleep : s.control = .sleeping target) :
      Step s { s with control := .checking }

theorem System.post_step (s : System β) (cb : β) (calling : s.control.calling = true) :
    Step s (s.post cb) := by
  unfold System.post EventLoop.post
  by_cases full : s.loop.immediate.full = true
  · rw [dif_pos full]
    exact Step.rejected _ calling
  · rw [dif_neg full]
    exact Step.posted cb calling full

theorem System.postAfter_step (s : System β) (delay : Int) (cb : β)
    (calling : s.control.calling = true) : Step s (s.postAfter delay cb) := by
  unfold System.postAfter EventLoop.postAfter
  by_cases full : s.loop.timers.full = true
  · rw [dif_pos full]
    exact Step.rejected _ calling
  · rw [dif_neg full]
    exact Step.armed delay cb calling full

theorem System.proceed_step {s next : System β} (proceeded : s.proceed = some next) :
    Step s next := by
  unfold System.proceed at proceeded
  split at proceeded
  · cases proceeded
  · rename_i ran atEnd
    cases proceeded
    exact Step.batchDone ran atEnd
  · rename_i remaining ran inBatch
    split at proceeded
    · cases proceeded
    · rename_i cb rest front
      cases proceeded
      exact Step.drained remaining ran cb rest inBatch front
  · rename_i remaining ran inside
    cases proceeded
    exact Step.immediateReturned remaining ran inside
  · rename_i now ran inScan
    split at proceeded
    · rename_i noneDue
      cases proceeded
      exact Step.leftRunOnce now ran inScan noneDue
    · rename_i timer found
      cases proceeded
      exact Step.fired now ran timer inScan found
  · rename_i now ran inside
    cases proceeded
    exact Step.timerReturned now ran inside
  · rename_i atTest
    split at proceeded
    · rename_i running
      cases proceeded
      exact Step.iterated atTest running
    · rename_i notRunning
      cases proceeded
      exact Step.halted atTest (Bool.eq_false_iff.mpr notRunning)
  · rename_i afterPass
    split at proceeded
    · rename_i noWork
      split at proceeded
      · rename_i noTimers
        cases proceeded
        exact Step.finished afterPass noWork noTimers
      · split at proceeded
        · cases proceeded
        · rename_i index timer earliest
          cases proceeded
          exact Step.slept index timer afterPass noWork earliest
    · rename_i work
      cases proceeded
      exact Step.requeued afterPass work
  · rename_i target asleep
    cases proceeded
    exact Step.woke target asleep

theorem step_inv {s next : System β} {action : Action β} (stepped : step s action = some next) :
    Step s next := by
  cases action with
  | post cb =>
      obtain ⟨calling, same⟩ := Option.ite_none_right_eq_some.mp stepped
      cases same
      exact s.post_step cb calling
  | postAfter delay cb =>
      obtain ⟨calling, same⟩ := Option.ite_none_right_eq_some.mp stepped
      cases same
      exact s.postAfter_step delay cb calling
  | stop =>
      obtain ⟨calling, same⟩ := Option.ite_none_right_eq_some.mp stepped
      cases same
      exact Step.stopped calling
  | tick elapsed =>
      cases stepped
      exact Step.ticked elapsed
  | runOnce =>
      obtain ⟨fromDriver, same⟩ := Option.ite_none_right_eq_some.mp stepped
      cases same
      exact Step.enteredRunOnce fromDriver
  | run =>
      obtain ⟨fromDriver, same⟩ := Option.ite_none_right_eq_some.mp stepped
      cases same
      exact Step.enteredRun fromDriver
  | proceed => exact System.proceed_step stepped

theorem holds_of_steps (Inv : System β → Prop)
    (keeps : ∀ s next : System β, Inv s → Step s next → Inv next)
    {clock : Int} (start : Inv (System.initial clock)) (actions : List (Action β)) (s : System β)
    (ran : Transition.run step (System.initial clock) actions = some s) : Inv s :=
  Transition.run_invariant Inv
    (fun before _ after holds stepped => keeps before after holds (step_inv stepped))
    actions _ s start ran

end Etlx.Events
